import FoxTrader.StampRoundTrip

/-! # An accepted stamp is a signed one

    Whatever bytes stand in the stamp file, a stamp is accepted under a secret only when the pairs
    that the reader took its fields from are the body of a request signed with that secret, and the
    model file is the one that the request hashed. The digests are ideal: a MAC in the file is one
    that was issued, and no two of the model files at hand have the same hash. -/

namespace FoxTrader

open Lib

variable {D : Doubles} {C : Digests}

/-! ### The text that is authenticated -/

/-- A clipped pair prints no longer than its line. -/
theorem length_render_clipped (pre : List (List Char)) :
    (render (pre.filterMap clippedPair)).length ≤ (unlines pre).length := by
  induction pre with
  | nil => exact Nat.le_refl _
  | cons line pre ih =>
    have hcons : (unlines (line :: pre)).length = line.length + 1 + (unlines pre).length := by
      rw [unlines, List.flatMap_cons, List.length_append, List.length_append, unlines]
      rfl
    cases hpair : clippedPair line with
    | none =>
      rw [List.filterMap_cons_none hpair]
      omega
    | some kv =>
      have hline : kv.line.length ≤ line.length := by
        rw [(line_of_keyValue hpair).1, List.length_take]
        exact Nat.min_le_right ..
      have hrender : (render (kv :: pre.filterMap clippedPair)).length =
          kv.line.length + 1 + (render (pre.filterMap clippedPair)).length := by
        rw [render, unlines, List.map_cons, List.flatMap_cons, List.length_append, List.length_append, render,
          unlines]
        rfl
      rw [List.filterMap_cons_some hpair]
      omega

theorem length_readBuffer (file : List Char) : (readBuffer file).length ≤ 4095 :=
  (List.takeWhile_prefix _).length_le.trans (by rw [List.length_take]; exact Nat.min_le_left ..)

theorem readBuffer_begins (file : List Char) : readBuffer file <+: file :=
  (List.takeWhile_prefix _).trans (List.take_prefix ..)

/-- The pairs that the reader takes its fields from. -/
def parsed (file : List Char) : List KeyValue := parsedPairs (lines (readBuffer file))

theorem wellFormed_parsed {file : List Char} : ∀ kv ∈ parsed file, kv.WellFormed := by
  intro kv hkv
  obtain ⟨line, hline, hpair⟩ := List.mem_filterMap.1 ((List.takeWhile_prefix _).subset hkv)
  obtain ⟨heq, hkey⟩ := line_of_keyValue hpair
  exact ⟨hkey, fun hmem => not_mem_of_mem_lines hline ((List.take_prefix ..).subset (heq ▸ hmem))⟩

theorem readStamp_fields (gapThreshold : ℚ) (file : List Char) :
    (readStamp D gapThreshold file).fields = (parsed file).foldl (StampFields.capture D) (.init gapThreshold) :=
  (foldl_readLine rfl _).1

/-- A signature that was read stands in the file, and the rebuilt text is that of the pairs. -/
theorem signed_text {gapThreshold : ℚ} {file : List Char} (h : (readStamp D gapThreshold file).stampSig ≠ []) :
    (readStamp D gapThreshold file).stampSig <:+: file ∧
      (readStamp D gapThreshold file).canonical.content = render (parsed file) := by
  rcases foldl_readLine_signature D (s := .start gapThreshold) rfl (lines (readBuffer file)) with hnone |
    ⟨pre, line, sig, hat, hsig⟩
  · exact absurd hnone h
  obtain ⟨⟨post, hsplit⟩, hparsed, hread⟩ := hat
  obtain ⟨before, rest, htext, hbefore⟩ := eq_append_of_lines hsplit
  have hline : (⟨signatureKey, sig⟩ : KeyValue).line = line.take 511 := (line_of_keyValue hread).1
  have hlength : 10 ≤ line.length := by
    have hle : (line.take 511).length ≤ line.length := (List.take_prefix ..).length_le
    rw [← hline, KeyValue.line, List.length_append, List.length_cons] at hle
    have hkey : (⟨signatureKey, sig⟩ : KeyValue).key.length = 9 := rfl
    omega
  have hfits : (unlines pre).length + 10 ≤ 4095 := by
    have htotal := length_readBuffer file
    rw [htext, List.length_append, List.length_append] at htotal
    omega
  refine ⟨?_, ?_⟩
  · have hsuffix : sig <:+ line.take 511 := by
      rw [← hline, KeyValue.line]
      exact (List.suffix_cons '=' sig).trans (List.suffix_append ..)
    have hstands : line <:+: readBuffer file := ⟨before, rest, htext.symm⟩
    rw [readStamp, hsig]
    exact (((List.take_prefix ..).isInfix.trans hsuffix.isInfix).trans (List.take_prefix ..).isInfix).trans
      (hstands.trans (readBuffer_begins file).isInfix)
  · have hlen := length_render_clipped pre
    rw [readStamp, (foldl_readLine rfl _).2, hparsed, parsed, hparsed]
    refine foldl_append rfl ?_
    show ([] : List Char).length + _ < 4096
    rw [List.length_nil]
    omega

/-! ### What acceptance says -/

/-- An acceptance under a secret: both files were read, no check failed, and the MAC of the rebuilt
    text is the signature of the file. -/
theorem accepted_cases {file : List Char} {model : List UInt8} {secret : List Char} {gapThreshold : ℚ}
    {e : StampExpectation} (hsecret : secret ≠ [])
    (h : (verifyModelStamp D C (some file) (some model) secret gapThreshold e).valid = 1) :
    stampFault C e (some model) (readStamp D gapThreshold file).fields = none ∧
      (C.hmac secret (readStamp D gapThreshold file).canonical.content).text =
        (readStamp D gapThreshold file).stampSig ∧
      (verifyModelStamp D C (some file) (some model) secret gapThreshold e).fields =
        (readStamp D gapThreshold file).fields := by
  rw [verifyModelStamp] at h ⊢
  split at h
  case isTrue => exact absurd (show (0 : Int) = 1 from h) Int.zero_ne_one
  case isFalse hne =>
    rw [if_neg hne]
    rw [StampScan.judge] at h ⊢
    cases hfault : stampFault C e (some model) (readStamp D gapThreshold file).fields with
    | some reason =>
      rw [hfault] at h
      exact absurd (show (0 : Int) = 1 from h) Int.zero_ne_one
    | none =>
      rw [hfault] at h
      dsimp only at h ⊢
      rw [signatureVerdict, if_neg hsecret] at h
      split at h
      case isTrue hsig => exact ⟨rfl, hsig, rfl⟩
      case isFalse => exact absurd (show (0 : Int) = 1 from h) Int.zero_ne_one

theorem modelSha_of_stampFault {e : StampExpectation} {model : List UInt8} {r : StampFields}
    (h : stampFault C e (some model) r = none) : r.modelSha = [] ∨ r.modelSha = (C.sha256 model).text := by
  by_contra hne
  rw [not_or] at hne
  rw [stampFault] at h
  repeat' split at h
  all_goals cases h

theorem HexDigest.eq_of_text {d d' : HexDigest} (h : d.text = d'.text) : d = d' := by
  cases d
  cases d'
  cases h
  rfl

/-- A request whose body was signed with the secret. -/
def SignedWith (D : Doubles) (C : Digests) (secret : List Char) (w : StampRequest) : Prop :=
  w.secret = secret ∧ ∃ file, stampWriteForModel D C w = .ok file

/-- Under a secret, an accepted stamp is the body of a signed request: the pairs that were parsed are
    its lines, the fields are read from them, and the model is the one it hashed. -/
theorem verifyModelStamp_authentic {secret : List Char} (hsecret : secret ≠ []) (signed : Set StampRequest)
    (models : Set (List UInt8)) (hmodels : ∀ w ∈ signed, w.model ∈ models) (hsha : Set.InjOn C.sha256 models)
    (file : List Char)
    (hmac : ∀ body, (C.hmac secret body).text <:+: file →
      ∃ w ∈ signed, SignedWith D C secret w ∧ render (w.pairs D C) = body)
    (model : List UInt8) (hmodel : model ∈ models) (gapThreshold : ℚ) (e : StampExpectation)
    (h : (verifyModelStamp D C (some file) (some model) secret gapThreshold e).valid = 1) :
    ∃ w ∈ signed, SignedWith D C secret w ∧ parsed file = w.pairs D C ∧ w.model = model ∧
      (verifyModelStamp D C (some file) (some model) secret gapThreshold e).fields =
        (w.pairs D C).foldl (StampFields.capture D) (.init gapThreshold) := by
  obtain ⟨hfault, hsig, hfields⟩ := accepted_cases hsecret h
  have hne : (readStamp D gapThreshold file).stampSig ≠ [] := by
    intro hnil
    have hlen := (C.hmac secret (readStamp D gapThreshold file).canonical.content).length
    rw [hsig, hnil] at hlen
    exact absurd hlen (by decide)
  obtain ⟨hstands, hcontent⟩ := signed_text hne
  rw [hcontent] at hsig
  obtain ⟨w, hw, hwrote, hbody⟩ := hmac (render (parsed file)) (hsig ▸ hstands)
  have hpairs : parsed file = w.pairs D C := by
    exact render_injective wellFormed_parsed (fun kv hkv => (readable_pairs kv hkv).wellFormed) hbody.symm
  have hread := hfields.trans ((readStamp_fields gapThreshold file).trans (by rw [hpairs]))
  refine ⟨w, hw, hwrote, hpairs, ?_, hread⟩
  have hsha' : (readStamp D gapThreshold file).fields.modelSha = (C.sha256 w.model).text := by
    rw [readStamp_fields, hpairs, modelSha_pairs]
  rcases modelSha_of_stampFault hfault with hnil | heq
  · have hlen := (C.sha256 w.model).length
    rw [← hsha', hnil] at hlen
    exact absurd hlen (by decide)
  · exact hsha (hmodels w hw) hmodel (HexDigest.eq_of_text (hsha'.symm.trans heq))

theorem sample_authentic : ∃ file w, stampWriteForModel sampleDoubles sampleDigests sampleRequest = .ok file ∧
    w ∈ ({sampleRequest} : Set StampRequest) ∧ SignedWith sampleDoubles sampleDigests sampleRequest.secret w ∧
      parsed file = w.pairs sampleDoubles sampleDigests ∧ w.model = sampleRequest.model ∧
      (verifyModelStamp sampleDoubles sampleDigests (some file) (some sampleRequest.model) sampleRequest.secret
        sampleRequest.gapThreshold sampleExpectation).fields =
        (w.pairs sampleDoubles sampleDigests).foldl (StampFields.capture sampleDoubles)
          (.init sampleRequest.gapThreshold) := by
  obtain ⟨file, h⟩ := sample_written
  have hsecret : sampleRequest.secret ≠ [] := by decide +kernel
  have hvalid := (verdict_of_fits hsecret (by decide) sample_fits sample_matches h sampleRequest.gapThreshold).1
  have hmac : ∀ body, (sampleDigests.hmac sampleRequest.secret body).text <:+: file →
      ∃ w ∈ ({sampleRequest} : Set StampRequest), SignedWith sampleDoubles sampleDigests sampleRequest.secret w ∧
        render (w.pairs sampleDoubles sampleDigests) = body := by
    intro body hissued
    refine ⟨sampleRequest, rfl, ⟨rfl, file, h⟩, ?_⟩
    by_contra hbody
    have hnone : sampleDigests.hmac sampleRequest.secret body = noDigest := if_neg fun hcond => hbody hcond.2.symm
    have habsent : ¬noDigest.text <:+: render (sampleRequest.pairs sampleDoubles sampleDigests) ++
        (signatureLine (sampleDigests.hmac sampleRequest.secret
          (render (sampleRequest.pairs sampleDoubles sampleDigests))) ++ ['\n']) := by decide +kernel
    rw [hnone, signed_file hsecret h] at hissued
    exact habsent hissued
  obtain ⟨w, hw⟩ := verifyModelStamp_authentic hsecret {sampleRequest} {sampleRequest.model}
    (fun w hw => congrArg StampRequest.model hw) (Set.injOn_singleton _ _) file hmac sampleRequest.model rfl
    sampleRequest.gapThreshold sampleExpectation hvalid
  exact ⟨file, w, h, hw⟩

end FoxTrader
