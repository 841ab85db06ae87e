import FoxTrader.ModelStamp

/-! # From the writer's lines to the reader's fields

    The body of a stamp is its lines, each key once, and none of them can be read as two lines or as
    the signature. The line loop goes through the pairs of a file up to the signature: the fields are
    folded from these pairs, and the rebuilt text is theirs as long as it fits its buffer. -/

namespace FoxTrader

open Lib

variable {D : Doubles} {C : Digests} {w : StampRequest}

/-! ### The lines of the body -/

theorem StampRequest.body_eq :
    w.body D C = w.headerLines D C ++ (w.hashLine ++ (w.engineVersionLine ++ (w.stampVersionLine ++
      (w.constRows D preCfg ++ (w.cfgRows D ++ w.constRows D postCfg))))) := by
  have hsingle : ∀ ls : List StampLine, (ls.map fun line => [line]).flatten = ls := fun ls => by
    induction ls with
    | nil => rfl
    | cons line ls ih => exact congrArg (line :: ·) ih
  rw [body, chunks]
  simp only [List.flatten_append, hsingle, List.append_assoc, List.cons_append, List.nil_append, List.flatten_cons]

/-- A line that may be left out. -/
theorem optional_key {c : Prop} [Decidable c] {k : StampKey} {text : List Char} :
    ((if c then [(k, text)] else [] : List StampLine).map Prod.fst).Sublist [k] := by
  split
  · exact List.Sublist.refl _
  · exact List.nil_sublist _

theorem constRows_keys (fields : List ConstField) :
    ((w.constRows D fields).map Prod.fst).Sublist (fields.map StampKey.const) := by
  rw [StampRequest.constRows]
  cases w.inf with
  | none => exact List.nil_sublist _
  | some inf =>
    dsimp only
    rw [StampInferenceCfgInputs.rows, List.map_map]
    exact List.Sublist.map _ List.filter_sublist

theorem cfgRows_keys : ((w.cfgRows D).map Prod.fst).Sublist (derivedCohort.map StampKey.cfg) := by
  rw [StampRequest.cfgRows]
  cases w.cfg with
  | none => exact List.nil_sublist _
  | some cfg =>
    dsimp only
    rw [ControllerConfig.rows, List.map_map]
    exact List.Sublist.map _ List.filter_sublist

/-- Every key stands in the body at most once, in the order of the registries. -/
theorem body_keys : ((w.body D C).map Prod.fst).Sublist stampKeys := by
  have hheader : (w.headerLines D C).map Prod.fst =
      [.header .modelFormatVersion, .header .modelSha256, .header .trainedOn, .header .wfMeanVal,
        .header .heldOutMetric, .header .gap, .header .gapThreshold] := rfl
  rw [StampRequest.body_eq]
  simp only [List.map_append]
  rw [hheader, stampKeys, List.append_assoc, List.append_assoc]
  exact ((List.Sublist.refl _).append (optional_key.append (optional_key.append (optional_key.append
    ((constRows_keys preCfg).append (cfgRows_keys.append (constRows_keys postCfg)))))))

theorem nodup_body_keys : ((w.body D C).map Prod.fst).Nodup := nodup_stampKeys.sublist body_keys

theorem HexDigest.plain (d : HexDigest) : PlainText d.text := plainText_of_forall isHexDigit d.digits rfl rfl

theorem plain_optional {c : Prop} [Decidable c] {k : StampKey} {text : List Char} (h : PlainText text) :
    ∀ line ∈ (if c then [(k, text)] else [] : List StampLine), PlainText line.2 := by
  split
  · exact List.forall_mem_singleton.2 h
  · exact fun line hline => nomatch hline

theorem plain_constRows (fields : List ConstField) : ∀ line ∈ w.constRows D fields, PlainText line.2 := by
  rw [StampRequest.constRows]
  cases w.inf with
  | none => exact fun line hline => nomatch hline
  | some inf =>
    intro line hline
    obtain ⟨f, -, rfl⟩ := List.mem_map.1 hline
    exact ConstType.plain_print D _ _ (inf.plain f)

theorem plain_cfgRows : ∀ line ∈ w.cfgRows D, PlainText line.2 := by
  rw [StampRequest.cfgRows]
  cases w.cfg with
  | none => exact fun line hline => nomatch hline
  | some cfg =>
    intro line hline
    obtain ⟨f, -, rfl⟩ := List.mem_map.1 hline
    cases f with
    | scalar f => exact f.plain_emit D _
    | mlFlag b => exact plainText_decimalInt _
    | gateFlag b => exact plainText_decimalInt _

/-- No text of the body breaks its line. -/
theorem plain_body : ∀ line ∈ w.body D C, PlainText line.2 := by
  have hheader : ∀ line ∈ w.headerLines D C, PlainText line.2 := by
    rw [StampRequest.headerLines]
    simp only [List.forall_mem_cons]
    exact ⟨plainText_decimalInt _, HexDigest.plain _, w.plain_trainedOn, D.plain _ _, D.plain _ _, D.plain _ _,
      D.plain _ _, fun line hline => nomatch hline⟩
  rw [StampRequest.body_eq]
  simp only [List.forall_mem_append]
  exact ⟨hheader, plain_optional (plainText_hex16 _), plain_optional w.plain_engineVersion,
    plain_optional (plainText_decimalInt _), plain_constRows preCfg, plain_cfgRows, plain_constRows postCfg⟩

/-- A pair that the line loop reads as it was printed, unless its line is too long. -/
structure Readable (kv : KeyValue) : Prop where
  wellFormed : kv.WellFormed
  no_nul : '\x00' ∉ kv.line
  not_signature : kv.key ≠ signatureKey

theorem readable_keyValue {k : StampKey} {text : List Char} (hk : k ∈ stampKeys) (h : PlainText text) :
    Readable (StampLine.keyValue (k, text)) := by
  obtain ⟨heq, hnl, hnul, hsig, -⟩ := StampKey.plain hk
  have hline : ∀ {ch : Char}, ch ≠ '=' → ch ∉ k.name → ch ∉ text → ch ∉ (StampLine.keyValue (k, text)).line := by
    intro ch hch hname htext hmem
    rcases List.mem_append.1 hmem with hmem | hmem
    · exact hname hmem
    · exact (List.mem_cons.1 hmem).elim hch htext
  exact ⟨⟨heq, hline (by decide) hnl h.no_newline⟩, hline (by decide) hnul h.no_nul, hsig⟩

/-- The pairs of the body. -/
def StampRequest.pairs (D : Doubles) (C : Digests) (w : StampRequest) : List KeyValue :=
  (w.body D C).map StampLine.keyValue

theorem readable_pairs : ∀ kv ∈ w.pairs D C, Readable kv := by
  intro kv hkv
  obtain ⟨line, hline, rfl⟩ := List.mem_map.1 hkv
  exact readable_keyValue (body_keys.subset (List.mem_map_of_mem hline)) (plain_body line hline)

/-! ### What the writer leaves -/

theorem render_append (kvs kvs' : List KeyValue) : render (kvs ++ kvs') = render kvs ++ render kvs' := by
  rw [render, unlines, List.map_append, List.flatMap_append, render, render, unlines, unlines]

theorem foldl_appendChunk_full {canonical : List Char} (h : bodyCapacity ≤ canonical.length)
    (chunks : List (List StampLine)) : chunks.foldl appendChunk canonical = canonical := by
  induction chunks with
  | nil => rfl
  | cons chunk chunks ih => rw [List.foldl_cons, appendChunk, if_neg (Nat.not_lt.2 h), ih]

/-- A body that is not full at the end was never full. -/
theorem foldl_appendChunk {chunks : List (List StampLine)} {canonical : List Char}
    (h : (chunks.foldl appendChunk canonical).length < bodyCapacity) :
    chunks.foldl appendChunk canonical = canonical ++ render (chunks.flatten.map StampLine.keyValue) := by
  induction chunks generalizing canonical with
  | nil => exact (List.append_nil _).symm
  | cons chunk chunks ih =>
    rcases Nat.lt_or_ge canonical.length bodyCapacity with hlt | hge
    · rw [List.foldl_cons, appendChunk, if_pos hlt] at h ⊢
      rw [ih h, List.append_assoc, ← render_append, ← List.map_append, List.flatten_cons]
    · rw [foldl_appendChunk_full hge] at h
      omega

/-- A stamp is the body, whole, and its signature. -/
theorem stamp_of_write {file : List Char} (h : stampWriteForModel D C w = .ok file) :
    file = render (w.pairs D C) ++ render [⟨signatureKey, signature C w.secret (render (w.pairs D C))⟩] ∧
      (render (w.pairs D C)).length < bodyCapacity ∧ ¬(w.gapThreshold < w.gap D ∧ w.force = false) := by
  rw [stampWriteForModel] at h
  split at h
  case isTrue => exact nomatch h
  case isFalse hgap =>
    dsimp only at h
    split at h
    case isTrue => exact nomatch h
    case isFalse hfits =>
      have hlt := Nat.lt_of_not_le hfits
      have hbody : (w.chunks D C).foldl appendChunk [] = render (w.pairs D C) := foldl_appendChunk hlt
      rw [hbody] at h hlt
      exact ⟨(Except.ok.inj h).symm, hlt, hgap⟩

/-! ### What the reader parses -/

/-- The pair of a line, as far as the line fits its copy. -/
def clippedPair (line : List Char) : Option KeyValue := keyValue (line.take 511)

/-- The pairs before the signature. -/
def parsedPairs (ls : List (List Char)) : List KeyValue :=
  (ls.filterMap clippedPair).takeWhile fun kv => kv.key ≠ signatureKey

theorem parsedPairs_cons_none {line : List Char} (h : clippedPair line = none) (ls : List (List Char)) :
    parsedPairs (line :: ls) = parsedPairs ls := by
  rw [parsedPairs, List.filterMap_cons_none h, parsedPairs]

theorem parsedPairs_cons_signature {line : List Char} {kv : KeyValue} (h : clippedPair line = some kv)
    (hkey : kv.key = signatureKey) (ls : List (List Char)) : parsedPairs (line :: ls) = [] := by
  rw [parsedPairs, List.filterMap_cons_some h, List.takeWhile_cons_of_neg (by simpa using hkey)]

theorem parsedPairs_cons {line : List Char} {kv : KeyValue} (h : clippedPair line = some kv)
    (hkey : kv.key ≠ signatureKey) (ls : List (List Char)) : parsedPairs (line :: ls) = kv :: parsedPairs ls := by
  rw [parsedPairs, List.filterMap_cons_some h, List.takeWhile_cons_of_pos (by simpa using hkey), parsedPairs]

theorem foldl_readLine_done {s : StampScan} (h : s.done = true) (ls : List (List Char)) :
    ls.foldl (StampScan.readLine D) s = s := by
  induction ls with
  | nil => rfl
  | cons line ls ih => rw [List.foldl_cons, StampScan.readLine, if_pos h, ih]

/-- One turn of the loop. -/
theorem readLine_cases (D : Doubles) {s : StampScan} (h : s.done = false) (line : List Char) :
    (clippedPair line = none ∧ s.readLine D line = s) ∨
      (∃ kv, clippedPair line = some kv ∧ kv.key = signatureKey ∧
        s.readLine D line = { s with stampSig := kv.value.take 127, done := true }) ∨
      ∃ kv, clippedPair line = some kv ∧ kv.key ≠ signatureKey ∧
        s.readLine D line =
          { s with canonical := s.canonical.append (kv.line ++ ['\n']), fields := s.fields.capture D kv } := by
  rw [StampScan.readLine, if_neg (by rw [h]; exact Bool.false_ne_true), clippedPair]
  cases keyValue (line.take 511) with
  | none => exact .inl ⟨rfl, rfl⟩
  | some kv =>
    by_cases hkey : kv.key = signatureKey
    · exact .inr (.inl ⟨kv, rfl, hkey, if_pos hkey⟩)
    · exact .inr (.inr ⟨kv, rfl, hkey, if_neg hkey⟩)

/-- A line that its copy holds is read as it was printed. -/
theorem clippedPair_line {kv : KeyValue} (hkv : kv.WellFormed) (h : kv.line.length ≤ 511) :
    clippedPair kv.line = some kv := by
  rw [clippedPair, List.take_of_length_le h, keyValue_line hkv.key]

/-- The loop leaves the fields and the text of the pairs before the signature. -/
theorem foldl_readLine {s : StampScan} (h : s.done = false) (ls : List (List Char)) :
    (ls.foldl (StampScan.readLine D) s).fields = (parsedPairs ls).foldl (StampFields.capture D) s.fields ∧
      (ls.foldl (StampScan.readLine D) s).canonical =
        (parsedPairs ls).foldl (fun b kv => b.append (kv.line ++ ['\n'])) s.canonical := by
  induction ls generalizing s with
  | nil => exact ⟨rfl, rfl⟩
  | cons line ls ih =>
    rw [List.foldl_cons]
    obtain ⟨hpair, hread⟩ | ⟨kv, hpair, hkey, hread⟩ | ⟨kv, hpair, hkey, hread⟩ := readLine_cases D h line
    · rw [hread, parsedPairs_cons_none hpair]
      exact ih h
    · rw [hread, parsedPairs_cons_signature hpair hkey, foldl_readLine_done rfl]
      exact ⟨rfl, rfl⟩
    · rw [hread, parsedPairs_cons hpair hkey]
      exact ih h

/-- Where the loop finds its signature: no line before has the key. -/
structure SignatureAt (ls : List (List Char)) (pre : List (List Char)) (line sig : List Char) : Prop where
  splits : ∃ post, ls = pre ++ line :: post
  parsed : parsedPairs ls = pre.filterMap clippedPair
  read : clippedPair line = some ⟨signatureKey, sig⟩

theorem foldl_readLine_signature (D : Doubles) {s : StampScan} (h : s.done = false) (ls : List (List Char)) :
    (ls.foldl (StampScan.readLine D) s).stampSig = s.stampSig ∨
      ∃ pre line sig, SignatureAt ls pre line sig ∧ (ls.foldl (StampScan.readLine D) s).stampSig = sig.take 127 := by
  induction ls generalizing s with
  | nil => exact .inl rfl
  | cons line ls ih =>
    rw [List.foldl_cons]
    obtain ⟨hpair, hread⟩ | ⟨kv, hpair, hkey, hread⟩ | ⟨kv, hpair, hkey, hread⟩ := readLine_cases D h line
    · rw [hread]
      refine (ih h).imp id ?_
      rintro ⟨pre, sigLine, sig, ⟨⟨post, hsplit⟩, hparsed, hfound⟩, hsig⟩
      refine ⟨line :: pre, sigLine, sig, ⟨⟨post, congrArg (line :: ·) hsplit⟩, ?_, hfound⟩, hsig⟩
      rw [parsedPairs_cons_none hpair, List.filterMap_cons_none hpair, hparsed]
    · rw [hread, foldl_readLine_done rfl]
      refine .inr ⟨[], line, kv.value, ⟨⟨ls, rfl⟩, parsedPairs_cons_signature hpair hkey ls, ?_⟩, rfl⟩
      rw [hpair, ← hkey]
    · rw [hread]
      have hrest := ih (s := { s with canonical := s.canonical.append (kv.line ++ ['\n'])
                                      fields := s.fields.capture D kv }) h
      refine hrest.imp id ?_
      rintro ⟨pre, sigLine, sig, ⟨⟨post, hsplit⟩, hparsed, hfound⟩, hsig⟩
      refine ⟨line :: pre, sigLine, sig, ⟨⟨post, congrArg (line :: ·) hsplit⟩, ?_, hfound⟩, hsig⟩
      rw [parsedPairs_cons hpair hkey, List.filterMap_cons_some hpair, hparsed]

/-- Lines without the key of a signature. -/
theorem foldl_readLine_unsigned {s : StampScan} (hs : s.done = false) {ls : List (List Char)}
    (h : ∀ line ∈ ls, ∀ kv, clippedPair line = some kv → kv.key ≠ signatureKey) :
    ls.foldl (StampScan.readLine D) s =
      { s with canonical := (ls.filterMap clippedPair).foldl (fun b kv => b.append (kv.line ++ ['\n'])) s.canonical
               fields := (ls.filterMap clippedPair).foldl (StampFields.capture D) s.fields } := by
  induction ls generalizing s with
  | nil => rfl
  | cons line ls ih =>
    obtain ⟨hline, hls⟩ := List.forall_mem_cons.1 h
    rw [List.foldl_cons]
    obtain ⟨hpair, hread⟩ | ⟨kv, hpair, hkey, -⟩ | ⟨kv, hpair, -, hread⟩ := readLine_cases D hs line
    · rw [hread, List.filterMap_cons_none hpair]
      exact ih hs hls
    · exact absurd hkey (hline kv hpair)
    · rw [hread, List.filterMap_cons_some hpair]
      exact ih (s := { s with canonical := s.canonical.append (kv.line ++ ['\n'])
                              fields := s.fields.capture D kv }) hs hls

/-- Text that fits is rebuilt whole. -/
theorem foldl_append {b : CanonicalBuf} (hb : b.clipped = []) {kvs : List KeyValue}
    (h : b.text.length + (render kvs).length < bodyCapacity) :
    (kvs.foldl (fun b kv => b.append (kv.line ++ ['\n'])) b).content = b.text ++ render kvs := by
  induction kvs generalizing b with
  | nil => rw [List.foldl_nil, CanonicalBuf.content, hb]; rfl
  | cons kv kvs ih =>
    have hcons : render (kv :: kvs) = (kv.line ++ ['\n']) ++ render kvs := rfl
    rw [hcons, List.length_append] at h
    rw [List.foldl_cons, CanonicalBuf.append, if_pos (by omega), hcons]
    refine (ih (b := ⟨b.text ++ (kv.line ++ ['\n']), []⟩) rfl ?_).trans (List.append_assoc ..)
    rw [List.length_append]
    omega

/-! ### Where a field comes from -/

/-- The fields of a list of rows. -/
theorem foldl_capture {ls : List StampLine} (h : ∀ line ∈ ls, line.1 ∈ stampKeys) (r : StampFields) :
    (ls.map StampLine.keyValue).foldl (StampFields.capture D) r =
      ls.foldl (fun r line => r.captureRow D line.1 line.2) r := by
  induction ls generalizing r with
  | nil => rfl
  | cons line ls ih =>
    obtain ⟨hkey, hls⟩ := List.forall_mem_cons.1 h
    have hrow : r.capture D (StampLine.keyValue line) = r.captureRow D line.1 line.2 := by
      rw [StampFields.capture, StampLine.keyValue, StampKey.ofName_name hkey]
    rw [List.map_cons, List.foldl_cons, List.foldl_cons, hrow]
    exact ih hls _

/-- One key writes what `get` reads, and no other does. -/
structure Captures (D : Doubles) {α : Sort _} (k₀ : StampKey) (get : StampFields → α) (out : List Char → α) :
    Prop where
  self : ∀ (r : StampFields) val, get (r.captureRow D k₀ val) = out val
  other : ∀ (r : StampFields) k val, k ≠ k₀ → get (r.captureRow D k val) = get r

theorem Captures.foldl_of_not_mem {α : Sort _} {k₀ : StampKey} {get : StampFields → α} {out : List Char → α}
    (hget : Captures D k₀ get out) {ls : List StampLine} (h : k₀ ∉ ls.map Prod.fst) (r : StampFields) :
    get (ls.foldl (fun r line => r.captureRow D line.1 line.2) r) = get r := by
  induction ls generalizing r with
  | nil => rfl
  | cons line ls ih =>
    rw [List.map_cons, List.mem_cons, not_or] at h
    rw [List.foldl_cons, ih h.2, hget.other r line.1 line.2 (Ne.symm h.1)]

/-- With each key once, the field is read from the line of its key. -/
theorem Captures.foldl_of_mem {α : Sort _} {k₀ : StampKey} {get : StampFields → α} {out : List Char → α}
    (hget : Captures D k₀ get out) {ls : List StampLine} (hnodup : (ls.map Prod.fst).Nodup) {val : List Char}
    (h : (k₀, val) ∈ ls) (r : StampFields) :
    get (ls.foldl (fun r line => r.captureRow D line.1 line.2) r) = out val := by
  induction ls generalizing r with
  | nil => exact nomatch h
  | cons line ls ih =>
    rw [List.map_cons, List.nodup_cons] at hnodup
    rcases List.mem_cons.1 h with rfl | h
    · rw [List.foldl_cons, hget.foldl_of_not_mem hnodup.1, hget.self]
    · exact ih hnodup.2 h _

theorem captures_modelSha : Captures D (.header .modelSha256) StampFields.modelSha fun val => val.take 79 where
  self _ _ := rfl
  other r k val h := by
    rcases k with k | f | f
    · cases k <;> first | rfl | exact absurd rfl h
    · rfl
    · rfl

theorem captures_modelFormatVersion :
    Captures D (.header .modelFormatVersion) StampFields.modelFormatVersion atoi where
  self _ _ := rfl
  other r k val h := by
    rcases k with k | f | f
    · cases k <;> first | rfl | exact absurd rfl h
    · rfl
    · rfl

theorem captures_gap : Captures D (.header .gap) StampFields.generalizationGap D.parse where
  self _ _ := rfl
  other r k val h := by
    rcases k with k | f | f
    · cases k <;> first | rfl | exact absurd rfl h
    · rfl
    · rfl

theorem captures_gapThreshold : Captures D (.header .gapThreshold) StampFields.gapThreshold D.parse where
  self _ _ := rfl
  other r k val h := by
    rcases k with k | f | f
    · cases k <;> first | rfl | exact absurd rfl h
    · rfl
    · rfl

theorem captures_featureRegistryHash :
    Captures D (.header .featureRegistryHash) StampFields.featureRegistryHash strtoullHex where
  self _ _ := rfl
  other r k val h := by
    rcases k with k | f | f
    · cases k <;> first | rfl | exact absurd rfl h
    · rfl
    · rfl

theorem captures_engineVersion :
    Captures D (.header .engineVersion) StampFields.engineVersion fun val => val.take 15 where
  self _ _ := rfl
  other r k val h := by
    rcases k with k | f | f
    · cases k <;> first | rfl | exact absurd rfl h
    · rfl
    · rfl

theorem captures_stampFormatVersion :
    Captures D (.header .stampFormatVersion) StampFields.stampFormatVersion atoi where
  self _ _ := rfl
  other r k val h := by
    rcases k with k | f | f
    · cases k <;> first | rfl | exact absurd rfl h
    · rfl
    · rfl

theorem captures_const (f : ConstField) : Captures D (.const f) (fun r => r.const f) (f.parse D) where
  self r val := Function.update_self ..
  other r k val h := by
    cases k with
    | header k => cases k <;> rfl
    | const f' => exact Function.update_of_ne (fun heq => h (congrArg StampKey.const heq.symm)) ..
    | cfg f' => rfl

theorem captures_cfg (f : CfgField) : Captures D (.cfg f) (fun r => r.cfg f) (f.parse D) where
  self r val := Function.update_self ..
  other r k val h := by
    cases k with
    | header k => cases k <;> rfl
    | const f' => rfl
    | cfg f' => exact Function.update_of_ne (fun heq => h (congrArg StampKey.cfg heq.symm)) ..

theorem captures_hasCfg (f : CfgField) : Captures D (.cfg f) (fun r => r.hasCfg f) (fun _ => true) where
  self r val := Function.update_self ..
  other r k val h := by
    cases k with
    | header k => cases k <;> rfl
    | const f' => rfl
    | cfg f' => exact Function.update_of_ne (fun heq => h (congrArg StampKey.cfg heq.symm)) ..

/-- A presence bit is set by any row of its group. -/
theorem foldl_hasFlags (ls : List StampLine) (r : StampFields) (b : StampHasFlagBit) :
    (ls.foldl (fun r line => r.captureRow D line.1 line.2) r).hasFlags b = true ↔
      r.hasFlags b = true ∨ ∃ f : ConstField, f.row.bit = b ∧ .const f ∈ ls.map Prod.fst := by
  induction ls generalizing r with
  | nil => simp
  | cons line ls ih =>
    obtain ⟨k, val⟩ := line
    rw [List.foldl_cons, ih]
    cases k with
    | header k =>
      have hsame : (r.captureHeader D k val).hasFlags = r.hasFlags := by cases k <;> rfl
      simp [StampFields.captureRow, hsame]
    | const f =>
      by_cases hbit : f.row.bit = b
      · simp only [StampFields.captureRow, List.map_cons, List.mem_cons]
        refine ⟨fun _ => .inr ⟨f, hbit, .inl rfl⟩, fun _ => .inl ?_⟩
        rw [← hbit, Function.update_self]
      · have hne : ∀ f' : ConstField, f'.row.bit = b → (StampKey.const f' = StampKey.const f) = False := by
          rintro f' hf'
          exact eq_false fun heq => hbit (StampKey.const.inj heq ▸ hf')
        simp only [StampFields.captureRow, List.map_cons, List.mem_cons, Function.update_of_ne (Ne.symm hbit)]
        refine or_congr Iff.rfl (exists_congr fun f' => and_congr_right fun hf' => ?_)
        rw [hne f' hf', false_or]
    | cfg f => simp [StampFields.captureRow]

end FoxTrader
