import FoxTrader.StampReading

/-! # A stamp read back

    A stamp that was written for a model is accepted beside that model, and every field comes back as
    its digits leave it, when the reader's buffers hold what the writer printed: every line, the whole
    file with its signature, and a gap that its six decimals do not push past the threshold. The
    engine version comes back in its first fifteen characters, and the scaler flag as zero or one. -/

namespace FoxTrader

open Lib

variable {D : Doubles} {C : Digests} {w : StampRequest}

/-! ### One field -/

/-- Any scaler flag but zero comes back as one. -/
def scalerFlag (n : UInt8) : UInt8 := if n ≠ 0 then 1 else 0

/-- A model constant as it comes back: its digits. -/
def ConstField.delivered (D : Doubles) : (f : ConstField) → f.row.type.Carrier → f.row.type.Carrier
  | .featureScalerPresent, n => scalerFlag n
  | f, v => f.row.type.rounded D v

/-- A configuration field as its digits leave it. -/
def CfgField.rounded (D : Doubles) (cfg : ControllerConfig) : CfgField → ℚ
  | .scalar f => f.rounded D (cfg.scalar f)
  | f => cfg.value f

/-- The range that the reader clamps a field to; a flag has none. -/
def CfgField.InRange (D : Doubles) (cfg : ControllerConfig) : CfgField → Prop
  | .scalar f => f.descriptor.clampMin ≤ f.rounded D (cfg.scalar f) ∧
      f.rounded D (cfg.scalar f) ≤ f.descriptor.clampMax
  | _ => True

instance (D : Doubles) (cfg : ControllerConfig) (f : CfgField) : Decidable (f.InRange D cfg) :=
  match f with
  | .scalar _ => inferInstanceAs (Decidable (_ ∧ _))
  | .mlFlag _ => isTrue trivial
  | .gateFlag _ => isTrue trivial

theorem clamp_of_mem {lo hi v : ℚ} (hlo : lo ≤ v) (hhi : v ≤ hi) : clamp lo hi v = v := by
  rw [clamp, if_neg (not_lt.2 hlo), if_neg (not_lt.2 hhi)]

theorem CfgField.parse_emit (cfg : ControllerConfig) {f : CfgField} (h : f.InRange D cfg) :
    f.parse D (cfg.emit D f) = f.rounded D cfg := by
  have hflag : ∀ b : Bool, (((atoi (decimalInt (if b then 1 else 0))).toInt : Int) : ℚ) = if b then 1 else 0 := by
    decide
  cases f with
  | scalar f => exact (f.parse_emit D (cfg.holds f)).trans (clamp_of_mem h.1 h.2)
  | mlFlag b => exact hflag _
  | gateFlag b => exact hflag _

theorem atoi_toUInt8 (n : UInt8) : (if atoi (decimal n.toUInt64) ≠ 0 then (1 : UInt8) else 0) = scalerFlag n := by
  have hall : ∀ k : Fin 256, (if atoi (decimal (UInt8.ofNat k).toUInt64) ≠ 0 then (1 : UInt8) else 0) =
      scalerFlag (UInt8.ofNat k) := by decide +kernel
  have hn := hall ⟨n.toNat, n.toNat_lt⟩
  rwa [UInt8.ofNat_toNat] at hn

theorem ConstField.parse_print (f : ConstField) (v : f.row.type.Carrier) :
    f.parse D (f.row.type.print D v) = f.delivered D v := by
  cases f with
  | featureScalerPresent => exact atoi_toUInt8 v
  | _ => exact ConstType.parse_print D _ v

/-! ### The file -/

/-- What the buffers of the reader hold of a stamp. -/
structure StampRequest.FitsReader (D : Doubles) (C : Digests) (w : StampRequest) : Prop where
  lines : ∀ kv ∈ w.pairs D C, kv.line.length ≤ 511
  /-- `signature=`, its digits and the terminator come behind the body. -/
  file : (render (w.pairs D C)).length + 74 ≤ 4095
  gap : D.round (.significant 6) w.gapThreshold = 0 ∨
    D.round (.fixed 6) (w.gap D) ≤ D.round (.significant 6) w.gapThreshold
  inRange : ∀ cfg, w.cfg = some cfg → ∀ f ∈ derivedCohort, lookupPopulate cfg f = true → f.InRange D cfg

/-- The line of a signature. -/
def signatureLine (d : HexDigest) : List Char := (⟨signatureKey, d.text⟩ : KeyValue).line

theorem signatureKey_noEquals : '=' ∉ signatureKey := by decide +kernel

theorem length_signatureLine (d : HexDigest) : (signatureLine d).length = 74 := by
  rw [signatureLine, KeyValue.line, List.length_append, List.length_cons]
  show 9 + (d.text.length + 1) = 74
  rw [d.length]

theorem plain_signatureLine (d : HexDigest) : PlainText (signatureLine d) := by
  have hkey : '\n' ∉ signatureKey ∧ '\x00' ∉ signatureKey := by decide +kernel
  have hline : ∀ {ch : Char}, ch ∈ signatureLine d → ch ∈ signatureKey ∨ ch = '=' ∨ ch ∈ d.text := fun hmem =>
    (List.mem_append.1 hmem).imp id List.mem_cons.1
  refine ⟨fun hmem => ?_, fun hmem => ?_⟩
  · rcases hline hmem with hmem | heq | hmem
    · exact hkey.1 hmem
    · exact absurd heq (by decide)
    · exact d.plain.no_newline hmem
  · rcases hline hmem with hmem | heq | hmem
    · exact hkey.2 hmem
    · exact absurd heq (by decide)
    · exact d.plain.no_nul hmem

/-- A text and its last line, the newline behind it kept or cut. -/
theorem lines_render_last {kvs : List KeyValue} (h : ∀ kv ∈ kvs, '\n' ∉ kv.line) {line : List Char}
    (hline : '\n' ∉ line) (hne : line ≠ []) {tail : List Char} (htail : tail <+: ['\n']) :
    lines (render kvs ++ (line ++ tail)) = kvs.map KeyValue.line ++ [line] := by
  rw [lines_render_append h]
  refine congrArg (_ ++ ·) ?_
  rcases tail with _ | ⟨ch, tail⟩
  · rw [List.append_nil, lines_eq_singleton hline hne]
  · obtain ⟨rfl, hrest⟩ := List.cons_prefix_cons.1 htail
    rw [List.prefix_nil.1 hrest, lines_cons_append hline hne]
    rfl

theorem not_mem_render {kvs : List KeyValue} (h : ∀ kv ∈ kvs, '\x00' ∉ kv.line) : '\x00' ∉ render kvs := by
  intro hmem
  obtain ⟨line, hline, hmem⟩ := List.mem_flatMap.1 hmem
  obtain ⟨kv, hkv, rfl⟩ := List.mem_map.1 hline
  rcases List.mem_append.1 hmem with hmem | hmem
  · exact h kv hkv hmem
  · exact absurd (List.mem_singleton.1 hmem) (by decide)

/-- The read buffer holds the body and the line of the signature. -/
theorem lines_readBuffer (h : w.FitsReader D C) (d : HexDigest) :
    lines (readBuffer (render (w.pairs D C) ++ (signatureLine d ++ ['\n']))) =
      (w.pairs D C).map KeyValue.line ++ [signatureLine d] := by
  have hfile := h.file
  have hsig := length_signatureLine d
  have hnul : ∀ ch ∈ render (w.pairs D C) ++ (signatureLine d ++ ['\n']), (decide (ch ≠ '\x00')) = true := by
    intro ch hch
    refine decide_eq_true fun heq => ?_
    rw [heq] at hch
    rcases List.mem_append.1 hch with hmem | hmem
    · exact not_mem_render (fun kv hkv => (readable_pairs kv hkv).no_nul) hmem
    · rcases List.mem_append.1 hmem with hmem | hmem
      · exact (plain_signatureLine d).no_nul hmem
      · exact absurd (List.mem_singleton.1 hmem) (by decide)
  have hbuffer : ∃ tail, tail <+: ['\n'] ∧ readBuffer (render (w.pairs D C) ++ (signatureLine d ++ ['\n'])) =
      render (w.pairs D C) ++ (signatureLine d ++ tail) := by
    refine ⟨['\n'].take (4095 - (render (w.pairs D C)).length - 74), List.take_prefix .., ?_⟩
    rw [readBuffer, List.takeWhile_eq_self_iff.2 fun ch hch => hnul ch ((List.take_subset ..) hch)]
    show List.take 4095 _ = _
    rw [List.take_append, List.take_of_length_le (by omega), List.take_append,
      List.take_of_length_le (by omega), hsig]
  obtain ⟨tail, htail, hbuffer⟩ := hbuffer
  rw [hbuffer]
  refine lines_render_last (fun kv hkv => (readable_pairs kv hkv).wellFormed.line)
    (plain_signatureLine d).no_newline ?_
    htail
  exact KeyValue.line_ne_nil _

/-- The reader rebuilds the body, reads its fields and finds the signature. -/
theorem readStamp_signed (h : w.FitsReader D C) (d : HexDigest) (gapThreshold : ℚ) :
    readStamp D gapThreshold (render (w.pairs D C) ++ (signatureLine d ++ ['\n'])) =
      { canonical := (w.pairs D C).foldl (fun b kv => b.append (kv.line ++ ['\n'])) ⟨[], []⟩
        fields := (w.pairs D C).foldl (StampFields.capture D) (.init gapThreshold)
        stampSig := d.text
        done := true } := by
  have hclipped : ((w.pairs D C).map KeyValue.line).filterMap clippedPair = w.pairs D C := by
    rw [List.filterMap_map]
    conv_rhs => rw [← List.filterMap_some (l := w.pairs D C)]
    exact List.filterMap_congr fun kv hkv => clippedPair_line (readable_pairs kv hkv).wellFormed (h.lines kv hkv)
  have hunsigned : ∀ line ∈ (w.pairs D C).map KeyValue.line, ∀ kv, clippedPair line = some kv →
      kv.key ≠ signatureKey := by
    intro line hline kv hread
    obtain ⟨kv', hkv', rfl⟩ := List.mem_map.1 hline
    rw [clippedPair_line (readable_pairs kv' hkv').wellFormed (h.lines kv' hkv')] at hread
    exact Option.some.inj hread ▸ (readable_pairs kv' hkv').not_signature
  have hsig : clippedPair (signatureLine d) = some ⟨signatureKey, d.text⟩ := by
    refine clippedPair_line ⟨signatureKey_noEquals, (plain_signatureLine d).no_newline⟩ ?_
    exact (length_signatureLine d).le.trans (by decide)
  have hdigits : d.text.take 127 = d.text := List.take_of_length_le (by rw [d.length]; decide)
  rw [readStamp, lines_readBuffer h, List.foldl_append, foldl_readLine_unsigned rfl hunsigned, hclipped,
    List.foldl_cons,
    List.foldl_nil]
  obtain ⟨hnone, -⟩ | ⟨kv, hread, -, hscan⟩ | ⟨kv, hread, hkey, -⟩ :=
    readLine_cases D (s := { canonical := (w.pairs D C).foldl (fun b kv => b.append (kv.line ++ ['\n'])) ⟨[], []⟩
                             fields := (w.pairs D C).foldl (StampFields.capture D) (.init gapThreshold)
                             stampSig := []
                             done := false }) rfl (signatureLine d)
  · exact nomatch hsig.symm.trans hnone
  · obtain rfl := Option.some.inj (hsig.symm.trans hread)
    refine hscan.trans ?_
    rw [hdigits]
  · obtain rfl := Option.some.inj (hsig.symm.trans hread)
    exact absurd rfl hkey

/-! ### What stands in the body -/

/-- The presence bits of the constants that the request carries. -/
def StampRequest.hasFlags (w : StampRequest) (b : StampHasFlagBit) : Bool :=
  match w.inf with
  | none => false
  | some inf => inf.hasFlags b

/-- The configuration fields that the request carries. -/
def StampRequest.hasCfg (w : StampRequest) (f : CfgField) : Bool :=
  match w.cfg with
  | none => false
  | some cfg => decide (f ∈ derivedCohort) && lookupPopulate cfg f

theorem hasCfg_of_some {cfg : ControllerConfig} (h : w.cfg = some cfg) (f : CfgField) :
    w.hasCfg f = true ↔ f ∈ derivedCohort ∧ lookupPopulate cfg f = true := by
  rw [StampRequest.hasCfg, h]
  show (decide (f ∈ derivedCohort) && lookupPopulate cfg f) = true ↔ _
  rw [Bool.and_eq_true, decide_eq_true_eq]

theorem mem_body {line : StampLine} :
    line ∈ w.body D C ↔ line ∈ w.headerLines D C ∨ line ∈ w.hashLine ∨ line ∈ w.engineVersionLine ∨
      line ∈ w.stampVersionLine ∨ line ∈ w.constRows D preCfg ∨ line ∈ w.cfgRows D ∨
        line ∈ w.constRows D postCfg := by
  rw [StampRequest.body_eq]
  simp only [List.mem_append]

theorem mem_constRows {fields : List ConstField} {line : StampLine} :
    line ∈ w.constRows D fields ↔ ∃ inf, w.inf = some inf ∧ ∃ f ∈ fields, inf.hasFlags f.row.bit = true ∧
      line = (.const f, f.row.type.print D (inf.const f)) := by
  rw [StampRequest.constRows]
  cases w.inf with
  | none =>
    refine ⟨fun h => absurd h List.not_mem_nil, ?_⟩
    rintro ⟨inf, hinf, -⟩
    cases hinf
  | some inf =>
    dsimp only
    rw [StampInferenceCfgInputs.rows, List.mem_map]
    constructor
    · rintro ⟨f, hf, rfl⟩
      rw [List.mem_filter] at hf
      exact ⟨inf, rfl, f, hf.1, hf.2, rfl⟩
    · rintro ⟨inf', hinf, f, hf, hbit, rfl⟩
      obtain rfl := Option.some.inj hinf
      exact ⟨f, List.mem_filter.2 ⟨hf, hbit⟩, rfl⟩

theorem mem_cfgRows {line : StampLine} :
    line ∈ w.cfgRows D ↔ ∃ cfg, w.cfg = some cfg ∧ ∃ f ∈ derivedCohort, lookupPopulate cfg f = true ∧
      line = (.cfg f, cfg.emit D f) := by
  rw [StampRequest.cfgRows]
  cases w.cfg with
  | none =>
    refine ⟨fun h => absurd h List.not_mem_nil, ?_⟩
    rintro ⟨cfg, hcfg, -⟩
    cases hcfg
  | some cfg =>
    dsimp only
    rw [ControllerConfig.rows, List.mem_map]
    constructor
    · rintro ⟨f, hf, rfl⟩
      rw [List.mem_filter] at hf
      exact ⟨cfg, rfl, f, hf.1, hf.2, rfl⟩
    · rintro ⟨cfg', hcfg, f, hf, hgate, rfl⟩
      obtain rfl := Option.some.inj hcfg
      exact ⟨f, List.mem_filter.2 ⟨hf, hgate⟩, rfl⟩

/-- Every constant has its place in front of the configuration or behind it. -/
theorem mem_registry (f : ConstField) : f ∈ preCfg ∨ f ∈ postCfg := by cases f <;> decide

/-- Every presence bit belongs to a row. -/
theorem exists_row (b : StampHasFlagBit) : ∃ f ∈ preCfg ++ postCfg, f.row.bit = b := by cases b <;> decide

theorem const_mem_body {inf : StampInferenceCfgInputs} (hinf : w.inf = some inf) {f : ConstField}
    (h : inf.hasFlags f.row.bit = true) : (.const f, f.row.type.print D (inf.const f)) ∈ w.body D C := by
  rw [mem_body]
  rcases mem_registry f with hf | hf
  · exact .inr (.inr (.inr (.inr (.inl (mem_constRows.2 ⟨inf, hinf, f, hf, h, rfl⟩)))))
  · exact .inr (.inr (.inr (.inr (.inr (.inr (mem_constRows.2 ⟨inf, hinf, f, hf, h, rfl⟩))))))

theorem cfg_mem_body {cfg : ControllerConfig} (hcfg : w.cfg = some cfg) {f : CfgField} (hf : f ∈ derivedCohort)
    (h : lookupPopulate cfg f = true) : (.cfg f, cfg.emit D f) ∈ w.body D C :=
  mem_body.2 (.inr (.inr (.inr (.inr (.inr (.inl (mem_cfgRows.2 ⟨cfg, hcfg, f, hf, h, rfl⟩)))))))

theorem header_mem_body {line : StampLine} (h : line ∈ w.headerLines D C) : line ∈ w.body D C := mem_body.2 (.inl h)

/-- What the request must carry for a key to stand in its body. -/
def StampRequest.carries (w : StampRequest) : StampKey → Prop
  | .header .featureRegistryHash => w.featureRegistryHash ≠ 0
  | .header .engineVersion => w.engineVersion ≠ []
  | .header _ => True
  | .const f => w.hasFlags f.row.bit = true
  | .cfg f => w.hasCfg f = true

theorem carries_of_mem {k : StampKey} (h : k ∈ (w.body D C).map Prod.fst) : w.carries k := by
  have hconst : ∀ {fields : List ConstField} {line : StampLine}, line ∈ w.constRows D fields → w.carries line.1 := by
    intro fields line hline
    obtain ⟨inf, hinf, f, -, hbit, rfl⟩ := mem_constRows.1 hline
    show w.hasFlags f.row.bit = true
    rw [StampRequest.hasFlags, hinf]
    exact hbit
  have hheader : ∀ line ∈ w.headerLines D C, w.carries line.1 := by
    rw [StampRequest.headerLines]
    simp only [List.forall_mem_cons]
    exact ⟨trivial, trivial, trivial, trivial, trivial, trivial, trivial, fun line hline =>
      absurd hline List.not_mem_nil⟩
  obtain ⟨line, hline, rfl⟩ := List.mem_map.1 h
  rcases mem_body.1 hline with hline | hline | hline | hline | hline | hline | hline
  · exact hheader line hline
  · rw [StampRequest.hashLine] at hline
    split at hline
    case isTrue hcond => exact List.mem_singleton.1 hline ▸ hcond.2
    case isFalse => exact absurd hline List.not_mem_nil
  · rw [StampRequest.engineVersionLine] at hline
    split at hline
    case isTrue hcond => exact List.mem_singleton.1 hline ▸ hcond.2
    case isFalse => exact absurd hline List.not_mem_nil
  · rw [StampRequest.stampVersionLine] at hline
    split at hline
    case isTrue => exact List.mem_singleton.1 hline ▸ trivial
    case isFalse => exact absurd hline List.not_mem_nil
  · exact hconst hline
  · obtain ⟨cfg, hcfg, f, hf, hgate, rfl⟩ := mem_cfgRows.1 hline
    exact (hasCfg_of_some hcfg f).2 ⟨hf, hgate⟩
  · exact hconst hline

/-! ### The fields -/

/-- Every field comes back as its digits leave it, and what was not written is not there. -/
structure StampRequest.Delivers (D : Doubles) (C : Digests) (w : StampRequest) (r : StampFields) : Prop where
  modelSha : r.modelSha = (C.sha256 w.model).text
  modelFormatVersion : r.modelFormatVersion = w.formatVersion
  generalizationGap : r.generalizationGap = D.round (.fixed 6) (w.gap D)
  gapThreshold : r.gapThreshold = D.round (.significant 6) w.gapThreshold
  featureRegistryHash : r.featureRegistryHash = w.featureRegistryHash
  engineVersion : r.engineVersion = w.engineVersion.take 15
  stampFormatVersion : r.stampFormatVersion = 3
  hasFlags : ∀ b, r.hasFlags b = w.hasFlags b
  const : ∀ inf, w.inf = some inf → ∀ f, inf.hasFlags f.row.bit = true → r.const f = f.delivered D (inf.const f)
  noConst : ∀ f, w.hasFlags f.row.bit = false → r.const f = f.row.type.zero
  hasCfg : ∀ f, r.hasCfg f = w.hasCfg f
  cfg : ∀ cfg, w.cfg = some cfg → ∀ f ∈ derivedCohort, lookupPopulate cfg f = true → r.cfg f = f.rounded D cfg
  noCfg : ∀ f, w.hasCfg f = false → r.cfg f = 0

/-- A field of the parsed body, from the line of its key. -/
theorem field_of_mem {α : Sort _} {k : StampKey} {get : StampFields → α} {out : List Char → α}
    (hget : Captures D k get out) {val : List Char} (h : (k, val) ∈ w.body D C) (r : StampFields) :
    get ((w.pairs D C).foldl (StampFields.capture D) r) = out val := by
  rw [StampRequest.pairs, foldl_capture fun line hline => body_keys.subset (List.mem_map_of_mem hline)]
  exact hget.foldl_of_mem nodup_body_keys h r

/-- A field whose key the request does not carry. -/
theorem field_of_not_carried {α : Sort _} {k : StampKey} {get : StampFields → α} {out : List Char → α}
    (hget : Captures D k get out) (h : ¬w.carries k) (r : StampFields) :
    get ((w.pairs D C).foldl (StampFields.capture D) r) = get r := by
  rw [StampRequest.pairs, foldl_capture fun line hline => body_keys.subset (List.mem_map_of_mem hline)]
  exact hget.foldl_of_not_mem (fun hmem => h (carries_of_mem hmem)) r

/-- The hash that the body of a request carries is that of its model file. -/
theorem modelSha_pairs (r : StampFields) :
    ((w.pairs D C).foldl (StampFields.capture D) r).modelSha = (C.sha256 w.model).text := by
  have hmem : (.header .modelSha256, (C.sha256 w.model).text) ∈ w.headerLines D C :=
    List.mem_cons_of_mem _ List.mem_cons_self
  rw [field_of_mem captures_modelSha (header_mem_body hmem)]
  exact List.take_of_length_le (by rw [(C.sha256 w.model).length]; decide)

theorem hasFlags_pairs (r : StampFields) (b : StampHasFlagBit) (hr : r.hasFlags b = false) :
    ((w.pairs D C).foldl (StampFields.capture D) r).hasFlags b = w.hasFlags b := by
  rw [StampRequest.pairs, foldl_capture fun line hline => body_keys.subset (List.mem_map_of_mem hline),
    Bool.eq_iff_iff, foldl_hasFlags, hr]
  constructor
  · rintro (hfalse | ⟨f, rfl, hmem⟩)
    · exact absurd hfalse Bool.false_ne_true
    · exact carries_of_mem hmem
  · intro hbit
    obtain ⟨f, -, rfl⟩ := exists_row b
    cases hinf : w.inf with
    | none =>
      rw [StampRequest.hasFlags, hinf] at hbit
      exact absurd hbit Bool.false_ne_true
    | some inf =>
      rw [StampRequest.hasFlags, hinf] at hbit
      exact .inr ⟨f, rfl, List.mem_map_of_mem (f := Prod.fst) (const_mem_body hinf hbit)⟩

theorem hasCfg_pairs (r : StampFields) (f : CfgField) (hr : r.hasCfg f = false) :
    ((w.pairs D C).foldl (StampFields.capture D) r).hasCfg f = w.hasCfg f := by
  by_cases hcarries : w.hasCfg f = true
  · cases hcfg : w.cfg with
    | none =>
      rw [StampRequest.hasCfg, hcfg] at hcarries
      exact absurd hcarries Bool.false_ne_true
    | some cfg =>
      obtain ⟨hf, hgate⟩ := (hasCfg_of_some hcfg f).1 hcarries
      rw [hcarries, field_of_mem (captures_hasCfg f) (cfg_mem_body hcfg hf hgate)]
  · rw [field_of_not_carried (captures_hasCfg f) hcarries, hr, Bool.eq_false_iff.2 hcarries]

/-- What the line loop leaves of a body. -/
theorem delivers_pairs (hversion : 5 ≤ w.formatVersion)
    (hrange : ∀ cfg, w.cfg = some cfg → ∀ f ∈ derivedCohort, lookupPopulate cfg f = true → f.InRange D cfg)
    (gapThreshold : ℚ) :
    w.Delivers D C ((w.pairs D C).foldl (StampFields.capture D) (.init gapThreshold)) where
  modelSha := modelSha_pairs _
  modelFormatVersion := by
    rw [field_of_mem captures_modelFormatVersion (header_mem_body List.mem_cons_self), atoi_decimalInt]
  generalizationGap := by
    have hmem : (.header .gap, D.print (.fixed 6) (w.gap D)) ∈ w.headerLines D C := by simp [StampRequest.headerLines]
    rw [field_of_mem captures_gap (header_mem_body hmem), D.parse_fixed]
  gapThreshold := by
    have hmem : (.header .gapThreshold, D.print (.significant 6) w.gapThreshold) ∈ w.headerLines D C := by
      simp [StampRequest.headerLines]
    rw [field_of_mem captures_gapThreshold (header_mem_body hmem), D.parse_significant]
  featureRegistryHash := by
    by_cases hzero : w.featureRegistryHash = 0
    · rw [field_of_not_carried captures_featureRegistryHash (fun h => h hzero), hzero]
      rfl
    · have hmem : (.header .featureRegistryHash, hex16 w.featureRegistryHash) ∈ w.hashLine := by
        rw [StampRequest.hashLine, if_pos ⟨hversion, hzero⟩]
        exact List.mem_cons_self
      rw [field_of_mem captures_featureRegistryHash (mem_body.2 (.inr (.inl hmem))), strtoullHex_hex16]
  engineVersion := by
    by_cases hnil : w.engineVersion = []
    · rw [field_of_not_carried captures_engineVersion (fun h => h hnil), hnil]
      rfl
    · have hmem : (.header .engineVersion, w.engineVersion) ∈ w.engineVersionLine := by
        rw [StampRequest.engineVersionLine, if_pos ⟨hversion, hnil⟩]
        exact List.mem_cons_self
      rw [field_of_mem captures_engineVersion (mem_body.2 (.inr (.inr (.inl hmem))))]
  stampFormatVersion := by
    have hmem : (.header .stampFormatVersion, decimalInt 3) ∈ w.stampVersionLine := by
      rw [StampRequest.stampVersionLine, if_pos hversion]
      exact List.mem_cons_self
    rw [field_of_mem captures_stampFormatVersion (mem_body.2 (.inr (.inr (.inr (.inl hmem)))))]
    exact atoi_decimalInt 3
  hasFlags b := hasFlags_pairs _ b rfl
  const inf hinf f h := by
    rw [field_of_mem (captures_const f) (const_mem_body hinf h), f.parse_print]
  noConst f h := by
    rw [field_of_not_carried (captures_const f) (Bool.eq_false_iff.1 h)]
    rfl
  hasCfg f := hasCfg_pairs _ f rfl
  cfg cfg hcfg f hf h := by
    rw [field_of_mem (captures_cfg f) (cfg_mem_body hcfg hf h), f.parse_emit cfg (hrange cfg hcfg f hf h)]
  noCfg f h := by
    rw [field_of_not_carried (captures_cfg f) (Bool.eq_false_iff.1 h)]
    rfl

/-! ### The verdict -/

/-- What a loader expects that was built with the registries of the request. -/
structure StampExpectation.Matches (e : StampExpectation) (w : StampRequest) : Prop where
  formatVersion : e.formatVersion = w.formatVersion
  featureRegistryHash : e.featureRegistryHash = w.featureRegistryHash
  labelRegistryHash : ∀ inf, w.inf = some inf → inf.hasFlags .labelRegistryHash = true →
    inf.const .labelRegistryHash = e.labelRegistryHash
  featureMask : ∀ inf, w.inf = some inf → inf.hasFlags .featureMask = true → inf.const .featureMask = e.featureMask

theorem labelRegistryHash_of_delivers {e : StampExpectation} {r : StampFields} (he : e.Matches w)
    (hr : w.Delivers D C r) (hne : r.labelRegistryHash ≠ 0) : r.labelRegistryHash = e.labelRegistryHash := by
  by_cases hbit : w.hasFlags .labelRegistryHash = true
  · rw [StampRequest.hasFlags] at hbit
    cases hinf : w.inf with
    | none =>
      rw [hinf] at hbit
      exact absurd hbit Bool.false_ne_true
    | some inf =>
      rw [hinf] at hbit
      exact (hr.const inf hinf .labelRegistryHash hbit).trans (he.labelRegistryHash inf hinf hbit)
  · exact absurd (hr.noConst .labelRegistryHash (Bool.eq_false_iff.2 hbit)) hne

theorem featureMask_of_delivers {e : StampExpectation} {r : StampFields} (he : e.Matches w)
    (hr : w.Delivers D C r) (hbit : r.hasFlags .featureMask = true) : r.featureMask = e.featureMask := by
  rw [hr.hasFlags, StampRequest.hasFlags] at hbit
  cases hinf : w.inf with
  | none =>
    rw [hinf] at hbit
    exact absurd hbit Bool.false_ne_true
  | some inf =>
    rw [hinf] at hbit
    exact (hr.const inf hinf .featureMask hbit).trans (he.featureMask inf hinf hbit)

/-- No check before the signature fails on what was delivered. -/
theorem stampFault_of_delivers {e : StampExpectation} {r : StampFields} (he : e.Matches w) (hr : w.Delivers D C r)
    (hgap : D.round (.significant 6) w.gapThreshold = 0 ∨
      D.round (.fixed 6) (w.gap D) ≤ D.round (.significant 6) w.gapThreshold) :
    stampFault C e (some w.model) r = none := by
  have hversion : r.stampFormatVersion.toUInt32 = 3 := by rw [hr.stampFormatVersion]; decide
  have hformat : r.modelFormatVersion = e.formatVersion := hr.modelFormatVersion.trans he.formatVersion.symm
  have hfeature : r.featureRegistryHash = e.featureRegistryHash :=
    hr.featureRegistryHash.trans he.featureRegistryHash.symm
  rw [← hr.gapThreshold, ← hr.generalizationGap] at hgap
  rw [stampFault, hversion, if_neg (by decide), if_neg (by decide), if_neg (fun hne => hne hformat),
    if_neg (fun hne => hne.2.2 hfeature),
    if_neg (fun hne => hne.2.2 (labelRegistryHash_of_delivers he hr hne.2.1)),
    if_neg (fun hne => hne.2.2 (featureMask_of_delivers he hr hne.2.1)),
    if_neg (fun hne => hgap.elim hne.1 (not_le.2 hne.2))]
  rw [if_neg (fun hne => hne.2 hr.modelSha)]

/-- The file of a request that was signed. -/
theorem signed_file {file : List Char} (hsecret : w.secret ≠ []) (h : stampWriteForModel D C w = .ok file) :
    file = render (w.pairs D C) ++ (signatureLine (C.hmac w.secret (render (w.pairs D C))) ++ ['\n']) := by
  rw [(stamp_of_write h).1, signature, if_neg hsecret]
  exact congrArg (_ ++ ·) (List.append_nil _)

/-- What the reader makes of a signed stamp that its buffers hold. -/
theorem verdict_of_fits (hsecret : w.secret ≠ []) (hversion : 5 ≤ w.formatVersion) (hfits : w.FitsReader D C)
    {e : StampExpectation} (he : e.Matches w) {file : List Char} (h : stampWriteForModel D C w = .ok file)
    (gapThreshold : ℚ) :
    (verifyModelStamp D C (some file) (some w.model) w.secret gapThreshold e).valid = 1 ∧
      (verifyModelStamp D C (some file) (some w.model) w.secret gapThreshold e).fields =
        (w.pairs D C).foldl (StampFields.capture D) (.init gapThreshold) := by
  have hfault := stampFault_of_delivers he (delivers_pairs (C := C) hversion hfits.inRange gapThreshold) hfits.gap
  have hread := readStamp_signed hfits (C.hmac w.secret (render (w.pairs D C))) gapThreshold
  have hcontent : ((w.pairs D C).foldl (fun b kv => b.append (kv.line ++ ['\n'])) ⟨[], []⟩ : CanonicalBuf).content =
      render (w.pairs D C) := by
    refine foldl_append rfl ?_
    rw [List.length_nil, Nat.zero_add]
    exact (stamp_of_write h).2.1
  have hne : file ≠ [] := by
    rw [signed_file hsecret h]
    exact List.append_ne_nil_of_right_ne_nil _ (List.append_ne_nil_of_right_ne_nil _ (List.cons_ne_nil _ _))
  rw [verifyModelStamp, if_neg hne, signed_file hsecret h, hread, StampScan.judge, hfault]
  dsimp only
  rw [signatureVerdict, if_neg hsecret, hcontent, if_pos rfl]
  exact ⟨rfl, rfl⟩

/-! ### A request -/

/-- The digits of four words. -/
def HexDigest.ofWords (a b c d : UInt64) : HexDigest where
  text := hex16 a ++ hex16 b ++ hex16 c ++ hex16 d
  length := by simp only [List.length_append, length_hex16]
  digits := by
    simp only [List.forall_mem_append]
    exact ⟨⟨⟨fun _ => isHexDigit_of_mem_hex16, fun _ => isHexDigit_of_mem_hex16⟩, fun _ => isHexDigit_of_mem_hex16⟩,
      fun _ => isHexDigit_of_mem_hex16⟩

/-- A number with its text under a conversion. -/
structure PrintedDouble where
  format : RealFormat
  value : ℚ
  text : String

/-- The numbers of the request; any other number is printed as zero. -/
def printedDoubles : List PrintedDouble :=
  [⟨.significant 6, 1 / 2, "0.5"⟩, ⟨.significant 6, 1 / 4, "0.25"⟩, ⟨.fixed 6, 1 / 4, "0.250000"⟩,
    ⟨.significant 17, 1 / 2, "0.5"⟩, ⟨.significant 6, 3 / 2, "1.5"⟩, ⟨.money, 0, "0.00000000"⟩]

def printedDouble (f : RealFormat) (q : ℚ) : Option PrintedDouble :=
  printedDoubles.find? fun p => p.format = f ∧ p.value = q

def parsedDouble (text : List Char) : ℚ :=
  ((printedDoubles.find? fun p => p.text.toList = text).map PrintedDouble.value).getD 0

theorem parsedDouble_text : ∀ p ∈ printedDoubles, parsedDouble p.text.toList = p.value := by decide +kernel

theorem parsedDouble_print (f : RealFormat) (q : ℚ) :
    parsedDouble (((printedDouble f q).map fun p => p.text.toList).getD ['0']) =
      ((printedDouble f q).map PrintedDouble.value).getD 0 := by
  cases hprinted : printedDouble f q with
  | none => decide +kernel
  | some p => exact parsedDouble_text p (List.mem_of_find?_eq_some hprinted)

theorem plain_printedDouble (f : RealFormat) (q : ℚ) :
    PlainText (((printedDouble f q).map fun p => p.text.toList).getD ['0']) ∧
      (((printedDouble f q).map fun p => p.text.toList).getD ['0']).length ≤ 320 := by
  have hall : ∀ p ∈ printedDoubles, '\n' ∉ p.text.toList ∧ '\x00' ∉ p.text.toList ∧ p.text.toList.length ≤ 320 := by
    decide +kernel
  cases hprinted : printedDouble f q with
  | none => exact ⟨⟨by decide, by decide⟩, by decide⟩
  | some p =>
    obtain ⟨hnl, hnul, hlen⟩ := hall p (List.mem_of_find?_eq_some hprinted)
    exact ⟨⟨hnl, hnul⟩, hlen⟩

def sampleDoubles : Doubles where
  sub a b := a - b
  print f q := ((printedDouble f q).map fun p => p.text.toList).getD ['0']
  round f q := ((printedDouble f q).map PrintedDouble.value).getD 0
  parse := parsedDouble
  parseMoney := parsedDouble
  parse_significant _ q := parsedDouble_print _ q
  parse_fixed _ q := parsedDouble_print _ q
  parseMoney_print q := parsedDouble_print _ q
  plain f q := (plain_printedDouble f q).1
  length_print f q := (plain_printedDouble f q).2

/-- Labels of a hundred ticks, and nothing else. -/
def sampleInputs : StampInferenceCfgInputs where
  hasFlags b := b = .labelParams ∨ b = .labelRegistryHash
  const
    | .labelLookaheadTicks => (100 : Int32)
    | .labelTpPct => (3 / 2 : ℚ)
    | .labelSlPct => (1 / 2 : ℚ)
    | .labelRegistryHash => (0x5ca1ab1e : UInt64)
    | f => f.row.type.zero
  plain f := by
    cases f
    all_goals first | exact trivial | exact ⟨List.not_mem_nil, List.not_mem_nil⟩

/-- Exp3 bandits, with the priors of the other algorithms at their defaults. -/
def sampleConfig : ControllerConfig where
  scalar f :=
    if f = .winsorPctHigh then 1 / 2 else if f = .thompsonPrecisionPrior ∨ f = .thompsonPrecisionObs then 1 else 0
  mlCfgFlags b := b = .banditEnabled
  gateCfgFlags _ := false
  pollInterval := 100
  xgbSubsample := 1 / 2
  xgbColsampleBytree := 1 / 2
  xgbMinChildWeight := 1
  xgbSeed := 42
  xgbTreeMethod := "hist".toList
  xgbTrainNthread := 1
  acknowledgeInferenceCfgDrift := false
  acknowledgeCrossBinaryDrift := false
  holds f := by
    cases f
    all_goals first | exact trivial | exact ⟨0, rfl⟩

/-- An empty model, stamped by an engine of the current version. -/
def sampleRequest : StampRequest where
  model := [0x7b, 0x7d]
  secret := "operator".toList
  formatVersion := 5
  trainedOn := "BTCUSDT".toList
  wfMeanVal := 1 / 2
  heldOutMetric := 1 / 4
  gapThreshold := 1 / 2
  force := false
  featureRegistryHash := 0xfea7
  engineVersion := engineVersionString
  inf := some sampleInputs
  cfg := some sampleConfig
  plain_trainedOn := ⟨by decide +kernel, by decide +kernel⟩
  plain_engineVersion := ⟨by decide +kernel, by decide +kernel⟩

def sampleSha256 : HexDigest :=
  .ofWords 0x44136fa355b3678a 0x1146ad16f7e8649e 0x94fb4fc21fe77e83 0x10c060f61caaff8a

def noDigest : HexDigest := .ofWords 0 0 0 0

/-- The digests of the request: its model, and its body under the secret of its operator. -/
def sampleDigests : Digests where
  sha256 _ := sampleSha256
  hmac secret body :=
    if secret = "operator".toList ∧
        body = render (sampleRequest.pairs sampleDoubles ⟨fun _ => sampleSha256, fun _ _ => noDigest⟩) then
      .ofWords 0xa213ea18e15a371b 0x0aa0fdda1fc02d31 0xb812348f3e28f4b4 0x6130e769b4b1a5c1
    else noDigest

def sampleExpectation : StampExpectation := ⟨5, 0xfea7, 0x5ca1ab1e, 0⟩

theorem sample_written : ∃ file, stampWriteForModel sampleDoubles sampleDigests sampleRequest = .ok file := by
  have hgap : ¬(sampleRequest.gapThreshold < sampleRequest.gap sampleDoubles ∧ sampleRequest.force = false) := by
    decide +kernel
  have hfits : ((sampleRequest.chunks sampleDoubles sampleDigests).foldl appendChunk []).length < bodyCapacity := by
    decide +kernel
  rw [stampWriteForModel, if_neg hgap]
  dsimp only
  rw [if_neg (Nat.not_le.2 hfits)]
  exact ⟨_, rfl⟩

theorem sample_fits : sampleRequest.FitsReader sampleDoubles sampleDigests where
  lines := by decide +kernel
  file := by decide +kernel
  gap := by decide +kernel
  inRange cfg hcfg := by
    obtain rfl := Option.some.inj hcfg
    decide +kernel

theorem sample_matches : sampleExpectation.Matches sampleRequest where
  formatVersion := rfl
  featureRegistryHash := rfl
  labelRegistryHash inf hinf _ := by
    obtain rfl := Option.some.inj hinf
    rfl
  featureMask inf hinf hbit := by
    obtain rfl := Option.some.inj hinf
    exact absurd hbit (by decide)

/-! ### Main results -/

/-- A stamp that was written without force under a secret, and that the buffers of the reader hold, is
    accepted beside its model, and every field comes back as its digits leave it. -/
theorem verifyModelStamp_of_write (D : Doubles) (C : Digests) (w : StampRequest) (hsecret : w.secret ≠ [])
    (hversion : 5 ≤ w.formatVersion) (hforce : w.force = false) (hfits : w.FitsReader D C) (e : StampExpectation)
    (he : e.Matches w) (file : List Char) (h : stampWriteForModel D C w = .ok file) :
    w.gap D ≤ w.gapThreshold ∧
      (verifyModelStamp D C (some file) (some w.model) w.secret w.gapThreshold e).valid = 1 ∧
      w.Delivers D C (verifyModelStamp D C (some file) (some w.model) w.secret w.gapThreshold e).fields := by
  obtain ⟨hvalid, hfields⟩ := verdict_of_fits hsecret hversion hfits he h w.gapThreshold
  refine ⟨not_lt.1 fun hgap => (stamp_of_write h).2.2 ⟨hgap, hforce⟩, hvalid, ?_⟩
  rw [hfields]
  exact delivers_pairs hversion hfits.inRange w.gapThreshold

theorem sample_verified : ∃ file, stampWriteForModel sampleDoubles sampleDigests sampleRequest = .ok file ∧
    sampleRequest.gap sampleDoubles ≤ sampleRequest.gapThreshold ∧
      (verifyModelStamp sampleDoubles sampleDigests (some file) (some sampleRequest.model) sampleRequest.secret
        sampleRequest.gapThreshold sampleExpectation).valid = 1 ∧
      sampleRequest.Delivers sampleDoubles sampleDigests
        (verifyModelStamp sampleDoubles sampleDigests (some file) (some sampleRequest.model) sampleRequest.secret
          sampleRequest.gapThreshold sampleExpectation).fields := by
  obtain ⟨file, h⟩ := sample_written
  have hsecret : sampleRequest.secret ≠ [] := by decide +kernel
  exact ⟨file, h,
    verifyModelStamp_of_write sampleDoubles sampleDigests sampleRequest hsecret (by decide) rfl sample_fits
    sampleExpectation sample_matches file h⟩

/-- The version of the engine itself is longer than what the reader keeps of it. -/
theorem engineVersion_cut :
    ¬∀ (w : StampRequest) (e : StampExpectation) (file : List Char), w.secret ≠ [] → 5 ≤ w.formatVersion →
      w.force = false → e.Matches w → stampWriteForModel sampleDoubles sampleDigests w = .ok file →
      (verifyModelStamp sampleDoubles sampleDigests (some file) (some w.model) w.secret w.gapThreshold e).valid = 1 ∧
        (verifyModelStamp sampleDoubles sampleDigests (some file) (some w.model) w.secret w.gapThreshold
          e).fields.engineVersion = w.engineVersion := by
  intro hclaim
  obtain ⟨file, h⟩ := sample_written
  have hsecret : sampleRequest.secret ≠ [] := by decide +kernel
  obtain ⟨-, hkept⟩ := hclaim sampleRequest sampleExpectation file hsecret (by decide) rfl sample_matches h
  rw [(verdict_of_fits hsecret (by decide) sample_fits sample_matches h _).2,
    (delivers_pairs (by decide) sample_fits.inRange _).engineVersion] at hkept
  exact absurd hkept (by decide +kernel)

end FoxTrader
