import FoxTrader.StampAuthenticity

/-! # The threshold a stamp is held to

    The caller of the verifier states the largest gap it accepts. The same field of the result takes the
    threshold of the stamp's own line, which is what the gap is then compared with, and a threshold of
    zero counts as the mark of a stamp of training alone, whatever held-out result it states.

    Every other check the caller asks for holds of the fields of an accepted stamp, in whatever order and
    however often its keys stand in the file. -/

namespace FoxTrader

open Lib

variable {D : Doubles} {C : Digests}

/-! ### The last line of a key -/

/-- The value of the last pair with a key. -/
def lastValue (key : List Char) (kvs : List KeyValue) : Option (List Char) :=
  ((kvs.filter fun kv => kv.key = key).getLast?).map KeyValue.value

theorem lastValue_snoc_self {key : List Char} {kv : KeyValue} (h : kv.key = key) (kvs : List KeyValue) :
    lastValue key (kvs ++ [kv]) = some kv.value := by
  rw [lastValue, List.filter_append, List.filter_singleton, decide_eq_true h, cond_true, List.getLast?_concat]
  rfl

theorem lastValue_snoc_of_ne {key : List Char} {kv : KeyValue} (h : kv.key ≠ key) (kvs : List KeyValue) :
    lastValue key (kvs ++ [kv]) = lastValue key kvs := by
  rw [lastValue, List.filter_append, List.filter_singleton, decide_eq_false h, cond_false, List.append_nil, lastValue]

/-- Of all lines of a key the last one decides its field; without one it stays as it was. -/
theorem Captures.foldl_pairs {α : Type} {k₀ : StampKey} {get : StampFields → α} {out : List Char → α}
    (hget : Captures D k₀ get out) (hk : k₀ ∈ stampKeys) (kvs : List KeyValue) (r : StampFields) :
    get (kvs.foldl (StampFields.capture D) r) = ((lastValue k₀.name kvs).map out).getD (get r) := by
  induction kvs using List.reverseRecOn with
  | nil => rfl
  | append_singleton kvs kv ih =>
    rw [List.foldl_append, List.foldl_cons, List.foldl_nil, StampFields.capture]
    by_cases hkey : kv.key = k₀.name
    · rw [lastValue_snoc_self hkey, hkey, StampKey.ofName_name hk]
      exact hget.self _ _
    · rw [lastValue_snoc_of_ne hkey, ← ih]
      cases hname : StampKey.ofName kv.key with
      | none => rfl
      | some k =>
        rw [StampKey.ofName] at hname
        have hk' : k.name = kv.key := by simpa using List.find?_some hname
        exact hget.other _ k _ fun h => hkey (by rw [← hk', h])

/-! ### What the lines of a file state -/

/-- The value that the lines before the signature state last under a key, as a number. -/
def stated (D : Doubles) (key : HeaderKey) (file : List Char) : Option ℚ :=
  (lastValue (StampKey.header key).name (parsed file)).map D.parse

/-- The gap of a stamp. -/
def stampGap (D : Doubles) (file : List Char) : ℚ := (stated D .gap file).getD 0

/-- The threshold a stamp is held to: its own, or without one the caller's. -/
def usedThreshold (D : Doubles) (gapThreshold : ℚ) (file : List Char) : ℚ :=
  (stated D .gapThreshold file).getD gapThreshold

/-- No held-out result. -/
def TrainingOnly (D : Doubles) (file : List Char) : Prop := (stated D .heldOutMetric file).getD 0 = 0

theorem readStamp_gap (gapThreshold : ℚ) (file : List Char) :
    (readStamp D gapThreshold file).fields.generalizationGap = stampGap D file := by
  rw [readStamp_fields, captures_gap.foldl_pairs (by decide)]
  rfl

theorem readStamp_gapThreshold (gapThreshold : ℚ) (file : List Char) :
    (readStamp D gapThreshold file).fields.gapThreshold = usedThreshold D gapThreshold file := by
  rw [readStamp_fields, captures_gapThreshold.foldl_pairs (by decide)]
  rfl

/-! ### The checks -/

/-- What the caller asked for, of the fields that it gets. -/
structure CallerChecks (D : Doubles) (file : List Char) (gapThreshold : ℚ) (e : StampExpectation)
    (r : StampFields) : Prop where
  formatVersion : r.modelFormatVersion = e.formatVersion
  /-- Three is the oldest version that is supported and the newest. -/
  stampFormatVersion : r.stampFormatVersion.toUInt32 = 3
  featureRegistryHash : e.featureRegistryHash ≠ 0 → r.featureRegistryHash ≠ 0 →
    r.featureRegistryHash = e.featureRegistryHash
  labelRegistryHash : e.labelRegistryHash ≠ 0 → r.labelRegistryHash ≠ 0 →
    r.labelRegistryHash = e.labelRegistryHash
  featureMask : e.featureMask ≠ 0 → r.hasFlags .featureMask = true → r.featureMask = e.featureMask
  gap : ¬TrainingOnly D file → r.generalizationGap ≤ gapThreshold

/-- The checks apart from the gap, and the signature. -/
def OthersPass (C : Digests) (e : StampExpectation) (model : Option (List UInt8)) (secret : List Char)
    (s : StampScan) : Prop :=
  stampFault C e model { s.fields with gapThreshold := 0 } = none ∧ (signatureVerdict C secret s).1 = 1

theorem stampFault_none_iff (e : StampExpectation) (model : Option (List UInt8)) (r : StampFields) :
    stampFault C e model r = none ↔ stampFault C e model { r with gapThreshold := 0 } = none ∧
      (r.gapThreshold = 0 ∨ r.generalizationGap ≤ r.gapThreshold) := by
  have hzero : ¬((0 : ℚ) ≠ 0 ∧ (0 : ℚ) < r.generalizationGap) := fun h => h.1 rfl
  by_cases hgap : r.gapThreshold ≠ 0 ∧ r.gapThreshold < r.generalizationGap
  · have hnot : ¬(r.gapThreshold = 0 ∨ r.generalizationGap ≤ r.gapThreshold) :=
      fun h => h.elim hgap.1 hgap.2.not_ge
    refine ⟨fun h => ?_, fun h => absurd h.2 hnot⟩
    unfold stampFault at h
    rw [if_pos hgap] at h
    split_ifs at h
  · have hok : r.gapThreshold = 0 ∨ r.generalizationGap ≤ r.gapThreshold := by
      by_contra hnot
      rw [not_or, not_le] at hnot
      exact hgap hnot
    have hsame : stampFault C e model r = stampFault C e model { r with gapThreshold := 0 } := by
      unfold stampFault
      rw [if_neg hgap, if_neg hzero]
      rfl
    rw [hsame]
    exact ⟨fun h => ⟨h, hok⟩, And.left⟩

/-- What no fault says of the fields, the gap and the model file apart. -/
theorem checks_of_stampFault {e : StampExpectation} {model : Option (List UInt8)} {r : StampFields}
    (h : stampFault C e model r = none) :
    r.modelFormatVersion = e.formatVersion ∧ r.stampFormatVersion.toUInt32 = 3 ∧
      (e.featureRegistryHash ≠ 0 → r.featureRegistryHash ≠ 0 → r.featureRegistryHash = e.featureRegistryHash) ∧
      (e.labelRegistryHash ≠ 0 → r.labelRegistryHash ≠ 0 → r.labelRegistryHash = e.labelRegistryHash) ∧
      (e.featureMask ≠ 0 → r.hasFlags .featureMask = true → r.featureMask = e.featureMask) := by
  unfold stampFault at h
  split_ifs at h with hnew hold hversion hfeature hlabel hmask hgap
  refine ⟨not_not.1 hversion, UInt32.le_antisymm (UInt32.not_lt.1 hnew) (UInt32.not_lt.1 hold), ?_, ?_, ?_⟩
  · intro he hr
    by_contra hne
    exact hfeature ⟨he, hr, hne⟩
  · intro he hr
    by_contra hne
    exact hlabel ⟨he, hr, hne⟩
  · intro he hr
    by_contra hne
    exact hmask ⟨he, hr, hne⟩

/-! ### Acceptance -/

theorem judge_valid_iff (e : StampExpectation) (model : Option (List UInt8)) (secret : List Char) (s : StampScan) :
    (s.judge C e model secret).valid = 1 ↔
      stampFault C e model s.fields = none ∧ (signatureVerdict C secret s).1 = 1 := by
  rw [StampScan.judge]
  cases hfault : stampFault C e model s.fields with
  | some reason => exact ⟨fun h => absurd h Int.zero_ne_one, fun h => by cases h.1⟩
  | none => exact ⟨fun h => ⟨rfl, h⟩, And.right⟩

theorem judge_fields (e : StampExpectation) (model : Option (List UInt8)) (secret : List Char) (s : StampScan) :
    (s.judge C e model secret).fields = s.fields := by
  rw [StampScan.judge]
  cases stampFault C e model s.fields <;> rfl

/-- A file without a line states no version and is refused as an empty one is. -/
theorem not_others_pass_nil (e : StampExpectation) (model : Option (List UInt8)) (secret : List Char)
    (gapThreshold : ℚ) : ¬OthersPass C e model secret (readStamp D gapThreshold []) := by
  rintro ⟨hfault, -⟩
  cases (checks_of_stampFault hfault).2.1

/-- A stamp is accepted if and only if the other checks pass and the threshold it is held to is zero or
    not below its gap. -/
theorem verifyModelStamp_valid_iff (e : StampExpectation) (model : Option (List UInt8)) (secret : List Char)
    (gapThreshold : ℚ) (file : List Char) :
    (verifyModelStamp D C (some file) model secret gapThreshold e).valid = 1 ↔
      OthersPass C e model secret (readStamp D gapThreshold file) ∧
        (usedThreshold D gapThreshold file = 0 ∨ stampGap D file ≤ usedThreshold D gapThreshold file) := by
  rw [verifyModelStamp]
  by_cases hnil : file = []
  · rw [if_pos hnil, hnil]
    exact ⟨fun h => absurd h Int.zero_ne_one, fun h => (not_others_pass_nil _ _ _ _ h.1).elim⟩
  · rw [if_neg hnil, judge_valid_iff, stampFault_none_iff, readStamp_gap, readStamp_gapThreshold, OthersPass]
    tauto

theorem verifyModelStamp_fields (e : StampExpectation) (model : Option (List UInt8)) (secret : List Char)
    (gapThreshold : ℚ) {file : List Char} (hne : file ≠ []) :
    (verifyModelStamp D C (some file) model secret gapThreshold e).fields =
      (readStamp D gapThreshold file).fields := by
  rw [verifyModelStamp, if_neg hne, judge_fields]

/-- A stamp whose trainer allowed a gap of one half. -/
def generousStamp : List Char :=
  "model_format_version=5\nheld_out_metric=0.25\ngap=0.5\ngap_threshold=0.5\nstamp_format_version=3\n".toList

end FoxTrader
