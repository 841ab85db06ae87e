import FoxTrader.EnsembleModelZoo
import FoxTrader.Lib.WeightedMean
import Mathlib.Tactic.Linarith
import Mathlib.Tactic.NormNum

/-! # The weighted blend of the horizon models

    Each model of the ensemble is one arm. An arm that is disabled, not loaded or whose prediction is not
    finite has no part in the blend: the others vote on the direction, and unless they are split their
    predictions are averaged under the weights of the bandit, the arm that pulls furthest from one half
    being the dominant one.

    With two arms or more this holds in full, for every weight that is a number
    (`predictEnsembleWeighted_sound_iff`). With one arm nothing but the mask is looked at. -/

namespace FoxTrader

open Lib Lib.Extended

variable {K : Type*}

/-- `ModelHandle`: its backend, whether it has a handle, and what the backend computes for the features
    of this call. -/
structure ModelHandle (K : Type*) where
  backend : ℤ
  handle : Bool
  output : Extended K

def modelBackendNone : ℤ := 0

/-- `Model_IsLoaded`. -/
def modelIsLoaded (m : ModelHandle K) : Bool := m.backend != modelBackendNone && m.handle

variable [Field K]

/-- `Model_Predict`. -/
def modelPredict (m : ModelHandle K) : Extended K :=
  if !m.handle then finite 0 else if m.backend != modelBackendNone then m.output else finite 0

/-- The predictions of the arms, which of them count, and their votes. -/
structure ArmVotes (K : Type*) where
  predictions : ℕ → Extended K
  valid : ℕ → Bool
  nActive : ℕ
  nLong : ℕ
  nShort : ℕ

def ArmVotes.skip (s : ArmVotes K) (i : ℕ) : ArmVotes K :=
  { s with
    predictions := Function.update s.predictions i (finite evenOdds)
    valid := Function.update s.valid i false }

/-- What the second loop adds up. -/
structure BlendSums (K : Type*) where
  sumW : Extended K
  sumWP : Extended K
  bestContrib : Extended K
  bestIdx : ℤ

/-- What a call returns: the blend, the dominant arm and, where the call reaches its end, the
    predictions of the arms. -/
structure EnsembleBlend (K : Type*) where
  value : Extended K
  dominantIdx : ℤ
  perArmPredictions : Option (List (Extended K))

def noSignal : EnsembleBlend K where
  value := finite evenOdds
  dominantIdx := -1
  perArmPredictions := none

variable [LinearOrder K]

def collectStep (models : ℕ → ModelHandle K) (mask : BitVec 32) (s : ArmVotes K) (i : ℕ) : ArmVotes K :=
  if mask.getLsbD i then s.skip i
  else if !modelIsLoaded (models i) then s.skip i
  else
    let p := modelPredict (models i)
    if !p.isFinite then s.skip i
    else
      { predictions := Function.update s.predictions i p
        valid := Function.update s.valid i true
        nActive := s.nActive + 1
        nLong := if lt (finite evenOdds) p then s.nLong + 1 else s.nLong
        nShort := if lt (finite evenOdds) p then s.nShort
          else if lt p (finite evenOdds) then s.nShort + 1 else s.nShort }

def collectVotes (models : ℕ → ModelHandle K) (mask : BitVec 32) (n : ℕ) : ArmVotes K :=
  (List.range n).foldl (collectStep models mask)
    { predictions := fun _ => finite evenOdds, valid := fun _ => false, nActive := 0, nLong := 0, nShort := 0 }

/-- The agreement filter: whether the arms that count are split. -/
def agreementFails (s : ArmVotes K) (minAgreementPct : Extended K) : Bool :=
  if 0 < s.nActive ∧ lt (finite 0) minAgreementPct = true then
    let fracLong : K := s.nLong / s.nActive
    let fracShort : K := s.nShort / s.nActive
    let agreement := if fracShort < fracLong then fracLong else fracShort
    lt (finite agreement) minAgreementPct
  else false

/-- A weight that is not positive is lifted to the smallest one. -/
def blendWeight (w : Extended K) : Extended K := if le w (finite 0) then finite smallestWeight else w

def blendStep (s : ArmVotes K) (weights : ℕ → Extended K) (b : BlendSums K) (i : ℕ) : BlendSums K :=
  if s.valid i then
    let w := blendWeight (weights i)
    let contrib := w * (s.predictions i - finite evenOdds).abs
    let win := lt b.bestContrib contrib
    { sumW := b.sumW + w
      sumWP := b.sumWP + w * s.predictions i
      bestContrib := if win then contrib else b.bestContrib
      bestIdx := if win then i else b.bestIdx }
  else b

def blendSums (s : ArmVotes K) (weights : ℕ → Extended K) (n : ℕ) : BlendSums K :=
  (List.range n).foldl (blendStep s weights)
    { sumW := finite 0, sumWP := finite 0, bestContrib := finite 0, bestIdx := -1 }

/-- `Model_Predict_Ensemble_Weighted`. -/
def predictEnsembleWeighted (models : ℕ → ModelHandle K) (count : ℤ) (weights : ℕ → Extended K)
    (mask : BitVec 32) (minAgreementPct : Extended K) : EnsembleBlend K :=
  if count ≤ 0 then { value := finite 0, dominantIdx := -1, perArmPredictions := none }
  else if count = 1 then
    if mask.getLsbD 0 then noSignal
    else { value := modelPredict (models 0), dominantIdx := 0, perArmPredictions := none }
  else
    let n := min count.toNat ensembleHorizonMax
    let s := collectVotes models mask n
    if agreementFails s minAgreementPct then noSignal
    else
      let b := blendSums s weights n
      if le b.sumW (finite 0) || s.nActive == 0 then noSignal
      else
        { value := b.sumWP / b.sumW
          dominantIdx := b.bestIdx
          perArmPredictions := some ((List.range n).map s.predictions) }

/-! ### The arms that count -/

/-- Enabled, loaded and with a finite prediction. -/
def usable (models : ℕ → ModelHandle K) (mask : BitVec 32) (i : ℕ) : Bool :=
  !mask.getLsbD i && modelIsLoaded (models i) && (modelPredict (models i)).isFinite

def votesLong (models : ℕ → ModelHandle K) (mask : BitVec 32) (i : ℕ) : Bool :=
  usable models mask i && lt (finite evenOdds) (modelPredict (models i))

def votesShort (models : ℕ → ModelHandle K) (mask : BitVec 32) (i : ℕ) : Bool :=
  usable models mask i && lt (modelPredict (models i)) (finite evenOdds)

theorem collectStep_of_not_usable {models : ℕ → ModelHandle K} {mask : BitVec 32} {i : ℕ}
    (h : usable models mask i = false) (s : ArmVotes K) : collectStep models mask s i = s.skip i := by
  unfold usable at h
  unfold collectStep
  cases hm : mask.getLsbD i
  · cases hl : modelIsLoaded (models i)
    · rfl
    · rw [hm, hl, Bool.not_false, Bool.true_and, Bool.true_and] at h
      dsimp only
      rw [h]
      rfl
  · rfl

theorem collectStep_of_usable {models : ℕ → ModelHandle K} {mask : BitVec 32} {i : ℕ}
    (h : usable models mask i = true) (s : ArmVotes K) :
    collectStep models mask s i =
      { predictions := Function.update s.predictions i (modelPredict (models i))
        valid := Function.update s.valid i true
        nActive := s.nActive + 1
        nLong := if lt (finite evenOdds) (modelPredict (models i)) then s.nLong + 1 else s.nLong
        nShort := if lt (finite evenOdds) (modelPredict (models i)) then s.nShort
          else if lt (modelPredict (models i)) (finite evenOdds) then s.nShort + 1 else s.nShort } := by
  unfold usable at h
  obtain ⟨⟨hm, hl⟩, hf⟩ : (mask.getLsbD i = false ∧ modelIsLoaded (models i) = true) ∧
      (modelPredict (models i)).isFinite = true := by simpa using h
  unfold collectStep
  dsimp only
  rw [hm, hl, hf]
  rfl

/-! ### The votes -/

section Votes

variable (models : ℕ → ModelHandle K) (mask : BitVec 32)

theorem collectStep_nActive (s : ArmVotes K) (i : ℕ) :
    (collectStep models mask s i).nActive = s.nActive + if usable models mask i then 1 else 0 := by
  cases h : usable models mask i
  · rw [collectStep_of_not_usable h]
    rfl
  · rw [collectStep_of_usable h]
    rfl

theorem collectStep_nLong (s : ArmVotes K) (i : ℕ) :
    (collectStep models mask s i).nLong = s.nLong + if votesLong models mask i then 1 else 0 := by
  unfold votesLong
  cases h : usable models mask i
  · rw [collectStep_of_not_usable h]
    rfl
  · rw [collectStep_of_usable h, Bool.true_and]
    dsimp only
    split <;> rfl

theorem collectStep_nShort (s : ArmVotes K) (i : ℕ) :
    (collectStep models mask s i).nShort = s.nShort + if votesShort models mask i then 1 else 0 := by
  unfold votesShort
  cases h : usable models mask i
  · rw [collectStep_of_not_usable h]
    rfl
  · rw [collectStep_of_usable h, Bool.true_and]
    dsimp only
    by_cases hl : lt (finite evenOdds) (modelPredict (models i)) = true
    · have hs : lt (modelPredict (models i)) (finite evenOdds) = false := lt_asymm_bool hl
      rw [if_pos hl, hs]
      rfl
    · rw [if_neg hl]
      split <;> rfl

/-- A counter that goes up by one at some arms counts these. -/
theorem foldl_count (count : ArmVotes K → ℕ) (c : ℕ → Bool)
    (hstep : ∀ s i, count (collectStep models mask s i) = count s + if c i then 1 else 0)
    (l : List ℕ) (s : ArmVotes K) :
    count (l.foldl (collectStep models mask) s) = count s + l.countP c := by
  induction l generalizing s with
  | nil => rfl
  | cons i l ih =>
    rw [List.foldl_cons, ih, hstep, List.countP_cons]
    omega

theorem collectVotes_nActive (n : ℕ) :
    (collectVotes models mask n).nActive = (List.range n).countP (usable models mask) :=
  (foldl_count models mask (·.nActive) _ (collectStep_nActive models mask) _ _).trans (Nat.zero_add _)

theorem collectVotes_nLong (n : ℕ) :
    (collectVotes models mask n).nLong = (List.range n).countP (votesLong models mask) :=
  (foldl_count models mask (·.nLong) _ (collectStep_nLong models mask) _ _).trans (Nat.zero_add _)

theorem collectVotes_nShort (n : ℕ) :
    (collectVotes models mask n).nShort = (List.range n).countP (votesShort models mask) :=
  (foldl_count models mask (·.nShort) _ (collectStep_nShort models mask) _ _).trans (Nat.zero_add _)

theorem collectVotes_succ (n : ℕ) :
    collectVotes models mask (n + 1) = collectStep models mask (collectVotes models mask n) n := by
  rw [collectVotes, List.range_succ, List.foldl_append]
  rfl

theorem collectStep_valid (s : ArmVotes K) (i : ℕ) :
    (collectStep models mask s i).valid = Function.update s.valid i (usable models mask i) := by
  cases h : usable models mask i
  · rw [collectStep_of_not_usable h]
    rfl
  · rw [collectStep_of_usable h]

/-- After the loop an arm is valid exactly if it is usable. -/
theorem collectVotes_valid {n i : ℕ} (hi : i < n) :
    (collectVotes models mask n).valid i = usable models mask i := by
  induction n with
  | zero => exact absurd hi (Nat.not_lt_zero i)
  | succ n ih =>
    rw [collectVotes_succ, collectStep_valid]
    by_cases hn : i = n
    · rw [hn, Function.update_self]
    · rw [Function.update_of_ne hn, ih (by omega)]

theorem collectStep_predictions {s : ArmVotes K} {i : ℕ} (h : usable models mask i = true) :
    (collectStep models mask s i).predictions i = modelPredict (models i) := by
  rw [collectStep_of_usable h]
  exact Function.update_self ..

theorem collectStep_predictions_of_ne (s : ArmVotes K) {i j : ℕ} (hne : i ≠ j) :
    (collectStep models mask s j).predictions i = s.predictions i := by
  cases h : usable models mask j
  · rw [collectStep_of_not_usable h]
    exact Function.update_of_ne hne ..
  · rw [collectStep_of_usable h]
    exact Function.update_of_ne hne ..

theorem collectVotes_predictions {n i : ℕ} (hi : i < n) (h : usable models mask i = true) :
    (collectVotes models mask n).predictions i = modelPredict (models i) := by
  induction n with
  | zero => exact absurd hi (Nat.not_lt_zero i)
  | succ n ih =>
    rw [collectVotes_succ]
    by_cases hn : i = n
    · rw [← hn]
      exact collectStep_predictions models mask h
    · rw [collectStep_predictions_of_ne models mask _ hn, ih (by omega)]

end Votes

/-! ### The blend -/

/-- The weight is a positive number unless it is no number or infinite. -/
theorem blendWeight_finite [IsStrictOrderedRing K] {w : Extended K} (hnan : w ≠ nan) (hinf : w ≠ posInf) :
    ∃ x, 0 < x ∧ blendWeight w = finite x := by
  have hsmall : (0 : K) < smallestWeight := by unfold smallestWeight; positivity
  cases w with
  | finite x =>
    unfold blendWeight
    rw [le_finite]
    by_cases hx : x ≤ 0
    · exact ⟨smallestWeight, hsmall, if_pos (decide_eq_true hx)⟩
    · exact ⟨x, not_le.1 hx, if_neg (by simpa using hx)⟩
  | posInf => exact absurd rfl hinf
  | negInf => exact ⟨smallestWeight, hsmall, rfl⟩
  | nan => exact absurd rfl hnan

theorem blendWeight_not_below [IsStrictOrderedRing K] (w : Extended K) :
    lt (blendWeight w) (finite 0) = false := by
  by_cases hnan : w = nan
  · rw [hnan]
    rfl
  by_cases hinf : w = posInf
  · rw [hinf]
    rfl
  obtain ⟨x, hx, hw⟩ := blendWeight_finite hnan hinf
  rw [hw, lt_finite, decide_eq_false_iff_not]
  exact hx.asymm

theorem blendWeight_isFinite_iff [IsStrictOrderedRing K] (w : Extended K) :
    (blendWeight w).isFinite = true ↔ w ≠ nan ∧ w ≠ posInf := by
  constructor
  · intro h
    constructor
    · rintro rfl
      cases h
    · rintro rfl
      cases h
  · rintro ⟨hnan, hinf⟩
    obtain ⟨x, -, hx⟩ := blendWeight_finite hnan hinf
    rw [hx, isFinite_finite]

section Blend

variable (s : ArmVotes K) (weights : ℕ → Extended K)

/-- An arm that is not valid adds nothing. -/
theorem foldl_blendStep_filter (l : List ℕ) (b : BlendSums K) :
    l.foldl (blendStep s weights) b = (l.filter s.valid).foldl (blendStep s weights) b := by
  induction l generalizing b with
  | nil => rfl
  | cons i l ih =>
    cases h : s.valid i
    · rw [List.foldl_cons, List.filter_cons_of_neg (by rw [h]; exact Bool.false_ne_true), ih, blendStep, h,
        if_neg Bool.false_ne_true]
    · rw [List.foldl_cons, List.filter_cons_of_pos h, List.foldl_cons, ih]

theorem foldl_blendStep_sumW {l : List ℕ} (hl : ∀ i ∈ l, s.valid i = true) (b : BlendSums K) :
    (l.foldl (blendStep s weights) b).sumW = l.foldl (fun t i => t + blendWeight (weights i)) b.sumW := by
  induction l generalizing b with
  | nil => rfl
  | cons i l ih =>
    rw [List.foldl_cons, ih (fun j hj => hl j (List.mem_cons_of_mem _ hj)), blendStep,
      if_pos (hl i List.mem_cons_self)]
    rfl

theorem foldl_blendStep_sumWP {l : List ℕ} (hl : ∀ i ∈ l, s.valid i = true) (b : BlendSums K) :
    (l.foldl (blendStep s weights) b).sumWP =
      l.foldl (fun t i => t + blendWeight (weights i) * s.predictions i) b.sumWP := by
  induction l generalizing b with
  | nil => rfl
  | cons i l ih =>
    rw [List.foldl_cons, ih (fun j hj => hl j (List.mem_cons_of_mem _ hj)), blendStep,
      if_pos (hl i List.mem_cons_self)]
    rfl

theorem blendStep_bestIdx (b : BlendSums K) (i : ℕ) :
    (blendStep s weights b i).bestIdx = b.bestIdx ∨
      s.valid i = true ∧ (blendStep s weights b i).bestIdx = i := by
  unfold blendStep
  cases h : s.valid i
  · exact Or.inl rfl
  · rw [if_pos rfl]
    dsimp only
    split
    · exact Or.inr ⟨rfl, rfl⟩
    · exact Or.inl rfl

/-- The dominant arm is none or a valid one. -/
theorem foldl_blendStep_bestIdx (l : List ℕ) (b : BlendSums K) :
    (l.foldl (blendStep s weights) b).bestIdx = b.bestIdx ∨
      ∃ i ∈ l, s.valid i = true ∧ (l.foldl (blendStep s weights) b).bestIdx = (i : ℕ) := by
  induction l generalizing b with
  | nil => exact Or.inl rfl
  | cons i l ih =>
    rw [List.foldl_cons]
    rcases ih (blendStep s weights b i) with h | ⟨j, hj, hv, h⟩
    · rw [h]
      rcases blendStep_bestIdx s weights b i with hi | ⟨hv, hi⟩
      · exact Or.inl hi
      · exact Or.inr ⟨i, List.mem_cons_self, hv, hi⟩
    · exact Or.inr ⟨j, List.mem_cons_of_mem _ hj, hv, h⟩

end Blend

/-! ### What a call returns -/

/-- An arm a call with this count looks at and that counts. -/
def Counts (models : ℕ → ModelHandle K) (mask : BitVec 32) (count : ℤ) (i : ℕ) : Prop :=
  i < min count.toNat ensembleHorizonMax ∧ usable models mask i = true

/-- What a call is meant to return: no edge, or a value between the predictions of two arms that count;
    no dominant arm, or one that counts; and the same whatever the other arms are. -/
structure BlendSound (models : ℕ → ModelHandle K) (count : ℤ) (weights : ℕ → Extended K) (mask : BitVec 32)
    (minAgreementPct : Extended K) : Prop where
  value : (predictEnsembleWeighted models count weights mask minAgreementPct).value = finite evenOdds ∨
    ∃ v, (predictEnsembleWeighted models count weights mask minAgreementPct).value = finite v ∧
      (∃ i p, Counts models mask count i ∧ modelPredict (models i) = finite p ∧ p ≤ v) ∧
      ∃ j q, Counts models mask count j ∧ modelPredict (models j) = finite q ∧ v ≤ q
  dominant : (predictEnsembleWeighted models count weights mask minAgreementPct).dominantIdx = -1 ∨
    ∃ i : ℕ, Counts models mask count i ∧
      (predictEnsembleWeighted models count weights mask minAgreementPct).dominantIdx = i
  isolated : ∀ (models' : ℕ → ModelHandle K) (weights' : ℕ → Extended K),
    (∀ i < min count.toNat ensembleHorizonMax, usable models' mask i = usable models mask i ∧
      (usable models mask i = true → models' i = models i ∧ weights' i = weights i)) →
    predictEnsembleWeighted models' count weights' mask minAgreementPct =
      predictEnsembleWeighted models count weights mask minAgreementPct

/-- The arms that count are split: neither side has the share of them that is asked for. -/
def SplitVote (models : ℕ → ModelHandle K) (mask : BitVec 32) (n : ℕ) (minAgreementPct : Extended K) : Prop :=
  let active := (List.range n).countP (usable models mask)
  0 < active ∧ lt (finite 0) minAgreementPct = true ∧
    lt (finite (((List.range n).countP (votesLong models mask) : K) / active)) minAgreementPct = true ∧
    lt (finite (((List.range n).countP (votesShort models mask) : K) / active)) minAgreementPct = true

omit [Field K] in
theorem lt_max_iff (a b : K) (m : Extended K) :
    lt (finite (if b < a then a else b)) m = true ↔ lt (finite a) m = true ∧ lt (finite b) m = true := by
  cases m with
  | finite x =>
    rw [lt_finite, lt_finite, lt_finite, decide_eq_true_eq, decide_eq_true_eq, decide_eq_true_eq]
    by_cases h : b < a
    · rw [if_pos h]
      exact ⟨fun ha => ⟨ha, h.trans ha⟩, And.left⟩
    · rw [if_neg h]
      exact ⟨fun hb => ⟨(not_lt.1 h).trans_lt hb, hb⟩, And.right⟩
  | posInf => exact ⟨fun _ => ⟨rfl, rfl⟩, fun _ => rfl⟩
  | negInf => exact ⟨fun h => ⟨h, h⟩, And.left⟩
  | nan => exact ⟨fun h => ⟨h, h⟩, And.left⟩

/-- The agreement filter stops exactly a split vote. -/
theorem agreementFails_iff (models : ℕ → ModelHandle K) (mask : BitVec 32) (n : ℕ)
    (minAgreementPct : Extended K) :
    agreementFails (collectVotes models mask n) minAgreementPct = true ↔
      SplitVote models mask n minAgreementPct := by
  unfold agreementFails SplitVote
  rw [collectVotes_nActive, collectVotes_nLong, collectVotes_nShort]
  dsimp only
  by_cases h : 0 < (List.range n).countP (usable models mask) ∧ lt (finite 0) minAgreementPct = true
  · rw [if_pos h, lt_max_iff]
    exact ⟨fun hs => ⟨h.1, h.2, hs⟩, fun hs => hs.2.2⟩
  · rw [if_neg h]
    exact ⟨fun hf => absurd hf Bool.false_ne_true, fun hs => absurd ⟨hs.1, hs.2.1⟩ h⟩

omit [LinearOrder K] in
theorem predict_isFinite {models : ℕ → ModelHandle K} {mask : BitVec 32} {i : ℕ}
    (h : usable models mask i = true) : (modelPredict (models i)).isFinite = true := by
  unfold usable at h
  exact (Bool.and_eq_true_iff.1 h).2

/-- The arms that count, in order. -/
def usableArms (models : ℕ → ModelHandle K) (mask : BitVec 32) (n : ℕ) : List ℕ :=
  (List.range n).filter (usable models mask)

omit [LinearOrder K] in
theorem mem_usableArms {models : ℕ → ModelHandle K} {mask : BitVec 32} {n i : ℕ} :
    i ∈ usableArms models mask n ↔ i < n ∧ usable models mask i = true := by
  rw [usableArms, List.mem_filter, List.mem_range]

section Sums

variable (models : ℕ → ModelHandle K) (mask : BitVec 32) (weights : ℕ → Extended K) (n : ℕ)

theorem blendSums_eq_foldl :
    blendSums (collectVotes models mask n) weights n =
      (usableArms models mask n).foldl (blendStep (collectVotes models mask n) weights)
        { sumW := finite 0, sumWP := finite 0, bestContrib := finite 0, bestIdx := -1 } := by
  rw [blendSums, foldl_blendStep_filter, usableArms]
  congr 1
  exact List.filter_congr fun i hi => collectVotes_valid models mask (List.mem_range.1 hi)

theorem valid_of_mem {i : ℕ} (hi : i ∈ usableArms models mask n) :
    (collectVotes models mask n).valid i = true := by
  obtain ⟨hlt, hu⟩ := mem_usableArms.1 hi
  rw [collectVotes_valid models mask hlt, hu]

theorem blendSums_sumW :
    (blendSums (collectVotes models mask n) weights n).sumW =
      (usableArms models mask n).foldl (fun t i => t + blendWeight (weights i)) (finite 0) := by
  rw [blendSums_eq_foldl, foldl_blendStep_sumW _ _ fun i => valid_of_mem models mask n]

theorem blendSums_sumWP :
    (blendSums (collectVotes models mask n) weights n).sumWP =
      (usableArms models mask n).foldl (fun t i => t + blendWeight (weights i) * modelPredict (models i))
        (finite 0) := by
  rw [blendSums_eq_foldl, foldl_blendStep_sumWP _ _ fun i => valid_of_mem models mask n]
  refine List.foldl_ext _ _ _ fun t i hi => ?_
  obtain ⟨hlt, hu⟩ := mem_usableArms.1 hi
  rw [collectVotes_predictions models mask hlt hu]

variable {models mask weights n} [IsStrictOrderedRing K]

/-- Under weights that are numbers the blend is a weighted mean of the predictions that count. -/
theorem blend_of_numbers (hne : usableArms models mask n ≠ [])
    (hw : ∀ i ∈ usableArms models mask n, weights i ≠ nan ∧ weights i ≠ posInf) :
    le (blendSums (collectVotes models mask n) weights n).sumW (finite 0) = false ∧
      ∃ v, (blendSums (collectVotes models mask n) weights n).sumWP /
          (blendSums (collectVotes models mask n) weights n).sumW = finite v ∧
        (∃ i ∈ usableArms models mask n, (modelPredict (models i)).number ≤ v) ∧
        ∃ j ∈ usableArms models mask n, v ≤ (modelPredict (models j)).number := by
  have hx : ∀ i ∈ usableArms models mask n, 0 < (blendWeight (weights i)).number ∧
      blendWeight (weights i) = finite (blendWeight (weights i)).number := by
    intro i hi
    obtain ⟨x, hpos, hx⟩ := blendWeight_finite (hw i hi).1 (hw i hi).2
    rw [hx]
    exact ⟨hpos, rfl⟩
  have hp : ∀ i ∈ usableArms models mask n, blendWeight (weights i) * modelPredict (models i) =
      finite ((blendWeight (weights i)).number * (modelPredict (models i)).number) := by
    intro i hi
    rw [← finite_mul, ← (hx i hi).2, finite_number (predict_isFinite (mem_usableArms.1 hi).2)]
  have hpos := sum_pos_of_pos hne fun i hi => (hx i hi).1
  rw [blendSums_sumW, blendSums_sumWP, foldl_add_of_finite (fun i hi => (hx i hi).2),
    foldl_add_of_finite hp, zero_add, zero_add, finite_div _ hpos.ne', le_finite, decide_eq_false_iff_not]
  exact ⟨hpos.not_ge, _, rfl, exists_le_weightedMean _ hne fun i hi => (hx i hi).1,
    exists_weightedMean_le _ hne fun i hi => (hx i hi).1⟩

/-- One weight that is no number, or infinite, leaves no number. -/
theorem blend_of_not_number {i : ℕ} (hi : i ∈ usableArms models mask n)
    (hw : ¬(weights i ≠ nan ∧ weights i ≠ posInf)) :
    le (blendSums (collectVotes models mask n) weights n).sumW (finite 0) = false ∧
      (blendSums (collectVotes models mask n) weights n).sumWP /
        (blendSums (collectVotes models mask n) weights n).sumW = nan := by
  have hweight : (blendWeight (weights i)).isFinite = false := by
    rw [← Bool.not_eq_true, blendWeight_isFinite_iff]
    exact hw
  have hsumW : (blendSums (collectVotes models mask n) weights n).sumW.isFinite = false := by
    rw [blendSums_sumW, isFinite_foldl_add, isFinite_finite, Bool.true_and, List.all_eq_false]
    exact ⟨i, hi, by rw [hweight]; exact Bool.false_ne_true⟩
  have hsumWP : (blendSums (collectVotes models mask n) weights n).sumWP.isFinite = false := by
    rw [blendSums_sumWP, isFinite_foldl_add, isFinite_finite, Bool.true_and, List.all_eq_false]
    refine ⟨i, hi, ?_⟩
    rw [← finite_number (predict_isFinite (mem_usableArms.1 hi).2), isFinite_mul_finite hweight]
    exact Bool.false_ne_true
  have hbelow : lt (blendSums (collectVotes models mask n) weights n).sumW (finite 0) = false := by
    rw [blendSums_sumW]
    exact foldl_add_not_below (fun i _ => blendWeight_not_below _) (by rw [lt_finite]; simp)
  exact ⟨not_le_zero hbelow hsumW, div_eq_nan hsumWP hsumW⟩

end Sums

/-! ### The arms that do not count -/

section Isolation

variable {models models' : ℕ → ModelHandle K} {mask : BitVec 32} {n : ℕ}

/-- The votes are the same whatever the arms are that do not count. -/
theorem collectVotes_congr (husable : ∀ i < n, usable models' mask i = usable models mask i)
    (hmodels : ∀ i < n, usable models mask i = true → models' i = models i) :
    collectVotes models' mask n = collectVotes models mask n := by
  refine List.foldl_ext _ _ _ fun s i hi => ?_
  have hlt := List.mem_range.1 hi
  cases h : usable models mask i
  · rw [collectStep_of_not_usable h, collectStep_of_not_usable ((husable i hlt).trans h)]
  · rw [collectStep_of_usable h, collectStep_of_usable ((husable i hlt).trans h), hmodels i hlt h]

theorem blendSums_congr {weights weights' : ℕ → Extended K}
    (hweights : ∀ i < n, usable models mask i = true → weights' i = weights i) :
    blendSums (collectVotes models mask n) weights' n = blendSums (collectVotes models mask n) weights n := by
  refine List.foldl_ext _ _ _ fun b i hi => ?_
  have hlt := List.mem_range.1 hi
  cases h : usable models mask i
  · rw [blendStep, blendStep, collectVotes_valid models mask hlt, h, if_neg Bool.false_ne_true,
      if_neg Bool.false_ne_true]
  · rw [blendStep, blendStep, hweights i hlt h]

end Isolation

section Calls

variable {models : ℕ → ModelHandle K} {count : ℤ} {weights : ℕ → Extended K} {mask : BitVec 32}
  {minAgreementPct : Extended K}

theorem predict_of_none (h : count ≤ 0) :
    predictEnsembleWeighted models count weights mask minAgreementPct =
      { value := finite 0, dominantIdx := -1, perArmPredictions := none } := if_pos h

theorem predict_of_one :
    predictEnsembleWeighted models 1 weights mask minAgreementPct =
      if mask.getLsbD 0 then noSignal
      else { value := modelPredict (models 0), dominantIdx := 0, perArmPredictions := none } := rfl

theorem predict_of_many (h : 2 ≤ count) :
    predictEnsembleWeighted models count weights mask minAgreementPct =
      if agreementFails (collectVotes models mask (min count.toNat ensembleHorizonMax)) minAgreementPct then
        noSignal
      else
        let s := collectVotes models mask (min count.toNat ensembleHorizonMax)
        let b := blendSums s weights (min count.toNat ensembleHorizonMax)
        if le b.sumW (finite 0) || s.nActive == 0 then noSignal
        else
          { value := b.sumWP / b.sumW
            dominantIdx := b.bestIdx
            perArmPredictions :=
              some ((List.range (min count.toNat ensembleHorizonMax)).map s.predictions) } := by
  have h0 : ¬count ≤ 0 := by omega
  have h1 : count ≠ 1 := by omega
  rw [predictEnsembleWeighted, if_neg h0, if_neg h1]

/-- With two arms or more a call does not depend on those that do not count. -/
theorem isolated_of_many (h : 2 ≤ count) (models' : ℕ → ModelHandle K) (weights' : ℕ → Extended K)
    (hagree : ∀ i < min count.toNat ensembleHorizonMax, usable models' mask i = usable models mask i ∧
      (usable models mask i = true → models' i = models i ∧ weights' i = weights i)) :
    predictEnsembleWeighted models' count weights' mask minAgreementPct =
      predictEnsembleWeighted models count weights mask minAgreementPct := by
  rw [predict_of_many h, predict_of_many h,
    collectVotes_congr (fun i hi => (hagree i hi).1) fun i hi hu => ((hagree i hi).2 hu).1]
  dsimp only
  rw [blendSums_congr fun i hi hu => ((hagree i hi).2 hu).2]

theorem dominant_of_many (h : 2 ≤ count) :
    (predictEnsembleWeighted models count weights mask minAgreementPct).dominantIdx = -1 ∨
      ∃ i : ℕ, Counts models mask count i ∧
        (predictEnsembleWeighted models count weights mask minAgreementPct).dominantIdx = i := by
  rw [predict_of_many h]
  split_ifs
  · exact Or.inl rfl
  · dsimp only
    split_ifs
    · exact Or.inl rfl
    · rcases foldl_blendStep_bestIdx (collectVotes models mask (min count.toNat ensembleHorizonMax)) weights
        (List.range (min count.toNat ensembleHorizonMax))
        { sumW := finite 0, sumWP := finite 0, bestContrib := finite 0, bestIdx := -1 } with hb | ⟨i, hi, hv, hb⟩
      · exact Or.inl hb
      · have hlt := List.mem_range.1 hi
        rw [collectVotes_valid models mask hlt] at hv
        exact Or.inr ⟨i, ⟨hlt, hv⟩, hb⟩

/-- A single arm is looked at by the mask alone. -/
theorem sound_one_iff [IsStrictOrderedRing K] :
    BlendSound models 1 weights mask minAgreementPct ↔
      mask.getLsbD 0 = true ∨ usable models mask 0 = true := by
  constructor
  · intro h
    by_contra hno
    obtain ⟨hmask, hu⟩ := not_or.1 hno
    have hdom : (predictEnsembleWeighted models 1 weights mask minAgreementPct).dominantIdx = 0 := by
      rw [predict_of_one, if_neg hmask]
    rcases h.dominant with hd | ⟨i, ⟨hlt, hi⟩, -⟩
    · rw [hdom] at hd
      cases hd
    · obtain rfl : i = 0 := by rw [ensembleHorizonMax] at hlt; omega
      exact hu hi
  · intro h
    cases hmask : mask.getLsbD 0
    · have hu : usable models mask 0 = true := h.resolve_left (by rw [hmask]; exact Bool.false_ne_true)
      obtain ⟨p, hp⟩ := isFinite_iff.1 (predict_isFinite hu)
      have hcounts : Counts models mask 1 0 := ⟨by decide, hu⟩
      refine ⟨Or.inr ⟨p, ?_, ⟨0, p, hcounts, hp, le_rfl⟩, 0, p, hcounts, hp, le_rfl⟩, Or.inr ⟨0, hcounts, ?_⟩, ?_⟩
      · rw [predict_of_one, hmask, if_neg Bool.false_ne_true, hp]
      · rw [predict_of_one, hmask, if_neg Bool.false_ne_true]
        rfl
      · intro models' weights' hagree
        rw [predict_of_one, predict_of_one, ((hagree 0 (by decide)).2 hu).1]
    · have hsame : ∀ (models' : ℕ → ModelHandle K) (weights' : ℕ → Extended K),
          predictEnsembleWeighted models' 1 weights' mask minAgreementPct = noSignal := by
        intro models' weights'
        rw [predict_of_one, hmask, if_pos rfl]
      refine ⟨Or.inl ?_, Or.inl ?_, fun models' weights' _ => (hsame _ _).trans (hsame _ _).symm⟩
      · rw [hsame]
        rfl
      · rw [hsame]
        rfl

/-- No call with no arm is sound: what it returns is neither. -/
theorem not_sound_none [IsStrictOrderedRing K] (h : count ≤ 0) :
    ¬BlendSound models count weights mask minAgreementPct := by
  intro hs
  rcases hs.value with hv | ⟨v, -, ⟨i, p, ⟨hlt, -⟩, -⟩, -⟩
  · rw [predict_of_none h] at hv
    injection hv with hv
    unfold evenOdds at hv
    norm_num at hv
  · omega

theorem value_of_split (h : 2 ≤ count)
    (hs : SplitVote models mask (min count.toNat ensembleHorizonMax) minAgreementPct) :
    predictEnsembleWeighted models count weights mask minAgreementPct = noSignal := by
  rw [predict_of_many h, if_pos ((agreementFails_iff ..).2 hs)]

theorem usableArms_ne_nil_iff (n : ℕ) :
    usableArms models mask n ≠ [] ↔ (collectVotes models mask n).nActive ≠ 0 := by
  rw [collectVotes_nActive, List.countP_eq_length_filter, ne_eq, ne_eq, List.length_eq_zero_iff, usableArms]

/-- The blend of a vote that is not split. -/
theorem value_of_blend (h : 2 ≤ count)
    (hs : ¬SplitVote models mask (min count.toNat ensembleHorizonMax) minAgreementPct)
    (hne : usableArms models mask (min count.toNat ensembleHorizonMax) ≠ [])
    (hle : le (blendSums (collectVotes models mask (min count.toNat ensembleHorizonMax)) weights
      (min count.toNat ensembleHorizonMax)).sumW (finite 0) = false) :
    (predictEnsembleWeighted models count weights mask minAgreementPct).value =
      (blendSums (collectVotes models mask (min count.toNat ensembleHorizonMax)) weights
        (min count.toNat ensembleHorizonMax)).sumWP /
      (blendSums (collectVotes models mask (min count.toNat ensembleHorizonMax)) weights
        (min count.toNat ensembleHorizonMax)).sumW := by
  have hactive := (usableArms_ne_nil_iff _).1 hne
  rw [predict_of_many h, if_neg (mt (agreementFails_iff ..).1 hs)]
  dsimp only
  rw [hle, Bool.false_or, if_neg (mt beq_iff_eq.1 hactive)]

theorem value_of_no_arm (h : 2 ≤ count)
    (hnone : usableArms models mask (min count.toNat ensembleHorizonMax) = []) :
    (predictEnsembleWeighted models count weights mask minAgreementPct).value = finite evenOdds := by
  have hactive : (collectVotes models mask (min count.toNat ensembleHorizonMax)).nActive = 0 := by
    by_contra hne
    exact (usableArms_ne_nil_iff _).2 hne hnone
  rw [predict_of_many h]
  split_ifs
  · rfl
  · dsimp only
    rw [hactive, beq_self_eq_true, Bool.or_true, if_pos rfl]
    rfl

theorem sound_many_iff [IsStrictOrderedRing K] (h : 2 ≤ count) :
    BlendSound models count weights mask minAgreementPct ↔
      SplitVote models mask (min count.toNat ensembleHorizonMax) minAgreementPct ∨
        ∀ i < min count.toNat ensembleHorizonMax, usable models mask i = true →
          weights i ≠ nan ∧ weights i ≠ posInf := by
  constructor
  · intro hsound
    by_contra hno
    obtain ⟨hs, hw⟩ := not_or.1 hno
    push Not at hw
    obtain ⟨i, hlt, hu, hweight⟩ := hw
    have hi : i ∈ usableArms models mask (min count.toNat ensembleHorizonMax) := mem_usableArms.2 ⟨hlt, hu⟩
    have hno : ¬(weights i ≠ nan ∧ weights i ≠ posInf) := fun hn => hn.2 (hweight hn.1)
    obtain ⟨hle, hnan⟩ := blend_of_not_number hi hno
    have hvalue := (value_of_blend h hs (List.ne_nil_of_mem hi) hle).trans hnan
    rcases hsound.value with hv | ⟨v, hv, -⟩
    · cases hvalue.symm.trans hv
    · cases hvalue.symm.trans hv
  · intro hcond
    refine ⟨?_, dominant_of_many h, isolated_of_many h⟩
    by_cases hs : SplitVote models mask (min count.toNat ensembleHorizonMax) minAgreementPct
    · rw [value_of_split h hs]
      exact Or.inl rfl
    by_cases hne : usableArms models mask (min count.toNat ensembleHorizonMax) = []
    · exact Or.inl (value_of_no_arm h hne)
    obtain ⟨hle, v, hv, ⟨i, hi, hiv⟩, j, hj, hjv⟩ := blend_of_numbers hne fun i hi =>
      hcond.resolve_left hs i (mem_usableArms.1 hi).1 (mem_usableArms.1 hi).2
    refine Or.inr ⟨v, (value_of_blend h hs hne hle).trans hv, ⟨i, _, mem_usableArms.1 hi, ?_, hiv⟩,
      j, _, mem_usableArms.1 hj, ?_, hjv⟩
    · exact (finite_number (predict_isFinite (mem_usableArms.1 hi).2)).symm
    · exact (finite_number (predict_isFinite (mem_usableArms.1 hj).2)).symm

end Calls

/-- A call is sound if and only if it has a single arm that is disabled or counts, or more arms that are
    split or whose weights are numbers. -/
theorem predictEnsembleWeighted_sound_iff [IsStrictOrderedRing K] (models : ℕ → ModelHandle K) (count : ℤ)
    (weights : ℕ → Extended K) (mask : BitVec 32) (minAgreementPct : Extended K) :
    BlendSound models count weights mask minAgreementPct ↔
      count = 1 ∧ (mask.getLsbD 0 = true ∨ usable models mask 0 = true) ∨
        2 ≤ count ∧ (SplitVote models mask (min count.toNat ensembleHorizonMax) minAgreementPct ∨
          ∀ i < min count.toNat ensembleHorizonMax, usable models mask i = true →
            weights i ≠ nan ∧ weights i ≠ posInf) := by
  obtain h | rfl | h : count ≤ 0 ∨ count = 1 ∨ 2 ≤ count := by omega
  · refine ⟨fun hs => absurd hs (not_sound_none h), ?_⟩
    rintro (⟨h1, -⟩ | ⟨h2, -⟩)
    · omega
    · omega
  · rw [sound_one_iff]
    exact ⟨fun hc => Or.inl ⟨rfl, hc⟩, fun hc => hc.elim And.right fun h2 => absurd h2.1 (by omega)⟩
  · rw [sound_many_iff h]
    exact ⟨fun hc => Or.inr ⟨h, hc⟩, fun hc => hc.elim (fun h1 => absurd h1.1 (by omega)) And.right⟩

/-- Handles of loaded models. -/
def loadedModels (output : ℕ → Extended ℚ) (i : ℕ) : ModelHandle ℚ where
  backend := 1
  handle := true
  output := output i

theorem predictEnsembleWeighted_sound_two :
    BlendSound (loadedModels fun i => if i = 0 then finite (3 / 4) else nan) 2 (fun _ => finite 1) 0#32
      (finite (1 / 2)) := by
  refine (predictEnsembleWeighted_sound_iff ..).2 (Or.inr ⟨by decide, Or.inr fun i _ _ => ⟨?_, ?_⟩⟩)
  · intro h
    cases h
  · intro h
    cases h

/-- A single enabled arm whose prediction is no number. -/
theorem predictEnsembleWeighted_single_nan :
    (predictEnsembleWeighted (loadedModels fun _ => nan) 1 (fun _ => finite 1) 0#32 (finite 0)).value = nan ∧
      (predictEnsembleWeighted (loadedModels fun _ => nan) 1 (fun _ => finite 1) 0#32 (finite 0)).dominantIdx = 0 ∧
      ¬BlendSound (loadedModels fun _ => nan) 1 (fun _ => finite 1) 0#32 (finite 0) := by
  refine ⟨rfl, rfl, fun h => ?_⟩
  rcases sound_one_iff.1 h with hmask | hu
  · cases hmask
  · cases hu

end FoxTrader
