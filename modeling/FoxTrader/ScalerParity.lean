import FoxTrader.FeatureStandardizer
import Mathlib.Data.List.GetD
import Mathlib.Data.List.Induction
import Mathlib.Data.Rat.Floor

/-! # Serving as trained

    A scaler read back from its file differs from the fitted one in its least scale only, which comes back
    as a truncated 32-bit fraction. A feature is standardised alike if its scale is the same under both, or
    if its bounds leave nothing of it but its mean.

    The flag of the bounds is set by every fit and cleared by every call that refuses to fit, but what clears
    the flag leaves the bounds where they are, and they clip whatever the flag says
    (`servesAsFitted_iff`). -/

namespace FoxTrader

open Lib

namespace FeatureStandardizer

variable {K : Type} [Field K] [LinearOrder K] [FloorRing K]

/-- What a scaler is fitted on. -/
structure ScalerFit (K : Type) where
  matrix : ℕ → K
  numSamples : ℤ
  stddevFloor : K
  winsors : List (WinsorCall K)

def fitted (sqrt : K → K) (featureRegistryHash : BitVec 64) (fit : ScalerFit K) : FeatureStandardizer K :=
  fit.winsors.foldl fitWinsor (compute sqrt featureRegistryHash fit.matrix fit.numSamples fit.stddevFloor)

/-- Whether a call fits bounds, refuses to, or does nothing. -/
def WinsorCall.outcome (call : WinsorCall K) : Option Bool :=
  if call.numSamples ≤ 0 then none
  else if call.pctLow ≤ 0 ∨ call.pctHigh ≥ 1 ∨ call.pctLow ≥ call.pctHigh then some false
  else if call.numSamples > winsorSampleCap then some false
  else some true

def ScalerFit.outcomes (fit : ScalerFit K) : List Bool := fit.winsors.filterMap WinsorCall.outcome

/-- No number is changed by the bounds of a feature unless the flag is set. -/
def ClipsOnlyIfBounds (sc : FeatureStandardizer K) : Prop :=
  ∀ i < numRegisteredFeatures, ∀ x : K, sc.clip i (.finite x) ≠ .finite x → sc.hasWinsorBounds = 1

/-- The loaded scaler gives what the fitted one gives, both clip under the flag only, and nothing else that is
    read but a scaler is ever applied. -/
structure ServesAsFitted (image : DoubleImage K) (sha256 : Sha256Bytes) (content : List UInt8)
    (sc : FeatureStandardizer K) : Prop where
  applies : ∀ features n, (load image sha256 (some content)).2.apply features n = sc.apply features n
  clips : sc.ClipsOnlyIfBounds
  loadedClips : (load image sha256 (some content)).2.ClipsOnlyIfBounds
  refused : ∀ other, (load image sha256 other).1 ≠ 1 →
    ∀ features n, (load image sha256 other).2.apply features n = (0, features)

/-- The scale of a feature is the same under both least scales, or its bounds leave its mean only. -/
def SameScale (wild : K → BitVec 32) (sc : FeatureStandardizer K) (i : ℕ) : Prop :=
  (sc.stddev i).fmax (.finite (floorBack wild sc.stddevFloor)) = (sc.stddev i).fmax (.finite sc.stddevFloor) ∨
    sc.winsorLow i = sc.mean i ∧ sc.winsorHigh i = sc.mean i

/-! ### Fitted scalers -/

/-- Bounds that are still open. -/
def Open (sc : FeatureStandardizer K) : Prop := ∀ i, sc.winsorLow i = .negInf ∧ sc.winsorHigh i = .posInf

/-- Bounds that were fitted. -/
def Bounded (sc : FeatureStandardizer K) : Prop :=
  ∀ i, ∃ lo hi, lo ≤ hi ∧ sc.winsorLow i = .finite lo ∧ sc.winsorHigh i = .finite hi

/-- The bounds and the flag after calls with the given outcomes. -/
structure Winsored (outcomes : List Bool) (sc : FeatureStandardizer K) : Prop where
  isOpen : true ∉ outcomes → sc.Open
  isBounded : true ∈ outcomes → sc.Bounded
  flag : sc.hasWinsorBounds = 1 ↔ outcomes.getLast? = some true

/-- What no call changes. -/
structure Computed (sc : FeatureStandardizer K) : Prop where
  hasScaler : sc.hasScaler = true
  numFeatures : sc.numFeatures = .ofNat 32 numRegisteredFeatures
  floor_pos : 0 < sc.stddevFloor
  mean : ∀ i, ∃ m, sc.mean i = .finite m
  stddev : ∀ i, ∃ s, sc.stddev i = .finite s

variable {sc : FeatureStandardizer K} {call : WinsorCall K} {outcomes : List Bool}

omit [FloorRing K] in
theorem scalerStddevFloor_pos [IsStrictOrderedRing K] : 0 < (scalerStddevFloor : K) :=
  div_pos one_pos (Nat.cast_pos.2 (Nat.pow_pos (Nat.succ_pos 9)))

omit [FloorRing K] in
theorem floorOr_pos [IsStrictOrderedRing K] (floor : K) : 0 < floorOr floor := by
  unfold floorOr
  split
  · assumption
  · exact scalerStddevFloor_pos

theorem floorBack_pos [IsStrictOrderedRing K] (wild : K → BitVec 32) (floor : K) : 0 < floorBack wild floor := by
  unfold floorBack
  dsimp only
  split
  · exact scalerStddevFloor_pos
  · exact not_le.1 (by assumption)

omit [FloorRing K] in
theorem computed_compute [IsStrictOrderedRing K] (sqrt : K → K) (hash : BitVec 64) (matrix : ℕ → K) (numSamples : ℤ)
    (floor : K) : (compute sqrt hash matrix numSamples floor).Computed := by
  unfold compute
  dsimp only
  split
  · exact ⟨rfl, rfl, floorOr_pos floor, fun _ => ⟨0, rfl⟩, fun _ => ⟨1, rfl⟩⟩
  · refine ⟨rfl, rfl, floorOr_pos floor, fun _ => ⟨_, rfl⟩, fun i => ?_⟩
    dsimp only
    split
    · exact ⟨_, rfl⟩
    · exact ⟨1, rfl⟩

omit [FloorRing K] in
theorem winsored_compute (sqrt : K → K) (hash : BitVec 64) (matrix : ℕ → K) (numSamples : ℤ) (floor : K) :
    (compute sqrt hash matrix numSamples floor).Winsored [] := by
  have hzero : ¬(0 : BitVec 8) = 1 := by decide
  unfold compute
  dsimp only
  split
  · exact ⟨fun _ _ => ⟨rfl, rfl⟩, fun h => absurd h List.not_mem_nil, fun h => absurd h hzero, fun h => by cases h⟩
  · exact ⟨fun _ _ => ⟨rfl, rfl⟩, fun h => absurd h List.not_mem_nil, fun h => absurd h hzero, fun h => by cases h⟩

omit [Field K] [LinearOrder K] [FloorRing K] in
theorem length_column (matrix : ℕ → K) (numSamples : ℤ) (f : ℕ) :
    (column matrix numSamples f).length = numSamples.toNat := by
  rw [column, List.length_map, List.length_range]

/-- The cells are in the column, the lower one first. -/
theorem cells_le [IsStrictOrderedRing K] (hpos : 0 < call.numSamples) (hlow : 0 < call.pctLow)
    (hlt : call.pctLow < call.pctHigh) :
    call.cells.1 ≤ call.cells.2 ∧ call.cells.2 < call.numSamples.toNat := by
  have hhigh : 0 ≤ ⌊call.pctHigh * ((call.numSamples : ℤ) : K)⌋ :=
    Int.floor_nonneg.2 (mul_nonneg (hlow.trans hlt).le (Int.cast_nonneg hpos.le))
  unfold WinsorCall.cells
  dsimp only
  generalize ⌊call.pctHigh * ((call.numSamples : ℤ) : K)⌋ = high at hhigh ⊢
  generalize ⌊call.pctLow * ((call.numSamples : ℤ) : K)⌋ = low
  split_ifs <;> omega

omit [Field K] [FloorRing K] in
/-- In a sorted column the lower cell holds no more than the upper one. -/
theorem sorted_le {l : List K} {i j : ℕ} (hij : i ≤ j) (hj : j < l.length) (d : K) :
    (l.insertionSort (· ≤ ·)).getD i d ≤ (l.insertionSort (· ≤ ·)).getD j d := by
  have hlen : (l.insertionSort (· ≤ ·)).length = l.length := List.length_insertionSort ..
  have hjlt : j < (l.insertionSort (· ≤ ·)).length := by omega
  rw [List.getD_eq_getElem _ _ hjlt, List.getD_eq_getElem _ _ (hij.trans_lt hjlt)]
  rcases eq_or_lt_of_le hij with rfl | hlt
  · exact le_rfl
  · exact List.pairwise_iff_getElem.1 (List.pairwise_insertionSort _ l) i j _ _ hlt

/-- A call does nothing, clears the flag, or fits bounds and sets it. -/
theorem fitWinsor_cases [IsStrictOrderedRing K] (sc : FeatureStandardizer K) (call : WinsorCall K) :
    call.outcome = none ∧ sc.fitWinsor call = sc ∨
    call.outcome = some false ∧ sc.fitWinsor call = { sc with hasWinsorBounds := 0 } ∨
    call.outcome = some true ∧ ∃ low high : ℕ → K, (∀ i, low i ≤ high i) ∧ sc.fitWinsor call =
      { sc with
        winsorLow := fun i => .finite (low i), winsorHigh := fun i => .finite (high i), hasWinsorBounds := 1 } := by
  unfold fitWinsor WinsorCall.outcome
  split
  · exact .inl ⟨rfl, rfl⟩
  · next hpos =>
    split
    · exact .inr (.inl ⟨rfl, rfl⟩)
    · next hpct =>
      split
      · exact .inr (.inl ⟨rfl, rfl⟩)
      · have hlow : 0 < call.pctLow := not_le.1 fun h => hpct (.inl h)
        have hlt : call.pctLow < call.pctHigh := not_le.1 fun h => hpct (.inr (.inr h))
        obtain ⟨hle, hin⟩ := cells_le (not_le.1 hpos) hlow hlt
        refine .inr (.inr ⟨rfl, _, _, fun i => ?_, rfl⟩)
        exact sorted_le hle (by rw [length_column]; exact hin) 0

theorem Computed.fitWinsor [IsStrictOrderedRing K] (h : sc.Computed) (call : WinsorCall K) :
    (sc.fitWinsor call).Computed := by
  rcases fitWinsor_cases sc call with ⟨-, heq⟩ | ⟨-, heq⟩ | ⟨-, low, high, -, heq⟩ <;> rw [heq]
  · exact h
  · exact ⟨h.hasScaler, h.numFeatures, h.floor_pos, h.mean, h.stddev⟩
  · exact ⟨h.hasScaler, h.numFeatures, h.floor_pos, h.mean, h.stddev⟩

theorem Winsored.fitWinsor [IsStrictOrderedRing K] (h : sc.Winsored outcomes) (call : WinsorCall K) :
    (sc.fitWinsor call).Winsored (outcomes ++ call.outcome.toList) := by
  have hzero : ¬(0 : BitVec 8) = 1 := by decide
  rcases fitWinsor_cases sc call with ⟨hnone, heq⟩ | ⟨hoff, heq⟩ | ⟨hfit, low, high, hle, heq⟩ <;> rw [heq]
  · rw [hnone, Option.toList_none, List.append_nil]
    exact h
  · rw [hoff, Option.toList_some]
    refine ⟨fun hnot => h.isOpen fun hmem => hnot (List.mem_append_left _ hmem), fun hmem => h.isBounded ?_, ?_⟩
    · exact (List.mem_append.1 hmem).resolve_right fun hsingle => absurd (List.mem_singleton.1 hsingle) (by decide)
    · rw [List.getLast?_concat]
      exact ⟨fun hflag => absurd hflag hzero, fun hlast => by cases hlast⟩
  · rw [hfit, Option.toList_some]
    refine ⟨fun hnot => absurd (List.mem_append_right _ List.mem_cons_self) hnot, fun _ i => ?_, ?_⟩
    · exact ⟨low i, high i, hle i, rfl, rfl⟩
    · rw [List.getLast?_concat]
      exact ⟨fun _ => rfl, fun _ => rfl⟩

variable (sqrt : K → K) (hash : BitVec 64) (fit : ScalerFit K)

theorem computed_fitted [IsStrictOrderedRing K] : (fitted sqrt hash fit).Computed := by
  unfold fitted
  induction fit.winsors using List.reverseRecOn with
  | nil => exact computed_compute ..
  | append_singleton calls call ih =>
    rw [List.foldl_append]
    exact ih.fitWinsor call

theorem winsored_fitted [IsStrictOrderedRing K] : (fitted sqrt hash fit).Winsored fit.outcomes := by
  unfold fitted ScalerFit.outcomes
  induction fit.winsors using List.reverseRecOn with
  | nil => exact winsored_compute ..
  | append_singleton calls call ih =>
    have houtcomes : (calls ++ [call]).filterMap WinsorCall.outcome =
        calls.filterMap WinsorCall.outcome ++ call.outcome.toList := List.filterMap_append
    rw [List.foldl_append, houtcomes]
    exact ih.fitWinsor call

/-! ### Clipping -/

variable {i : ℕ} {lo hi : K}

omit [Field K] [FloorRing K] in
theorem clip_of_open (hlow : sc.winsorLow i = .negInf) (hhigh : sc.winsorHigh i = .posInf) (x : K) :
    sc.clip i (.finite x) = .finite x := by
  rw [clip, hlow, hhigh]
  rfl

omit [Field K] [FloorRing K] in
theorem clip_of_bounds (hlow : sc.winsorLow i = .finite lo) (hhigh : sc.winsorHigh i = .finite hi) (x : K) :
    sc.clip i (.finite x) = .finite (min (max x lo) hi) := by
  rw [clip, hlow, hhigh, Extended.fmax_finite, Extended.fmin_finite]

omit [Field K] [FloorRing K] in
/-- Between bounds that are one number there is only that number. -/
theorem clip_of_point {m : K} (hlow : sc.winsorLow i = .finite m) (hhigh : sc.winsorHigh i = .finite m)
    (x : Extended K) : sc.clip i x = .finite m := by
  cases x with
  | finite x => rw [clip_of_bounds hlow hhigh, min_eq_right (le_max_right x m)]
  | posInf => rw [clip, hlow, hhigh]; rfl
  | negInf => rw [clip, hlow, hhigh]; exact (Extended.fmin_finite m m).trans (congrArg _ (min_self m))
  | nan => rw [clip, hlow, hhigh]; exact (Extended.fmin_finite m m).trans (congrArg _ (min_self m))

omit [FloorRing K] in
/-- Bounds clip something. -/
theorem exists_clip_ne [IsStrictOrderedRing K] (hlow : sc.winsorLow i = .finite lo)
    (hhigh : sc.winsorHigh i = .finite hi) : ∃ x : K, sc.clip i (.finite x) ≠ .finite x := by
  refine ⟨hi + 1, ?_⟩
  rw [clip_of_bounds hlow hhigh]
  intro heq
  have hle : hi + 1 ≤ hi := (Extended.finite.inj heq).symm.le.trans (min_le_right _ _)
  exact absurd hle (not_le.2 (lt_add_one hi))

omit [FloorRing K] in
/-- The bounds clip under the flag only unless a fit was followed by a call that cleared it. -/
theorem clipsOnlyIfBounds_iff [IsStrictOrderedRing K] (h : sc.Winsored outcomes) :
    sc.ClipsOnlyIfBounds ↔ (true ∈ outcomes → outcomes.getLast? = some true) := by
  constructor
  · intro hclips hmem
    obtain ⟨lo, hi, -, hlow, hhigh⟩ := h.isBounded hmem 0
    obtain ⟨x, hx⟩ := exists_clip_ne hlow hhigh
    exact h.flag.1 (hclips 0 (Nat.succ_pos 59) x hx)
  · intro hlast i hi x hx
    by_cases hmem : true ∈ outcomes
    · exact h.flag.2 (hlast hmem)
    · obtain ⟨hlow, hhigh⟩ := h.isOpen hmem i
      exact absurd (clip_of_open hlow hhigh x) hx

/-! ### Scaling -/

omit [FloorRing K] in
theorem floorOr_eq {floor : K} (h : 0 < floor) : floorOr floor = floor := if_pos h

omit [FloorRing K] in
theorem standardize_of_clip [IsStrictOrderedRing K] {m s c floor : K} {x : Extended K} (hfloor : 0 < floor)
    (hm : sc.mean i = .finite m) (hs : sc.stddev i = .finite s) (hclip : sc.clip i x = .finite c) :
    sc.standardize floor i x = .finite ((c - m) / max s floor) := by
  rw [standardize, hclip, hm, hs, Extended.fmax_finite, Extended.finite_sub,
    Extended.finite_div _ (lt_max_of_lt_right hfloor).ne']

omit [FloorRing K] in
/-- Unless the bounds leave the mean only, some number is clipped to another. -/
theorem exists_clip_ne_mean [IsStrictOrderedRing K] (hbounds : sc.Open ∨ sc.Bounded) {m : K}
    (hm : sc.mean i = .finite m) (hpoint : ¬(sc.winsorLow i = sc.mean i ∧ sc.winsorHigh i = sc.mean i)) :
    ∃ x c : K, sc.clip i (.finite x) = .finite c ∧ c ≠ m := by
  rcases hbounds with hopen | hbounded
  · obtain ⟨hlow, hhigh⟩ := hopen i
    exact ⟨m + 1, m + 1, clip_of_open hlow hhigh _, (lt_add_one m).ne'⟩
  · obtain ⟨lo, hi, hle, hlow, hhigh⟩ := hbounded i
    by_cases hlo : lo = m
    · refine ⟨hi, hi, ?_, fun hhi => hpoint ⟨?_, ?_⟩⟩
      · rw [clip_of_bounds hlow hhigh, max_eq_left hle, min_self]
      · rw [hlow, hm, hlo]
      · rw [hhigh, hm, hhi]
    · refine ⟨lo, lo, ?_, hlo⟩
      rw [clip_of_bounds hlow hhigh, max_self, min_eq_left hle]

omit [FloorRing K] in
/-- Two least scales standardise a feature alike only if its scale is the same under both, or its bounds leave
    the mean only. -/
theorem standardize_agree_iff [IsStrictOrderedRing K] (h : sc.Computed) (hbounds : sc.Open ∨ sc.Bounded) {floor : K}
    (hfloor : 0 < floor) (i : ℕ) :
    (∀ x, sc.standardize floor i x = sc.standardize sc.stddevFloor i x) ↔
      (sc.stddev i).fmax (.finite floor) = (sc.stddev i).fmax (.finite sc.stddevFloor) ∨
        sc.winsorLow i = sc.mean i ∧ sc.winsorHigh i = sc.mean i := by
  obtain ⟨m, hm⟩ := h.mean i
  obtain ⟨s, hs⟩ := h.stddev i
  constructor
  · intro hall
    by_contra hnot
    obtain ⟨hscale, hpoint⟩ := not_or.1 hnot
    obtain ⟨x, c, hclip, hne⟩ := exists_clip_ne_mean hbounds hm hpoint
    have heq := hall (.finite x)
    rw [standardize_of_clip hfloor hm hs hclip, standardize_of_clip h.floor_pos hm hs hclip] at heq
    have hcross := (div_eq_div_iff (lt_max_of_lt_right hfloor).ne' (lt_max_of_lt_right h.floor_pos).ne').1
      (Extended.finite.inj heq)
    refine hscale ?_
    rw [hs, Extended.fmax_finite, Extended.fmax_finite, mul_left_cancel₀ (sub_ne_zero.2 hne) hcross]
  · rintro (hscale | ⟨hlow, hhigh⟩) x
    · rw [standardize, standardize, hscale]
    · have hclip := clip_of_point (hlow.trans hm) (hhigh.trans hm) x
      rw [standardize_of_clip hfloor hm hs hclip, standardize_of_clip h.floor_pos hm hs hclip, sub_self, zero_div,
        zero_div]

omit [FloorRing K] in
/-- Scalers in use give the same vectors if and only if they give the same of every feature. -/
theorem apply_agree_iff {sc sc' : FeatureStandardizer K} (h : sc.hasScaler = true) (h' : sc'.hasScaler = true) :
    (∀ features n, sc'.apply features n = sc.apply features n) ↔ ∀ i < numRegisteredFeatures, ∀ x,
      sc'.standardize (floorOr sc'.stddevFloor) i x = sc.standardize (floorOr sc.stddevFloor) i x := by
  have hon : ¬sc.hasScaler = false := by rw [h]; decide
  have hon' : ¬sc'.hasScaler = false := by rw [h']; decide
  constructor
  · intro hall i hi x
    have hn : ¬(((i + 1 : ℕ) : ℤ) ≤ 0 ∨ ((i + 1 : ℕ) : ℤ) > numRegisteredFeatures) := by omega
    have heq := congrFun (congrArg Prod.snd (hall (fun _ => x) ((i + 1 : ℕ) : ℤ))) i
    rw [apply, apply, if_neg hon, if_neg hon', if_neg hn, if_neg hn] at heq
    have hlt : i < ((i + 1 : ℕ) : ℤ).toNat := by omega
    simpa only [if_pos hlt] using heq
  · intro hall features n
    rw [apply, apply, if_neg hon, if_neg hon']
    split
    · rfl
    · next hn =>
      have hout : (fun j : ℕ => if j < n.toNat then
          sc'.standardize (floorOr sc'.stddevFloor) j (features j) else features j) =
          fun j => if j < n.toNat then sc.standardize (floorOr sc.stddevFloor) j (features j) else features j := by
        funext j
        split
        · next hj => exact hall j (by omega) _
        · rfl
      rw [hout]

variable {image : DoubleImage K} {sha256 : Sha256Bytes} {wild : K → BitVec 32} {content : List UInt8}

/-- The bounds come back as they were. -/
theorem ReadBack.clip_eq {loaded : FeatureStandardizer K} (h : ReadBack wild sc loaded)
    (hi : i < numRegisteredFeatures) : loaded.clip i = sc.clip i := by
  funext x
  rw [clip, clip, h.winsorLow i hi, h.winsorHigh i hi]

theorem ReadBack.clipsOnlyIfBounds_iff {loaded : FeatureStandardizer K} (h : ReadBack wild sc loaded) :
    loaded.ClipsOnlyIfBounds ↔ sc.ClipsOnlyIfBounds := by
  unfold ClipsOnlyIfBounds
  refine forall₂_congr fun i hi => ?_
  rw [h.clip_eq hi, h.hasWinsorBounds]

/-- What is read back gives the same vectors if and only if every feature has the same scale or its mean only. -/
theorem ReadBack.apply_iff [IsStrictOrderedRing K] {loaded : FeatureStandardizer K} (h : ReadBack wild sc loaded)
    (hcomputed : sc.Computed) (hbounds : sc.Open ∨ sc.Bounded) :
    (∀ features n, loaded.apply features n = sc.apply features n) ↔
      ∀ i < numRegisteredFeatures, SameScale wild sc i := by
  rw [apply_agree_iff hcomputed.hasScaler h.hasScaler]
  refine forall₂_congr fun i hi => ?_
  rw [h.stddevFloor, floorOr_eq (floorBack_pos wild _), floorOr_eq hcomputed.floor_pos, SameScale,
    ← standardize_agree_iff hcomputed hbounds (floorBack_pos wild _)]
  refine forall_congr' fun x => ?_
  rw [standardize, h.clip_eq hi, h.mean i hi, h.stddev i hi]
  rfl

theorem bounds_fitted [IsStrictOrderedRing K] : (fitted sqrt hash fit).Open ∨ (fitted sqrt hash fit).Bounded := by
  have hwinsored := winsored_fitted sqrt hash fit
  by_cases hmem : true ∈ fit.outcomes
  · exact .inr (hwinsored.isBounded hmem)
  · exact .inl (hwinsored.isOpen hmem)

/-- A fitted scaler is served as it was trained if and only if every feature has the same scale under the least
    scale that comes back or bounds that leave its mean only, and no fit of bounds is followed by a call that
    refuses to fit with no fit after it. -/
theorem servesAsFitted_iff [IsStrictOrderedRing K] (hlossless : Lossless image (fitted sqrt hash fit))
    (hwritten : (fitted sqrt hash fit).persist image sha256 wild = some content) :
    ServesAsFitted image sha256 content (fitted sqrt hash fit) ↔
      (∀ i < numRegisteredFeatures, SameScale wild (fitted sqrt hash fit) i) ∧
        (true ∈ fit.outcomes → fit.outcomes.getLast? = some true) := by
  have hcomputed := computed_fitted sqrt hash fit
  obtain ⟨loaded, hload, hback⟩ := load_persist hcomputed.numFeatures hlossless hwritten
  have happlies := hback.apply_iff hcomputed (bounds_fitted sqrt hash fit)
  have hclips := clipsOnlyIfBounds_iff (winsored_fitted sqrt hash fit)
  constructor
  · rintro ⟨hserved, hcl, -, -⟩
    rw [hload] at hserved
    exact ⟨happlies.1 hserved, hclips.1 hcl⟩
  · rintro ⟨hscale, hlast⟩
    refine ⟨?_, hclips.2 hlast, ?_, fun other hother => apply_of_refused image sha256 hother⟩
    · rw [hload]
      exact happlies.2 hscale
    · rw [hload]
      exact hback.clipsOnlyIfBounds_iff.2 (hclips.2 hlast)

/-! ### Two scalers and their files -/

/-- The doubles of the two scalers. -/
def sampleImage : DoubleImage ℚ where
  bits x :=
    if x = .finite 1 then 0x3FF0000000000000
    else if x = .finite (-1) then 0xBFF0000000000000
    else if x = .posInf then 0x7FF0000000000000
    else if x = .negInf then 0xFFF0000000000000
    else 0
  value b :=
    if b = 0x3FF0000000000000 then .finite 1
    else if b = 0xBFF0000000000000 then .finite (-1)
    else if b = 0x7FF0000000000000 then .posInf
    else if b = 0xFFF0000000000000 then .negInf
    else .finite 0

/-- Every feature is minus one, zero and one, with bounds at a quarter and at three. -/
def spreadFit : ScalerFit ℚ where
  matrix k := ((k / numRegisteredFeatures : ℕ) : ℚ) - 1
  numSamples := 3
  stddevFloor := scalerStddevFloor
  winsors := [⟨fun k => ((k / numRegisteredFeatures : ℕ) : ℚ) - 1, 3, 1 / 4, 3 / 4⟩]

def spreadDigest : { digest : List UInt8 // digest.length = 32 } :=
  ⟨[129, 99, 145, 109, 247, 124, 47, 76, 126, 88, 1, 54, 39, 169, 6, 53, 238, 80, 208, 191, 227, 192, 45, 124, 89, 76,
    215, 119, 140, 88, 101, 212], rfl⟩

theorem lossless_spread : Lossless sampleImage (fitted id 0 spreadFit) :=
  ⟨by decide +kernel, by decide +kernel, by decide +kernel, by decide +kernel⟩

theorem servesAsFitted_spread :
    ServesAsFitted sampleImage (fun _ => some spreadDigest)
        ((fitted id 0 spreadFit).body sampleImage (fun _ => 0) ++ spreadDigest.1) (fitted id 0 spreadFit) ↔
      (∀ i < numRegisteredFeatures, SameScale (fun _ => 0) (fitted id 0 spreadFit) i) ∧
        (true ∈ spreadFit.outcomes → spreadFit.outcomes.getLast? = some true) :=
  servesAsFitted_iff id 0 spreadFit lossless_spread (persist_eq (computed_fitted id 0 spreadFit).hasScaler rfl)

/-- Every feature is constant, the least scale is the default. -/
def constantFit : ScalerFit ℚ where
  matrix _ := 0
  numSamples := 3
  stddevFloor := scalerStddevFloor
  winsors := []

def constantDigest : { digest : List UInt8 // digest.length = 32 } :=
  ⟨[121, 46, 39, 129, 199, 148, 85, 87, 123, 116, 34, 201, 2, 149, 173, 184, 77, 39, 133, 142, 36, 17, 43, 214, 254,
    52, 151, 251, 2, 208, 85, 56], rfl⟩

theorem lossless_constant : Lossless sampleImage (fitted id 0 constantFit) :=
  ⟨by decide +kernel, by decide +kernel, by decide +kernel, by decide +kernel⟩

def constantFile : List UInt8 := (fitted id 0 constantFit).body sampleImage (fun _ => 0) ++ constantDigest.1

/-- The default comes back as four parts in two to the thirty-two: a feature that is one in production is divided
    by less than in training. -/
theorem not_servesAsFitted_constant : Lossless sampleImage (fitted id 0 constantFit) ∧
    (fitted id 0 constantFit).persist sampleImage (fun _ => some constantDigest) (fun _ => 0) = some constantFile ∧
    ¬ServesAsFitted sampleImage (fun _ => some constantDigest) constantFile (fitted id 0 constantFit) := by
  have hcomputed := computed_fitted id 0 constantFit
  have hwritten : (fitted id 0 constantFit).persist sampleImage (fun _ => some constantDigest) (fun _ => 0) =
      some constantFile := persist_eq hcomputed.hasScaler rfl
  obtain ⟨loaded, hload, hback⟩ := load_persist hcomputed.numFeatures lossless_constant hwritten
  refine ⟨lossless_constant, hwritten, fun hserves => ?_⟩
  have happlies := hserves.applies
  rw [hload] at happlies
  have hscale := (hback.apply_iff hcomputed (bounds_fitted id 0 constantFit)).1 happlies 0 (Nat.succ_pos 59)
  revert hscale
  unfold SameScale
  decide +kernel

end FeatureStandardizer

end FoxTrader
