import FoxTrader.Lib.Extended
import Mathlib.Algebra.BigOperators.Field
import Mathlib.Algebra.Order.BigOperators.Group.Finset
import Mathlib.Tactic.Linarith
import Mathlib.Tactic.NormNum
import Mathlib.Tactic.Positivity

/-! # The Exp3-IX bandits

    A bandit keeps for every arm a weight, the rewards it earned and how often it was pulled. An update
    multiplies the pulled arm's weight by the exponential of a clamped exponent, then rescales all weights
    at once or not at all, and lifts what is below the floor.

    Whatever the rewards, the weights stay finite and within their range, the probabilities are positive
    and sum to one, and the order of the arms that are not pulled is kept. The accumulated rewards are
    added to before any of the clamps: one reward that is not finite makes them non-finite for good, and
    the state that is saved then is refused (`updates_healthy_iff`). -/

namespace FoxTrader

open Lib Lib.Extended

/-- The functions of the mathematical library. -/
structure BanditMath (K : Type*) [Field K] [LinearOrder K] where
  exp : K → K
  sqrt : K → K
  log : K → K
  exp_pos : ∀ x, 0 < exp x
  exp_strictMono : StrictMono exp
  exp_zero : exp 0 = 1

/-- `BanditState` of `n` arms. -/
structure BanditState (K : Type*) (n : ℕ) where
  weights : Fin n → Extended K
  cumReward : Fin n → Extended K
  pulls : Fin n → ℕ
  totalSteps : ℕ
  gamma : Extended K
  etaMax : Extended K
  blendRatio : Extended K
  minSamples : ℤ
  rampUpSamples : ℤ

def banditMaxArms : ℤ := 8

/-- The number of arms a state is made for. -/
def banditArms (nArms : ℤ) : ℕ := (min (max nArms 2) banditMaxArms).toNat

theorem banditArms_pos (nArms : ℤ) : 0 < banditArms nArms := by
  unfold banditArms banditMaxArms
  omega

variable {K : Type*} [Field K] [LinearOrder K] {n : ℕ}

def banditGammaDefault : K := 5 / 100
def banditEtaMaxDefault : K := 7 / 100
def banditBlendRatioDefault : K := 30 / 100
def banditMinSamplesDefault : ℤ := 100
def banditRampUpDefault : ℤ := 100
def banditUpdateExpoLimit : K := 367 / 10
def banditWeightLowWater : K := 1 / 10 ^ 3
/-- What no weight and no probability falls below. -/
def banditFloor : K := 1 / 10 ^ 10
/-- Above it the weights are scaled down. -/
def banditWeightCeiling : K := 10 ^ 6

/-- The argument if it is positive, else the default. -/
def banditKnob (x : Extended K) (preset : K) : Extended K := if lt (finite 0) x then x else finite preset

/-- `Bandit_Init`. -/
def banditInit (nArms : ℤ) (gamma etaMax blendRatio : Extended K) (minSamples rampUp : ℤ) :
    BanditState K (banditArms nArms) where
  weights := fun _ => finite 1
  cumReward := fun _ => finite 0
  pulls := fun _ => 0
  totalSteps := 0
  gamma := banditKnob gamma banditGammaDefault
  etaMax := banditKnob etaMax banditEtaMaxDefault
  blendRatio := banditKnob blendRatio banditBlendRatioDefault
  minSamples := if 0 < minSamples then minSamples else banditMinSamplesDefault
  rampUpSamples := if 0 < rampUp then rampUp else banditRampUpDefault

namespace BanditState

/-- `Bandit_GetProbabilities`. -/
def getProbabilities (b : BanditState K n) : Fin n → Extended K :=
  let sumW := total b.weights
  let k := finite (n : K)
  if !lt (finite 0) sumW || !sumW.isFinite then fun _ => finite 1 / k
  else
    let probs := fun i =>
      let p := (finite 1 - b.gamma) * (b.weights i / sumW) + b.gamma / k
      if lt p (finite banditFloor) then finite banditFloor else p
    let probSum := total probs
    if lt (finite 0) probSum then fun i => probs i / probSum else probs

/-- The learning rate, falling with the steps. -/
def eta (m : BanditMath K) (b : BanditState K n) : Extended K :=
  if 0 < b.totalSteps then
    let computed := finite (m.sqrt (m.log n / (n * b.totalSteps)))
    if lt computed b.etaMax then computed else b.etaMax
  else b.etaMax

/-- The exponent, clamped on both sides, and zero if it is none. -/
def clampExpo (expo : Extended K) : Extended K :=
  let expo := if lt (finite banditUpdateExpoLimit) expo then finite banditUpdateExpoLimit else expo
  let expo := if lt expo (finite (-banditUpdateExpoLimit)) then finite (-banditUpdateExpoLimit) else expo
  if expo.isFinite then expo else finite 0

/-- `exp`, with its limits at the infinities. -/
def expOf (m : BanditMath K) : Extended K → Extended K
  | .finite x => finite (m.exp x)
  | .posInf => .posInf
  | .negInf => finite 0
  | .nan => .nan

/-- Both rescalings. -/
def rescale (w : Fin n → Extended K) : Fin n → Extended K :=
  let maxW := largest w
  if lt (finite banditWeightCeiling) maxW then fun i => w i / maxW
  else if lt (finite 0) maxW && lt maxW (finite banditWeightLowWater) then
    let scale := finite 1 / maxW
    fun i => w i * scale
  else w

def floorWeight (w : Extended K) : Extended K :=
  if lt w (finite banditFloor) || !w.isFinite then finite banditFloor else w

/-- The counts and the accumulated reward of a pulled arm. -/
def pulled (b : BanditState K n) (arm : Fin n) (rewardBps : Extended K) : BanditState K n :=
  { b with
    totalSteps := b.totalSteps + 1
    pulls := Function.update b.pulls arm (b.pulls arm + 1)
    cumReward := Function.update b.cumReward arm (b.cumReward arm + rewardBps) }

/-- `Bandit_Update` of an arm there is. -/
def updateArm (m : BanditMath K) (b : BanditState K n) (arm : Fin n) (rewardBps : Extended K) : BanditState K n :=
  let b := b.pulled arm rewardBps
  let rHat := rewardBps / b.getProbabilities arm
  let expo := clampExpo (b.eta m * rHat)
  let weights := rescale (Function.update b.weights arm (b.weights arm * expOf m expo))
  { b with weights := fun i => floorWeight (weights i) }

/-- `Bandit_Update`. -/
def update (m : BanditMath K) (b : BanditState K n) (arm : ℤ) (rewardBps : Extended K) : BanditState K n :=
  if h : 0 ≤ arm ∧ arm.toNat < n then b.updateArm m ⟨arm.toNat, h.2⟩ rewardBps else b

/-- A sequence of updates, each of an arm and a reward. -/
def updates (m : BanditMath K) (b : BanditState K n) (calls : List (ℤ × Extended K)) : BanditState K n :=
  calls.foldl (fun b c => b.update m c.1 c.2) b

/-- What makes `Bandit_LoadJSON` refuse a saved state: a value of the two persisted arrays that is not
    finite. -/
def nonFinite (b : BanditState K n) : Bool :=
  (List.finRange n).any fun i => !(b.weights i).isFinite || !(b.cumReward i).isFinite

/-- What a state is meant to be after any updates. -/
structure Healthy (b : BanditState K n) : Prop where
  weights : ∀ i, ∃ w, b.weights i = finite w ∧ banditFloor ≤ w ∧ w ≤ banditWeightCeiling
  probabilities : ∃ p : Fin n → K, (∀ i, b.getProbabilities i = finite (p i)) ∧ (∀ i, 0 < p i) ∧ ∑ i, p i = 1
  rewards : ∀ i, (b.cumReward i).isFinite = true
  accepted : b.nonFinite = false

/-- No two arms other than the given change their order. -/
def InOrder (b b' : BanditState K n) (arm : ℤ) : Prop :=
  ∀ i j : Fin n, (i : ℤ) ≠ arm → (j : ℤ) ≠ arm →
    lt (b.weights j) (b.weights i) = false → lt (b'.weights j) (b'.weights i) = false

/-! ### The accumulated rewards -/

theorem update_of_arm (m : BanditMath K) (b : BanditState K n) {arm : ℤ} (h : 0 ≤ arm ∧ arm.toNat < n)
    (reward : Extended K) : b.update m arm reward = b.updateArm m ⟨arm.toNat, h.2⟩ reward := dif_pos h

theorem update_of_not_arm (m : BanditMath K) (b : BanditState K n) {arm : ℤ} (h : ¬(0 ≤ arm ∧ arm.toNat < n))
    (reward : Extended K) : b.update m arm reward = b := dif_neg h

theorem updates_snoc (m : BanditMath K) (b : BanditState K n) (calls : List (ℤ × Extended K))
    (c : ℤ × Extended K) : b.updates m (calls ++ [c]) = (b.updates m calls).update m c.1 c.2 := List.foldl_concat ..

/-- An update adds its reward to the arm's, whatever it is. -/
theorem update_cumReward (m : BanditMath K) (b : BanditState K n) {arm : ℤ} (h : 0 ≤ arm ∧ arm.toNat < n)
    (reward : Extended K) : (b.update m arm reward).cumReward =
      Function.update b.cumReward ⟨arm.toNat, h.2⟩ (b.cumReward ⟨arm.toNat, h.2⟩ + reward) := by
  rw [update_of_arm m b h]
  rfl

theorem update_rewards (m : BanditMath K) {b : BanditState K n} (h : ∀ i, (b.cumReward i).isFinite = true)
    {arm : ℤ} {reward : Extended K} (hreward : 0 ≤ arm ∧ arm.toNat < n → reward.isFinite = true) (i : Fin n) :
    ((b.update m arm reward).cumReward i).isFinite = true := by
  by_cases harm : 0 ≤ arm ∧ arm.toNat < n
  · rw [update_cumReward m b harm]
    by_cases hi : i = ⟨arm.toNat, harm.2⟩
    · rw [hi, Function.update_self, isFinite_add, h, hreward harm, Bool.and_self]
    · rw [Function.update_of_ne hi]
      exact h i
  · rw [update_of_not_arm m b harm]
    exact h i

theorem updates_rewards (m : BanditMath K) {b : BanditState K n} (h : ∀ i, (b.cumReward i).isFinite = true)
    {calls : List (ℤ × Extended K)} (hcalls : ∀ c ∈ calls, 0 ≤ c.1 ∧ c.1.toNat < n → c.2.isFinite = true) :
    ∀ i, ((b.updates m calls).cumReward i).isFinite = true := by
  induction calls using List.reverseRecOn with
  | nil => exact h
  | append_singleton calls c ih =>
    rw [updates_snoc]
    exact update_rewards m (ih fun c' hc' => hcalls c' (List.mem_append_left _ hc'))
      (hcalls c (List.mem_append_right _ List.mem_cons_self))

/-! ### One update of the weights -/

/-- Weights that are finite and within their range, and an exploration rate between nothing and
    everything. -/
structure Learnt (b : BanditState K n) (w : Fin n → K) (g : K) : Prop where
  weights : b.weights = fun i => finite (w i)
  least : ∀ i, banditFloor ≤ w i
  most : ∀ i, w i ≤ banditWeightCeiling
  gamma : b.gamma = finite g
  gamma_pos : 0 < g
  gamma_lt : g < 1

theorem clampExpo_finite (e : Extended K) : ∃ x, clampExpo e = finite x := by
  have hbackstop (a : Extended K) : ∃ x, (if a.isFinite then a else finite 0) = finite x := by
    by_cases h : a.isFinite = true
    · rw [if_pos h]
      exact isFinite_iff.1 h
    · exact ⟨0, if_neg h⟩
  exact hbackstop _

theorem floorWeight_finite (x : K) : floorWeight (finite x) = finite (max x banditFloor) := by
  unfold floorWeight
  by_cases h : x < banditFloor
  · rw [lt_finite, decide_eq_true h, Bool.true_or, if_pos rfl, max_eq_right h.le]
  · rw [lt_finite, decide_eq_false h, isFinite_finite, Bool.not_true, Bool.or_self, if_neg Bool.false_ne_true,
      max_eq_left (not_lt.1 h)]

theorem updateArm_weights (m : BanditMath K) (b : BanditState K n) (arm : Fin n) (reward : Extended K) :
    (b.updateArm m arm reward).weights = fun i => floorWeight (rescale (Function.update b.weights arm
      (b.weights arm * expOf m (clampExpo ((b.pulled arm reward).eta m *
        (reward / (b.pulled arm reward).getProbabilities arm))))) i) := rfl

theorem expOf_finite (m : BanditMath K) (x : K) : expOf m (finite x) = finite (m.exp x) := rfl

variable [IsStrictOrderedRing K]

theorem banditFloor_pos : (0 : K) < banditFloor := by
  unfold banditFloor
  positivity

/-- Finite weights are rescaled by one positive factor, and none is above the ceiling then. -/
theorem rescale_finite (v : Fin n → K) :
    ∃ s, 0 < s ∧ rescale (fun i => finite (v i)) = (fun i => finite (v i * s)) ∧
      ∀ i, v i * s ≤ banditWeightCeiling := by
  obtain ⟨m, hm, h0, hmax⟩ := largest_finite v
  have hone : (1 : K) ≤ banditWeightCeiling := one_le_pow₀ (by norm_num)
  have hscaled (hpos' : 0 < m) : ∀ i, v i * (1 / m) ≤ banditWeightCeiling := fun i => by
    rw [mul_one_div]
    exact ((div_le_one hpos').2 (hmax i)).trans hone
  unfold rescale
  rw [hm]
  dsimp only
  rw [lt_finite, lt_finite, lt_finite]
  by_cases hhigh : banditWeightCeiling < m
  · have hpos' : 0 < m := (zero_lt_one.trans_le hone).trans hhigh
    refine ⟨1 / m, one_div_pos.2 hpos', ?_, hscaled hpos'⟩
    rw [if_pos (decide_eq_true hhigh)]
    funext i
    rw [finite_div _ hpos'.ne', mul_one_div]
  · rw [if_neg (by rwa [decide_eq_true_eq])]
    by_cases hlow : 0 < m ∧ m < banditWeightLowWater
    · refine ⟨1 / m, one_div_pos.2 hlow.1, ?_, hscaled hlow.1⟩
      rw [if_pos (by rwa [Bool.and_eq_true, decide_eq_true_eq, decide_eq_true_eq])]
      funext i
      rw [finite_div _ hlow.1.ne', finite_mul]
    · refine ⟨1, one_pos, ?_, fun i => ?_⟩
      · rw [if_neg (by rwa [Bool.and_eq_true, decide_eq_true_eq, decide_eq_true_eq])]
        simp only [mul_one]
      · rw [mul_one]
        exact (hmax i).trans (not_lt.1 hhigh)

/-- The pulled arm's weight is multiplied by something positive and finite, and all weights are rescaled
    together. -/
theorem updateArm_learnt (m : BanditMath K) {b : BanditState K n} {w : Fin n → K} {g : K} (h : Learnt b w g)
    (arm : Fin n) (reward : Extended K) :
    ∃ w' s, 0 < s ∧ (∀ i, i ≠ arm → w' i = max (w i * s) banditFloor) ∧
      Learnt (b.updateArm m arm reward) w' g := by
  obtain ⟨e, he⟩ := clampExpo_finite ((b.pulled arm reward).eta m *
    (reward / (b.pulled arm reward).getProbabilities arm))
  have hpulled : Function.update b.weights arm (b.weights arm * expOf m (finite e)) =
      fun i => finite (Function.update w arm (w arm * m.exp e) i) := by
    funext i
    rw [h.weights, expOf_finite, finite_mul]
    by_cases hi : i = arm
    · rw [hi, Function.update_self, Function.update_self]
    · rw [Function.update_of_ne hi, Function.update_of_ne hi]
  obtain ⟨s, hs, hrescaled, hmost⟩ := rescale_finite (Function.update w arm (w arm * m.exp e))
  have hfloor : banditFloor ≤ (banditWeightCeiling : K) := by
    unfold banditFloor banditWeightCeiling
    norm_num
  refine ⟨fun i => max (Function.update w arm (w arm * m.exp e) i * s) banditFloor, s, hs, fun i hi => ?_, ?_⟩
  · dsimp only
    rw [Function.update_of_ne hi]
  · refine ⟨?_, fun i => le_max_right .., fun i => max_le (hmost i) hfloor, h.gamma, h.gamma_pos, h.gamma_lt⟩
    rw [updateArm_weights, he, hpulled, hrescaled]
    funext i
    exact floorWeight_finite _

/-! ### The probabilities -/

theorem getProbabilities_learnt {b : BanditState K n} {w : Fin n → K} {g : K} (h : Learnt b w g) (hn : 0 < n) :
    ∃ p : Fin n → K, (∀ i, b.getProbabilities i = finite (p i)) ∧ (∀ i, 0 < p i) ∧ ∑ i, p i = 1 := by
  have hne : (Finset.univ : Finset (Fin n)).Nonempty := ⟨⟨0, hn⟩, Finset.mem_univ _⟩
  have hsum : 0 < ∑ i, w i := Finset.sum_pos (fun i _ => banditFloor_pos.trans_le (h.least i)) hne
  have hk : (n : K) ≠ 0 := Nat.cast_ne_zero.2 hn.ne'
  let q : Fin n → K := fun i => max ((1 - g) * (w i / ∑ j, w j) + g / n) banditFloor
  have hq (i : Fin n) : 0 < q i := banditFloor_pos.trans_le (le_max_right ..)
  have hqsum : 0 < ∑ i, q i := Finset.sum_pos (fun i _ => hq i) hne
  have hfloored (i : Fin n) :
      (if lt ((finite 1 - b.gamma) * (b.weights i / total b.weights) + b.gamma / finite (n : K)) (finite banditFloor)
        then finite banditFloor
        else (finite 1 - b.gamma) * (b.weights i / total b.weights) + b.gamma / finite (n : K)) = finite (q i) := by
    rw [h.weights, h.gamma, total_finite, finite_div _ hsum.ne', finite_div _ hk, finite_sub, finite_mul, finite_add,
      lt_finite]
    by_cases hlow : (1 - g) * (w i / ∑ j, w j) + g / n < banditFloor
    · rw [if_pos (decide_eq_true hlow)]
      exact congrArg finite (max_eq_right hlow.le).symm
    · rw [if_neg (by rwa [decide_eq_true_eq])]
      exact congrArg finite (max_eq_left (not_lt.1 hlow)).symm
  refine ⟨fun i => q i / ∑ j, q j, fun i => ?_, fun i => div_pos (hq i) hqsum, ?_⟩
  · unfold getProbabilities
    dsimp only
    rw [if_neg, funext hfloored, total_finite, lt_finite, if_pos (decide_eq_true hqsum), hfloored i,
      finite_div _ hqsum.ne']
    rw [h.weights, total_finite, lt_finite, decide_eq_true hsum, isFinite_finite]
    exact Bool.false_ne_true
  · rw [← Finset.sum_div]
    exact div_self hqsum.ne'

/-! ### Runs -/

theorem update_learnt (m : BanditMath K) {b : BanditState K n} {w : Fin n → K} {g : K} (h : Learnt b w g) (arm : ℤ)
    (reward : Extended K) : ∃ w', Learnt (b.update m arm reward) w' g ∧ InOrder b (b.update m arm reward) arm := by
  by_cases harm : 0 ≤ arm ∧ arm.toNat < n
  · obtain ⟨w', s, hs, hothers, hw'⟩ := updateArm_learnt m h ⟨arm.toNat, harm.2⟩ reward
    rw [update_of_arm m b harm]
    refine ⟨w', hw', fun i j hi hj hle => ?_⟩
    have hother (k : Fin n) (hk : (k : ℤ) ≠ arm) : w' k = max (w k * s) banditFloor := by
      refine hothers k fun heq => hk ?_
      rw [heq]
      exact Int.toNat_of_nonneg harm.1
    rw [h.weights, lt_finite, decide_eq_false_iff_not, not_lt] at hle
    rw [hw'.weights, lt_finite, decide_eq_false_iff_not, not_lt, hother i hi, hother j hj]
    exact max_le_max_right _ (mul_le_mul_of_nonneg_right hle hs.le)
  · rw [update_of_not_arm m b harm]
    exact ⟨w, h, fun i j _ _ hle => hle⟩

theorem updates_learnt (m : BanditMath K) {b : BanditState K n} {w : Fin n → K} {g : K} (h : Learnt b w g)
    (calls : List (ℤ × Extended K)) : ∃ w', Learnt (b.updates m calls) w' g := by
  induction calls using List.reverseRecOn with
  | nil => exact ⟨w, h⟩
  | append_singleton calls c ih =>
    obtain ⟨w', hw'⟩ := ih
    obtain ⟨w'', hw'', -⟩ := update_learnt m hw' c.1 c.2
    exact ⟨w'', updates_snoc m b calls c ▸ hw''⟩

theorem Healthy.of_learnt {b : BanditState K n} {w : Fin n → K} {g : K} (h : Learnt b w g) (hn : 0 < n)
    (hrewards : ∀ i, (b.cumReward i).isFinite = true) : Healthy b where
  weights := fun i => ⟨w i, congrFun h.weights i, h.least i, h.most i⟩
  probabilities := getProbabilities_learnt h hn
  rewards := hrewards
  accepted := by
    refine List.any_eq_false.2 fun i _ => ?_
    rw [h.weights, hrewards i, isFinite_finite]
    exact Bool.false_ne_true

theorem banditInit_learnt (nArms : ℤ) {g : K} (hpos : 0 < g) (hlt : g < 1) (etaMax blendRatio : Extended K)
    (minSamples rampUp : ℤ) :
    Learnt (banditInit nArms (finite g) etaMax blendRatio minSamples rampUp) (fun _ => 1) g where
  weights := rfl
  least := fun _ => by
    unfold banditFloor
    norm_num
  most := fun _ => one_le_pow₀ (by norm_num)
  gamma := if_pos (decide_eq_true hpos)
  gamma_pos := hpos
  gamma_lt := hlt

/-- Every state of a run is healthy, and every update keeps the order of the others, if and only if every
    reward of an arm there is was finite. -/
theorem updates_healthy_iff (m : BanditMath K) (nArms : ℤ) {g : K} (hpos : 0 < g) (hlt : g < 1)
    (etaMax blendRatio : Extended K) (minSamples rampUp : ℤ) (calls : List (ℤ × Extended K)) :
    ((∀ done, done <+: calls →
        Healthy ((banditInit nArms (finite g) etaMax blendRatio minSamples rampUp).updates m done)) ∧
      ∀ done c, done ++ [c] <+: calls →
        InOrder ((banditInit nArms (finite g) etaMax blendRatio minSamples rampUp).updates m done)
          ((banditInit nArms (finite g) etaMax blendRatio minSamples rampUp).updates m (done ++ [c])) c.1) ↔
      ∀ c ∈ calls, 0 ≤ c.1 ∧ c.1.toNat < banditArms nArms → c.2.isFinite = true := by
  have hinit := banditInit_learnt nArms hpos hlt etaMax blendRatio minSamples rampUp
  constructor
  · rintro ⟨hhealthy, -⟩ c hc harm
    obtain ⟨done, rest, rfl⟩ := List.append_of_mem hc
    have hsound := (hhealthy (done ++ [c]) ⟨rest, by rw [List.append_assoc, List.singleton_append]⟩).rewards
      ⟨c.1.toNat, harm.2⟩
    rw [updates_snoc, update_cumReward m _ harm, Function.update_self, isFinite_add, Bool.and_eq_true] at hsound
    exact hsound.2
  · intro hcalls
    refine ⟨fun done hdone => ?_, fun done c hdone => ?_⟩
    · obtain ⟨w, hw⟩ := updates_learnt m hinit done
      exact .of_learnt hw (banditArms_pos nArms) (updates_rewards m (fun _ => rfl) fun c hc =>
        hcalls c (hdone.subset hc))
    · obtain ⟨w, hw⟩ := updates_learnt m hinit done
      obtain ⟨-, -, horder⟩ := update_learnt m hw c.1 c.2
      rw [updates_snoc]
      exact horder

/-! A function that stands for the exponential on the rationals, and the state one reward without a value
    leaves. -/

def sampleExp (x : ℚ) : ℚ := if 0 ≤ x then 1 + x else 1 / (1 - x)

theorem sampleExp_pos (x : ℚ) : 0 < sampleExp x := by
  unfold sampleExp
  split
  · linarith
  · exact one_div_pos.2 (by linarith)

theorem sampleExp_strictMono : StrictMono sampleExp := by
  intro x y hxy
  unfold sampleExp
  by_cases hx : 0 ≤ x
  · rw [if_pos hx, if_pos (hx.trans hxy.le)]
    linarith
  · by_cases hy : 0 ≤ y
    · rw [if_neg hx, if_pos hy]
      have hlt : 1 / (1 - x) < 1 := (div_lt_one (by linarith)).2 (by linarith)
      linarith
    · rw [if_neg hx, if_neg hy]
      exact one_div_lt_one_div_of_lt (by linarith) (by linarith)

def sampleMath : BanditMath ℚ where
  exp := sampleExp
  sqrt := id
  log := id
  exp_pos := sampleExp_pos
  exp_strictMono := sampleExp_strictMono
  exp_zero := by
    unfold sampleExp
    norm_num

theorem updates_healthy_sample :
    ((∀ done, done <+: [((1 : ℤ), finite (50 : ℚ)), (7, .nan)] →
        Healthy ((banditInit 3 (finite (1 / 20)) (finite (7 / 100)) (finite (3 / 10)) 100 100).updates sampleMath
          done)) ∧
      ∀ done c, done ++ [c] <+: [((1 : ℤ), finite (50 : ℚ)), (7, .nan)] →
        InOrder ((banditInit 3 (finite (1 / 20)) (finite (7 / 100)) (finite (3 / 10)) 100 100).updates sampleMath done)
          ((banditInit 3 (finite (1 / 20)) (finite (7 / 100)) (finite (3 / 10)) 100 100).updates sampleMath
            (done ++ [c])) c.1) ↔
      ∀ c ∈ [((1 : ℤ), finite (50 : ℚ)), (7, .nan)], 0 ≤ c.1 ∧ c.1.toNat < banditArms 3 → c.2.isFinite = true :=
  updates_healthy_iff sampleMath 3 (by norm_num) (by norm_num) _ _ 100 100 _

/-- Three arms that have learnt nothing. -/
def sampleBandit : BanditState ℚ (banditArms 3) :=
  banditInit 3 (finite (1 / 20)) (finite (7 / 100)) (finite (3 / 10)) 100 100

theorem updates_poisoned :
    ¬Healthy (sampleBandit.updates sampleMath [(0, .nan)]) ∧
      (sampleBandit.updates sampleMath [(0, .nan)]).nonFinite = true := by
  have hrefused : (sampleBandit.updates sampleMath [(0, .nan)]).nonFinite = true := by decide +kernel
  refine ⟨fun h => ?_, hrefused⟩
  rw [h.accepted] at hrefused
  exact Bool.false_ne_true hrefused

end BanditState

end FoxTrader
