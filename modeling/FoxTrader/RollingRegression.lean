import Mathlib.Algebra.BigOperators.Fin
import Mathlib.Algebra.Order.Chebyshev
import FoxTrader.RollingWindow

/-! # The regression over the window

    The variance and the fit of the regression are differences of sums of squares, each square cut
    to the fixed point before it is added. What is cut off is less than one unit for each square and
    enters the differences multiplied by the number of samples, so where the prices of a window are
    almost the same the difference is mostly what was cut off: the variance, divided by the square of
    the number of samples, still comes out as zero, but the fit divides by the difference. -/

namespace FoxTrader

open Lib

/-! ### Sums of squares -/

/-- `n Σ p² - (Σ p)²`. -/
def variation (ps : List ℤ) : ℤ := ps.length * (ps.map fun p => p * p).sum - ps.sum * ps.sum

/-- `n Σ i p - Σ i · Σ p`. -/
def comovement (ps : List ℤ) : ℤ := ps.length * weightedSum ps - (ps.length * (ps.length - 1) / 2 : ℕ) * ps.sum

/-- What cutting the squares to the fixed point takes from the variation. -/
def cutOff (ps : List ℤ) : ℤ := ps.length * (ps.map fun p : ℤ => p * p % fpnOne).sum - ps.sum * ps.sum % fpnOne

/-- The variation of the positions, `n Σ i² - (Σ i)²`. -/
def positionVariation (n : ℕ) : ℕ := n * n * (n * n - 1) / 12

theorem variation_nonneg (ps : List ℤ) : 0 ≤ variation ps := by
  have hcs := sq_sum_le_card_mul_sum_sq (s := Finset.univ) (f := fun i : Fin ps.length => ps[i.1])
  rw [Fin.sum_univ_getElem, Finset.card_univ, Fintype.card_fin, pow_two] at hcs
  have hsq : (ps.map fun p => p * p).sum = ∑ i : Fin ps.length, ps[i.1] ^ 2 := by
    rw [← Fin.sum_univ_fun_getElem]
    exact Finset.sum_congr rfl fun i _ => (pow_two _).symm
  rw [variation, hsq]
  exact sub_nonneg.2 hcs

/-- The sum of the squares as the fixed point has them. -/
theorem sum_cut (ps : List ℤ) :
    (fpnOne : ℤ) * (ps.map fun p : ℤ => p * p / fpnOne).sum =
      (ps.map fun p => p * p).sum - (ps.map fun p : ℤ => p * p % fpnOne).sum := by
  induction ps with
  | nil => rfl
  | cons p ps ih =>
    rw [List.map_cons, List.map_cons, List.map_cons, List.sum_cons, List.sum_cons, List.sum_cons, mul_add, ih]
    have hp := Int.mul_ediv_add_emod (p * p) fpnOne
    linarith

/-- The difference the code forms is the variation less what was cut off. -/
theorem sum_cut_variation (ps : List ℤ) :
    (fpnOne : ℤ) * (ps.length * (ps.map fun p : ℤ => p * p / fpnOne).sum - ps.sum * ps.sum / fpnOne) =
      variation ps - cutOff ps := by
  have hsquares := sum_cut ps
  have hsum := Int.mul_ediv_add_emod (ps.sum * ps.sum) fpnOne
  rw [variation, cutOff, mul_sub, mul_left_comm, hsquares]
  linarith

/-- Less than one unit is cut off for each square. -/
theorem sum_emod_le (ps : List ℤ) : (ps.map fun p : ℤ => p * p % fpnOne).sum ≤ ps.length * (fpnOne - 1) := by
  induction ps with
  | nil => rw [List.map_nil, List.sum_nil, List.length_nil, Nat.cast_zero, zero_mul]
  | cons p ps ih =>
    have hlt : p * p % (fpnOne : ℤ) < fpnOne := Int.emod_lt_of_pos _ (by norm_num)
    rw [List.map_cons, List.sum_cons, List.length_cons]
    push_cast at hlt ih ⊢
    linarith

theorem cutOff_lt {ps : List ℤ} (hne : ps ≠ []) : cutOff ps < fpnOne * (ps.length * ps.length) := by
  have hlen : (0 : ℤ) < ps.length := Int.natCast_pos.2 (List.length_pos_of_ne_nil hne)
  have hsquares := mul_le_mul_of_nonneg_left (sum_emod_le ps) hlen.le
  have hsum : 0 ≤ ps.sum * ps.sum % (fpnOne : ℤ) := Int.emod_nonneg _ (by norm_num)
  have hprod : (0 : ℤ) < ps.length * ps.length := mul_pos hlen hlen
  rw [cutOff]
  push_cast at hsquares hsum ⊢
  linarith

theorem six_dvd (m : ℕ) : 6 ∣ (m + 1) * m * (2 * m + 1) := by
  induction m with
  | zero => exact dvd_zero 6
  | succ m ih =>
    have hnext : (m + 1 + 1) * (m + 1) * (2 * (m + 1) + 1) =
      (m + 1) * m * (2 * m + 1) + 6 * ((m + 1) * (m + 1)) := by ring
    rw [hnext]
    exact dvd_add ih (dvd_mul_right 6 _)

/-- The variation of the positions is what the sums over them give. -/
theorem positionVariation_eq (n : ℕ) :
    (n : ℤ) * (n * (n - 1) * (2 * n - 1) / 6 : ℕ) - (n * (n - 1) / 2 : ℕ) * (n * (n - 1) / 2 : ℕ) =
      positionVariation n := by
  cases n with
  | zero => rfl
  | succ m =>
    obtain ⟨b, hb⟩ := six_dvd m
    obtain ⟨a, ha⟩ := (Nat.even_mul_succ_self m).two_dvd
    have hx : (m + 1) * (m + 1 - 1) / 2 = a := by
      rw [Nat.add_sub_cancel, Nat.mul_comm, ha, Nat.mul_div_cancel_left a two_pos]
    have hx2 : (m + 1) * (m + 1 - 1) * (2 * (m + 1) - 1) / 6 = b := by
      have hodd : 2 * (m + 1) - 1 = 2 * m + 1 := by omega
      rw [Nat.add_sub_cancel, hodd, hb, Nat.mul_div_cancel_left b (by norm_num)]
    have hpred : (m + 1) * (m + 1) - 1 = m * (m + 2) := Nat.sub_eq_of_eq_add (by ring)
    have hsq : (m + 1) * (m + 1) * (m * (m + 2)) + 12 * (a * a) = 12 * ((m + 1) * b) := by
      calc (m + 1) * (m + 1) * (m * (m + 2)) + 12 * (a * a)
          = (m + 1) * (m + 1) * (m * (m + 2)) + 3 * ((2 * a) * (2 * a)) := by ring
        _ = 2 * ((m + 1) * ((m + 1) * m * (2 * m + 1))) := by
          rw [← ha]
          ring
        _ = 12 * ((m + 1) * b) := by
          rw [hb]
          ring
    have hdiff : (m + 1) * (m + 1) * (m * (m + 2)) = 12 * ((m + 1) * b - a * a) := by
      rw [Nat.mul_sub]
      exact Nat.eq_sub_of_add_eq hsq
    have hle : a * a ≤ (m + 1) * b := by omega
    rw [hx, hx2, positionVariation, hpred, hdiff, Nat.mul_div_cancel_left _ (by norm_num), Nat.cast_sub hle]
    push_cast
    ring

theorem positionVariation_pos {n : ℕ} (hn : 2 ≤ n) : 0 < positionVariation n := by
  have hsq : 4 ≤ n * n := Nat.mul_le_mul hn hn
  refine Nat.div_pos ?_ (by omega)
  calc 12 = 4 * 3 := rfl
    _ ≤ n * n * (n * n - 1) := Nat.mul_le_mul hsq (by omega)

/-! ### The fit -/

/-- The variation the code divides by. -/
def keptVariation (ps : List ℤ) : ℤ := (variation ps - cutOff ps) / fpnOne

theorem keptVariation_eq (ps : List ℤ) :
    keptVariation ps = ps.length * (ps.map fun p : ℤ => p * p / fpnOne).sum - ps.sum * ps.sum / fpnOne := by
  rw [keptVariation, ← sum_cut_variation, Int.mul_ediv_cancel_left _ (by norm_num)]

/-- When it is below zero, it is above minus the square of the number of samples. -/
theorem neg_lt_keptVariation {ps : List ℤ} (hne : ps ≠ []) : -((ps.length : ℤ) * ps.length) < keptVariation ps := by
  have hkept := sum_cut_variation ps
  have hlt := cutOff_lt hne
  have hnonneg := variation_nonneg ps
  rw [← keptVariation_eq] at hkept
  push_cast at hkept hlt
  linarith

/-- The slope times the quotient by the variation, both cut to whole units. -/
def fitProduct (ps : List ℤ) : ℕ :=
  ((comovement ps).natAbs / positionVariation ps.length) *
    ((comovement ps).natAbs * fpnOne / (keptVariation ps).natAbs)

/-- The fit of a window comes out between zero and one. -/
def FitWithin (ps : List ℤ) : Prop :=
  fitProduct ps < if keptVariation ps < 0 then fpnOne else fpnOne * (fpnOne + 1)

instance (ps : List ℤ) : Decidable (FitWithin ps) := inferInstanceAs (Decidable (_ < _))

/-- Whatever the sign of the numerator, the sign of the fit is that of the variation. -/
theorem fit_tdiv (N S : ℤ) (D : ℕ) :
    (N.tdiv D * (N * fpnOne).tdiv S).tdiv fpnOne =
      if S < 0 then -(((N.natAbs / D) * (N.natAbs * fpnOne / S.natAbs) / fpnOne : ℕ) : ℤ)
      else (((N.natAbs / D) * (N.natAbs * fpnOne / S.natAbs) / fpnOne : ℕ) : ℤ) := by
  have hN : N.tdiv D * (N * fpnOne).tdiv S = (N.natAbs : ℤ).tdiv D * ((N.natAbs : ℤ) * fpnOne).tdiv S := by
    rcases Int.natAbs_eq N with h | h
    · rw [← h]
    · rw [h, Int.natAbs_neg, Int.natAbs_natCast, neg_mul (N.natAbs : ℤ) (fpnOne : ℤ), Int.neg_tdiv, Int.neg_tdiv,
        neg_mul_neg]
  rw [hN]
  by_cases hS : S < 0
  · obtain ⟨n, rfl⟩ := Int.exists_eq_neg_ofNat hS.le
    rw [if_pos hS, Int.natAbs_neg, Int.natAbs_natCast, Int.tdiv_neg, mul_neg, Int.neg_tdiv]
    rfl
  · obtain ⟨n, rfl⟩ := Int.eq_ofNat_of_zero_le (not_lt.1 hS)
    rw [if_neg hS, Int.natAbs_natCast]
    rfl

/-- A quotient by one, with the sign of the variation, is between zero and one. -/
theorem signed_within_iff (neg : Prop) [Decidable neg] (A : ℕ) :
    (0 ≤ (if neg then -((A / fpnOne : ℕ) : ℤ) else ((A / fpnOne : ℕ) : ℤ)) ∧
        (if neg then -((A / fpnOne : ℕ) : ℤ) else ((A / fpnOne : ℕ) : ℤ)) ≤ fpnOne) ↔
      A < if neg then fpnOne else fpnOne * (fpnOne + 1) := by
  by_cases h : neg
  · have hzero : A / fpnOne = 0 ↔ A < fpnOne := Nat.div_eq_zero_iff_lt (by norm_num)
    rw [if_pos h, if_pos h, ← hzero]
    generalize A / fpnOne = q
    constructor
    · rintro ⟨hlow, -⟩
      omega
    · rintro rfl
      exact ⟨le_rfl, Int.natCast_nonneg _⟩
  · have hle : A / fpnOne < fpnOne + 1 ↔ A < (fpnOne + 1) * fpnOne := Nat.div_lt_iff_lt_mul (by norm_num)
    rw [if_neg h, if_neg h, mul_comm fpnOne, ← hle, Nat.lt_succ_iff, Nat.cast_le]
    exact and_iff_right (Int.natCast_nonneg _)

/-! ### The variance -/

/-- Fewer units than the square of the number of samples vanish when divided by it. -/
theorem variance_tdiv {S : ℤ} {n r : ℕ} (hr : r * (n * n) ≤ fpnOne) (hS : -((n : ℤ) * n) < S) :
    0 ≤ (S * r).tdiv fpnOne := by
  by_cases hneg : S < 0
  · obtain ⟨s, rfl⟩ := Int.exists_eq_neg_ofNat hneg.le
    have hs : s < n * n := by exact_mod_cast neg_lt_neg_iff.1 hS
    have hlt : s * r < fpnOne := by
      rcases Nat.eq_zero_or_pos r with rfl | hpos
      · exact Nat.pos_of_ne_zero (by norm_num)
      · exact (Nat.mul_lt_mul_of_pos_right hs hpos).trans_le (by rwa [Nat.mul_comm])
    rw [neg_mul, Int.neg_tdiv]
    have hzero : ((s : ℤ) * r).tdiv fpnOne = 0 := Int.tdiv_eq_zero_of_lt (by positivity) (by exact_mod_cast hlt)
    rw [hzero, neg_zero]
  · exact Int.tdiv_nonneg (mul_nonneg (not_lt.1 hneg) (Int.natCast_nonneg r)) (Int.natCast_nonneg _)

/-- The reciprocals the variance is multiplied by are not above those of the square of the number of samples. -/
theorem reciprocal_sq_le (n : ℕ) : fpnOne / n * (fpnOne / n) / fpnOne * (n * n) ≤ fpnOne := by
  have hle : fpnOne / n * n ≤ fpnOne := Nat.div_mul_le_self ..
  have hcut : fpnOne / n * (fpnOne / n) / fpnOne * fpnOne ≤ fpnOne / n * (fpnOne / n) := Nat.div_mul_le_self ..
  refine Nat.le_of_mul_le_mul_right ?_ (Nat.pos_of_ne_zero (by norm_num : fpnOne ≠ 0))
  calc fpnOne / n * (fpnOne / n) / fpnOne * (n * n) * fpnOne
      = fpnOne / n * (fpnOne / n) / fpnOne * fpnOne * (n * n) := by ring
    _ ≤ fpnOne / n * (fpnOne / n) * (n * n) := Nat.mul_le_mul_right _ hcut
    _ = fpnOne / n * n * (fpnOne / n * n) := by ring
    _ ≤ fpnOne * fpnOne := Nat.mul_le_mul hle hle

namespace RollingStats

/-- The numerator of the price slope. -/
def priceNumerator (rs : RollingStats) : Fpn := rs.slopeNumerator rs.priceSumXyRunning rs.priceSumRunning

/-- No operation of the regression saturates. -/
def RegressFits (rs : RollingStats) : Prop :=
  Fpn.Fits (rs.count * fpnOne) ∧
    Fpn.Fits ((rs.count * (rs.count - 1) / 2 : ℕ) * fpnOne) ∧
    Fpn.Fits ((rs.count * (rs.count - 1) * (2 * rs.count - 1) / 6 : ℕ) * fpnOne) ∧
    Fpn.DivFits (.fromInt 1) (.fromInt rs.count) ∧
    Fpn.MulFits (reciprocal rs.count) (reciprocal rs.count) ∧
    Fpn.MulFits (.fromInt rs.count) rs.priceSumY2Running ∧
    Fpn.MulFits rs.priceSumRunning rs.priceSumRunning ∧
    Fpn.Fits (((Fpn.fromInt rs.count).mul rs.priceSumY2Running).v - (rs.priceSumRunning.mul rs.priceSumRunning).v) ∧
    Fpn.MulFits rs.ssTotal ((reciprocal rs.count).mul (reciprocal rs.count)) ∧
    Fpn.MulFits (.fromInt rs.count) rs.priceSumXyRunning ∧
    Fpn.MulFits rs.sumX rs.priceSumRunning ∧
    Fpn.Fits (((Fpn.fromInt rs.count).mul rs.priceSumXyRunning).v - (rs.sumX.mul rs.priceSumRunning).v) ∧
    Fpn.MulFits (.fromInt rs.count) rs.sumX2 ∧
    Fpn.MulFits rs.sumX rs.sumX ∧
    Fpn.Fits (((Fpn.fromInt rs.count).mul rs.sumX2).v - (rs.sumX.mul rs.sumX).v) ∧
    Fpn.DivFits rs.priceNumerator rs.slopeDenominator ∧
    Fpn.DivFits rs.priceNumerator rs.ssTotal ∧
    Fpn.MulFits (rs.priceNumerator.divNoAssert rs.slopeDenominator) (rs.priceNumerator.divNoAssert rs.ssTotal)

instance (rs : RollingStats) : Decidable rs.RegressFits := inferInstanceAs (Decidable (_ ∧ _))

section
variable {W : ℕ} {rs : RollingStats} {xs : List Sample}

/-- The prices of some samples. -/
def prices (xs : List Sample) : List ℤ := xs.map (·.price.v)

theorem length_prices (xs : List Sample) : (prices xs).length = xs.length := List.length_map ..

theorem mul_self_v {a : Fpn} (h : Fpn.MulFits a a) : (a.mul a).v = a.v * a.v / fpnOne := by
  rw [Fpn.mul_tdiv h, Int.tdiv_eq_ediv_of_nonneg (mul_self_nonneg a.v)]

/-- `ss_total` is the variation of the window less what was cut off. -/
theorem ssTotal_v (hsums : rs.SumsOver xs) (hcount : rs.count = xs.length) (hfits : rs.RegressFits)
    (hsquares : ∀ x ∈ xs, Fpn.MulFits x.price x.price) : rs.ssTotal.v = keptVariation (prices xs) := by
  obtain ⟨hn, -, -, -, -, hy2, hyy, hsub, -⟩ := hfits
  have htotal : total (fun x => (x.price.mul x.price).v) xs = ((prices xs).map fun p : ℤ => p * p / fpnOne).sum := by
    rw [total, prices, List.map_map]
    exact congrArg List.sum (List.map_congr_left fun x hx => mul_self_v (hsquares x hx))
  rw [ssTotal, Fpn.sub_v hsub, Fpn.fromInt_mul_v hn hy2, mul_self_v hyy, hsums.priceY2, hsums.price, htotal,
    keptVariation_eq, length_prices, hcount]
  rfl

/-- The numerator is the covariation of the window. -/
theorem priceNumerator_v (hsums : rs.SumsOver xs) (hcount : rs.count = xs.length) (hfits : rs.RegressFits) :
    rs.priceNumerator.v = comovement (prices xs) := by
  obtain ⟨hn, hx, -, -, -, -, -, -, -, hxy, hxs, hsub, -⟩ := hfits
  rw [priceNumerator, slopeNumerator, Fpn.sub_v hsub, Fpn.fromInt_mul_v hn hxy, sumX, Fpn.fromInt_mul_v hx hxs,
    hsums.priceXy, hsums.price, comovement, length_prices, hcount]
  rfl

theorem slopeDenominator_v (hfits : rs.RegressFits) :
    rs.slopeDenominator.v = positionVariation rs.count * fpnOne := by
  obtain ⟨hn, hx, hx2, -, -, -, -, -, -, -, -, -, hnx2, hxx, hsub, -⟩ := hfits
  have hsq : (rs.sumX.mul rs.sumX).v = _ := Fpn.fromInt_mul_v hx hxx
  rw [slopeDenominator, Fpn.sub_v hsub, Fpn.fromInt_mul_v hn hnx2, hsq, sumX2, sumX, Fpn.fromInt_v hx2,
    Fpn.fromInt_v hx,
    ← positionVariation_eq]
  ring

theorem reciprocal_v (hn : 0 < rs.count) (hfits : rs.RegressFits) :
    (reciprocal rs.count).v = (fpnOne / rs.count : ℕ) := by
  obtain ⟨hfit, -, -, hdiv, -⟩ := hfits
  have hone : (Fpn.fromInt 1).v = fpnOne := by decide +kernel
  have hv := Fpn.fromInt_v hfit
  have hne : (Fpn.fromInt rs.count).v ≠ 0 := by
    rw [hv]
    exact mul_ne_zero (Int.natCast_ne_zero.2 hn.ne') (by norm_num)
  rw [reciprocal, if_neg hn.ne', Fpn.div_tdiv hne hdiv, hone, hv]
  exact Int.mul_tdiv_mul_of_pos_left _ _ (by norm_num)

/-- The variance over the window is never below zero. -/
theorem regress_variance_nonneg (hsums : rs.SumsOver xs) (hcount : rs.count = xs.length) (hn : 0 < rs.count)
    (hfits : rs.RegressFits) (hsquares : ∀ x ∈ xs, Fpn.MulFits x.price x.price) : 0 ≤ rs.regress.priceVariance.v := by
  have hss := ssTotal_v hsums hcount hfits hsquares
  have hrecip := reciprocal_v hn hfits
  obtain ⟨-, -, -, -, hrr, -, -, -, hvar, -⟩ := hfits
  have hr : ((reciprocal rs.count).mul (reciprocal rs.count)).v =
      (fpnOne / rs.count * (fpnOne / rs.count) / fpnOne : ℕ) := by
    rw [mul_self_v hrr, hrecip]
    push_cast
    rfl
  have hlen : (prices xs).length = rs.count := by rw [length_prices, hcount]
  have hlow := neg_lt_keptVariation (List.ne_nil_of_length_pos (hlen.symm ▸ hn))
  rw [hlen] at hlow
  have hv : rs.regress.priceVariance.v =
    (rs.ssTotal.v * ((reciprocal rs.count).mul (reciprocal rs.count)).v).tdiv fpnOne :=
    Fpn.mul_tdiv hvar
  rw [hv, hss, hr]
  exact variance_tdiv (reciprocal_sq_le rs.count) hlow

/-- From two samples on the fit is the slope times the quotient by the variation, zero if there is none. -/
theorem regress_fit_eq (hden : rs.slopeDenominator.v ≠ 0) :
    rs.regress.priceRSquared = if rs.ssTotal.v = 0 then Fpn.zero
      else (rs.priceNumerator.divNoAssert rs.slopeDenominator).mul (rs.priceNumerator.divNoAssert rs.ssTotal) := by
  unfold regress
  dsimp only
  rw [Fpn.isZero_of_ne hden, Bool.not_false, Bool.true_and, Fpn.blendOnMask_true, Fpn.blendOnMask_true]
  by_cases hss : rs.ssTotal.v = 0
  · rw [Fpn.isZero_of_eq hss, if_pos hss, Bool.not_true, Fpn.blendOnMask_false]
  · rw [Fpn.isZero_of_ne hss, if_neg hss, Bool.not_false, Fpn.blendOnMask_true, Fpn.blendOnMask_true, priceNumerator]

theorem regress_fit_within_iff (hsums : rs.SumsOver xs) (hcount : rs.count = xs.length) (hn : 2 ≤ rs.count)
    (hfits : rs.RegressFits) (hsquares : ∀ x ∈ xs, Fpn.MulFits x.price x.price) :
    (0 ≤ rs.regress.priceRSquared.v ∧ rs.regress.priceRSquared.v ≤ fpnOne) ↔ FitWithin (prices xs) := by
  have hss := ssTotal_v hsums hcount hfits hsquares
  have hnum := priceNumerator_v hsums hcount hfits
  have hden := slopeDenominator_v hfits
  have hlen : (prices xs).length = rs.count := by rw [length_prices, hcount]
  have hpos := positionVariation_pos hn
  have hne : rs.slopeDenominator.v ≠ 0 := by
    rw [hden]
    exact mul_ne_zero (Int.natCast_ne_zero.2 hpos.ne') (by norm_num)
  obtain ⟨-, -, -, -, -, -, -, -, -, -, -, -, -, -, -, hslope, hquot, hprod⟩ := hfits
  rw [regress_fit_eq hne, FitWithin, fitProduct, hlen]
  by_cases hzero : rs.ssTotal.v = 0
  · rw [if_pos hzero, ← hss, hzero, if_neg (lt_irrefl 0), Int.natAbs_zero, Nat.div_zero, Nat.mul_zero]
    exact ⟨fun _ => by norm_num, fun _ => ⟨le_rfl, by decide⟩⟩
  · have hslope_v : (rs.priceNumerator.divNoAssert rs.slopeDenominator).v =
        (comovement (prices xs)).tdiv (positionVariation rs.count) := by
      rw [Fpn.div_tdiv hne hslope, hnum, hden]
      exact Int.mul_tdiv_mul_of_pos_left _ _ (by norm_num)
    rw [if_neg hzero, Fpn.mul_tdiv hprod, hslope_v, Fpn.div_tdiv hzero hquot, hnum, hss, fit_tdiv]
    exact signed_within_iff ..

/-- A window of less than two samples has no fit to leave the range. -/
theorem fitWithin_of_short {ps : List ℤ} (hlen : ps.length < 2) : FitWithin ps := by
  have hzero : comovement ps = 0 := by
    match ps, hlen with
    | [], _ => rfl
    | [p], _ =>
      rw [comovement, List.length_singleton]
      simp [weightedSum]
  rw [FitWithin, fitProduct, hzero, Int.natAbs_zero, Nat.zero_div, Nat.zero_mul]
  split <;> norm_num

/-! ### The published fit -/

/-- No operation of a push saturates. -/
def PushFits (W : ℕ) (rs : RollingStats) (x : Sample) : Prop :=
  rs.Unsaturated W x ∧ Fpn.MulFits x.price x.price ∧
    (2 ≤ (rs.pushWindow W x).count → (rs.pushWindow W x).RegressFits)

instance (W : ℕ) (rs : RollingStats) (x : Sample) : Decidable (rs.PushFits W x) := inferInstanceAs (Decidable (_ ∧ _))

/-- Nothing is published before there are two samples, and from then on the regression over the window. -/
structure Publishes (W : ℕ) (rs : RollingStats) (xs : List Sample) : Prop where
  tracks : rs.Tracks W xs
  squares : ∀ x ∈ xs, Fpn.MulFits x.price x.price
  before : rs.count < 2 → rs.priceVariance.v = 0 ∧ rs.priceRSquared.v = 0
  after : 2 ≤ rs.count → ∃ s, rs = regress s ∧ s.Tracks W xs ∧ s.RegressFits

theorem publishes_init {W : ℕ} (hpos : 0 < W) : init.Publishes W [] :=
  ⟨tracks_init hpos, fun _ hx => absurd hx List.not_mem_nil, fun _ => ⟨rfl, rfl⟩, fun h => absurd h (by decide)⟩

theorem pushWindow_published (W : ℕ) (rs : RollingStats) (x : Sample) :
    (rs.pushWindow W x).priceVariance = rs.priceVariance ∧ (rs.pushWindow W x).priceRSquared = rs.priceRSquared := by
  unfold pushWindow pushDelta advance pushExtremes pushSums
  dsimp only
  unfold write pushVwap pushVolumes
  dsimp only
  exact ⟨rfl, rfl⟩

theorem Publishes.push {x : Sample} (hW : W.isPowerOfTwo) (h : rs.Publishes W xs) (hfits : rs.PushFits W x) :
    (rs.push W x).Publishes W (xs ++ [x]) := by
  obtain ⟨hsums, hsquare, hregress⟩ := hfits
  have htracks := h.tracks.pushWindow hW hsums
  have hsquares : ∀ y ∈ xs ++ [x], Fpn.MulFits y.price y.price := by
    intro y hy
    rcases List.mem_append.1 hy with hold | hnew
    · exact h.squares y hold
    · rwa [List.mem_singleton.1 hnew]
  unfold RollingStats.push
  dsimp only
  by_cases hcount : (rs.pushWindow W x).count < 2
  · rw [if_pos hcount]
    obtain ⟨hvar, hfit⟩ := pushWindow_published W rs x
    have hold : rs.count < 2 := by
      have hplace := (pushWindow_place W rs x).1
      omega
    refine ⟨htracks, hsquares, fun _ => ?_, fun htwo => absurd hcount (not_lt.2 htwo)⟩
    rw [hvar, hfit]
    exact h.before hold
  · rw [if_neg hcount]
    exact ⟨htracks.regress, hsquares, fun hlt => absurd hlt hcount,
      fun _ => ⟨rs.pushWindow W x, rfl, htracks, hregress (not_lt.1 hcount)⟩⟩

theorem Publishes.variance_nonneg (h : rs.Publishes W xs) : 0 ≤ rs.priceVariance.v := by
  by_cases hcount : rs.count < 2
  · rw [(h.before hcount).1]
  · obtain ⟨s, rfl, htracks, hfits⟩ := h.after (not_lt.1 hcount)
    have hlen : s.count = (window W xs).length := by rw [length_window, htracks.count]
    have htwo : 2 ≤ s.count := not_lt.1 hcount
    exact regress_variance_nonneg htracks.sums hlen (by omega) hfits fun x hx => h.squares x (List.mem_of_mem_drop hx)

theorem Publishes.fit_within_iff (h : rs.Publishes W xs) :
    (0 ≤ rs.priceRSquared.v ∧ rs.priceRSquared.v ≤ fpnOne) ↔ FitWithin (prices (window W xs)) := by
  have hlen : rs.count = (window W xs).length := by rw [length_window, h.tracks.count]
  by_cases hcount : rs.count < 2
  · rw [(h.before hcount).2]
    refine iff_of_true ⟨le_rfl, by decide⟩ (fitWithin_of_short ?_)
    rwa [length_prices, ← hlen]
  · obtain ⟨s, rfl, htracks, hfits⟩ := h.after (not_lt.1 hcount)
    exact regress_fit_within_iff htracks.sums hlen (not_lt.1 hcount) hfits fun x hx =>
      h.squares x (List.mem_of_mem_drop hx)

end

/-- Two trades at almost one price. -/
def sampleFlatTrades : List Sample :=
  [⟨.fromInt 100, .fromInt 1, false⟩, ⟨.saturate (100 * fpnOne + 184467440737), .fromInt 1, false⟩]

end RollingStats

end FoxTrader
