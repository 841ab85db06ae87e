import FoxTrader.Lib.TruncatedSeries
import Mathlib.Algebra.Order.Field.Rat
import Mathlib.Data.Int.Cast.Lemmas
import Mathlib.Tactic.GCongr
import Mathlib.Tactic.LinearCombination
import Mathlib.Tactic.Ring

/-! # Decay with a cut

    A value that gives up a share of itself again and again, in integers worth `1 / one`, each share cut
    towards zero. The value falls the way its exact counterpart does, up to the shares that were cut to
    nothing: after any number of turns it is within `one / d` of the geometric bound. Raising the value
    to a floor at every turn is the same as raising it once at the end, since the decay keeps the order. -/

namespace Lib

/-- One turn: a share `d` of `one` given up. -/
def decay (one : ℕ) (d x : ℤ) : ℤ := x - (x * d).tdiv one

variable {one : ℕ} {d x y lo : ℤ}

theorem decay_nonneg (hone : 0 < one) (hd : d ≤ one) (hx : 0 ≤ x) : 0 ≤ decay one d x :=
  sub_nonneg.2 (mul_tdiv_le hone hx hd)

theorem decay_le (hd : 0 ≤ d) (hx : 0 ≤ x) : decay one d x ≤ x :=
  sub_le_self _ (mul_tdiv_nonneg hx hd)

/-- A larger value gives up more, but not by more than it is larger. -/
theorem decay_mono (hone : 0 < one) (hd : 0 ≤ d ∧ d ≤ one) (hx : 0 ≤ x) (hxy : x ≤ y) :
    decay one d x ≤ decay one d y := by
  have hpos : (0 : ℤ) < one := Int.natCast_pos.2 hone
  have hprod : y * d ≤ x * d + (y - x) * one := by
    have hshare : (y - x) * d ≤ (y - x) * one := mul_le_mul_of_nonneg_left hd.2 (sub_nonneg.2 hxy)
    linarith [sub_mul y x d]
  have hcut : y * d / one ≤ x * d / one + (y - x) := by
    rw [← Int.add_mul_ediv_right _ _ hpos.ne']
    exact Int.ediv_le_ediv hpos hprod
  rw [decay, decay, Int.tdiv_eq_ediv_of_nonneg (mul_nonneg hx hd.1),
    Int.tdiv_eq_ediv_of_nonneg (mul_nonneg (hx.trans hxy) hd.1)]
  omega

/-- The decay above a floor. -/
theorem max_decay_max (hone : 0 < one) (hd : 0 ≤ d ∧ d ≤ one) (hx : 0 ≤ x) :
    max lo (decay one d (max lo x)) = max lo (decay one d x) := by
  rcases le_total lo x with h | h
  · rw [max_eq_right h]
  · have hdown : decay one d lo ≤ lo := decay_le hd.1 (hx.trans h)
    rw [max_eq_left h, max_eq_left hdown, max_eq_left ((decay_mono hone hd hx h).trans hdown)]

theorem iterate_decay_nonneg (hone : 0 < one) (hd : d ≤ one) (hx : 0 ≤ x) (n : ℕ) : 0 ≤ (decay one d)^[n] x := by
  induction n with
  | zero => exact hx
  | succ n ih =>
    rw [Function.iterate_succ_apply']
    exact decay_nonneg hone hd ih

/-- A turn more of a value that decays down to a lower bound. -/
theorem max_decay_iterate (hone : 0 < one) (hd : 0 ≤ d ∧ d ≤ one) (hx : 0 ≤ x) (n : ℕ) :
    max lo (decay one d (max lo ((decay one d)^[n] x))) = max lo ((decay one d)^[n + 1] x) := by
  rw [Function.iterate_succ_apply']
  exact max_decay_max hone hd (iterate_decay_nonneg hone hd.2 hx n)

/-- A cut share is short of the exact one by less than a unit. -/
theorem decay_lt (hone : 0 < one) (hd : 0 ≤ d) (hx : 0 ≤ x) :
    (decay one d x : ℚ) < (1 - d / one) * x + 1 := by
  have hpos : (0 : ℚ) < one := Nat.cast_pos.2 hone
  have hcut : x * d < one * ((x * d).tdiv one + 1) := by
    rw [Int.tdiv_eq_ediv_of_nonneg (mul_nonneg hx hd)]
    exact Int.lt_mul_ediv_self_add (Int.natCast_pos.2 hone) |>.trans_eq (mul_add_one _ _).symm
  have hcast : (x : ℚ) * d < one * (((x * d).tdiv one : ℤ) + 1) := by exact_mod_cast hcut
  have hshare : (x : ℚ) * d / one < ((x * d).tdiv one : ℤ) + 1 := (div_lt_iff₀' hpos).2 hcast
  calc (decay one d x : ℚ) = x - ((x * d).tdiv one : ℤ) := by rw [decay]; push_cast; ring
    _ < x - (x * d / one - 1) := by linarith
    _ = (1 - d / one) * x + 1 := by ring

/-- The geometric bound. -/
theorem iterate_decay_le (hone : 0 < one) (hd : 0 < d ∧ d ≤ one) (hx : 0 ≤ x) (n : ℕ) :
    ((decay one d)^[n] x : ℚ) ≤ (1 - d / one) ^ n * x + one / d := by
  have hpos : (0 : ℚ) < one := Nat.cast_pos.2 hone
  have hdpos : (0 : ℚ) < d := Int.cast_pos.2 hd.1
  have hkeep : (0 : ℚ) ≤ 1 - d / one := by
    have hle : (d : ℚ) / one ≤ 1 := (div_le_one₀ hpos).2 (by exact_mod_cast hd.2)
    linarith
  have hback : (d : ℚ) / one * (one / d) = 1 := by
    rw [div_mul_div_comm, mul_comm (d : ℚ), div_self (mul_pos hpos hdpos).ne']
  induction n with
  | zero =>
    rw [Function.iterate_zero_apply, pow_zero, one_mul]
    exact le_add_of_nonneg_right (div_nonneg hpos.le hdpos.le)
  | succ n ih =>
    rw [Function.iterate_succ_apply']
    have hstep := decay_lt hone hd.1.le (iterate_decay_nonneg hone hd.2 hx n)
    calc (decay one d ((decay one d)^[n] x) : ℚ) ≤ (1 - d / one) * ((decay one d)^[n] x : ℤ) + 1 := hstep.le
      _ ≤ (1 - d / one) * ((1 - d / one) ^ n * x + one / d) + 1 := by gcongr
      _ = (1 - d / one) ^ (n + 1) * x + one / d := by linear_combination -hback

/-- What a decay with a lower bound has come to, or is still to lose. -/
def decayBound (one : ℕ) (d lo x : ℤ) (n : ℕ) : ℚ := max lo ((1 - d / one) ^ n * x + one / d)

theorem max_iterate_decay_le (hone : 0 < one) (hd : 0 < d ∧ d ≤ one) (hx : 0 ≤ x) (n : ℕ) :
    ((max lo ((decay one d)^[n] x) : ℤ) : ℚ) ≤ decayBound one d lo x n := by
  rw [Int.cast_max]
  exact max_le_max le_rfl (iterate_decay_le hone hd hx n)

end Lib
