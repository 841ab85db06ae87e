import Mathlib.Algebra.Order.Ring.Int
import Mathlib.Order.Basic
import Mathlib.Tactic.Linarith
import Mathlib.Tactic.Ring

/-! # Rounding a fraction to the nearest integer, ties to even

    `halfEven x d` is the integer nearest to `x / d`, the even one of two that are as near. All that
    is used of it are the two comparisons with an integer: it is at most `k` exactly when `x / d` is
    below `k + 1/2`, or at it with `k` even, and likewise from below. -/

namespace Lib

/-- `x / d` to the nearest integer, a tie to the even one. -/
def halfEven (x : ℤ) (d : ℕ) : ℤ := x / d + if 2 * (x % d) > d ∨ (2 * (x % d) = d ∧ x / d % 2 = 1) then 1 else 0

/-- What rounding adds to `x` on the scale of `d`. -/
def halfEvenGain (x : ℤ) (d : ℕ) : ℤ := halfEven x d * d - x

variable {x k : ℤ} {d : ℕ}

theorem halfEven_le_iff (hd : 0 < d) :
    halfEven x d ≤ k ↔ 2 * x < (2 * k + 1) * d ∨ 2 * x = (2 * k + 1) * d ∧ k % 2 = 0 := by
  have hd' : (0 : ℤ) < d := Int.natCast_pos.2 hd
  have hr := Int.emod_nonneg x hd'.ne'
  have hr' := Int.emod_lt_of_pos x hd'
  have hx : x = d * (x / d) + x % d := (Int.mul_ediv_add_emod x d).symm
  unfold halfEven
  generalize x / d = q at hx ⊢
  generalize x % d = r at hr hr' hx ⊢
  subst hx
  have hexpand : (2 * k + 1) * (d : ℤ) = 2 * (d * k) + d := by ring
  rw [hexpand]
  rcases lt_trichotomy k q with hlt | rfl | hgt
  · -- Below the integer part both sides fail.
    have hmul : (d : ℤ) * (k + 1) ≤ d * q := mul_le_mul_of_nonneg_left hlt hd'.le
    rw [mul_add, mul_one] at hmul
    refine iff_of_false ?_ ?_
    · split <;> omega
    · omega
  · split <;> omega
  · have hmul : (d : ℤ) * (q + 1) ≤ d * k := mul_le_mul_of_nonneg_left hgt hd'.le
    rw [mul_add, mul_one] at hmul
    refine iff_of_true ?_ ?_
    · split <;> omega
    · omega

theorem le_halfEven_iff (hd : 0 < d) :
    k ≤ halfEven x d ↔ (2 * k - 1) * d < 2 * x ∨ (2 * k - 1) * d = 2 * x ∧ k % 2 = 0 := by
  have hbelow := halfEven_le_iff (x := x) (k := k - 1) hd
  have hexpand : (2 * (k - 1) + 1) * (d : ℤ) = (2 * k - 1) * d := by ring
  rw [hexpand] at hbelow
  generalize (2 * k - 1) * (d : ℤ) = t at hbelow ⊢
  omega

/-- Rounding does not tell the two sides of zero apart. -/
theorem halfEven_neg (hd : 0 < d) (x : ℤ) : halfEven (-x) d = -halfEven x d := by
  refine eq_of_forall_ge_iff fun k => ?_
  have hexpand : (2 * -k - 1) * (d : ℤ) = -((2 * k + 1) * d) := by ring
  rw [halfEven_le_iff hd, neg_le, le_halfEven_iff hd, hexpand]
  generalize (2 * k + 1) * (d : ℤ) = t
  omega

theorem halfEven_nonneg (hx : 0 ≤ x) (hd : 0 < d) : 0 ≤ halfEven x d := by
  rw [le_halfEven_iff hd]
  omega

theorem halfEven_nonpos (hx : x ≤ 0) (hd : 0 < d) : halfEven x d ≤ 0 := by
  rw [halfEven_le_iff hd]
  omega

/-- What rounds to nothing is half a unit at most. -/
theorem halfEven_eq_zero_iff (hd : 0 < d) : halfEven x d = 0 ↔ -(d : ℤ) ≤ 2 * x ∧ 2 * x ≤ d := by
  rw [eq_iff_le_not_lt, not_lt, halfEven_le_iff hd, le_halfEven_iff hd]
  omega

theorem halfEven_mono {y : ℤ} (hd : 0 < d) (h : x ≤ y) : halfEven x d ≤ halfEven y d := by
  have hy := (halfEven_le_iff (x := y) hd).1 le_rfl
  rw [halfEven_le_iff hd]
  generalize (2 * halfEven y d + 1) * (d : ℤ) = t at hy ⊢
  omega

/-- A whole number of units is not rounded. -/
theorem halfEven_mul (hd : 0 < d) (k : ℤ) : halfEven (k * d) d = k := by
  have hd' : (0 : ℤ) < d := Int.natCast_pos.2 hd
  refine eq_of_forall_ge_iff fun j => ?_
  have hexpand : (2 * j + 1) * (d : ℤ) = 2 * (j * d) + d := by ring
  rw [halfEven_le_iff hd, hexpand]
  constructor
  · intro h
    by_contra hlt
    have hmul : (j + 1) * (d : ℤ) ≤ k * d := Int.mul_le_mul_of_nonneg_right (by omega) hd'.le
    have hone : (j + 1) * (d : ℤ) = j * d + d := by ring
    omega
  · intro h
    have hmul : k * (d : ℤ) ≤ j * d := Int.mul_le_mul_of_nonneg_right h hd'.le
    omega

/-- An even number of units passes through, as it leaves the ties what they were. -/
theorem halfEven_add_mul (hd : 0 < d) (x : ℤ) {k : ℤ} (hk : k % 2 = 0) :
    halfEven (x + k * d) d = halfEven x d + k := by
  have hd' : (d : ℤ) ≠ 0 := by exact_mod_cast hd.ne'
  have hparity : (x / d + k) % 2 = x / d % 2 := by omega
  rw [halfEven, halfEven, Int.add_mul_emod_self_right, Int.add_mul_ediv_right _ _ hd', hparity]
  ring

/-- What is nearer to `k` units than half a unit rounds to `k`. -/
theorem halfEven_eq_of_near (hd : 0 < d) (hlow : -(d : ℤ) < 2 * (x - k * d)) (hup : 2 * (x - k * d) < d) :
    halfEven x d = k := by
  have hexpand : (2 * k + 1) * (d : ℤ) = 2 * (k * d) + d := by ring
  have hexpand' : (2 * k - 1) * (d : ℤ) = 2 * (k * d) - d := by ring
  refine le_antisymm ((halfEven_le_iff hd).2 (.inl ?_)) ((le_halfEven_iff hd).2 (.inl ?_))
  · omega
  · omega

/-- A common factor cancels. -/
theorem halfEven_mul_mul (hd : 0 < d) {c : ℕ} (hc : 0 < c) (x : ℤ) : halfEven (x * c) (d * c) = halfEven x d := by
  have hc' : (0 : ℤ) < c := Int.natCast_pos.2 hc
  refine eq_of_forall_ge_iff fun k => ?_
  have hleft : 2 * (x * c) = 2 * x * (c : ℤ) := by ring
  have hright : (2 * k + 1) * ((d * c : ℕ) : ℤ) = (2 * k + 1) * d * c := by push_cast; ring
  rw [halfEven_le_iff (Nat.mul_pos hd hc), halfEven_le_iff hd, hleft, hright, mul_lt_mul_iff_of_pos_right hc',
    mul_left_inj' hc'.ne']

/-- Two units, one at least four times the other, round a number alike only where the smaller rounds it to
    nothing. -/
theorem halfEven_eq_halfEven_iff {e : ℕ} (hd : 0 < d) (he : 4 * d ≤ e) (hx : 0 ≤ x) :
    halfEven x d = halfEven x e ↔ 2 * x ≤ d := by
  have he' : 0 < e := by omega
  constructor
  · intro heq
    by_contra hlarge
    have hzero : halfEven x d ≠ 0 := fun h => hlarge ((halfEven_eq_zero_iff hd).1 h).2
    have hone : 1 ≤ halfEven x d := by
      have hnonneg := halfEven_nonneg hx hd
      omega
    have hup := (halfEven_le_iff (x := x) hd).1 le_rfl
    have hlow := (le_halfEven_iff (x := x) he').1 heq.le
    generalize halfEven x d = k at hone hup hlow
    have hbig : (2 * k - 1) * ((4 * d : ℕ) : ℤ) ≤ (2 * k - 1) * e :=
      mul_le_mul_of_nonneg_left (by exact_mod_cast he) (by omega)
    have hpos : (d : ℤ) ≤ k * d := le_mul_of_one_le_left (by omega) hone
    have hexpand : (2 * k - 1) * ((4 * d : ℕ) : ℤ) = 8 * (k * d) - 4 * d := by push_cast; ring
    have hexpand' : (2 * k + 1) * (d : ℤ) = 2 * (k * d) + d := by ring
    omega
  · intro hsmall
    rw [(halfEven_eq_zero_iff hd).2 ⟨by omega, hsmall⟩, (halfEven_eq_zero_iff he').2 ⟨by omega, by omega⟩]

/-- Rounding moves a number by half a unit at most. -/
theorem halfEvenGain_le (hd : 0 < d) : -(d : ℤ) ≤ 2 * halfEvenGain x d ∧ 2 * halfEvenGain x d ≤ d := by
  have hle := (halfEven_le_iff (x := x) hd).1 le_rfl
  have hge := (le_halfEven_iff (x := x) hd).1 le_rfl
  have hexpand : (2 * halfEven x d + 1) * (d : ℤ) = 2 * (halfEven x d * d) + d := by ring
  have hexpand' : (2 * halfEven x d - 1) * (d : ℤ) = 2 * (halfEven x d * d) - d := by ring
  rw [hexpand] at hle
  rw [hexpand'] at hge
  unfold halfEvenGain
  omega

end Lib
