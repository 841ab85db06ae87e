import Mathlib.Data.Nat.Sqrt
import Mathlib.Tactic.Linarith
import Mathlib.Tactic.Ring

/-! # The integer square root by Newton's iteration

    A step takes the mean of `y` and `n / y`, both truncated. It never falls below the root `s`, and the
    distance `d` to it becomes `d² / 2s + 1` at most; from a start within a factor of two below the root
    the distance falls below `s / 4`, `s / 32`, `s / 2¹¹` and so on, each bound the square of the one
    before, until the rounding is all that is left. Then the iteration stays at `s` or `s + 1`: where `n + 1` is a
    square it goes back and forth between the two. -/

namespace Lib

/-- One step on `n` at `y`. -/
def newtonStep (n y : ℕ) : ℕ := (y + n / y) / 2

/-- `k` steps from `y`. -/
def newtonRun (n y : ℕ) : ℕ → ℕ
  | 0 => y
  | k + 1 => newtonStep n (newtonRun n y k)

variable {n y p s c d d' k : ℕ}

/-- The mean is not below the root. -/
theorem sqrt_le_newtonStep (hy : 0 < y) : Nat.sqrt n ≤ newtonStep n y := by
  have hroot := Nat.sqrt_le n
  generalize Nat.sqrt n = s at hroot ⊢
  refine (Nat.le_div_iff_mul_le (by decide)).2 ?_
  by_cases hfar : 2 * s ≤ y
  · exact (by omega : s * 2 ≤ y).trans (Nat.le_add_right ..)
  · obtain ⟨r, hr⟩ : ∃ r, y + r = 2 * s := ⟨2 * s - y, by omega⟩
    have hquot : r ≤ n / y := by
      refine (Nat.le_div_iff_mul_le hy).2 (le_trans ?_ hroot)
      -- The product of two numbers of a given mean is largest where they are equal.
      nlinarith [sq_nonneg ((y : ℤ) - s), (by exact_mod_cast hr : (y : ℤ) + r = 2 * s)]
    omega

/-- The error of the mean, before it is divided. -/
theorem newtonStep_error (hd : newtonStep n y = Nat.sqrt n + d) :
    2 * (y : ℤ) * d ≤ (y - Nat.sqrt n) ^ 2 + 2 * Nat.sqrt n := by
  have hroot := Nat.sqrt_le_add n
  generalize Nat.sqrt n = s at hroot hd ⊢
  have hquot : y * (n / y) ≤ n := Nat.mul_div_le ..
  have hmean : 2 * (s + d) ≤ y + n / y := by
    rw [← hd, newtonStep]
    omega
  generalize n / y = q at hquot hmean
  have hscaled : y * (2 * (s + d)) ≤ y * (y + q) := Nat.mul_le_mul_left y hmean
  zify at hroot hquot hscaled
  nlinarith only [hroot, hquot, hscaled]

/-- From above: the square of the relative distance, and one for the rounding. -/
theorem newtonStep_distance (hd : newtonStep n (Nat.sqrt n + d) = Nat.sqrt n + d') :
    2 * (Nat.sqrt n + d) * d' ≤ d ^ 2 + 2 * Nat.sqrt n := by
  have herror := newtonStep_error hd
  have hdist : ((Nat.sqrt n + d : ℕ) : ℤ) - Nat.sqrt n = d := by push_cast; ring
  rw [hdist] at herror
  exact_mod_cast herror

/-- A distance of `s / c + 2` becomes one of `s / 2c² + 2`. -/
theorem distance_squared (hc : 4 ≤ c) (hs : 4 ≤ s) (hstep : 2 * (s + d) * d' ≤ d ^ 2 + 2 * s)
    (hd : c * d ≤ s + 2 * c) :
    2 * c ^ 2 * d' ≤ s + 2 * (2 * c ^ 2) := by
  refine Nat.le_of_mul_le_mul_left (c := s) ?_ (by omega)
  have hsquare : (c * d) ^ 2 ≤ (s + 2 * c) ^ 2 := Nat.pow_le_pow_left hd 2
  have hscaled : c ^ 2 * (2 * (s + d) * d') ≤ c ^ 2 * (d ^ 2 + 2 * s) := Nat.mul_le_mul_left _ hstep
  -- What the constants contribute is less than what is left over.
  have hleft : 2 * s + 2 * c ≤ c * s := by nlinarith only [hc, hs]
  calc s * (2 * c ^ 2 * d') ≤ c ^ 2 * (2 * (s + d) * d') := by nlinarith only [Nat.zero_le (c ^ 2 * d * d')]
    _ ≤ c ^ 2 * (d ^ 2 + 2 * s) := hscaled
    _ = (c * d) ^ 2 + 2 * c ^ 2 * s := by ring
    _ ≤ (s + 2 * c) ^ 2 + 2 * c ^ 2 * s := Nat.add_le_add_right hsquare _
    _ = s * s + 2 * c * (2 * s + 2 * c) + 2 * c ^ 2 * s := by ring
    _ ≤ s * s + 2 * c * (c * s) + 2 * c ^ 2 * s := by nlinarith only [Nat.mul_le_mul_left (2 * c) hleft]
    _ = s * (s + 2 * (2 * c ^ 2)) := by ring

/-- The first step, from at most the root and more than half of it. -/
theorem first_distance (hp : p ≤ Nat.sqrt n) (hroot : Nat.sqrt n < 2 * p) (hd : newtonStep n p = Nat.sqrt n + d) :
    4 * d ≤ Nat.sqrt n + 2 * 4 := by
  have herror := newtonStep_error hd
  generalize Nat.sqrt n = s at hp hroot herror ⊢
  obtain ⟨e, rfl⟩ := Nat.exists_eq_add_of_le hp
  have he : e ≤ p := by omega
  have hsquare : e * e ≤ p * e := Nat.mul_le_mul_right e he
  have hsquare' : e * e ≤ p * p := Nat.mul_le_mul he he
  refine Nat.le_of_mul_le_mul_left (c := 2 * p) ?_ (by omega)
  zify at *
  nlinarith only [herror, hsquare, hsquare', hroot, he]

/-- Within two of the root the rounding is all that is left. -/
theorem last_distance (hs : 4 ≤ s) (hstep : 2 * (s + d) * d' ≤ d ^ 2 + 2 * s) (hd : d ≤ 2) : d' ≤ 1 := by
  by_contra hfar
  have hsquare : d ^ 2 ≤ 4 := by
    calc d ^ 2 ≤ 2 ^ 2 := Nat.pow_le_pow_left hd 2
      _ = 4 := rfl
  have hprod : 2 * s * 2 ≤ 2 * (s + d) * d' := Nat.mul_le_mul (by omega) (by omega)
  omega

/-- After `k + 1` steps the distance is `s / c + 2` at most, with `c` the square of the one before, twice. -/
theorem newtonRun_distance (hp : p ≤ Nat.sqrt n) (hroot : Nat.sqrt n < 2 * p) (hfour : 4 ≤ p) (k : ℕ) :
    ∃ d, newtonRun n p (k + 1) = Nat.sqrt n + d ∧
      2 ^ (3 * 2 ^ k - 1) * d ≤ Nat.sqrt n + 2 * 2 ^ (3 * 2 ^ k - 1) := by
  induction k with
  | zero =>
    obtain ⟨d, hd⟩ := Nat.exists_eq_add_of_le (sqrt_le_newtonStep (n := n) (by omega : 0 < p))
    exact ⟨d, hd, first_distance hp hroot hd⟩
  | succ k ih =>
    obtain ⟨d, hrun, hd⟩ := ih
    have hpos : 0 < Nat.sqrt n + d := by omega
    obtain ⟨d', hd'⟩ := Nat.exists_eq_add_of_le (sqrt_le_newtonStep (n := n) hpos)
    have hone : 1 ≤ 2 ^ k := Nat.one_le_two_pow
    have hpow : 2 ^ (3 * 2 ^ (k + 1) - 1) = 2 * (2 ^ (3 * 2 ^ k - 1)) ^ 2 := by
      rw [← Nat.pow_mul, ← Nat.pow_succ', Nat.pow_succ]
      exact congrArg _ (by omega)
    have hfour' : 4 ≤ 2 ^ (3 * 2 ^ k - 1) :=
      (by decide : 4 ≤ 2 ^ 2).trans (Nat.pow_le_pow_right (by decide) (by omega))
    refine ⟨d', ?_, ?_⟩
    · show newtonStep n (newtonRun n p (k + 1)) = _
      rw [hrun, hd']
    · rw [hpow]
      exact distance_squared hfour' (hfour.trans hp) (newtonStep_distance hd') hd

/-- Once the bound has passed the root, the next step and all after it are the root or one more. -/
theorem newtonRun_near (hp : p ≤ Nat.sqrt n) (hroot : Nat.sqrt n < 2 * p) (hfour : 4 ≤ p)
    (hk : Nat.sqrt n < 2 ^ (3 * 2 ^ k - 1)) (j : ℕ) :
    newtonRun n p (k + 2 + j) = Nat.sqrt n ∨ newtonRun n p (k + 2 + j) = Nat.sqrt n + 1 := by
  have hs := hfour.trans hp
  suffices ∃ d ≤ 1, newtonRun n p (k + 2 + j) = Nat.sqrt n + d by
    obtain ⟨d, hd, hrun⟩ := this
    omega
  -- A step from within two of the root ends within one of it.
  have hnext : ∀ i d, d ≤ 2 → newtonRun n p i = Nat.sqrt n + d →
    ∃ d' ≤ 1, newtonRun n p (i + 1) = Nat.sqrt n + d' := by
    intro i d hd hrun
    obtain ⟨d', hd'⟩ := Nat.exists_eq_add_of_le (sqrt_le_newtonStep (n := n) (by omega : 0 < Nat.sqrt n + d))
    refine ⟨d', last_distance hs (newtonStep_distance hd') hd, ?_⟩
    show newtonStep n (newtonRun n p i) = _
    rw [hrun, hd']
  induction j with
  | zero =>
    obtain ⟨d, hrun, hd⟩ := newtonRun_distance hp hroot hfour k
    refine hnext (k + 1) d ?_ hrun
    by_contra hfar
    have hthree : 2 ^ (3 * 2 ^ k - 1) * 3 ≤ 2 ^ (3 * 2 ^ k - 1) * d := Nat.mul_le_mul_left _ (by omega)
    omega
  | succ j ih =>
    obtain ⟨d, hd, hrun⟩ := ih
    exact hnext _ d (by omega) hrun

end Lib
