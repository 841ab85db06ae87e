import Mathlib.Algebra.Order.Ring.Nat
import Mathlib.Tactic.Linarith
import Mathlib.Tactic.Ring

/-! # Restoring long division

    The dividend is two words of `w` bits, `hi · 2^w + lo`. A trip shifts it left by one bit, takes the
    divisor off the upper word if it fits, and writes the quotient bit, most significant first. With
    `hi` below the divisor, `w` trips leave the quotient and the remainder. -/

namespace Lib

/-- What is left of the dividend in its two words, and the quotient so far. -/
structure LongDiv where
  rem : ℕ
  low : ℕ
  quot : ℕ

namespace LongDiv

/-- One trip at width `w` by the divisor `d`. -/
def step (w d : ℕ) (s : LongDiv) : LongDiv :=
  let r := 2 * s.rem + s.low / 2 ^ (w - 1)
  { rem := if d ≤ r then r - d else r
    low := 2 * s.low % 2 ^ w
    quot := 2 * s.quot + if d ≤ r then 1 else 0 }

/-- `k` trips. -/
def run (w d : ℕ) (s : LongDiv) : ℕ → LongDiv
  | 0 => s
  | k + 1 => step w d (run w d s k)

variable {w d hi lo k : ℕ} {s : LongDiv}

/-- The bit that the next trip brings in. -/
theorem next_bit (hk : k < w) : lo * 2 ^ k % 2 ^ w / 2 ^ (w - 1) = lo / 2 ^ (w - (k + 1)) % 2 := by
  obtain ⟨m, rfl⟩ : ∃ m, w = m + 1 + k := ⟨w - (k + 1), by omega⟩
  have hw : 2 ^ (m + 1 + k) = 2 ^ (m + 1) * 2 ^ k := Nat.pow_add 2 (m + 1) k
  have hw' : 2 ^ (m + 1 + k - 1) = 2 ^ m * 2 ^ k := by rw [← Nat.pow_add]; exact congrArg _ (by omega)
  have hm : m + 1 + k - (k + 1) = m := by omega
  rw [hw, hw', hm, Nat.mul_mod_mul_right, Nat.mul_div_mul_right _ _ (by positivity), Nat.pow_succ,
    Nat.mod_mul_right_div_self]

/-- The bits that have come in. -/
theorem div_pow_succ (lo : ℕ) (hk : k < w) :
    lo / 2 ^ (w - (k + 1)) = 2 * (lo / 2 ^ (w - k)) + lo / 2 ^ (w - (k + 1)) % 2 := by
  have hpow : 2 ^ (w - k) = 2 ^ (w - (k + 1)) * 2 := by rw [← Nat.pow_succ]; exact congrArg _ (by omega)
  rw [hpow, ← Nat.div_div_eq_div_mul]
  omega

/-- The invariant of the trips: quotient and remainder of what has come in. -/
structure Divides (w d hi lo k : ℕ) (s : LongDiv) : Prop where
  low : s.low = lo * 2 ^ k % 2 ^ w
  exact_sum : s.quot * d + s.rem = hi * 2 ^ k + lo / 2 ^ (w - k)
  rem_lt : s.rem < d

theorem Divides.step (h : Divides w d hi lo k s) (hk : k < w) : Divides w d hi lo (k + 1) (s.step w d) := by
  have hsum := h.exact_sum
  have hrem := h.rem_lt
  have hlow : (2 * s.low) % 2 ^ w = lo * 2 ^ (k + 1) % 2 ^ w := by
    rw [h.low, Nat.mul_mod_mod, Nat.pow_succ]
    exact congrArg (· % 2 ^ w) (by ring)
  have hbit : s.low / 2 ^ (w - 1) = lo / 2 ^ (w - (k + 1)) % 2 := by rw [h.low, next_bit hk]
  have hcome := div_pow_succ lo hk
  have hbit_lt : lo / 2 ^ (w - (k + 1)) % 2 < 2 := Nat.mod_lt _ (by decide)
  have hdouble : hi * 2 ^ (k + 1) = 2 * (hi * 2 ^ k) := by rw [Nat.pow_succ]; ring
  have hquot : ∀ b, (2 * s.quot + b) * d = 2 * (s.quot * d) + b * d := fun b => by ring
  unfold LongDiv.step
  dsimp only
  rw [hbit]
  split
  next hfits => exact ⟨hlow, by dsimp only; rw [hquot, Nat.one_mul]; omega, by dsimp only; omega⟩
  next hless => exact ⟨hlow, by dsimp only; rw [hquot, Nat.zero_mul]; omega, by dsimp only; omega⟩

theorem Divides.run (hlo : lo < 2 ^ w) (hhi : hi < d) (hk : k ≤ w) : Divides w d hi lo k (run w d ⟨hi, lo, 0⟩ k) := by
  induction k with
  | zero =>
    refine ⟨?_, ?_, hhi⟩
    · rw [Nat.pow_zero, Nat.mul_one, Nat.mod_eq_of_lt hlo]
      rfl
    · rw [Nat.pow_zero, Nat.mul_one, Nat.sub_zero, Nat.div_eq_of_lt hlo]
      show 0 * d + hi = hi + 0
      rw [Nat.zero_mul, Nat.zero_add, Nat.add_zero]
  | succ k ih => exact (ih (Nat.le_of_succ_le hk)).step hk

/-- `w` trips divide. -/
theorem run_exact (hlo : lo < 2 ^ w) (hhi : hi < d) :
    (run w d ⟨hi, lo, 0⟩ w).quot = (hi * 2 ^ w + lo) / d ∧ (run w d ⟨hi, lo, 0⟩ w).rem = (hi * 2 ^ w + lo) % d := by
  have h := Divides.run (d := d) hlo hhi le_rfl
  have hsum := h.exact_sum
  rw [Nat.sub_self, Nat.pow_zero, Nat.div_one, Nat.mul_comm] at hsum
  rw [← hsum, Nat.mul_add_div (by have := h.rem_lt; omega), Nat.mul_add_mod, Nat.div_eq_of_lt h.rem_lt,
    Nat.mod_eq_of_lt h.rem_lt, Nat.add_zero]
  exact ⟨rfl, rfl⟩

/-- Each trip adds one bit to the quotient. -/
theorem run_quot_lt : (run w d ⟨hi, lo, 0⟩ k).quot < 2 ^ k := by
  induction k with
  | zero => exact Nat.zero_lt_one
  | succ k ih =>
    show 2 * (run w d ⟨hi, lo, 0⟩ k).quot + (if _ then 1 else 0) < _
    rw [Nat.pow_succ]
    split <;> omega

end LongDiv

end Lib
