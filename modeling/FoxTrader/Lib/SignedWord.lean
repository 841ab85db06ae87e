import Mathlib.Algebra.Order.Ring.Int

/-! # Signed words

    What a signed machine word keeps of an integer: the residue in the half-open range around zero. In
    range it is the integer itself. -/

namespace Lib

/-- The value of `x` in a signed word of 32 bits. -/
def int32 (x : ℤ) : ℤ := x.bmod 4294967296

/-- The value of `x` in a signed word of 64 bits. -/
def int64 (x : ℤ) : ℤ := x.bmod 18446744073709551616

variable {x : ℤ}

theorem int32_of_mem (hlow : -2147483648 ≤ x) (hup : x < 2147483648) : int32 x = x :=
  Int.bmod_eq_of_le (by omega) (by omega)

theorem int64_of_mem (hlow : -9223372036854775808 ≤ x) (hup : x < 9223372036854775808) : int64 x = x :=
  Int.bmod_eq_of_le (by omega) (by omega)

theorem int32_natCast {n : ℕ} (h : n ≤ 2147483647) : int32 n = n := int32_of_mem (by omega) (by omega)

/-- An overflow on the way is not seen behind the next operation. -/
theorem int32_add_int32 (x y : ℤ) : int32 (int32 x + y) = int32 (x + y) := Int.bmod_add_bmod

end Lib
