import FoxTrader.Lib.HalfEven
import Mathlib.Data.List.Induction

/-! # Decimal texts

    A decimal text is an optional sign, digits with at most one dot among them, and at least one digit.
    Its value is a fraction over a power of ten; `nearest k` is that value in units of `10⁻ᵏ`, rounded
    half-even. The digits of a text are read by `Nat.ofDigitChars`, which only grows with the text. -/

namespace Lib

/-- The number that a run of digits denotes. -/
def digitsNat (cs : List Char) : ℕ := Nat.ofDigitChars 10 cs 0

theorem digitsNat_append (xs ys : List Char) :
    digitsNat (xs ++ ys) = digitsNat xs * 10 ^ ys.length + digitsNat ys := by
  rw [digitsNat, digitsNat, Nat.ofDigitChars_append, Nat.ofDigitChars_eq_ofDigitChars_zero, Nat.mul_comm]
  rfl

theorem digitsNat_concat (xs : List Char) (c : Char) : digitsNat (xs ++ [c]) = digitsNat xs * 10 + (c.toNat - '0'.toNat) := by
  rw [digitsNat_append]
  show digitsNat xs * 10 ^ 1 + (10 * 0 + (c.toNat - '0'.toNat)) = _
  rw [Nat.pow_one, Nat.mul_zero, Nat.zero_add]

/-- A digit is worth nine at most. -/
theorem digit_le {c : Char} (h : c.isDigit = true) : c.toNat - '0'.toNat ≤ 9 := by
  rw [Char.isDigit, Bool.and_eq_true, decide_eq_true_eq, decide_eq_true_eq] at h
  have hle : c.toNat ≤ 57 := UInt32.le_iff_toNat_le.1 h.2
  show c.toNat - 48 ≤ 9
  omega

theorem digitsNat_lt {cs : List Char} (h : ∀ c ∈ cs, c.isDigit = true) : digitsNat cs < 10 ^ cs.length := by
  induction cs using List.reverseRecOn with
  | nil => exact Nat.zero_lt_one
  | append_singleton cs c ih =>
    have hcs := ih fun d hd => h d (List.mem_append_left _ hd)
    have hc := digit_le (h c (List.mem_append_right _ List.mem_cons_self))
    rw [digitsNat_concat, List.length_append, List.length_singleton, Nat.pow_succ]
    omega

/-- The parts of a decimal text. -/
structure Decimal where
  sign : List Char
  int : List Char
  dot : Bool
  frac : List Char
  sign_mem : sign = [] ∨ sign = ['-'] ∨ sign = ['+']
  int_digits : ∀ c ∈ int, c.isDigit = true
  frac_digits : ∀ c ∈ frac, c.isDigit = true
  frac_dot : dot = false → frac = []
  some_digit : int ++ frac ≠ []

namespace Decimal

/-- What stands behind the sign. -/
def body (d : Decimal) : List Char := d.int ++ if d.dot then '.' :: d.frac else []

def text (d : Decimal) : List Char := d.sign ++ d.body

theorem length_le (d : Decimal) : d.int.length + d.frac.length ≤ d.text.length := by
  rw [text, body, List.length_append, List.length_append]
  split
  · rw [List.length_cons]
    omega
  · next h =>
    rw [d.frac_dot (Bool.eq_false_of_not_eq_true h), List.length_nil]
    omega

/-- All digits as one number, without the dot. -/
def digits (d : Decimal) : ℤ := (digitsNat d.int * 10 ^ d.frac.length + digitsNat d.frac : ℕ)

/-- The value times ten to the number of fractional digits. -/
def scaled (d : Decimal) : ℤ := if d.sign = ['-'] then -d.digits else d.digits

/-- The value in units of `10⁻ᵏ`, rounded half-even. -/
def nearest (d : Decimal) (k : ℕ) : ℤ := halfEven (d.scaled * (10 ^ k : ℕ)) (10 ^ d.frac.length)

/-- The integer part is exact, and the fraction is rounded alone. -/
theorem nearest_eq (d : Decimal) {k : ℕ} (hk : 0 < k) :
    d.nearest k = if d.sign = ['-'] then -(digitsNat d.int * (10 ^ k : ℕ) + halfEven (digitsNat d.frac * 10 ^ k : ℕ) (10 ^ d.frac.length))
      else digitsNat d.int * (10 ^ k : ℕ) + halfEven (digitsNat d.frac * 10 ^ k : ℕ) (10 ^ d.frac.length) := by
  have hten : 0 < 10 ^ d.frac.length := Nat.pow_pos (by decide)
  have heven : (digitsNat d.int * (10 ^ k : ℕ) : ℤ) % 2 = 0 := by
    have hdvd : (2 : ℤ) ∣ (10 ^ k : ℕ) := by exact_mod_cast dvd_pow (by decide : 2 ∣ 10) hk.ne'
    exact Int.emod_eq_zero_of_dvd (hdvd.mul_left _)
  have hsplit : d.digits * (10 ^ k : ℕ) =
      (digitsNat d.frac * 10 ^ k : ℕ) + digitsNat d.int * (10 ^ k : ℕ) * (10 ^ d.frac.length : ℕ) := by
    rw [digits]
    push_cast
    ring
  have hround : halfEven (d.digits * (10 ^ k : ℕ)) (10 ^ d.frac.length) =
      digitsNat d.int * (10 ^ k : ℕ) + halfEven (digitsNat d.frac * 10 ^ k : ℕ) (10 ^ d.frac.length) := by
    rw [hsplit, halfEven_add_mul hten _ heven, Int.add_comm]
  unfold nearest scaled
  split
  · rw [Int.neg_mul, halfEven_neg hten, hround]
  · exact hround

end Decimal

end Lib
