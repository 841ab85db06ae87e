import Mathlib.Data.Rat.Floor
import Mathlib.Algebra.Order.Field.Rat
import Mathlib.Algebra.Order.Field.Basic
import Mathlib.Tactic.FieldSimp
import Mathlib.Tactic.NormNum
import FoxTrader.MoneyCasts

/-! # Doubles as text

    A `double` is an exact rational here. `%.4f` prints it rounded half-even to four fractional digits, and
    `std::from_chars` reads the text back, so a number survives exactly when it is on the grid of the
    digits printed (`fromChars_printFixed`, `roundTo_of_near`). -/

namespace FoxTrader

open Lib

/-! ### Reading -/

/-- What an exponent behind the digits multiplies by. -/
def exponentFactor (cs : List Char) : ℚ :=
  if cs.head? = some 'e' ∨ cs.head? = some 'E' then
    let neg := decide (cs.tail.head? = some '-')
    let digits := (if neg || cs.tail.head? = some '+' then cs.tail.tail else cs.tail).takeWhile Char.isDigit
    if neg then 1 / 10 ^ digitsNat digits else 10 ^ digitsNat digits
  else 1

/-- `std::from_chars` on a `double`. Infinities and what is no number have no exact value and are no match. -/
def fromChars (cs : List Char) : Option ℚ :=
  let neg := decide (cs.head? = some '-')
  let body := if neg then cs.tail else cs
  let int := body.takeWhile Char.isDigit
  let behind := body.dropWhile Char.isDigit
  let dot := decide (behind.head? = some '.')
  let frac := if dot then behind.tail.takeWhile Char.isDigit else []
  let rest := if dot then behind.tail.dropWhile Char.isDigit else behind
  if int ++ frac = [] then none
  else some ((if neg then -1 else 1) * (digitsNat (int ++ frac) / 10 ^ frac.length) * exponentFactor rest)

/-- `parse_double_fast_checked`, with the flag of a text that is no number. -/
def parseDoubleFastChecked (cs : List Char) : ℚ × Bool :=
  if cs = [] then (0, false) else ((fromChars cs).getD 0, (fromChars cs).isNone)

/-! ### Printing -/

/-- The magnitude in units of `10⁻ᵏ`, to the nearest even. -/
def roundMag (k : ℕ) (q : ℚ) : ℕ := (halfEven (q.num.natAbs * 10 ^ k : ℕ) q.den).toNat

/-- `%.kf`. -/
def printFixed (k : ℕ) (q : ℚ) : List Char :=
  (if q < 0 then ['-'] else []) ++ (Nat.toDigits 10 (roundMag k q / 10 ^ k) ++ '.' :: fixedDigits k (roundMag k q % 10 ^ k))

/-- The number that is printed, in units of `10⁻ᵏ`. -/
def roundTo (k : ℕ) (q : ℚ) : ℤ := if q < 0 then -(roundMag k q : ℤ) else roundMag k q

theorem roundMag_cast (k : ℕ) (q : ℚ) : (roundMag k q : ℤ) = halfEven (q.num.natAbs * 10 ^ k : ℕ) q.den :=
  Int.toNat_of_nonneg (halfEven_nonneg (Int.natCast_nonneg _) q.den_pos)

theorem takeWhile_digits {front : List Char} (h : ∀ c ∈ front, c.isDigit = true) (rest : List Char)
    (hrest : rest.head?.all (fun c => !c.isDigit) = true) :
    (front ++ rest).takeWhile Char.isDigit = front ∧ (front ++ rest).dropWhile Char.isDigit = rest := by
  rw [List.takeWhile_append_of_pos h, List.dropWhile_append_of_pos h]
  rcases rest with _ | ⟨c, rest⟩
  · exact ⟨List.append_nil _, rfl⟩
  · have hc : ¬c.isDigit = true := by simpa using hrest
    rw [List.takeWhile_cons_of_neg hc, List.dropWhile_cons_of_neg hc, List.append_nil]
    exact ⟨rfl, rfl⟩

/-- What is printed is read as the number on the grid. -/
theorem fromChars_printFixed (k : ℕ) (q : ℚ) : fromChars (printFixed k q) = some ((roundTo k q : ℚ) / 10 ^ k) := by
  have hint : ∀ c ∈ Nat.toDigits 10 (roundMag k q / 10 ^ k), c.isDigit = true := fun _ hc =>
    Nat.isDigit_of_mem_toDigits (by decide) (by decide) hc
  have hfrac := fixedDigits_digits k (roundMag k q % 10 ^ k)
  have hlt : roundMag k q % 10 ^ k < 10 ^ k := Nat.mod_lt _ (Nat.pow_pos (by decide))
  obtain ⟨hint1, hint2⟩ := takeWhile_digits hint ('.' :: fixedDigits k (roundMag k q % 10 ^ k)) rfl
  obtain ⟨hfrac1, hfrac2⟩ := takeWhile_digits hfrac [] rfl
  rw [List.append_nil] at hfrac1 hfrac2
  have hvalue : digitsNat (Nat.toDigits 10 (roundMag k q / 10 ^ k) ++ fixedDigits k (roundMag k q % 10 ^ k)) =
    roundMag k q := by
    rw [digitsNat_append, digitsNat_fixedDigits hlt, fixedDigits_length,
      show digitsNat (Nat.toDigits 10 (roundMag k q / 10 ^ k)) =
        roundMag k q / 10 ^ k from Nat.ofDigitChars_ten_toDigits]
    exact Nat.div_add_mod' _ _
  have hne : Nat.toDigits 10 (roundMag k q / 10 ^ k) ++ fixedDigits k (roundMag k q % 10 ^ k) ≠ [] := fun hnil =>
    absurd (List.append_eq_nil_iff.1 hnil).1 Nat.toDigits_ne_nil
  have hunsigned : (Nat.toDigits 10 (roundMag k q / 10 ^ k) ++ '.' :: fixedDigits k (roundMag k q % 10 ^ k)).head? ≠ some '-' := by
    rcases hdigits : Nat.toDigits 10 (roundMag k q / 10 ^ k) with _ | ⟨c, cs⟩
    · exact absurd hdigits Nat.toDigits_ne_nil
    · intro hc
      obtain rfl : c = '-' := Option.some.inj hc
      exact absurd (hint '-' (hdigits ▸ List.mem_cons_self)) (by decide)
  unfold fromChars printFixed roundTo
  by_cases hneg : q < 0
  · rw [if_pos hneg, if_pos hneg]
    simp only [List.singleton_append, List.head?_cons, decide_true, if_true, List.tail_cons, hint1, hint2,
      hfrac1, hfrac2]
    rw [if_neg hne, hvalue, fixedDigits_length, Int.cast_neg, Int.cast_natCast, neg_one_mul, neg_div]
    exact congrArg some (mul_one _)
  · rw [if_neg hneg, if_neg hneg]
    simp only [List.nil_append, decide_eq_false hunsigned, Bool.false_eq_true, if_false, hint1, hint2,
      List.head?_cons,
      decide_true, if_true, List.tail_cons, hfrac1, hfrac2]
    rw [if_neg hne, hvalue, fixedDigits_length, Int.cast_natCast, one_mul]
    exact congrArg some (mul_one _)

/-! ### Rounding -/

/-- Equal ratios round alike. -/
theorem halfEven_congr {x y : ℤ} {d e : ℕ} (hd : 0 < d) (he : 0 < e) (h : x * e = y * d) :
    halfEven x d = halfEven y e := by
  rw [← halfEven_mul_mul hd he, h, Nat.mul_comm, halfEven_mul_mul he hd]

theorem abs_eq_num_div (q : ℚ) : |q| * q.den = q.num.natAbs := by
  have hden : (q.den : ℚ) ≠ 0 := Nat.cast_ne_zero.2 q.den_nz
  have hq : |q| = |(q.num : ℚ)| / q.den := by
    conv_lhs => rw [← Rat.num_div_den q]
    rw [abs_div, Nat.abs_cast]
  rw [hq, div_mul_cancel₀ _ hden, Nat.cast_natAbs, Int.cast_abs]

/-- A hundredfold number with two digits less is on the same grid. -/
theorem roundTo_mul_hundred (q : ℚ) : roundTo 2 (q * 100) = roundTo 4 q := by
  have hmag : roundMag 2 (q * 100) = roundMag 4 q := by
    unfold roundMag
    refine congrArg Int.toNat (halfEven_congr (q * 100).den_pos q.den_pos ?_)
    have hscaled : ((q * 100).num.natAbs * q.den : ℚ) = q.num.natAbs * 100 * (q * 100).den := by
      rw [← abs_eq_num_div, ← abs_eq_num_div, abs_mul, abs_of_pos (by norm_num : (0 : ℚ) < 100)]
      ring
    have hnat : (q * 100).num.natAbs * q.den = q.num.natAbs * 100 * (q * 100).den := by exact_mod_cast hscaled
    have hpow : (q * 100).num.natAbs * 10 ^ 2 * q.den = q.num.natAbs * 10 ^ 4 * (q * 100).den := by
      calc (q * 100).num.natAbs * 10 ^ 2 * q.den = (q * 100).num.natAbs * q.den * 10 ^ 2 := by ring
        _ = q.num.natAbs * 100 * (q * 100).den * 10 ^ 2 := by rw [hnat]
        _ = q.num.natAbs * 10 ^ 4 * (q * 100).den := by ring
    exact_mod_cast hpow
  have hsign : q * 100 < 0 ↔ q < 0 := ⟨fun h => by linarith, fun h => by linarith⟩
  unfold roundTo
  rw [hmag]
  simp only [hsign]

/-- A number less than half a unit from the grid is printed as the grid's. -/
theorem roundTo_of_near {k : ℕ} {q : ℚ} {m : ℤ} (h : |q * 10 ^ k - m| < 1 / 2) : roundTo k q = m := by
  have hden : (0 : ℚ) < q.den := Nat.cast_pos.2 q.den_pos
  have hmag : ∀ m : ℤ, |(|q|) * 10 ^ k - m| < 1 / 2 → (roundMag k q : ℤ) = m := by
    intro m hm
    obtain ⟨hlow, hup⟩ := abs_lt.1 hm
    have hscaled : ((q.num.natAbs * 10 ^ k : ℕ) : ℚ) = |q| * 10 ^ k * q.den := by
      rw [Nat.cast_mul, ← abs_eq_num_div, Nat.cast_pow, Nat.cast_ofNat]
      ring
    have hdiff : (((q.num.natAbs * 10 ^ k : ℕ) - m * q.den : ℤ) : ℚ) = (|q| * 10 ^ k - m) * q.den := by
      rw [Int.cast_sub, Int.cast_natCast, hscaled, Int.cast_mul, Int.cast_natCast]
      ring
    rw [roundMag_cast]
    refine halfEven_eq_of_near q.den_pos ?_ ?_
    · have hcast : (-(q.den : ℤ) : ℚ) < (2 * ((q.num.natAbs * 10 ^ k : ℕ) - m * q.den : ℤ) : ℤ) := by
        rw [Int.cast_mul, hdiff, Int.cast_ofNat, Int.cast_natCast]
        nlinarith
      exact_mod_cast hcast
    · have hcast : ((2 * ((q.num.natAbs * 10 ^ k : ℕ) - m * q.den : ℤ) : ℤ) : ℚ) < (q.den : ℤ) := by
        rw [Int.cast_mul, hdiff, Int.cast_ofNat, Int.cast_natCast]
        nlinarith
      exact_mod_cast hcast
  unfold roundTo
  by_cases hneg : q < 0
  · rw [if_pos hneg, hmag (-m), neg_neg]
    rw [abs_of_neg hneg, Int.cast_neg, neg_mul, sub_neg_eq_add, ← abs_neg, neg_add, neg_neg, ← sub_eq_add_neg]
    exact h
  · rw [if_neg hneg]
    refine hmag m ?_
    rwa [abs_of_nonneg (not_lt.1 hneg)]

/-! ### The length of what is printed -/

theorem roundMag_le {k b : ℕ} {q : ℚ} (h : |q| ≤ b) : roundMag k q ≤ b * 10 ^ k := by
  have hnum : (q.num.natAbs : ℚ) ≤ b * q.den := by
    rw [← abs_eq_num_div]
    exact mul_le_mul_of_nonneg_right h (Nat.cast_nonneg _)
  have hnat : q.num.natAbs ≤ b * q.den := by exact_mod_cast hnum
  have hle : ((q.num.natAbs * 10 ^ k : ℕ) : ℤ) ≤ ((b * 10 ^ k : ℕ) : ℤ) * q.den := by
    have := Nat.mul_le_mul_right (10 ^ k) hnat
    exact_mod_cast this.trans_eq (by ring)
  have hround := halfEven_mono q.den_pos hle
  rw [halfEven_mul q.den_pos, ← roundMag_cast] at hround
  exact_mod_cast hround

theorem printFixed_length {k b : ℕ} {q : ℚ} (h : |q| ≤ (10 ^ b - 1 : ℕ)) (hb : 0 < b) :
    (printFixed k q).length ≤ b + k + 2 := by
  have hmag : roundMag k q / 10 ^ k < 10 ^ b := by
    have hle := Nat.div_le_div_right (c := 10 ^ k) (roundMag_le (k := k) h)
    rw [Nat.mul_div_cancel _ (Nat.pow_pos (by decide))] at hle
    have hpos : 0 < 10 ^ b := Nat.pow_pos (by decide)
    omega
  have hdigits : (Nat.toDigits 10 (roundMag k q / 10 ^ k)).length ≤ b :=
    (Nat.length_toDigits_le_iff (by decide) hb).2 hmag
  have hsign : (if q < 0 then ['-'] else []).length ≤ 1 := by split <;> decide
  rw [printFixed, List.length_append, List.length_append, List.length_cons, fixedDigits_length]
  omega

end FoxTrader
