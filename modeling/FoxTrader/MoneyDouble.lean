import FoxTrader.Lib.FloatSign
import FoxTrader.Money

/-! # Money at its double-precision boundary

    Execution results reach the order manager as doubles. A double is Lean's `Float`, whose
    arithmetic and comparisons are IEEE 754 binary64; what the source uses of the C library beyond
    them (`llround`, `%.8f`) is read off the exact mantissa and exponent. Two conversions cross the
    boundary: `Money_ToDouble` on the way out and the payload bridge on the way in, which is total:
    NaN and everything past the closure saturate. Neither touches the status word. -/

namespace FoxTrader

open Lib Float.Model

/-- `m · 2^e` to the nearest integer, a tie away from zero. -/
def scaleHalfAway (m : Nat) (e : Int) : Nat :=
  if 0 ≤ e then m * 2 ^ e.toNat else (2 * m + 2 ^ (-e).toNat) / (2 * 2 ^ (-e).toNat)

/-- C `llround`, on the finite doubles its callers pass. -/
def llround (d : Float) : Int :=
  match d.toModel.unpack with
  | .finite s m e _ => s.apply (scaleHalfAway m e)
  | _ => 0

/-- `money_from_double_payload`. Past the two guards `llround` is inside the closure. -/
def moneyFromDoublePayload (d : Float) : Money :=
  let s := d * 1e8
  if ¬s < 9.2233720368547e18 then .ceiling false
  else if ¬s > -9.2233720368547e18 then .ceiling true
  else (Money.saturate (llround s)).val

/-- `Money_ToDouble`. -/
def Money.toDouble (a : Money) : Float := Float.ofInt a.v / 1e8

/-- `m · 2^e` in units of `10⁻⁸`, to the nearest integer, a tie to the even one. -/
def scaleFixed8 (m : Nat) (e : Int) : Nat :=
  if 0 ≤ e then m * 10 ^ 8 * 2 ^ e.toNat
  else
    let d := 2 ^ (-e).toNat
    Money.roundHalfEven (m * 10 ^ 8 / d) (m * 10 ^ 8 % d) d

/-- The decimal digits of `n · 10⁻⁸`. -/
def digits8 (n : Nat) : String :=
  let frac := toString (n % 10 ^ 8)
  toString (n / 10 ^ 8) ++ "." ++ "".pushn '0' (8 - frac.length) ++ frac

/-- `printf`'s `%.8f`. -/
def fixed8 (d : Float) : String :=
  match d.toModel.unpack with
  | .finite s m e _ => (if s.apply 1 < 0 then "-" else "") ++ digits8 (scaleFixed8 m e)
  | .zero s => (if s.apply 1 < 0 then "-" else "") ++ digits8 0
  | .infinity s => (if s.apply 1 < 0 then "-" else "") ++ "inf"
  | .notANumber => "nan"

/-! ### The bridge on what is not below zero -/

theorem llround_nonneg {d : Float} (h : NotBelowZero d.toModel.unpack) : 0 ≤ llround d := by
  unfold llround
  generalize d.toModel.unpack = x at h ⊢
  cases x with
  | finite s m e hm =>
    obtain rfl : s = .positive := h
    exact Int.natCast_nonneg _
  | infinity | notANumber | zero => exact le_rfl

/-- The sign of a double survives the scaling and both guards. -/
theorem moneyFromDoublePayload_nonneg {d : Float} (h : 0.0 < d) : 0 ≤ (moneyFromDoublePayload d).v := by
  have hscale : (0.0 : Float) < 1e8 := by decide +kernel
  have hscaled : NotBelowZero (d * 1e8).toModel.unpack :=
    notBelowZero_float_mul (notBelowZero_of_pos h) (notBelowZero_of_pos hscale)
  unfold moneyFromDoublePayload
  dsimp only
  split
  next => exact (by decide : (0 : ℤ) ≤ moneyMax)
  next hlt =>
    have hnum : (d * 1e8).toModel.unpack ≠ .notANumber := fun hnan => hlt (not_lt_of_notANumber hnan)
    have habove : d * 1e8 > -9.2233720368547e18 := lt_of_notBelowZero hnum hscaled rfl
    rw [if_neg (not_not.2 habove)]
    exact Money.saturate_nonneg (llround_nonneg hscaled)

example : moneyFromDoublePayload 0.000000004 = .zero := by decide +kernel

example : moneyFromDoublePayload (0 / 0) = .ceiling false := by decide +kernel

example : fixed8 (-0.1) = "-0.10000000" := by decide +kernel

end FoxTrader
