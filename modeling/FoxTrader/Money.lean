import Mathlib.Tactic.Linarith
import Mathlib.Order.Defs.LinearOrder
import Mathlib.Algebra.Order.Group.Unbundled.Int
import FoxTrader.Lib.Flagged

/-! # Decimal money

    `Money` is a 128-bit integer payload `v` worth `v · 10⁻⁸`, kept in the closure `|v| ≤ 2⁶³ - 1`
    by every operation: a result that would leave it saturates and raises a bit in the sticky
    status word `money_op_flags`. The closure is a field here, and the status word is the `flags`
    of `Lib.Flagged`, so "no saturation" reads `Clean`. Rounding is half-even on magnitudes. The
    exactness lemmas (`add_v`, `sub_v`) are what the ledger proofs run on. -/

namespace FoxTrader

open Lib

/-- The closure ceiling `MONEY_MAX`. -/
abbrev moneyMax : Int := 2 ^ 63 - 1

/-- The payload scale `MONEY_SCALE`. -/
abbrev moneyScale : Nat := 10 ^ 8

@[ext] structure Money where
  v : Int
  lower : -moneyMax ≤ v
  upper : v ≤ moneyMax
  deriving DecidableEq

namespace Money

/-- `MONEY_FLAG_OVERFLOW`. -/
abbrev flagOverflow : BitVec 64 := 1

/-- `MONEY_FLAG_DIVZERO`. -/
abbrev flagDivzero : BitVec 64 := 2

def zero : Money := ⟨0, by decide, by decide⟩

instance : Inhabited Money := ⟨zero⟩

/-- `±MONEY_MAX`, by the sign asked for. -/
def ceiling (neg : Bool) : Money :=
  if neg then ⟨-moneyMax, by decide, by decide⟩ else ⟨moneyMax, by decide, by decide⟩

/-- The saturating exit every operation shares: `s` itself, or the ceiling and the overflow bit. -/
def saturate (s : Int) : Flagged 64 Money :=
  if h : -moneyMax ≤ s ∧ s ≤ moneyMax then ⟨⟨s, h.1, h.2⟩, 0⟩
  else ⟨ceiling (s < 0), flagOverflow⟩

def neg (a : Money) : Money := ⟨-a.v, by have := a.upper; omega, by have := a.lower; omega⟩

def add (a b : Money) : Flagged 64 Money := saturate (a.v + b.v)

def sub (a b : Money) : Flagged 64 Money := add a (neg b)

/-- `money_round_half_even`: `q + r / d` to the nearest integer, a tie to the even one. -/
def roundHalfEven (q r d : Nat) : Nat :=
  let half := d / 2
  let up := r > half ∨ (r = half ∧ d % 2 = 0 ∧ q % 2 = 1)
  q + if up then 1 else 0

/-- The magnitude `mag` with the sign of a product or quotient of `a` and `b`. -/
def signed (a b : Money) (mag : Nat) : Int :=
  if xor (decide (a.v < 0)) (decide (b.v < 0)) then -mag else mag

def mul (a b : Money) : Flagged 64 Money :=
  let p := a.v.natAbs * b.v.natAbs
  saturate (signed a b (roundHalfEven (p / moneyScale) (p % moneyScale) moneyScale))

def div (a b : Money) : Flagged 64 Money :=
  let p := a.v.natAbs * moneyScale
  let d := b.v.natAbs
  if d = 0 then ⟨ceiling (a.v < 0), flagDivzero⟩
  else saturate (signed a b (roundHalfEven (p / d) (p % d) d))

def isZero (a : Money) : Bool := a.v = 0
def lt (a b : Money) : Bool := a.v < b.v
def le (a b : Money) : Bool := a.v ≤ b.v
def eq (a b : Money) : Bool := a.v = b.v
def gt (a b : Money) : Bool := a.v > b.v
def ge (a b : Money) : Bool := a.v ≥ b.v
def min (a b : Money) : Money := if a.v < b.v then a else b
def max (a b : Money) : Money := if a.v > b.v then a else b

/-- `Money_FromInt`: whole units. -/
def fromInt (i : Int) : Flagged 64 Money := saturate (i * moneyScale)

/-! ### Exactness of the unsaturated operations -/

@[simp] theorem zero_v : zero.v = 0 := rfl

theorem eq_iff {a b : Money} : a.eq b = true ↔ a = b := by
  rw [eq, decide_eq_true_eq, Money.ext_iff]

theorem isZero_iff {a : Money} : a.isZero = true ↔ a = zero := by
  rw [isZero, decide_eq_true_eq, Money.ext_iff, zero_v]

theorem gt_iff {a b : Money} : a.gt b = true ↔ b.v < a.v := by rw [gt, decide_eq_true_eq]

theorem saturate_clean_iff {s : Int} :
    (saturate s).Clean ↔ -moneyMax ≤ s ∧ s ≤ moneyMax := by
  unfold saturate Flagged.Clean
  split
  next h => exact ⟨fun _ => h, fun _ => rfl⟩
  next h => exact ⟨fun hc => absurd hc (show ¬flagOverflow = 0 by decide), fun hc => absurd hc h⟩

theorem saturate_v {s : Int} (h : (saturate s).Clean) : (saturate s).val.v = s := by
  unfold saturate
  rw [dif_pos (saturate_clean_iff.1 h)]

/-- Clean or not: the sum itself, or the end of the closure it has passed. -/
theorem saturate_cases (s : Int) :
    (saturate s).val.v = s ∨ (s < -moneyMax ∧ (saturate s).val.v = -moneyMax) ∨
      (moneyMax < s ∧ (saturate s).val.v = moneyMax) := by
  unfold saturate ceiling
  split
  next h => exact .inl rfl
  next h =>
    have hpos : 0 ≤ moneyMax := by decide
    by_cases hneg : s < 0
    · simp only [hneg, decide_true, if_true]
      exact .inr (.inl ⟨by omega, trivial⟩)
    · simp only [hneg, decide_false, Bool.false_eq_true, if_false]
      exact .inr (.inr ⟨by omega, trivial⟩)

/-- Adding what is not negative never makes less, clean or not. -/
theorem add_ge {a b : Money} (ha : 0 ≤ a.v) (hb : 0 ≤ b.v) :
    a.v ≤ (add a b).val.v ∧ b.v ≤ (add a b).val.v := by
  have hua := a.upper
  have hub := b.upper
  rw [add]
  have := saturate_cases (a.v + b.v)
  omega

theorem saturate_nonneg {s : Int} (h : 0 ≤ s) : 0 ≤ (saturate s).val.v := by
  have hpos : 0 ≤ moneyMax := by decide
  have := saturate_cases s
  omega

theorem signed_nonneg {a b : Money} (ha : 0 ≤ a.v) (hb : 0 ≤ b.v) (mag : Nat) : 0 ≤ signed a b mag := by
  rw [signed, decide_eq_false (Int.not_lt.2 ha), decide_eq_false (Int.not_lt.2 hb)]
  exact Int.natCast_nonneg mag

theorem mul_nonneg {a b : Money} (ha : 0 ≤ a.v) (hb : 0 ≤ b.v) : 0 ≤ (mul a b).val.v :=
  saturate_nonneg (signed_nonneg ha hb _)

theorem div_nonneg {a b : Money} (ha : 0 ≤ a.v) (hb : 0 ≤ b.v) : 0 ≤ (div a b).val.v := by
  unfold div
  dsimp only
  split
  · rw [decide_eq_false (Int.not_lt.2 ha)]
    exact (by decide : (0 : Int) ≤ moneyMax)
  · exact saturate_nonneg (signed_nonneg ha hb _)

theorem add_v {a b : Money} (h : (add a b).Clean) : (add a b).val.v = a.v + b.v := saturate_v h

theorem sub_v {a b : Money} (h : (sub a b).Clean) : (sub a b).val.v = a.v - b.v := saturate_v h

theorem sub_self (a : Money) : sub a a = pure zero := by
  have h : (sub a a).Clean := saturate_clean_iff.2 (by simp [neg])
  have hv : (sub a a).val = zero := Money.ext (by rw [sub_v h, zero_v, Int.sub_self])
  calc sub a a = ⟨(sub a a).val, (sub a a).flags⟩ := rfl
    _ = pure zero := by rw [hv, show (sub a a).flags = 0 from h]; rfl

theorem add_zero (a : Money) : add a zero = pure a := by
  have h : (add a zero).Clean := saturate_clean_iff.2 (by
    have := a.lower; have := a.upper; rw [zero_v]; omega)
  have hv : (add a zero).val = a := Money.ext (by rw [add_v h, zero_v, Int.add_zero])
  calc add a zero = ⟨(add a zero).val, (add a zero).flags⟩ := rfl
    _ = pure a := by rw [hv, show (add a zero).flags = 0 from h]; rfl

theorem sub_zero (a : Money) : sub a zero = pure a := add_zero a

example : (mul (fromInt 3).val (fromInt 5).val).val = (fromInt 15).val := by decide

end Money

end FoxTrader
