import Mathlib.Algebra.Order.Group.Unbundled.Int
import Mathlib.Algebra.Order.Ring.Int
import Mathlib.Tactic.Linarith
import Mathlib.Tactic.Ring

/-! # Binary fixed point

    `FPN_Binary<64>` is a 128-bit integer payload `v` worth `v · 2⁻⁶⁴`. Sums and differences are exact
    until they leave the range and then stick at `±(2¹²⁷ - 1)`; products and quotients are formed on
    magnitudes and truncated there, the sign put back at the end. -/

namespace FoxTrader

/-- `FP2_64_MAX`. -/
abbrev fpnMax : Int := 2 ^ 127 - 1

/-- One, in payload. -/
abbrev fpnOne : Nat := 2 ^ 64

@[ext] structure Fpn where
  v : Int
  lower : -(fpnMax + 1) ≤ v
  upper : v ≤ fpnMax
  deriving DecidableEq

namespace Fpn

theorem zero_within : -(fpnMax + 1) ≤ (0 : Int) ∧ (0 : Int) ≤ fpnMax := by decide

def zero : Fpn := ⟨0, zero_within.1, zero_within.2⟩

instance : Inhabited Fpn := ⟨zero⟩

theorem ceiling_within (neg : Bool) : -(fpnMax + 1) ≤ (if neg then -fpnMax else fpnMax) ∧
    (if neg then -fpnMax else fpnMax) ≤ fpnMax := by
  cases neg <;> decide

/-- `±FP2_64_MAX`. -/
def ceiling (neg : Bool) : Fpn := ⟨if neg then -fpnMax else fpnMax, (ceiling_within neg).1, (ceiling_within neg).2⟩

/-- The sum if it is in the range, else the ceiling on its side. -/
def saturate (s : Int) : Fpn :=
  if h : -(fpnMax + 1) ≤ s ∧ s ≤ fpnMax then ⟨s, h.1, h.2⟩ else ceiling (s < 0)

/-- A magnitude below `2¹²⁷`, or the ceiling, under a sign. -/
def ofMagnitude (neg : Bool) (mag : Nat) : Fpn :=
  if (mag : Int) ≤ fpnMax then saturate (if neg then -mag else mag) else ceiling neg

/-- `fp2_addsat`. -/
def addSat (a b : Fpn) : Fpn := saturate (a.v + b.v)

/-- `fp2_sub`, which is both `FPN_Sub` and `FPN_SubSat`. -/
def sub (a b : Fpn) : Fpn := saturate (a.v - b.v)

def neg (a : Fpn) : Bool := a.v < 0

/-- `fp2_mul`. -/
def mul (a b : Fpn) : Fpn := ofMagnitude (xor a.neg b.neg) (a.v.natAbs * b.v.natAbs / fpnOne)

/-- `fp2_div`; a zero divisor saturates as well. -/
def divNoAssert (a b : Fpn) : Fpn :=
  if b.v = 0 then ceiling a.neg else ofMagnitude (xor a.neg b.neg) (a.v.natAbs * fpnOne / b.v.natAbs)

/-- `fp2_from_int`. -/
def fromInt (i : Int) : Fpn := saturate (i * fpnOne)

/-- `FPN_BlendOnMask` on a mask made of a condition. -/
def blendOnMask (ifTrue ifFalse : Fpn) (cond : Bool) : Fpn := if cond then ifTrue else ifFalse

def isZero (a : Fpn) : Bool := a.v = 0
def lessThan (a b : Fpn) : Bool := a.v < b.v
def greaterThan (a b : Fpn) : Bool := a.v > b.v

variable {a b : Fpn}

@[simp] theorem zero_v : zero.v = 0 := rfl

@[simp] theorem blendOnMask_true (a b : Fpn) : blendOnMask a b true = a := rfl
@[simp] theorem blendOnMask_false (a b : Fpn) : blendOnMask a b false = b := rfl

theorem isZero_of_ne (h : a.v ≠ 0) : a.isZero = false := decide_eq_false h

theorem isZero_of_eq (h : a.v = 0) : a.isZero = true := decide_eq_true h

theorem blendOnMask_zero_v (a : Fpn) (cond : Bool) : (blendOnMask a zero cond).v = if cond then a.v else 0 := by
  cases cond <;> rfl

theorem saturate_v {s : Int} (hlow : -(fpnMax + 1) ≤ s) (hup : s ≤ fpnMax) : (saturate s).v = s := by
  rw [saturate, dif_pos ⟨hlow, hup⟩]

/-- A product whose magnitude is in the range is truncated towards zero. -/
theorem ofMagnitude_v {neg : Bool} {mag : Nat} (h : (mag : Int) ≤ fpnMax) :
    (ofMagnitude neg mag).v = if neg then -(mag : Int) else mag := by
  rw [ofMagnitude, if_pos h, saturate_v]
  · split <;> omega
  · split <;> omega

/-- In the range. -/
def Fits (s : Int) : Prop := -(fpnMax + 1) ≤ s ∧ s ≤ fpnMax

instance (s : Int) : Decidable (Fits s) := inferInstanceAs (Decidable (_ ∧ _))

/-- The product, truncated, is in the range. -/
def MulFits (a b : Fpn) : Prop := ((a.v.natAbs * b.v.natAbs / fpnOne : Nat) : Int) ≤ fpnMax

instance (a b : Fpn) : Decidable (MulFits a b) := inferInstanceAs (Decidable (_ ≤ _))

theorem addSat_v (h : Fits (a.v + b.v)) : (a.addSat b).v = a.v + b.v := saturate_v h.1 h.2

theorem sub_v (h : Fits (a.v - b.v)) : (a.sub b).v = a.v - b.v := saturate_v h.1 h.2

theorem fromInt_v {i : Int} (h : Fits (i * fpnOne)) : (fromInt i).v = i * fpnOne := saturate_v h.1 h.2

/-- The quotient, truncated, is in the range. -/
def DivFits (a b : Fpn) : Prop := ((a.v.natAbs * fpnOne / b.v.natAbs : Nat) : Int) ≤ fpnMax

instance (a b : Fpn) : Decidable (DivFits a b) := inferInstanceAs (Decidable (_ ≤ _))

/-- Magnitudes multiplied and divided under the product of the signs: division towards zero. -/
theorem signed_mul_div (x y : Int) (k : Nat) :
    (if xor (decide (x < 0)) (decide (y < 0)) then -((x.natAbs * y.natAbs / k : Nat) : Int)
      else ((x.natAbs * y.natAbs / k : Nat) : Int)) = (x * y).tdiv k := by
  by_cases hx : x < 0 <;> by_cases hy : y < 0
  · obtain ⟨m, rfl⟩ := Int.exists_eq_neg_ofNat hx.le
    obtain ⟨n, rfl⟩ := Int.exists_eq_neg_ofNat hy.le
    rw [decide_eq_true hx, decide_eq_true hy, if_neg (by decide), neg_mul_neg, Int.natAbs_neg, Int.natAbs_neg]
    rfl
  · obtain ⟨m, rfl⟩ := Int.exists_eq_neg_ofNat hx.le
    obtain ⟨n, rfl⟩ := Int.eq_ofNat_of_zero_le (not_lt.1 hy)
    rw [decide_eq_true hx, decide_eq_false hy, if_pos (by decide), neg_mul, Int.neg_tdiv, Int.natAbs_neg]
    rfl
  · obtain ⟨m, rfl⟩ := Int.eq_ofNat_of_zero_le (not_lt.1 hx)
    obtain ⟨n, rfl⟩ := Int.exists_eq_neg_ofNat hy.le
    rw [decide_eq_false hx, decide_eq_true hy, if_pos (by decide), mul_neg, Int.neg_tdiv, Int.natAbs_neg]
    rfl
  · obtain ⟨m, rfl⟩ := Int.eq_ofNat_of_zero_le (not_lt.1 hx)
    obtain ⟨n, rfl⟩ := Int.eq_ofNat_of_zero_le (not_lt.1 hy)
    rw [decide_eq_false hx, decide_eq_false hy, if_neg (by decide)]
    rfl

theorem signed_div (x y : Int) (k : Nat) :
    (if xor (decide (x < 0)) (decide (y < 0)) then -((x.natAbs * k / y.natAbs : Nat) : Int)
      else ((x.natAbs * k / y.natAbs : Nat) : Int)) = (x * k).tdiv y := by
  by_cases hy : y < 0
  · obtain ⟨n, rfl⟩ := Int.exists_eq_neg_ofNat hy.le
    have h := signed_mul_div x k n
    rw [decide_eq_false (not_lt.2 (Int.natCast_nonneg k)), Bool.xor_false, Int.natAbs_natCast] at h
    rw [decide_eq_true hy, Bool.xor_true, Int.natAbs_neg, Int.natAbs_natCast, Int.tdiv_neg, ← h]
    by_cases hx : x < 0
    · rw [decide_eq_true hx, if_neg (by decide), if_pos rfl, neg_neg]
    · rw [decide_eq_false hx, if_pos (by decide), if_neg (by decide)]
  · obtain ⟨n, rfl⟩ := Int.eq_ofNat_of_zero_le (not_lt.1 hy)
    have h := signed_mul_div x k n
    rw [decide_eq_false (not_lt.2 (Int.natCast_nonneg k)), Int.natAbs_natCast] at h
    rw [decide_eq_false hy, Int.natAbs_natCast]
    exact h

theorem mul_tdiv (h : MulFits a b) : (a.mul b).v = (a.v * b.v).tdiv fpnOne :=
  (ofMagnitude_v h).trans (signed_mul_div a.v b.v fpnOne)

theorem div_tdiv (hb : b.v ≠ 0) (h : DivFits a b) : (a.divNoAssert b).v = (a.v * fpnOne).tdiv b.v := by
  rw [divNoAssert, if_neg hb]
  exact (ofMagnitude_v h).trans (signed_div a.v b.v fpnOne)

/-- A whole number of times. -/
theorem fromInt_mul_v {n : Nat} (hn : Fits ((n : Int) * fpnOne)) (h : MulFits (fromInt n) b) :
    ((fromInt n).mul b).v = n * b.v := by
  rw [mul_tdiv h, fromInt_v hn, Int.mul_right_comm]
  exact Int.mul_tdiv_cancel _ (by norm_num)

end Fpn

end FoxTrader
