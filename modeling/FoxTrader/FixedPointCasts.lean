import FoxTrader.MoneyCasts
import FoxTrader.MoneyDouble

/-! # Binary fixed point at its borders

    The strategies calculate in binary fixed point, price in money and weigh in doubles.
    `Money_FromBinary` and `Money_ToBinary` as functions of the two values, which is what the words of
    `MoneyCasts` compute, and `FPN_ToDouble`. -/

namespace FoxTrader

open Lib

/-- `Money_FromBinary`. -/
def Money.fromBinary (b : Fpn) : Flagged 64 Money := saturate (halfEven (b.v * moneyScale) fpnOne)

namespace Fpn

/-- `Money_ToBinary`, which stays far inside the range. -/
def ofMoney (a : Money) : Fpn := saturate (halfEven (a.v * fpnOne) moneyScale)

/-- `FPN_Abs`. -/
def abs (a : Fpn) : Fpn := saturate a.v.natAbs

/-- `FPN_Negate`. -/
def negate (a : Fpn) : Fpn := saturate (-a.v)

def greaterThanOrEqual (a b : Fpn) : Bool := a.v ≥ b.v

/-- `FPN_ToDouble`: both halves of the magnitude, then the sign. -/
def toDouble (a : Fpn) : Float :=
  let m := a.v.natAbs
  let mag := Float.ofNat (m / fpnOne) + Float.ofNat (m % fpnOne) / 18446744073709551616.0
  if a.v < 0 then -mag else mag

/-- `FPN_FromDouble` of `0.5`, `0.2` and `0.0001`. -/
def half : Fpn := saturate 9223372036854775808

def fifth : Fpn := saturate 3689348814741910528

def tenThousandth : Fpn := saturate 1844674407370955

end Fpn

/-! ### The words compute these -/

theorem moneyFromBinary_word {b : Fpn} (hb : -fpnMax ≤ b.v) :
    (moneyFromBinary b.word).val.toInt = (Money.fromBinary b).val.v ∧
      (moneyFromBinary b.word).flags = (Money.fromBinary b).flags := by
  have hword : b.word.toInt = b.v := b.word_toInt
  rw [← hword] at hb
  have h := moneyFromBinary_saturate hb
  rwa [hword] at h

theorem moneyToBinary_word (a : Money) : (moneyToBinary a.word).toInt = (Fpn.ofMoney a).v := by
  have hlow := a.lower
  have hup := a.upper
  have hmax : fpnMax = 2 ^ 127 - 1 := rfl
  rw [moneyToBinary_toInt, Fpn.ofMoney, Fpn.saturate_v]
  · exact (le_halfEven_iff (by decide)).2 (by unfold moneyMax moneyScale fpnOne at *; omega)
  · exact (halfEven_le_iff (by decide)).2 (by unfold moneyMax moneyScale fpnOne at *; omega)

end FoxTrader
