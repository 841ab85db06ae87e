import Mathlib.Logic.Basic

/-! # The sign of a double

    What is not below zero stays so under multiplication: the rounding of a product and the packing
    of the result keep the sign, and a NaN has none. A double not below zero is greater than every
    finite one with a minus sign, unless it is a NaN. -/

namespace Lib

open Float.Model (UnpackedFloat Format)
open Float.Model.UnpackedFloat

variable {spec : Format} {x y : UnpackedFloat} {a b : Float}

/-- A plus sign, or none. -/
def NotBelowZero : UnpackedFloat → Prop
  | .infinity s => s = .positive
  | .notANumber => True
  | .zero s => s = .positive
  | .finite s .. => s = .positive

theorem notBelowZero_dite {P : Prop} [Decidable P] {x : P → UnpackedFloat} {y : ¬P → UnpackedFloat}
    (hx : ∀ h, NotBelowZero (x h)) (hy : ∀ h, NotBelowZero (y h)) : NotBelowZero (dite P x y) := by
  by_cases h : P
  · rw [dif_pos h]
    exact hx h
  · rw [dif_neg h]
    exact hy h

theorem notBelowZero_ite {P : Prop} [Decidable P] (hx : NotBelowZero x) (hy : NotBelowZero y) :
    NotBelowZero (if P then x else y) := by
  by_cases h : P
  · rwa [if_pos h]
  · rwa [if_neg h]

theorem notBelowZero_roundWithAccuracy (mantissa : Nat) (exponent : Int) (accuracy : Accuracy) :
    NotBelowZero (roundWithAccuracy spec .positive mantissa exponent accuracy) :=
  notBelowZero_dite (fun _ => rfl) fun _ => rfl

theorem notBelowZero_mul (hx : NotBelowZero x) (hy : NotBelowZero y) : NotBelowZero (mul spec x y) := by
  cases x <;> cases y <;> cases hx <;> cases hy <;>
    first | exact trivial | exact rfl | exact notBelowZero_roundWithAccuracy ..

/-! ### Through the packed form -/

theorem unpackSign_packComponents (sign : Sign) (exponent : BitVec spec.exponentBits)
    (mantissa : BitVec spec.mantissaBitsWithoutImplicit) :
    unpackSign (packComponents spec sign exponent mantissa) = sign.toBitVec := by
  ext i hi
  obtain rfl : i = 0 := by omega
  delta unpackSign packComponents
  simp [BitVec.getLsbD_append, BitVec.getElem_append]

theorem unpackSign_pack (h : NotBelowZero x) : unpackSign (pack spec x) = 0#1 := by
  cases x with
  | infinity s | zero s =>
    subst h
    exact unpackSign_packComponents ..
  | notANumber => exact unpackSign_packComponents ..
  | finite s m e hm =>
    subst h
    delta pack
    dsimp only
    split
    · exact unpackSign_packComponents ..
    split <;> exact unpackSign_packComponents ..

theorem notBelowZero_unpack {bits : BitVec spec.numBits} (h : unpackSign bits = 0#1) :
    NotBelowZero (unpack spec bits) := by
  have hsign : Sign.ofBitVec (unpackSign bits) = .positive := by rw [h]; rfl
  delta unpack
  dsimp only
  rw [hsign]
  exact notBelowZero_ite (notBelowZero_ite rfl trivial)
    (notBelowZero_ite (notBelowZero_dite (fun _ => rfl) fun _ => rfl) rfl)

/-! ### Doubles -/

theorem notBelowZero_float_mul (ha : NotBelowZero a.toModel.unpack) (hb : NotBelowZero b.toModel.unpack) :
    NotBelowZero (a * b).toModel.unpack :=
  notBelowZero_unpack (unpackSign_pack (notBelowZero_mul ha hb))

theorem float_lt_iff : a < b ↔ a.toModel.unpack.compare b.toModel.unpack = some .lt := by
  have hlt : a < b ↔ (decide (a.toModel < b.toModel)) = true := Iff.rfl
  rw [hlt, decide_eq_true_eq]
  exact beq_iff_eq

theorem unpack_zero : (0.0 : Float).toModel.unpack = .zero .positive := rfl

/-- What is greater than zero is not below it. -/
theorem notBelowZero_of_pos (h : 0.0 < a) : NotBelowZero a.toModel.unpack := by
  rw [float_lt_iff, unpack_zero] at h
  generalize a.toModel.unpack = x at h ⊢
  cases x with
  | notANumber => trivial
  | infinity s | zero s | finite s =>
    cases s with
    | positive => rfl
    | negative => cases h

/-- What is not below zero and is a number is greater than a finite double with a minus sign. -/
theorem lt_of_notBelowZero {m : Nat} {e : Int} {hm : 0 < m} (hnum : a.toModel.unpack ≠ .notANumber)
    (ha : NotBelowZero a.toModel.unpack) (hb : b.toModel.unpack = .finite .negative m e hm) : b < a := by
  rw [float_lt_iff, hb]
  generalize a.toModel.unpack = x at hnum ha ⊢
  cases x with
  | notANumber => exact absurd rfl hnum
  | infinity s | zero s | finite s =>
    obtain rfl : s = .positive := ha
    rfl

theorem not_lt_of_notANumber (ha : a.toModel.unpack = .notANumber) : ¬a < b := by
  rw [float_lt_iff, ha]
  intro h
  cases h

end Lib
