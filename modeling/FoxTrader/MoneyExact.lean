import Mathlib.Algebra.Order.Field.Rat
import Mathlib.Tactic.FieldSimp
import Mathlib.Tactic.Ring
import FoxTrader.Lib.HalfEven
import FoxTrader.Money

/-! # Money that does not round

    A payload `v` is worth `v · 10⁻⁸`. Sums and differences that do not saturate are worth what they
    say; a product or a quotient is if it also comes out without a remainder, which is what
    `MulExact` and `DivExact` ask of the operands. Any other is its nearest payload, `halfEven`. -/

namespace FoxTrader.Money

open Lib

variable {a b : Money}

/-- What a payload is worth. -/
def worth (a : Money) : ℚ := a.v / moneyScale

/-- The product of the payloads comes out at the scale. -/
def MulExact (a b : Money) : Prop := (moneyScale : ℤ) ∣ a.v * b.v

/-- The quotient of the payloads comes out at the scale. -/
def DivExact (a b : Money) : Prop := b.v ∣ a.v * moneyScale

instance (a b : Money) : Decidable (MulExact a b) := inferInstanceAs (Decidable ((moneyScale : ℤ) ∣ a.v * b.v))

instance (a b : Money) : Decidable (DivExact a b) := inferInstanceAs (Decidable (b.v ∣ a.v * moneyScale))

theorem scale_ne_zero : (moneyScale : ℚ) ≠ 0 := by norm_num [moneyScale]

@[simp] theorem worth_zero : zero.worth = 0 := by simp [worth]

theorem worth_add (h : (a.add b).Clean) : (a.add b).val.worth = a.worth + b.worth := by
  rw [worth, worth, worth, add_v h, Int.cast_add, add_div]

theorem worth_sub (h : (a.sub b).Clean) : (a.sub b).val.worth = a.worth - b.worth := by
  rw [worth, worth, worth, sub_v h, Int.cast_sub, sub_div]

/-- Without a remainder there is nothing to round. -/
theorem roundHalfEven_zero (q : Nat) {d : Nat} (hd : d ≠ 0) : roundHalfEven q 0 d = q := by
  unfold roundHalfEven
  dsimp only
  rw [if_neg, Nat.add_zero]
  omega

/-- The side of zero a payload is on. -/
def side (a : Money) : ℤ := if a.v < 0 then -1 else 1

theorem side_mul_self (a : Money) : a.side * a.side = 1 := by
  unfold side
  split <;> rfl

theorem side_mul_natAbs (a : Money) : a.side * a.v.natAbs = a.v := by
  unfold side
  split <;> omega

theorem signed_eq (a b : Money) (mag : Nat) : signed a b mag = a.side * b.side * mag := by
  unfold signed side
  by_cases ha : a.v < 0 <;> by_cases hb : b.v < 0 <;> simp [ha, hb]

/-- A product without a remainder is the product. -/
theorem mul_v (hexact : MulExact a b) (h : (a.mul b).Clean) : (a.mul b).val.v * moneyScale = a.v * b.v := by
  have hdvd : moneyScale ∣ a.v.natAbs * b.v.natAbs := by
    rw [← Int.natAbs_mul]
    exact Int.natCast_dvd.1 hexact
  have hmag : ((a.v.natAbs * b.v.natAbs / moneyScale : Nat) : ℤ) * (moneyScale : ℤ) = a.v.natAbs * b.v.natAbs := by
    exact_mod_cast Nat.div_mul_cancel hdvd
  unfold mul at h ⊢
  dsimp only at h ⊢
  rw [saturate_v h, Nat.mod_eq_zero_of_dvd hdvd, roundHalfEven_zero _ (by decide), signed_eq, mul_assoc, hmag]
  calc a.side * b.side * ((a.v.natAbs : ℤ) * b.v.natAbs)
      = a.side * a.v.natAbs * (b.side * b.v.natAbs) := by ring
    _ = a.v * b.v := by rw [side_mul_natAbs, side_mul_natAbs]

/-- A quotient without a remainder is the quotient. -/
theorem div_v (hexact : DivExact a b) (h : (a.div b).Clean) : b.v ≠ 0 ∧ (a.div b).val.v * b.v = a.v * moneyScale := by
  unfold div at h ⊢
  dsimp only at h ⊢
  split at h
  · exact absurd h (by decide : ¬flagDivzero = 0)
  next hb =>
    have hdvd : b.v.natAbs ∣ a.v.natAbs * moneyScale := by
      have hnat := Int.natAbs_dvd_natAbs.2 hexact
      rwa [Int.natAbs_mul, Int.natAbs_natCast] at hnat
    have hmag : ((a.v.natAbs * moneyScale / b.v.natAbs : Nat) : ℤ) * b.v.natAbs = a.v.natAbs * moneyScale := by
      exact_mod_cast Nat.div_mul_cancel hdvd
    refine ⟨fun hzero => hb (by rw [hzero, Int.natAbs_zero]), ?_⟩
    rw [if_neg hb, saturate_v h, Nat.mod_eq_zero_of_dvd hdvd, roundHalfEven_zero _ hb, signed_eq]
    generalize ((a.v.natAbs * moneyScale / b.v.natAbs : Nat) : ℤ) = mag at hmag
    calc a.side * b.side * mag * b.v
        = a.side * b.side * mag * (b.side * b.v.natAbs) := by rw [side_mul_natAbs]
      _ = b.side * b.side * (a.side * (mag * b.v.natAbs)) := by ring
      _ = a.side * a.v.natAbs * moneyScale := by rw [side_mul_self, hmag, one_mul, mul_assoc]
      _ = a.v * moneyScale := by rw [side_mul_natAbs]

theorem worth_mul (hexact : MulExact a b) (h : (a.mul b).Clean) : (a.mul b).val.worth = a.worth * b.worth := by
  have hv : ((a.mul b).val.v : ℚ) * moneyScale = a.v * b.v := by
    have hint := congrArg (Int.cast : ℤ → ℚ) (mul_v hexact h)
    rwa [Int.cast_mul, Int.cast_mul, Int.cast_natCast] at hint
  have hs := scale_ne_zero
  unfold worth
  field_simp
  exact hv

theorem worth_div (hexact : DivExact a b) (h : (a.div b).Clean) : (a.div b).val.worth * b.worth = a.worth := by
  have hv : ((a.div b).val.v : ℚ) * b.v = a.v * moneyScale := by
    have hint := congrArg (Int.cast : ℤ → ℚ) (div_v hexact h).2
    rwa [Int.cast_mul, Int.cast_mul, Int.cast_natCast] at hint
  have hs := scale_ne_zero
  unfold worth
  field_simp
  rw [hv, mul_comm]

/-- What an exact quotient times its divisor comes to is at the scale. -/
theorem mulExact_div (hexact : DivExact a b) (h : (a.div b).Clean) : MulExact (a.div b).val b := by
  rw [MulExact, (div_v hexact h).2]
  exact Dvd.intro_left _ rfl

/-- What is left of an exact product when an exact part of it goes. -/
theorem mulExact_sub {c : Money} (hb : MulExact a b) (hc : MulExact a c) (h : (b.sub c).Clean) :
    MulExact a (b.sub c).val := by
  rw [MulExact, sub_v h, Int.mul_sub]
  exact Int.dvd_sub hb hc

/-! ### What rounds -/

theorem roundHalfEven_eq (p : Nat) {d : Nat} (hd : 0 < d) : (roundHalfEven (p / d) (p % d) d : ℤ) = halfEven p d := by
  have hlt := Nat.mod_lt p hd
  have hq : (p : ℤ) / d = (p / d : Nat) := (Int.natCast_ediv p d).symm
  have hr : (p : ℤ) % d = (p % d : Nat) := (Int.natCast_emod p d).symm
  unfold halfEven roundHalfEven
  rw [hq, hr]
  dsimp only
  generalize p / d = q
  generalize p % d = r at hlt
  split <;> split <;> omega

/-- The sign of a product or quotient goes into the rounding. -/
theorem signed_roundHalfEven (a b : Money) (p : Nat) {d : Nat} (hd : 0 < d) :
    signed a b (roundHalfEven (p / d) (p % d) d) = halfEven (a.side * b.side * p) d := by
  have hside : a.side * b.side = 1 ∨ a.side * b.side = -1 := by
    unfold side
    split <;> split <;> simp
  rw [signed_eq, roundHalfEven_eq p hd]
  rcases hside with h | h
  · rw [h, one_mul, one_mul]
  · rw [h, neg_one_mul, neg_one_mul, halfEven_neg hd]

theorem mul_eq (a b : Money) : a.mul b = saturate (halfEven (a.v * b.v) moneyScale) := by
  have hprod : a.side * b.side * ((a.v.natAbs * b.v.natAbs : Nat) : ℤ) = a.v * b.v := by
    rw [Nat.cast_mul, mul_mul_mul_comm, side_mul_natAbs, side_mul_natAbs]
  unfold mul
  dsimp only
  rw [signed_roundHalfEven a b _ (by decide), hprod]

theorem div_eq (a : Money) (hb : 0 < b.v) : a.div b = saturate (halfEven (a.v * moneyScale) b.v.toNat) := by
  have hd : b.v.natAbs = b.v.toNat := by omega
  have hside : b.side = 1 := if_neg (by omega)
  have hprod : a.side * b.side * ((a.v.natAbs * moneyScale : Nat) : ℤ) = a.v * moneyScale := by
    rw [Nat.cast_mul, hside, mul_one, ← mul_assoc, side_mul_natAbs]
  unfold div
  dsimp only
  rw [hd, if_neg (by omega), signed_roundHalfEven a b _ (by omega), hprod]

end FoxTrader.Money
