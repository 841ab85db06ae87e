import Mathlib.Algebra.Order.Ring.Nat
import Mathlib.Tactic.Linarith
import Mathlib.Tactic.Ring

/-! # Products of split words, and division by a reciprocal

    A product of two double words is put together from the four products of their halves, with the
    carry of the lowest taken into the middle. A quotient by a constant `d` is read off a product with
    `M`, where `M · d` lies so little above the modulus `N` that no dividend sees it. -/

namespace Lib

/-- The four partial products, with `b` the base of the halves. -/
theorem split_product (b x₁ x₀ y₁ y₀ : ℕ) :
    (x₁ * y₁ + (x₀ * y₁ + x₁ * y₀ + x₀ * y₀ / b) / b) * (b * b) +
        ((x₀ * y₁ + x₁ * y₀ + x₀ * y₀ / b) % b * b + x₀ * y₀ % b) =
      (x₁ * b + x₀) * (y₁ * b + y₀) := by
  have hlow : b * (x₀ * y₀ / b) + x₀ * y₀ % b = x₀ * y₀ := Nat.div_add_mod _ _
  have hmid : b * ((x₀ * y₁ + x₁ * y₀ + x₀ * y₀ / b) / b) + (x₀ * y₁ + x₁ * y₀ + x₀ * y₀ / b) % b =
      x₀ * y₁ + x₁ * y₀ + x₀ * y₀ / b := Nat.div_add_mod _ _
  generalize (x₀ * y₁ + x₁ * y₀ + x₀ * y₀ / b) / b = carry at hmid ⊢
  generalize (x₀ * y₁ + x₁ * y₀ + x₀ * y₀ / b) % b = m at hmid ⊢
  generalize x₀ * y₀ / b = h at hlow hmid
  generalize x₀ * y₀ % b = l at hlow ⊢
  calc (x₁ * y₁ + carry) * (b * b) + (m * b + l)
      = x₁ * y₁ * (b * b) + (b * carry + m) * b + l := by ring
    _ = x₁ * y₁ * (b * b) + (x₀ * y₁ + x₁ * y₀) * b + (b * h + l) := by rw [hmid]; ring
    _ = (x₁ * b + x₀) * (y₁ * b + y₀) := by rw [hlow]; ring

/-- The quotient by `d`, from a product with `M`. -/
theorem reciprocal_div {p m d n : ℕ} (hd : 0 < d) (hm : n ≤ m * d) (hp : p * (m * d - n) < n) :
    p * m / n = p / d := by
  obtain ⟨e, he⟩ := Nat.exists_eq_add_of_le hm
  rw [he, Nat.add_sub_cancel_left] at hp
  have hprod : p * m * d = p * n + p * e := by rw [Nat.mul_assoc, he, Nat.mul_add]
  have hfloor := Nat.div_mul_le_self p d
  have hceil : p + 1 ≤ (p / d + 1) * d := Nat.lt_div_mul_add hd |>.trans_eq (Nat.succ_mul ..).symm
  refine Nat.div_eq_of_lt_le ?_ ?_
  · refine Nat.le_of_mul_le_mul_right (c := d) ?_ hd
    calc p / d * n * d = p / d * d * n := Nat.mul_right_comm ..
      _ ≤ p * n := Nat.mul_le_mul_right n hfloor
      _ ≤ p * m * d := by rw [hprod]; exact Nat.le_add_right ..
  · refine Nat.lt_of_mul_lt_mul_right (a := d) ?_
    calc p * m * d = p * n + p * e := hprod
      _ < p * n + n := Nat.add_lt_add_left hp _
      _ = (p + 1) * n := (Nat.succ_mul ..).symm
      _ ≤ (p / d + 1) * d * n := Nat.mul_le_mul_right n hceil
      _ = (p / d + 1) * n * d := Nat.mul_right_comm ..

end Lib
