import Mathlib.Algebra.BigOperators.Ring.List
import Mathlib.Algebra.Order.BigOperators.Group.List
import Mathlib.Algebra.Order.Field.Basic

/-! # Weighted means

    The mean of the values `p` over a list under the weights `x`. Under positive weights some value is at
    most the mean and some value at least. -/

namespace Lib

variable {K ι : Type*} [Field K]

def weightedMean (x p : ι → K) (l : List ι) : K := (l.map fun i => x i * p i).sum / (l.map x).sum

variable [LinearOrder K] [IsStrictOrderedRing K]

theorem sum_pos_of_pos {x : ι → K} {l : List ι} (hl : l ≠ []) (hx : ∀ i ∈ l, 0 < x i) :
    0 < (l.map x).sum := by
  induction l with
  | nil => exact absurd rfl hl
  | cons i l ih =>
    have hi := hx i List.mem_cons_self
    rw [List.map_cons, List.sum_cons]
    rcases l with _ | ⟨j, l⟩
    · rw [List.map_nil, List.sum_nil, add_zero]
      exact hi
    · exact add_pos hi (ih (List.cons_ne_nil j l) fun k hk => hx k (List.mem_cons_of_mem _ hk))

/-- Weighting the mean itself gives the weighted sum of the values. -/
theorem weightedMean_spec {x : ι → K} (p : ι → K) {l : List ι} (hl : l ≠ []) (hx : ∀ i ∈ l, 0 < x i) :
    (l.map fun i => x i * weightedMean x p l).sum = (l.map fun i => x i * p i).sum := by
  have hpos := sum_pos_of_pos hl hx
  rw [List.sum_map_mul_right, weightedMean, mul_div_cancel₀ _ hpos.ne']

theorem exists_le_weightedMean {x : ι → K} (p : ι → K) {l : List ι} (hl : l ≠ []) (hx : ∀ i ∈ l, 0 < x i) :
    ∃ i ∈ l, p i ≤ weightedMean x p l := by
  obtain ⟨i, hi, hle⟩ := List.exists_le_of_sum_le hl (fun i => x i * p i)
    (fun i => x i * weightedMean x p l) (weightedMean_spec p hl hx).ge
  exact ⟨i, hi, le_of_mul_le_mul_left hle (hx i hi)⟩

theorem exists_weightedMean_le {x : ι → K} (p : ι → K) {l : List ι} (hl : l ≠ []) (hx : ∀ i ∈ l, 0 < x i) :
    ∃ i ∈ l, weightedMean x p l ≤ p i := by
  obtain ⟨i, hi, hle⟩ := List.exists_le_of_sum_le hl (fun i => x i * weightedMean x p l)
    (fun i => x i * p i) (weightedMean_spec p hl hx).le
  exact ⟨i, hi, le_of_mul_le_mul_left hle (hx i hi)⟩

end Lib
