import Mathlib.LinearAlgebra.Matrix.Block
import Mathlib.LinearAlgebra.Matrix.Determinant.Basic
import Mathlib.Tactic.FieldSimp
import Mathlib.Tactic.Ring

/-! # Triangular systems by constant-length reductions

    A lower triangular system is solved row by row from the first, its transpose from the last. Every
    row's reduction goes over all cells of the array: the cells that are not known yet are zero, so that
    they do not count. With the two together a system is solved whose matrix is the product of a
    triangular one and its transpose.

    The leading minors of a matrix that is such a product with a diagonal in the middle are the squares of
    the triangle's diagonal times the diagonal's. -/

namespace Lib

open Finset

variable {K : Type*} [Field K] {m n : ℕ} {L : ℕ → ℕ → K} {b y w : ℕ → K}

/-- A value less the products of two rows of `m` cells. -/
def reduce (m : ℕ) (s : K) (u v : ℕ → K) : K := (List.range m).foldl (fun s k => s - u k * v k) s

theorem reduce_eq (m : ℕ) (s : K) (u v : ℕ → K) : reduce m s u v = s - ∑ k ∈ range m, u k * v k := by
  induction m with
  | zero => rw [reduce, List.range_zero, List.foldl_nil, sum_range_zero, sub_zero]
  | succ m ih =>
    rw [reduce] at ih
    rw [reduce, List.range_succ, List.foldl_append, List.foldl_cons, List.foldl_nil, ih, sum_range_succ]
    ring

/-- One cell of a row of products is another. -/
theorem sum_mul_update {i : ℕ} (hi : i < m) (u v : ℕ → K) (x : K) :
    ∑ k ∈ range m, u k * Function.update v i x k = ∑ k ∈ range m, u k * v k + u i * (x - v i) := by
  have hmem : i ∈ range m := mem_range.2 hi
  rw [← add_sum_erase _ _ hmem, ← add_sum_erase _ (fun k => u k * v k) hmem, Function.update_self]
  have hothers : ∑ k ∈ (range m).erase i, u k * Function.update v i x k = ∑ k ∈ (range m).erase i, u k * v k :=
    sum_congr rfl fun k hk => by rw [Function.update_of_ne (ne_of_mem_erase hk)]
  rw [hothers]
  ring

/-! ### The two substitutions -/

/-- The solution of the first `n` rows of a lower triangular system. -/
def forwardSub (m : ℕ) (L : ℕ → ℕ → K) (b : ℕ → K) (n : ℕ) : ℕ → K :=
  (List.range n).foldl (fun y i => Function.update y i (reduce m (b i) (L i) y / L i i)) fun _ => 0

/-- The same for the transposed system, from the last row. -/
def backSub (m : ℕ) (L : ℕ → ℕ → K) (y : ℕ → K) (n : ℕ) : ℕ → K :=
  (List.range n).reverse.foldl (fun w i => Function.update w i (reduce m (y i) (fun k => L k i) w / L i i))
    fun _ => 0

/-- The first `n` rows have a diagonal without zeros and nothing to its right. -/
structure LowerRows (m n : ℕ) (L : ℕ → ℕ → K) : Prop where
  diag : ∀ i, i < n → L i i ≠ 0
  upper : ∀ i k, i < n → i < k → k < m → L i k = 0

theorem LowerRows.mono {n' : ℕ} (h : LowerRows m n L) (hle : n' ≤ n) : LowerRows m n' L :=
  ⟨fun i hi => h.diag i (hi.trans_le hle), fun i k hi => h.upper i k (hi.trans_le hle)⟩

theorem forwardSub_succ (m : ℕ) (L : ℕ → ℕ → K) (b : ℕ → K) (n : ℕ) : forwardSub m L b (n + 1) =
    Function.update (forwardSub m L b n) n (reduce m (b n) (L n) (forwardSub m L b n) / L n n) := by
  rw [forwardSub, List.range_succ, List.foldl_append]
  rfl

/-- What is not solved yet is zero. -/
theorem forwardSub_of_le {k : ℕ} (h : n ≤ k) : forwardSub m L b n k = 0 := by
  induction n with
  | zero => rfl
  | succ n ih =>
    rw [forwardSub_succ, Function.update_of_ne (by omega)]
    exact ih (by omega)

theorem forwardSub_solves (hL : LowerRows m n L) (hnm : n ≤ m) (b : ℕ → K) {i : ℕ} (hi : i < n) :
    ∑ k ∈ range m, L i k * forwardSub m L b n k = b i := by
  induction n with
  | zero => exact absurd hi (Nat.not_lt_zero i)
  | succ n ih =>
    rw [forwardSub_succ, sum_mul_update (by omega), forwardSub_of_le le_rfl, sub_zero]
    rcases Nat.lt_succ_iff_lt_or_eq.1 hi with hlt | rfl
    · rw [ih (hL.mono (Nat.le_succ n)) (by omega) hlt, hL.upper i n (by omega) hlt (by omega), zero_mul, add_zero]
    · rw [reduce_eq, mul_div_cancel₀ _ (hL.diag i hi)]
      ring

/-- The rows from `t` on are solved, and the others are not yet. -/
structure SolvedFrom (m n : ℕ) (L : ℕ → ℕ → K) (y : ℕ → K) (t : ℕ) (w : ℕ → K) : Prop where
  below : ∀ k, k < t → w k = 0
  beyond : ∀ k, n ≤ k → w k = 0
  solved : ∀ i, t ≤ i → i < n → ∑ k ∈ range m, L k i * w k = y i

theorem backSub_from (hL : LowerRows m n L) (hnm : n ≤ m) {t : ℕ} (ht : t ≤ n) {w : ℕ → K}
    (h : SolvedFrom m n L y t w) :
    SolvedFrom m n L y 0 ((List.range t).reverse.foldl
      (fun w i => Function.update w i (reduce m (y i) (fun k => L k i) w / L i i)) w) := by
  induction t generalizing w with
  | zero => exact h
  | succ t ih =>
    rw [List.range_succ, List.reverse_append, List.reverse_singleton, List.singleton_append, List.foldl_cons]
    refine ih (by omega) ⟨fun k hk => ?_, fun k hk => ?_, fun i hti hi => ?_⟩
    · rw [Function.update_of_ne (by omega)]
      exact h.below k (by omega)
    · rw [Function.update_of_ne (by omega)]
      exact h.beyond k hk
    · rw [sum_mul_update (by omega), h.below t (Nat.lt_succ_self t), sub_zero]
      rcases Nat.eq_or_lt_of_le hti with rfl | hlt
      · rw [reduce_eq, mul_div_cancel₀ _ (hL.diag t hi)]
        ring
      · rw [h.solved i hlt hi, hL.upper t i (by omega) hlt (by omega), zero_mul, add_zero]

theorem backSub_solves (hL : LowerRows m n L) (hnm : n ≤ m) (y : ℕ → K) : SolvedFrom m n L y 0 (backSub m L y n) :=
  backSub_from hL hnm le_rfl ⟨fun _ _ => rfl, fun _ _ => rfl, fun _ hn hi => absurd hn (by omega)⟩

/-- The two substitutions solve the system of the product. -/
theorem backSub_forwardSub {A : ℕ → ℕ → K} (hL : LowerRows m n L) (hnm : n ≤ m)
    (hA : ∀ i j, i < n → j < n → ∑ k ∈ range m, L i k * L j k = A i j) (b : ℕ → K) {i : ℕ} (hi : i < n) :
    ∑ j ∈ range n, A i j * backSub m L (forwardSub m L b n) n j = b i := by
  set y := forwardSub m L b n with hy
  have hback := backSub_solves hL hnm y
  set w := backSub m L y n with hw
  have hcolumn (k : ℕ) : ∑ j ∈ range n, L j k * w j = ∑ j ∈ range m, L j k * w j := by
    refine sum_subset (range_subset_range.2 hnm) fun j _ hj => ?_
    rw [hback.beyond j (not_lt.1 fun hlt => hj (mem_range.2 hlt)), mul_zero]
  calc ∑ j ∈ range n, A i j * w j = ∑ j ∈ range n, ∑ k ∈ range m, L i k * (L j k * w j) := by
        refine sum_congr rfl fun j hj => ?_
        rw [← hA i j hi (mem_range.1 hj), sum_mul]
        exact sum_congr rfl fun k _ => mul_assoc ..
    _ = ∑ k ∈ range m, L i k * ∑ j ∈ range m, L j k * w j := by
        rw [sum_comm]
        refine sum_congr rfl fun k _ => ?_
        rw [← hcolumn k, mul_sum]
    _ = ∑ k ∈ range m, L i k * y k := by
        refine sum_congr rfl fun k hk => ?_
        rcases Nat.lt_or_ge k n with hkn | hkn
        · rw [hback.solved k (Nat.zero_le k) hkn]
        · rw [hL.upper i k hi (by omega) (mem_range.1 hk), zero_mul, zero_mul]
    _ = b i := forwardSub_solves hL hnm b hi

/-! ### Leading minors -/

/-- The determinant of the first `r` rows and columns. -/
def leadingMinor (A : ℕ → ℕ → K) (r : ℕ) : K := (Matrix.of fun a b : Fin r => A a b).det

theorem leadingMinor_ldl {A M : ℕ → ℕ → K} {D : ℕ → K} {r : ℕ} (hM : ∀ i j, i < j → j < r → M i j = 0)
    (hA : ∀ i j, i < r → j < r → A i j = ∑ k ∈ range r, M i k * D k * M j k) :
    leadingMinor A r = (∏ k ∈ range r, M k k) ^ 2 * ∏ k ∈ range r, D k := by
  let T : Matrix (Fin r) (Fin r) K := Matrix.of fun a b => M a b
  have hfactor : (Matrix.of fun a b : Fin r => A a b) = T * Matrix.diagonal (fun k : Fin r => D k) * T.transpose := by
    ext a b
    rw [Matrix.mul_apply, Matrix.of_apply, hA a b a.isLt b.isLt, ← Fin.sum_univ_eq_sum_range
      (fun k => M a k * D k * M b k)]
    refine sum_congr rfl fun k _ => ?_
    rw [Matrix.mul_diagonal]
    rfl
  have hlower : T.IsLowerTriangular := fun a b hab => hM a b hab b.isLt
  have hdet : T.det = ∏ k ∈ range r, M k k := by
    rw [Matrix.det_of_isLowerTriangular T hlower, ← Fin.prod_univ_eq_prod_range (fun k => M k k)]
    rfl
  rw [leadingMinor, hfactor, Matrix.det_mul, Matrix.det_mul, Matrix.det_transpose, Matrix.det_diagonal, hdet,
    Fin.prod_univ_eq_prod_range (fun k => D k)]
  ring

end Lib
