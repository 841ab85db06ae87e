import FoxTrader.Lib.TriangularSolve
import Mathlib.Algebra.BigOperators.Field
import Mathlib.Algebra.Order.BigOperators.Group.Finset
import Mathlib.Algebra.Order.BigOperators.Ring.Finset
import Mathlib.Analysis.Real.Sqrt

/-! # The ridge weights

    The weights of the models solve the correlation matrix, with a multiple of the identity added, by the
    Cholesky factorisation: a row of the factor is the forward substitution of the matrix's row, and the
    factorisation stops at the first diagonal that is not positive. It gets through exactly when all
    leading minors are positive, and then the two substitutions solve the system
    (`choleskySolve_spec`).

    The weights are then clipped at zero and divided by their sum, unless the sum is below a threshold; with
    a threshold above zero they sum up to one (`ridgeCompute_spec`). -/

namespace FoxTrader

open Lib Finset

variable {K : Type*} [Field K] [LinearOrder K]

/-! ### The solver -/

/-- `c` more rows of the factor from row `i` on, and whether all their diagonals are positive. -/
def choleskyRows (sqrt : K → K) (m : ℕ) (sigma : ℕ → ℕ → K) (ridgeLambda : K) :
    ℕ → ℕ → (ℕ → ℕ → K) → Bool × (ℕ → ℕ → K)
  | _, 0, L => (true, L)
  | i, c + 1, L =>
    let row := forwardSub m L (sigma i) i
    let diag := reduce m (sigma i i + ridgeLambda) row row
    if diag ≤ 0 then (false, Function.update L i row)
    else choleskyRows sqrt m sigma ridgeLambda (i + 1) c (Function.update L i (Function.update row i (sqrt diag)))

/-- The status and what is left in the arrays. -/
structure CholeskyResult (K : Type*) where
  status : ℤ
  L : ℕ → ℕ → K
  y : ℕ → K
  w : ℕ → K

/-- `Cholesky_Solve`, with arrays of `m`. -/
def choleskySolve (sqrt : K → K) (m : ℕ) (L : ℕ → ℕ → K) (y w : ℕ → K) (sigma : ℕ → ℕ → K) (mu : ℕ → K)
    (ridgeLambda : K) (n : ℕ) : CholeskyResult K :=
  let rows := choleskyRows sqrt m sigma ridgeLambda 0 n L
  if rows.1 then
    let y := forwardSub m rows.2 mu n
    ⟨0, rows.2, y, backSub m rows.2 y n⟩
  else ⟨-1, rows.2, y, w⟩

/-- `RidgeWeights`, without the copy of the weights in fixed point. -/
structure RidgeWeights (K : Type*) where
  corrMatrix : ℕ → ℕ → K
  mu : ℕ → K
  L : ℕ → ℕ → K
  y : ℕ → K
  wInternal : ℕ → K
  nModels : ℕ
  fallbackToUniform : Bool
  onlineSumX : ℕ → K
  onlineSumXX : ℕ → ℕ → K
  onlineWindowCount : ℕ

/-- The first `n` cells of an array written, the others kept. -/
def fillCells (n : ℕ) (new old : ℕ → K) : ℕ → K := fun i => if i < n then new i else old i

/-- The threshold below which the clipped weights count as none. -/
def ridgeSumThreshold : K := 1 / (10 : ℕ) ^ 12

/-- `RidgeBlender_Compute`, with arrays of `m`. -/
def ridgeCompute (sqrt : K → K) (m : ℕ) (threshold : K) (out : RidgeWeights K) (ic : ℕ → K) (cost : Option (ℕ → K))
    (nModels : ℤ) (ridgeLambda costPenalty minIcFloor : K) : ℤ × RidgeWeights K :=
  if nModels < 1 then (-1, out)
  else
    let n := (min nModels m).toNat
    let mu := fillCells n (fun i =>
      let net := ic i - costPenalty * (match cost with | some c => c i | none => 0)
      if minIcFloor < net then net else minIcFloor) out.mu
    let solved := choleskySolve sqrt m out.L out.y out.wInternal out.corrMatrix mu ridgeLambda n
    let out := { out with nModels := n, fallbackToUniform := false, mu, L := solved.L, y := solved.y }
    let uniform := fillCells n (fun _ => 1 / (n : K)) solved.w
    if solved.status ≠ 0 then (-1, { out with fallbackToUniform := true, wInternal := uniform })
    else
      let clipped := fillCells n (fun i => if solved.w i < 0 then 0 else solved.w i) solved.w
      let sum := (List.range n).foldl (fun s i => s + clipped i) 0
      if sum < threshold then (0, { out with fallbackToUniform := true, wInternal := uniform })
      else (0, { out with wInternal := fillCells n (fun i => clipped i / sum) clipped })

/-! ### The factorisation -/

/-- The matrix with a multiple of the identity added. -/
def ridged (sigma : ℕ → ℕ → K) (ridgeLambda : K) (i j : ℕ) : K := sigma i j + if i = j then ridgeLambda else 0

/-- The first `i` rows of a triangular factor of a matrix. -/
structure Factored (m i : ℕ) (A L : ℕ → ℕ → K) : Prop where
  rows : LowerRows m i L
  prod : ∀ a b, a < i → b < i → ∑ k ∈ range m, L a k * L b k = A a b

omit [LinearOrder K] in
theorem sum_range_of_zero {i m : ℕ} (him : i ≤ m) {f : ℕ → K} (h : ∀ k, i ≤ k → k < m → f k = 0) :
    ∑ k ∈ range i, f k = ∑ k ∈ range m, f k :=
  sum_subset (range_subset_range.2 him) fun k hk hki =>
    h k (not_lt.1 fun hlt => hki (mem_range.2 hlt)) (mem_range.1 hk)

variable {m n i : ℕ} {sqrt : K → K} {sigma L : ℕ → ℕ → K} {ridgeLambda : K}

omit [LinearOrder K] in
theorem ridged_comm (hsymm : ∀ a b, a < n → b < n → sigma a b = sigma b a) {a b : ℕ} (ha : a < n) (hb : b < n) :
    ridged sigma ridgeLambda a b = ridged sigma ridgeLambda b a := by
  rw [ridged, ridged, hsymm a b ha hb]
  simp only [eq_comm]

omit [LinearOrder K] in
/-- The products of the next row with the rows before it are the matrix's. -/
theorem row_products (h : Factored m i (ridged sigma ridgeLambda) L) (him : i < m) {j : ℕ} (hj : j < i) :
    ∑ k ∈ range m, L j k * forwardSub m L (sigma i) i k = ridged sigma ridgeLambda i j := by
  rw [forwardSub_solves h.rows him.le (sigma i) hj, ridged, if_neg hj.ne', add_zero]

omit [LinearOrder K] in
/-- The minor that a row adds is the one before it, scaled by the row's diagonal. -/
theorem leadingMinor_succ (h : Factored m i (ridged sigma ridgeLambda) L) (him : i < m)
    (hsymm : ∀ a b, a ≤ i → b ≤ i → sigma a b = sigma b a) :
    leadingMinor (ridged sigma ridgeLambda) (i + 1) = (∏ k ∈ range i, L k k) ^ 2 *
      reduce m (sigma i i + ridgeLambda) (forwardSub m L (sigma i) i) (forwardSub m L (sigma i) i) := by
  set row := forwardSub m L (sigma i) i with hrow
  set diag := reduce m (sigma i i + ridgeLambda) row row with hdiag
  have hbeyond (k : ℕ) (hk : i ≤ k) : row k = 0 := forwardSub_of_le hk
  let M : ℕ → ℕ → K := fun a b => if a = i then (if b = i then 1 else row b) else L a b
  let D : ℕ → K := fun k => if k = i then diag else 1
  have hlast (b : ℕ) : M i b = if b = i then 1 else row b := if_pos rfl
  have hearly {a : ℕ} (ha : a < i) (b : ℕ) : M a b = L a b := if_neg ha.ne
  have hone {k : ℕ} (hk : k < i) : D k = 1 := if_neg hk.ne
  have hDi : D i = diag := if_pos rfl
  have hlower : ∀ a b, a < b → b < i + 1 → M a b = 0 := fun a b hab hb => by
    rw [hearly (by omega)]
    exact h.rows.upper a b (by omega) hab (by omega)
  have hproducts : ∀ a b, a < i → b < i + 1 →
      ridged sigma ridgeLambda a b = ∑ k ∈ range (i + 1), M a k * D k * M b k := fun a b ha hb => by
    rw [sum_range_succ, hearly ha, h.rows.upper a i ha ha him, zero_mul, zero_mul, add_zero]
    rcases Nat.lt_succ_iff_lt_or_eq.1 hb with hlt | rfl
    · rw [← h.prod a b ha hlt, ← sum_range_of_zero him.le fun k hk hkm => by
        rw [h.rows.upper a k ha (by omega) hkm, zero_mul]]
      refine sum_congr rfl fun k hk => ?_
      rw [hearly ha, hearly hlt, hone (mem_range.1 hk), mul_one]
    · rw [ridged_comm (n := b + 1) (fun a' b' ha' hb' => hsymm a' b' (by omega) (by omega)) (by omega) (by omega),
        ← row_products h him ha, ← sum_range_of_zero him.le fun k hk _ => by rw [← hrow, hbeyond k hk, mul_zero]]
      refine sum_congr rfl fun k hk => ?_
      have hk := mem_range.1 hk
      rw [hearly ha, hlast, if_neg hk.ne, hone hk, mul_one]
  have hdiagonal : ridged sigma ridgeLambda i i = ∑ k ∈ range (i + 1), M i k * D k * M i k := by
    have hrest : ∑ k ∈ range i, M i k * D k * M i k = ∑ k ∈ range m, row k * row k := by
      rw [← sum_range_of_zero him.le fun k hk _ => by rw [hbeyond k hk, mul_zero]]
      refine sum_congr rfl fun k hk => ?_
      have hk := mem_range.1 hk
      rw [hlast, if_neg hk.ne, hone hk, mul_one]
    rw [sum_range_succ, hrest, hlast, if_pos rfl, hDi, hdiag, reduce_eq, ridged, if_pos rfl]
    ring
  have hall : ∀ a b, a < i + 1 → b < i + 1 →
      ridged sigma ridgeLambda a b = ∑ k ∈ range (i + 1), M a k * D k * M b k := fun a b ha hb => by
    rcases Nat.lt_succ_iff_lt_or_eq.1 ha with halt | rfl
    · exact hproducts a b halt hb
    · rcases Nat.lt_succ_iff_lt_or_eq.1 hb with hblt | rfl
      · rw [ridged_comm (n := a + 1) (fun a' b' ha' hb' => hsymm a' b' (by omega) (by omega)) ha hb,
          hproducts b a hblt ha]
        exact sum_congr rfl fun k _ => by ring
      · exact hdiagonal
  have hM : ∏ k ∈ range i, M k k = ∏ k ∈ range i, L k k := prod_congr rfl fun k hk => hearly (mem_range.1 hk) k
  have hD : ∏ k ∈ range i, D k = 1 := prod_eq_one fun k hk => hone (mem_range.1 hk)
  rw [leadingMinor_ldl hlower hall, prod_range_succ, prod_range_succ, hlast, if_pos rfl, hDi, mul_one, hM, hD,
    one_mul]

variable [IsStrictOrderedRing K]

/-- A row more is a factor's row if its diagonal is positive, which is when the minor it adds is. -/
theorem leadingMinor_succ_pos (h : Factored m i (ridged sigma ridgeLambda) L) (him : i < m)
    (hsymm : ∀ a b, a ≤ i → b ≤ i → sigma a b = sigma b a) :
    0 < leadingMinor (ridged sigma ridgeLambda) (i + 1) ↔
      0 < reduce m (sigma i i + ridgeLambda) (forwardSub m L (sigma i) i) (forwardSub m L (sigma i) i) := by
  have hprod : ∏ k ∈ range i, L k k ≠ 0 := prod_ne_zero_iff.2 fun k hk => h.rows.diag k (mem_range.1 hk)
  rw [leadingMinor_succ h him hsymm, mul_pos_iff_of_pos_left (pow_two_pos_of_ne_zero hprod)]

omit [LinearOrder K] in
/-- With the root of the diagonal the row is one of the factor. -/
theorem factored_succ (h : Factored m i (ridged sigma ridgeLambda) L) (him : i < m)
    (hsymm : ∀ a b, a ≤ i → b ≤ i → sigma a b = sigma b a) {s : K} (hs : s ≠ 0)
    (hroot : s * s = reduce m (sigma i i + ridgeLambda) (forwardSub m L (sigma i) i) (forwardSub m L (sigma i) i)) :
    Factored m (i + 1) (ridged sigma ridgeLambda)
      (Function.update L i (Function.update (forwardSub m L (sigma i) i) i s)) := by
  have hproducts : ∀ j, j < i → ∑ k ∈ range m, L j k * forwardSub m L (sigma i) i k = ridged sigma ridgeLambda i j :=
    fun j hj => row_products h him hj
  have hzero : forwardSub m L (sigma i) i i = 0 := forwardSub_of_le le_rfl
  have hbeyond (k : ℕ) (hk : i < k) : forwardSub m L (sigma i) i k = 0 := forwardSub_of_le hk.le
  generalize forwardSub m L (sigma i) i = row at hproducts hroot hzero hbeyond ⊢
  have hcross : ∀ a, a < i → ∑ k ∈ range m, L a k * Function.update row i s k = ridged sigma ridgeLambda i a :=
    fun a ha => by
      rw [sum_mul_update him, hproducts a ha, h.rows.upper a i ha ha him, zero_mul, add_zero]
  refine ⟨⟨fun a ha => ?_, fun a k ha hak hkm => ?_⟩, fun a b ha hb => ?_⟩
  · rcases Nat.lt_succ_iff_lt_or_eq.1 ha with hlt | rfl
    · rw [Function.update_of_ne hlt.ne]
      exact h.rows.diag a hlt
    · rwa [Function.update_self, Function.update_self]
  · rcases Nat.lt_succ_iff_lt_or_eq.1 ha with hlt | rfl
    · rw [Function.update_of_ne hlt.ne]
      exact h.rows.upper a k hlt hak hkm
    · rw [Function.update_self, Function.update_of_ne hak.ne']
      exact hbeyond k hak
  · rcases Nat.lt_succ_iff_lt_or_eq.1 ha with halt | rfl
    · rcases Nat.lt_succ_iff_lt_or_eq.1 hb with hblt | rfl
      · rw [Function.update_of_ne halt.ne, Function.update_of_ne hblt.ne]
        exact h.prod a b halt hblt
      · rw [Function.update_of_ne halt.ne, Function.update_self, hcross a halt]
        exact ridged_comm (n := b + 1) (fun a' b' ha' hb' => hsymm a' b' (by omega) (by omega)) hb ha
    · rcases Nat.lt_succ_iff_lt_or_eq.1 hb with hblt | rfl
      · rw [Function.update_self, Function.update_of_ne hblt.ne, ← hcross b hblt]
        exact sum_congr rfl fun k _ => mul_comm ..
      · rw [Function.update_self, sum_mul_update him, hzero, sub_zero, Function.update_self, hroot, reduce_eq, ridged,
          if_pos rfl]
        have hsquares : ∑ k ∈ range m, Function.update row b s k * row k = ∑ k ∈ range m, row k * row k := by
          rw [sum_congr rfl fun k _ => mul_comm (Function.update row b s k) (row k), sum_mul_update him, hzero,
            zero_mul,
            add_zero]
        rw [hsquares]
        ring

/-- The rows get through exactly when the minors they add are positive, and then they are the factor's. -/
theorem choleskyRows_spec (hsqrt : ∀ d, 0 < d → sqrt d * sqrt d = d) {c : ℕ}
    (hsymm : ∀ a b, a < i + c → b < i + c → sigma a b = sigma b a) (hm : i + c ≤ m)
    (h : Factored m i (ridged sigma ridgeLambda) L) :
    ((choleskyRows sqrt m sigma ridgeLambda i c L).1 = true ↔
        ∀ r, i < r → r ≤ i + c → 0 < leadingMinor (ridged sigma ridgeLambda) r) ∧
      ((choleskyRows sqrt m sigma ridgeLambda i c L).1 = true →
        Factored m (i + c) (ridged sigma ridgeLambda) (choleskyRows sqrt m sigma ridgeLambda i c L).2) := by
  induction c generalizing i L with
  | zero => exact ⟨⟨fun _ r hr hle => absurd hr (by omega), fun _ => rfl⟩, fun _ => h⟩
  | succ c ih =>
    have hpos := leadingMinor_succ_pos h (by omega) fun a b ha hb => hsymm a b (by omega) (by omega)
    have hlen : i + (c + 1) = i + 1 + c := by omega
    unfold choleskyRows
    dsimp only
    by_cases hdiag : reduce m (sigma i i + ridgeLambda) (forwardSub m L (sigma i) i) (forwardSub m L (sigma i) i) ≤ 0
    · rw [if_pos hdiag]
      refine ⟨⟨fun hf => absurd hf Bool.false_ne_true, fun hall => ?_⟩, fun hf => absurd hf Bool.false_ne_true⟩
      exact absurd (hpos.1 (hall (i + 1) (by omega) (by omega))) (not_lt.2 hdiag)
    · have hroot := hsqrt _ (not_le.1 hdiag)
      have hne : sqrt (reduce m (sigma i i + ridgeLambda) (forwardSub m L (sigma i) i) (forwardSub m L (sigma i) i)) ≠
          0 := fun h0 => by
        rw [h0, zero_mul] at hroot
        exact hdiag hroot.ge
      have hnext := factored_succ h (by omega) (fun a b ha hb => hsymm a b (by omega) (by omega)) hne hroot
      obtain ⟨hiff, hfactored⟩ := ih (fun a b ha hb => hsymm a b (by omega) (by omega)) (by omega) hnext
      rw [if_neg hdiag, hlen]
      refine ⟨hiff.trans ⟨fun hall r hr hle => ?_, fun hall r hr hle => hall r (by omega) hle⟩, hfactored⟩
      rcases Nat.eq_or_lt_of_le hr with rfl | hlt
      · exact hpos.2 (not_le.1 hdiag)
      · exact hall r hlt hle

/-- The solver succeeds exactly when all leading minors are positive, and then it solves the system,
    whatever its arrays held. -/
theorem choleskySolve_solves (hsqrt : ∀ d, 0 < d → sqrt d * sqrt d = d) (hnm : n ≤ m)
    (hsymm : ∀ a b, a < n → b < n → sigma a b = sigma b a) (L : ℕ → ℕ → K) (y w mu : ℕ → K) (ridgeLambda : K) :
    ((choleskySolve sqrt m L y w sigma mu ridgeLambda n).status = 0 ↔
        ∀ r, 0 < r → r ≤ n → 0 < leadingMinor (ridged sigma ridgeLambda) r) ∧
      ((choleskySolve sqrt m L y w sigma mu ridgeLambda n).status = 0 → ∀ i, i < n →
        ∑ j ∈ range n, ridged sigma ridgeLambda i j * (choleskySolve sqrt m L y w sigma mu ridgeLambda n).w j =
          mu i) := by
  have hstart : Factored m 0 (ridged sigma ridgeLambda) L :=
    ⟨⟨fun i hi => absurd hi (Nat.not_lt_zero i), fun i _ hi => absurd hi (Nat.not_lt_zero i)⟩,
      fun a _ ha => absurd ha (Nat.not_lt_zero a)⟩
  obtain ⟨hiff, hfactored⟩ := choleskyRows_spec hsqrt (c := n) (by rwa [Nat.zero_add]) (by omega) hstart
  rw [Nat.zero_add] at hiff hfactored
  rw [← hiff]
  unfold choleskySolve
  dsimp only
  by_cases hrows : (choleskyRows sqrt m sigma ridgeLambda 0 n L).1 = true
  · rw [if_pos hrows]
    exact ⟨⟨fun _ => hrows, fun _ => rfl⟩, fun _ i hi =>
      backSub_forwardSub (hfactored hrows).rows hnm (hfactored hrows).prod mu hi⟩
  · have hfailed : (-1 : ℤ) ≠ 0 := by decide
    rw [if_neg hrows]
    exact ⟨⟨fun hf => absurd hf hfailed, fun hf => absurd hf hrows⟩, fun hf => absurd hf hfailed⟩

/-! ### The weights -/

omit [Field K] [LinearOrder K] [IsStrictOrderedRing K] in
theorem fillCells_of_lt {i : ℕ} (h : i < n) (new old : ℕ → K) : fillCells n new old i = new i := if_pos h

omit [LinearOrder K] [IsStrictOrderedRing K] in
theorem foldl_add_map {β : Type*} (f : β → K) (l : List β) (a : K) :
    l.foldl (fun s x => s + f x) a = a + (l.map f).sum := by
  induction l generalizing a with
  | nil => rw [List.foldl_nil, List.map_nil, List.sum_nil, add_zero]
  | cons x l ih => rw [List.foldl_cons, ih, List.map_cons, List.sum_cons, add_assoc]

omit [LinearOrder K] [IsStrictOrderedRing K] in
theorem foldl_add_eq_sum (n : ℕ) (f : ℕ → K) : (List.range n).foldl (fun s i => s + f i) 0 = ∑ i ∈ range n, f i := by
  rw [foldl_add_map, zero_add]
  rfl

/-- Weights that are not negative and sum up to one. -/
def IsBlend (n : ℕ) (w : ℕ → K) : Prop := (∀ i, i < n → 0 ≤ w i) ∧ ∑ i ∈ range n, w i = 1

theorem isBlend_uniform (hn : 0 < n) (old : ℕ → K) : IsBlend n (fillCells n (fun _ => 1 / (n : K)) old) := by
  have hpos : (0 : K) < n := Nat.cast_pos.2 hn
  refine ⟨fun i hi => ?_, ?_⟩
  · rw [fillCells_of_lt hi]
    exact (one_div_pos.2 hpos).le
  · rw [sum_congr rfl fun i hi => fillCells_of_lt (mem_range.1 hi) _ old, sum_const, card_range, nsmul_eq_mul,
      mul_one_div_cancel hpos.ne']

theorem isBlend_divided {w : ℕ → K} (hw : ∀ i, i < n → 0 ≤ w i) (hsum : 0 < ∑ i ∈ range n, w i) (old : ℕ → K) :
    IsBlend n (fillCells n (fun i => w i / ∑ j ∈ range n, w j) old) := by
  refine ⟨fun i hi => ?_, ?_⟩
  · rw [fillCells_of_lt hi]
    exact div_nonneg (hw i hi) hsum.le
  · rw [sum_congr rfl fun i hi => fillCells_of_lt (mem_range.1 hi) _ old, ← sum_div]
    exact div_self hsum.ne'

/-- With a threshold above zero every exit leaves weights that are not negative and sum up to one. -/
theorem ridgeCompute_isBlend {threshold : K} (hthreshold : 0 < threshold) (out : RidgeWeights K) (ic : ℕ → K)
    (cost : Option (ℕ → K)) {nModels : ℤ} (hn : 1 ≤ nModels) (hm : 0 < m) (ridgeLambda costPenalty minIcFloor : K) :
    IsBlend (min nModels m).toNat
      (ridgeCompute sqrt m threshold out ic cost nModels ridgeLambda costPenalty minIcFloor).2.wInternal := by
  have hpos : 0 < (min nModels m).toNat := by omega
  unfold ridgeCompute
  rw [if_neg (not_lt.2 hn)]
  dsimp only
  split_ifs with hfailed hsmall
  · exact isBlend_uniform hpos _
  · exact isBlend_uniform hpos _
  · rw [foldl_add_eq_sum, not_lt] at hsmall
    rw [foldl_add_eq_sum]
    refine isBlend_divided (fun i hi => ?_) (hthreshold.trans_le hsmall) _
    rw [fillCells_of_lt hi]
    split_ifs with hneg
    · exact le_rfl
    · exact not_lt.1 hneg

/-- The solver and the weights, for arrays of any size with what they held before. -/
theorem choleskySolve_ridgeCompute (hsqrt : ∀ d, 0 < d → sqrt d * sqrt d = d) (hn : 1 ≤ n) (hnm : n ≤ m)
    (hsymm : ∀ a b, a < n → b < n → sigma a b = sigma b a) {threshold : K} (hthreshold : 0 < threshold)
    (L : ℕ → ℕ → K) (y w mu : ℕ → K) (ridgeLambda : K) :
    ((choleskySolve sqrt m L y w sigma mu ridgeLambda n).status = 0 ↔
        ∀ r, 0 < r → r ≤ n → 0 < leadingMinor (ridged sigma ridgeLambda) r) ∧
      ((choleskySolve sqrt m L y w sigma mu ridgeLambda n).status = 0 → ∀ i, i < n →
        ∑ j ∈ range n, ridged sigma ridgeLambda i j * (choleskySolve sqrt m L y w sigma mu ridgeLambda n).w j =
          mu i) ∧
      ∀ (out : RidgeWeights K) (ic : ℕ → K) (cost : Option (ℕ → K)) (costPenalty minIcFloor : K),
        out.corrMatrix = sigma → IsBlend n
          (ridgeCompute sqrt m threshold out ic cost n ridgeLambda costPenalty minIcFloor).2.wInternal := by
  obtain ⟨hstatus, hsolves⟩ := choleskySolve_solves hsqrt hnm hsymm L y w mu ridgeLambda
  refine ⟨hstatus, hsolves, fun out ic cost costPenalty minIcFloor _ => ?_⟩
  have hsize : (min (n : ℤ) m).toNat = n := by omega
  have hblend : IsBlend (min (n : ℤ) m).toNat
      (ridgeCompute sqrt m threshold out ic cost n ridgeLambda costPenalty minIcFloor).2.wInternal :=
    ridgeCompute_isBlend hthreshold out ic cost (by omega) (by omega) ridgeLambda costPenalty minIcFloor
  rwa [hsize] at hblend

/-! One model over the reals, whose net value is zero. -/

def unitRidge : RidgeWeights ℝ where
  corrMatrix := fun i j => if i = j then 1 else 0
  mu := fun _ => 0
  L := fun _ _ => 0
  y := fun _ => 0
  wInternal := fun _ => 0
  nModels := 0
  fallbackToUniform := false
  onlineSumX := fun _ => 0
  onlineSumXX := fun _ _ => 0
  onlineWindowCount := 0

theorem choleskySolve_ridgeCompute_one :
    ((choleskySolve Real.sqrt 8 (fun _ _ => 3) (fun _ => 5) (fun _ => 7) unitRidge.corrMatrix (fun _ => 1) 0 2).status =
        0 ↔ ∀ r, 0 < r → r ≤ 2 → 0 < leadingMinor (ridged unitRidge.corrMatrix 0) r) ∧
      ((choleskySolve Real.sqrt 8 (fun _ _ => 3) (fun _ => 5) (fun _ => 7) unitRidge.corrMatrix (fun _ => 1) 0 2).status =
          0 → ∀ i, i < 2 →
        ∑ j ∈ range 2, ridged unitRidge.corrMatrix 0 i j * (choleskySolve Real.sqrt 8 (fun _ _ => 3) (fun _ => 5)
          (fun _ => 7) unitRidge.corrMatrix (fun _ => 1) 0 2).w j = (fun _ => 1) i) ∧
      ∀ (out : RidgeWeights ℝ) (ic : ℕ → ℝ) (cost : Option (ℕ → ℝ)) (costPenalty minIcFloor : ℝ),
        out.corrMatrix = unitRidge.corrMatrix → IsBlend 2
          (ridgeCompute Real.sqrt 8 ridgeSumThreshold out ic cost (2 : ℕ) 0 costPenalty minIcFloor).2.wInternal :=
  choleskySolve_ridgeCompute (fun _ hd => Real.mul_self_sqrt hd.le) (by decide) (by decide)
    (fun a b _ _ => if_congr eq_comm rfl rfl) (one_div_pos.2 (pow_pos (by norm_num) 12)) _ _ _ _ _

theorem ridgeCompute_zero_threshold :
    ¬IsBlend 1 (ridgeCompute Real.sqrt 8 0 unitRidge (fun _ => 0) none 1 0 0 0).2.wInternal := by
  rintro ⟨-, hsum⟩
  have hzero : (ridgeCompute Real.sqrt 8 0 unitRidge (fun _ => 0) none 1 0 0 0).2.wInternal 0 = 0 := by
    have hone : ¬(1 : ℝ) ≤ 0 := not_le.2 one_pos
    simp [ridgeCompute, choleskySolve, choleskyRows, forwardSub, backSub, reduce, fillCells, unitRidge, hone]
  rw [sum_range_one, hzero] at hsum
  exact zero_ne_one hsum

end FoxTrader
