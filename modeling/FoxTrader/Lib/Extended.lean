import Mathlib.Algebra.BigOperators.Fin
import Mathlib.Algebra.Order.Field.Basic
import Mathlib.Data.Fintype.BigOperators
import Mathlib.Data.Sign.Basic

/-! # Numbers with infinities and a result that is none

    The numbers of an ordered field, computed exactly, with the two infinities and the value of an
    operation that has no result. That value propagates through every operation and no comparison with
    it holds; what is not finite never becomes finite by adding. A quotient by zero is signed as by a
    positive zero. -/

namespace Lib

inductive Extended (K : Type*) where
  | finite (x : K)
  | posInf
  | negInf
  | nan
deriving DecidableEq

namespace Extended

variable {K : Type*}

def isFinite : Extended K → Bool
  | finite _ => true
  | _ => false

@[simp] theorem isFinite_finite (x : K) : (finite x).isFinite = true := rfl

theorem isFinite_iff {a : Extended K} : a.isFinite = true ↔ ∃ x, a = finite x := by
  cases a with
  | finite x => exact ⟨fun _ => ⟨x, rfl⟩, fun _ => rfl⟩
  | posInf => exact ⟨fun h => (Bool.false_ne_true h).elim, fun ⟨_, h⟩ => by cases h⟩
  | negInf => exact ⟨fun h => (Bool.false_ne_true h).elim, fun ⟨_, h⟩ => by cases h⟩
  | nan => exact ⟨fun h => (Bool.false_ne_true h).elim, fun ⟨_, h⟩ => by cases h⟩

/-- The number, where there is one. -/
def number [Zero K] : Extended K → K
  | finite x => x
  | _ => 0

theorem finite_number [Zero K] {a : Extended K} (h : a.isFinite = true) : finite a.number = a := by
  obtain ⟨x, rfl⟩ := isFinite_iff.1 h
  rfl

/-! ### Operations -/

/-- The infinity of a sign, and no result for none. -/
def infinity : SignType → Extended K
  | .pos => posInf
  | .neg => negInf
  | .zero => nan

/-- `<`, which no comparison without a result satisfies. -/
def lt [LinearOrder K] : Extended K → Extended K → Bool
  | finite x, finite y => decide (x < y)
  | finite _, posInf => true
  | negInf, finite _ => true
  | negInf, posInf => true
  | _, _ => false

@[simp] theorem lt_finite [LinearOrder K] (x y : K) : lt (finite x) (finite y) = decide (x < y) := rfl

theorem lt_asymm_bool [LinearOrder K] {a b : Extended K} (h : lt a b = true) : lt b a = false := by
  cases a with
  | finite x =>
    cases b with
    | finite y =>
      rw [lt_finite, decide_eq_true_eq] at h
      rw [lt_finite, decide_eq_false_iff_not]
      exact h.asymm
    | posInf => rfl
    | negInf => exact absurd h Bool.false_ne_true
    | nan => rfl
  | posInf => exact absurd h Bool.false_ne_true
  | negInf => cases b <;> rfl
  | nan => exact absurd h Bool.false_ne_true

/-- `<=`, which no comparison without a result satisfies. -/
def le [LinearOrder K] : Extended K → Extended K → Bool
  | nan, _ => false
  | _, nan => false
  | finite x, finite y => decide (x ≤ y)
  | negInf, _ => true
  | _, posInf => true
  | _, _ => false

@[simp] theorem le_finite [LinearOrder K] (x y : K) : le (finite x) (finite y) = decide (x ≤ y) := rfl

/-- The larger of two, of which one that is no number is passed over. -/
def fmax [LinearOrder K] : Extended K → Extended K → Extended K
  | nan, b => b
  | a, nan => a
  | a, b => if lt a b then b else a

/-- The smaller of two, of which one that is no number is passed over. -/
def fmin [LinearOrder K] : Extended K → Extended K → Extended K
  | nan, b => b
  | a, nan => a
  | a, b => if lt b a then b else a

@[simp] theorem fmax_finite [LinearOrder K] (x y : K) : fmax (finite x) (finite y) = finite (max x y) := by
  show (if decide (x < y) = true then finite y else finite x) = _
  simp only [decide_eq_true_eq]
  rw [max_def_lt]
  split <;> rfl

@[simp] theorem fmin_finite [LinearOrder K] (x y : K) : fmin (finite x) (finite y) = finite (min x y) := by
  show (if decide (y < x) = true then finite y else finite x) = _
  simp only [decide_eq_true_eq]
  rw [min_comm, min_def_lt]
  split <;> rfl

@[simp] theorem isFinite_infinity (s : SignType) : (infinity s : Extended K).isFinite = false := by
  cases s <;> rfl

variable [Field K]

def add : Extended K → Extended K → Extended K
  | finite x, finite y => finite (x + y)
  | finite _, b => b
  | a, finite _ => a
  | posInf, posInf => posInf
  | negInf, negInf => negInf
  | _, _ => nan

instance : Add (Extended K) := ⟨add⟩

@[simp] theorem finite_add (x y : K) : finite x + finite y = finite (x + y) := rfl

def neg : Extended K → Extended K
  | finite x => finite (-x)
  | posInf => negInf
  | negInf => posInf
  | nan => nan

instance : Sub (Extended K) := ⟨fun a b => a + neg b⟩

@[simp] theorem finite_sub (x y : K) : finite x - finite y = finite (x - y) :=
  congrArg finite (sub_eq_add_neg x y).symm

/-- A sum is finite only if both are. -/
theorem isFinite_add (a b : Extended K) : (a + b).isFinite = (a.isFinite && b.isFinite) := by
  cases a <;> cases b <;> rfl

theorem isFinite_foldl_add {ι : Type*} (f : ι → Extended K) (l : List ι) (a : Extended K) :
    (l.foldl (fun s i => s + f i) a).isFinite = (a.isFinite && l.all fun i => (f i).isFinite) := by
  induction l generalizing a with
  | nil => rw [List.foldl_nil, List.all_nil, Bool.and_true]
  | cons i l ih => rw [List.foldl_cons, ih, isFinite_add, List.all_cons, Bool.and_assoc]

/-- The sum of a loop over `n` cells. -/
def total {n : ℕ} (f : Fin n → Extended K) : Extended K :=
  (List.finRange n).foldl (fun s i => s + f i) (finite 0)

theorem foldl_add_finite {ι : Type*} (v : ι → K) (l : List ι) (a : K) :
    l.foldl (fun s i => s + finite (v i)) (finite a) = finite (a + (l.map v).sum) := by
  induction l generalizing a with
  | nil => rw [List.foldl_nil, List.map_nil, List.sum_nil, add_zero]
  | cons i l ih => rw [List.foldl_cons, finite_add, ih, List.map_cons, List.sum_cons, add_assoc]

theorem foldl_add_of_finite {ι : Type*} {f : ι → Extended K} {v : ι → K} {l : List ι}
    (h : ∀ i ∈ l, f i = finite (v i)) (a : K) :
    l.foldl (fun s i => s + f i) (finite a) = finite (a + (l.map v).sum) := by
  rw [← foldl_add_finite]
  exact List.foldl_ext _ _ _ fun s i hi => by rw [h i hi]

theorem total_finite {n : ℕ} (v : Fin n → K) : total (fun i => finite (v i)) = finite (∑ i, v i) := by
  rw [total, foldl_add_finite, zero_add, Fin.sum_univ_def]

variable [LinearOrder K]

def sign : Extended K → SignType
  | finite x => SignType.sign x
  | posInf => .pos
  | negInf => .neg
  | nan => .zero

def mul : Extended K → Extended K → Extended K
  | finite x, finite y => finite (x * y)
  | nan, _ => nan
  | _, nan => nan
  | a, b => infinity (sign a * sign b)

def div : Extended K → Extended K → Extended K
  | finite x, finite y => if y = 0 then infinity (SignType.sign x) else finite (x / y)
  | nan, _ => nan
  | _, nan => nan
  | finite _, _ => finite 0
  | a, finite y => infinity (sign a * if y < 0 then .neg else .pos)
  | _, _ => nan

instance : Mul (Extended K) := ⟨mul⟩
instance : Div (Extended K) := ⟨div⟩

@[simp] theorem finite_mul (x y : K) : finite x * finite y = finite (x * y) := rfl

theorem finite_div (x : K) {y : K} (hy : y ≠ 0) : finite x / finite y = finite (x / y) := if_neg hy

/-- What is not finite stays so when it is multiplied. -/
theorem isFinite_mul_finite {a : Extended K} (ha : a.isFinite = false) (x : K) :
    (a * finite x).isFinite = false := by
  cases a with
  | finite y => cases ha
  | posInf => exact isFinite_infinity _
  | negInf => exact isFinite_infinity _
  | nan => rfl

/-- Two numbers that are not finite have no quotient. -/
theorem div_eq_nan {a b : Extended K} (ha : a.isFinite = false) (hb : b.isFinite = false) :
    a / b = nan := by
  cases a with
  | finite x => cases ha
  | posInf => cases b <;> first | rfl | cases hb
  | negInf => cases b <;> first | rfl | cases hb
  | nan => rfl

def abs : Extended K → Extended K
  | finite x => finite |x|
  | nan => nan
  | _ => posInf

/-! ### Numbers that are not below zero -/

/-- A sum of numbers that are not below zero is not. -/
theorem add_not_below [IsStrictOrderedRing K] {a b : Extended K} (ha : lt a (finite 0) = false)
    (hb : lt b (finite 0) = false) : lt (a + b) (finite 0) = false := by
  cases a with
  | finite x =>
    cases b with
    | finite y =>
      rw [lt_finite, decide_eq_false_iff_not, not_lt] at ha hb
      rw [finite_add, lt_finite, decide_eq_false_iff_not, not_lt]
      exact add_nonneg ha hb
    | posInf => rfl
    | negInf => cases hb
    | nan => rfl
  | posInf => cases b <;> rfl
  | negInf => cases ha
  | nan => cases b <;> rfl

theorem foldl_add_not_below [IsStrictOrderedRing K] {ι : Type*} {f : ι → Extended K} {l : List ι}
    (hf : ∀ i ∈ l, lt (f i) (finite 0) = false) {a : Extended K} (ha : lt a (finite 0) = false) :
    lt (l.foldl (fun s i => s + f i) a) (finite 0) = false := by
  induction l generalizing a with
  | nil => exact ha
  | cons i l ih =>
    rw [List.foldl_cons]
    exact ih (fun j hj => hf j (List.mem_cons_of_mem _ hj)) (add_not_below ha (hf i List.mem_cons_self))

/-- Neither below zero nor finite: above it, or no number at all. -/
theorem not_le_zero {a : Extended K} (ha : lt a (finite 0) = false) (hf : a.isFinite = false) :
    le a (finite 0) = false := by
  cases a <;> first | rfl | exact absurd ha.symm Bool.false_ne_true | exact absurd hf.symm Bool.false_ne_true

/-! ### The largest of a loop -/

/-- The largest cell above zero. -/
def largest {n : ℕ} (f : Fin n → Extended K) : Extended K :=
  (List.finRange n).foldl (fun m i => if lt m (f i) then f i else m) (finite 0)

omit [Field K] in
theorem foldl_largest_finite {ι : Type*} (v : ι → K) (l : List ι) (a : K) :
    ∃ m, l.foldl (fun m i => if lt m (finite (v i)) then finite (v i) else m) (finite a) = finite m ∧
      a ≤ m ∧ ∀ i ∈ l, v i ≤ m := by
  induction l generalizing a with
  | nil => exact ⟨a, rfl, le_rfl, fun i hi => absurd hi List.not_mem_nil⟩
  | cons i l ih =>
    rw [List.foldl_cons, lt_finite]
    by_cases h : a < v i
    · obtain ⟨m, hm, ham, hmax⟩ := ih (v i)
      rw [if_pos (decide_eq_true h)]
      refine ⟨m, hm, h.le.trans ham, fun j hj => ?_⟩
      rcases List.mem_cons.1 hj with rfl | hj
      · exact ham
      · exact hmax j hj
    · obtain ⟨m, hm, ham, hmax⟩ := ih a
      rw [if_neg (by rw [decide_eq_true_eq]; exact h)]
      refine ⟨m, hm, ham, fun j hj => ?_⟩
      rcases List.mem_cons.1 hj with rfl | hj
      · exact (not_lt.1 h).trans ham
      · exact hmax j hj

theorem largest_finite {n : ℕ} (v : Fin n → K) :
    ∃ m, largest (fun i => finite (v i)) = finite m ∧ 0 ≤ m ∧ ∀ i, v i ≤ m := by
  obtain ⟨m, hm, h0, hmax⟩ := foldl_largest_finite v (List.finRange n) 0
  exact ⟨m, hm, h0, fun i => hmax i (List.mem_finRange i)⟩

end Extended

end Lib
