import Mathlib.Data.Int.ModEq
import Mathlib.Data.List.Range
import Mathlib.Logic.Function.Basic

/-! # Rings with a count

    A ring of `N` cells with the index of the oldest item, the index of the next free cell and the
    number of items between them. While the three agree (`Wf`) a push adds at the back of `contents`
    and a pop takes from its front, so the ring is the bounded queue of its contents. -/

namespace Lib

structure CountedRing (α : Type*) where
  cells : ℕ → α
  head : ℕ
  tail : ℕ
  count : ℕ

namespace CountedRing

variable {α : Type*} {N : ℕ} {r : CountedRing α}

/-- The items, oldest first. -/
def contents (N : ℕ) (r : CountedRing α) : List α := (List.range r.count).map fun i => r.cells ((r.head + i) % N)

/-- The indices and the count agree. -/
structure Wf (N : ℕ) (r : CountedRing α) : Prop where
  head_lt : r.head < N
  tail_eq : r.tail = (r.head + r.count) % N
  count_le : r.count ≤ N

def push (N : ℕ) (r : CountedRing α) (x : α) : CountedRing α :=
  { cells := Function.update r.cells r.tail x, head := r.head, tail := (r.tail + 1) % N, count := r.count + 1 }

def pop (N : ℕ) (r : CountedRing α) : CountedRing α := { r with head := (r.head + 1) % N, count := r.count - 1 }

@[simp] theorem length_contents (N : ℕ) (r : CountedRing α) : (r.contents N).length = r.count := by simp [contents]

theorem contents_eq_nil : r.contents N = [] ↔ r.count = 0 := by rw [← List.length_eq_zero_iff, length_contents]

theorem Wf.push (h : Wf N r) (hroom : r.count < N) (x : α) : Wf N (r.push N x) where
  head_lt := h.head_lt
  tail_eq := by simp only [CountedRing.push, h.tail_eq, Nat.mod_add_mod, Nat.add_assoc]
  count_le := hroom

theorem Wf.pop (h : Wf N r) (hsome : 0 < r.count) : Wf N (r.pop N) where
  head_lt := Nat.mod_lt _ (Nat.zero_lt_of_lt h.head_lt)
  tail_eq := by
    simp only [CountedRing.pop, h.tail_eq, Nat.mod_add_mod]
    congr 1
    omega
  count_le := (Nat.sub_le _ _).trans h.count_le

/-- Two offsets below `N` from one index are the same cell only if they are equal. -/
theorem offset_inj {a i j : ℕ} (hi : i < N) (hj : j < N) (h : (a + i) % N = (a + j) % N) : i = j := by
  have hmod : i % N = j % N := Nat.ModEq.add_left_cancel' a h
  rwa [Nat.mod_eq_of_lt hi, Nat.mod_eq_of_lt hj] at hmod

theorem contents_push (h : Wf N r) (hroom : r.count < N) (x : α) :
    (r.push N x).contents N = r.contents N ++ [x] := by
  have hlast : (r.push N x).cells ((r.head + r.count) % N) = x := by
    rw [← h.tail_eq]
    exact Function.update_self ..
  have hfront : ∀ i ∈ List.range r.count, (r.push N x).cells ((r.head + i) % N) = r.cells ((r.head + i) % N) := by
    intro i hi
    have hlt := List.mem_range.1 hi
    refine Function.update_of_ne (fun heq => ?_) ..
    rw [h.tail_eq] at heq
    exact hlt.ne (offset_inj (hlt.trans hroom) hroom heq)
  calc (r.push N x).contents N
      = (List.range (r.count + 1)).map fun i => (r.push N x).cells ((r.head + i) % N) := rfl
    _ = ((List.range r.count).map fun i => (r.push N x).cells ((r.head + i) % N)) ++ [x] := by
        rw [List.range_succ, List.map_append, List.map_singleton, hlast]
    _ = r.contents N ++ [x] := by rw [List.map_congr_left hfront, contents]

theorem contents_pop (h : Wf N r) (hsome : 0 < r.count) :
    r.contents N = r.cells r.head :: (r.pop N).contents N := by
  obtain ⟨n, hn⟩ : ∃ n, r.count = n + 1 := ⟨r.count - 1, by omega⟩
  have hpop : (r.pop N).count = n := by
    simp only [CountedRing.pop, hn, Nat.add_sub_cancel]
  rw [contents, contents, hn, hpop, List.range_succ_eq_map, List.map_cons, List.map_map, Nat.add_zero,
    Nat.mod_eq_of_lt h.head_lt]
  congr 1
  refine List.map_congr_left fun i _ => ?_
  have hcell : (r.head + (i + 1)) % N = ((r.head + 1) % N + i) % N := by
    rw [Nat.mod_add_mod, Nat.add_comm i 1, Nat.add_assoc]
  exact congrArg r.cells hcell

end CountedRing

end Lib
