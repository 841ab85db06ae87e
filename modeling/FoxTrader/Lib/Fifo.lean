import Mathlib.Data.List.Basic

/-! # Bounded first-in first-out queues

    The abstract view of a single-producer single-consumer ring: at most `N` items, pushed at the
    back and popped at the front. The bound is a field, so an overfull queue cannot be built. A push
    to a full queue fails and leaves it alone; a pop of an empty one does too. -/

namespace Lib

/-- A queue of at most `N` items, oldest first. -/
@[ext] structure Fifo (α : Type*) (N : Nat) where
  items : List α
  bounded : items.length ≤ N

namespace Fifo

variable {α : Type*} {N : Nat}

instance [DecidableEq α] : DecidableEq (Fifo α N) := fun q r =>
  decidable_of_iff (q.items = r.items) Fifo.ext_iff.symm

def empty : Fifo α N := ⟨[], Nat.zero_le _⟩

instance : Inhabited (Fifo α N) := ⟨empty⟩

@[simp] theorem empty_items : (empty : Fifo α N).items = [] := rfl

def isFull (q : Fifo α N) : Bool := decide (N ≤ q.items.length)

theorem length_append_singleton_le {q : Fifo α N} (x : α) (h : q.items.length < N) :
    (q.items ++ [x]).length ≤ N := by
  rw [List.length_append]
  exact h

/-- Push at the back: whether it went in, and the queue after. -/
def tryPush (q : Fifo α N) (x : α) : Bool × Fifo α N :=
  if h : q.items.length < N then (true, ⟨q.items ++ [x], length_append_singleton_le x h⟩)
  else (false, q)

theorem length_tail_le {q : Fifo α N} {x : α} {xs : List α} (h : q.items = x :: xs) : xs.length ≤ N := by
  have hb := q.bounded
  rw [h, List.length_cons] at hb
  omega

/-- Pop at the front: what came out, and the queue after. -/
def tryPop (q : Fifo α N) : Option α × Fifo α N :=
  match h : q.items with
  | [] => (none, q)
  | x :: xs => (some x, ⟨xs, length_tail_le h⟩)

theorem tryPush_fst (q : Fifo α N) (x : α) : (q.tryPush x).1 = !q.isFull := by
  unfold tryPush isFull
  split <;> simp <;> omega

theorem tryPush_items (q : Fifo α N) (x : α) :
    (q.tryPush x).2.items = if q.isFull then q.items else q.items ++ [x] := by
  unfold tryPush isFull
  split
  · rw [if_neg (by simp; omega)]
  · rw [if_pos (by simp; omega)]

theorem tryPush_items_of_ok {q : Fifo α N} {x : α} (h : (q.tryPush x).1 = true) :
    (q.tryPush x).2.items = q.items ++ [x] := by
  rw [tryPush_fst, Bool.not_eq_true'] at h
  rw [tryPush_items, h, if_neg Bool.false_ne_true]

theorem tryPush_of_full {q : Fifo α N} {x : α} (h : (q.tryPush x).1 = false) :
    (q.tryPush x).2 = q := by
  unfold tryPush at h ⊢
  split at h
  · simp at h
  · rw [dif_neg (by assumption)]

/-- What a push adds to the back of the queue: the item, or nothing. -/
theorem tryPush_items_append (q : Fifo α N) (x : α) :
    (q.tryPush x).2.items = q.items ++ if (q.tryPush x).1 then [x] else [] := by
  cases h : (q.tryPush x).1 with
  | true => rw [tryPush_items_of_ok h, if_pos rfl]
  | false => rw [tryPush_of_full h, if_neg Bool.false_ne_true, List.append_nil]

theorem mem_tryPush {q : Fifo α N} {x y : α} (h : y ∈ (q.tryPush x).2.items) :
    y ∈ q.items ∨ y = x := by
  rw [tryPush_items] at h
  split at h
  · exact .inl h
  · simpa using h

theorem tryPop_eq_none {q : Fifo α N} : q.tryPop.1 = none ↔ q.items = [] := by
  unfold tryPop
  split <;> simp_all

/-- A pop hands out the oldest item and keeps the rest in order. -/
theorem tryPop_some {q : Fifo α N} {x : α} (h : q.tryPop.1 = some x) :
    q.items = x :: q.tryPop.2.items := by
  unfold tryPop at h ⊢
  split at h
  · simp at h
  next y ys hy => simp only [Option.some.injEq] at h; simp [hy, h]

theorem tryPop_none {q : Fifo α N} (h : q.tryPop.1 = none) : q.tryPop.2 = q := by
  have h' := tryPop_eq_none.1 h
  unfold tryPop
  split
  · rfl
  · simp_all

theorem mem_of_mem_tryPop {q : Fifo α N} {y : α} (h : y ∈ q.tryPop.2.items) : y ∈ q.items := by
  cases hp : q.tryPop.1 with
  | none => rwa [tryPop_none hp] at h
  | some x => rw [tryPop_some hp]; exact List.mem_cons_of_mem _ h

end Fifo

end Lib
