import Mathlib.Data.List.Range
import Mathlib.Data.Int.ModEq
import Mathlib.Data.Fin.Basic
import FoxTrader.Lib.Fifo

/-! # The single-producer single-consumer ring

    `head` counts pushes and `tail` pops; the slot of count `i` is `i mod N`. Each side keeps a
    stale copy of the other's counter (`cachedTail`, `cachedHead`) and refreshes it only when the
    copy says full or empty. The counter order is carried as fields. `items` reads the live slots
    oldest first; `tryPush_refines` and `tryPop_refines` say that both operations are those of the
    bounded queue `Lib.Fifo`, whatever the staleness, and every other module uses that queue. -/

namespace FoxTrader

open Lib

structure SPSCRing (α : Type) (N : Nat) [NeZero N] where
  head : Nat
  cachedTail : Nat
  tail : Nat
  cachedHead : Nat
  slots : Fin N → α
  tail_le : tail ≤ head
  le_cap : head ≤ tail + N
  cachedTail_le : cachedTail ≤ tail
  cachedHead_le : cachedHead ≤ head

namespace SPSCRing

variable {α : Type} {N : Nat} [NeZero N]

/-- `index & MASK`. -/
def mask (N : Nat) [NeZero N] (i : Nat) : Fin N := Fin.ofNat N i

/-- `SPSCRing_Init`: counters zeroed, slots left as they are. -/
def init (slots : Fin N → α) : SPSCRing α N := ⟨0, 0, 0, 0, slots, by omega, by omega, le_rfl, le_rfl⟩

/-- Refresh the producer's copy of `tail`. -/
def refreshTail (r : SPSCRing α N) : SPSCRing α N := { r with cachedTail := r.tail, cachedTail_le := le_rfl }

/-- Refresh the consumer's copy of `head`. -/
def refreshHead (r : SPSCRing α N) : SPSCRing α N := { r with cachedHead := r.head, cachedHead_le := le_rfl }

/-- Write the slot, then publish it by advancing `head`. -/
def publish (r : SPSCRing α N) (x : α) (h : r.head + 1 ≤ r.tail + N) : SPSCRing α N :=
  { r with
    head := r.head + 1
    slots := Function.update r.slots (mask N r.head) x
    tail_le := Nat.le_succ_of_le r.tail_le
    le_cap := h
    cachedHead_le := Nat.le_succ_of_le r.cachedHead_le }

/-- Release the oldest slot by advancing `tail`. -/
def release (r : SPSCRing α N) (h : r.tail < r.head) : SPSCRing α N :=
  { r with
    tail := r.tail + 1
    tail_le := h
    le_cap := by have := r.le_cap; omega
    cachedTail_le := Nat.le_succ_of_le r.cachedTail_le }

def tryPush (r : SPSCRing α N) (x : α) : Bool × SPSCRing α N :=
  if hc : r.head + 1 - r.cachedTail > N then
    -- the copy says full: look at the real tail before giving up
    if ht : r.head + 1 - r.tail > N then (false, r.refreshTail)
    else (true, r.refreshTail.publish x (by simp only [refreshTail]; omega))
  else (true, r.publish x (by have := r.cachedTail_le; omega))

def tryPop (r : SPSCRing α N) : Option α × SPSCRing α N :=
  if hc : r.tail ≥ r.cachedHead then
    if ht : r.tail ≥ r.head then (none, r.refreshHead)
    else (some (r.slots (mask N r.tail)), r.refreshHead.release (by simp only [refreshHead]; omega))
  else (some (r.slots (mask N r.tail)), r.release (by have := r.cachedHead_le; omega))

/-- The items between `tail` and `head`, oldest first. -/
def items (r : SPSCRing α N) : List α :=
  (List.range' r.tail (r.head - r.tail)).map fun i => r.slots (mask N i)

def toFifo (r : SPSCRing α N) : Fifo α N := ⟨r.items, by have := r.le_cap; simp [items]; omega⟩

@[simp] theorem items_length (r : SPSCRing α N) : r.items.length = r.head - r.tail := by simp [items]

@[simp] theorem toFifo_refreshTail (r : SPSCRing α N) : r.refreshTail.toFifo = r.toFifo := rfl

@[simp] theorem toFifo_refreshHead (r : SPSCRing α N) : r.refreshHead.toFifo = r.toFifo := rfl

/-- Two counts less than a lap apart live in different slots. -/
theorem mask_ne {i j : Nat} (hij : i < j) (hlap : j < i + N) : mask N i ≠ mask N j := by
  intro h
  have hmod : i % N = j % N := congrArg Fin.val h
  have hdvd := (Nat.modEq_iff_dvd' hij.le).1 hmod
  have hle := Nat.le_of_dvd (by omega) hdvd
  omega

theorem items_publish (r : SPSCRing α N) (x : α) (h : r.head + 1 ≤ r.tail + N) :
    (r.publish x h).items = r.items ++ [x] := by
  have htl := r.tail_le
  have hlen : r.head + 1 - r.tail = (r.head - r.tail) + 1 := by omega
  have hlast : r.tail + (r.head - r.tail) = r.head := by omega
  simp only [items, publish, hlen, List.range'_1_concat, List.map_append, List.map_cons, List.map_nil,
    hlast, Function.update_self]
  congr 1
  apply List.map_congr_left
  intro i hi
  rw [List.mem_range'_1] at hi
  -- an older slot is less than a lap behind the one written
  rw [Function.update_of_ne (mask_ne (by omega) (by omega))]

theorem items_release (r : SPSCRing α N) (h : r.tail < r.head) :
    r.items = r.slots (mask N r.tail) :: (r.release h).items := by
  have hlen : r.head - r.tail = (r.head - (r.tail + 1)) + 1 := by omega
  rw [items, hlen, List.range'_succ, List.map_cons]
  rfl

/-- The ring's push is the bounded queue's push. -/
theorem tryPush_refines (r : SPSCRing α N) (x : α) :
    (r.tryPush x).1 = (r.toFifo.tryPush x).1 ∧ (r.tryPush x).2.toFifo = (r.toFifo.tryPush x).2 := by
  have htl := r.tail_le
  have hlen : r.toFifo.items.length = r.head - r.tail := r.items_length
  by_cases hfull : r.head + 1 - r.tail > N
  · have hc : r.head + 1 - r.cachedTail > N := by have := r.cachedTail_le; omega
    have hq : (r.toFifo.tryPush x) = (false, r.toFifo) := dif_neg (by omega)
    rw [tryPush, dif_pos hc, dif_pos hfull, hq]
    exact ⟨rfl, rfl⟩
  · have hq : ∃ hb, r.toFifo.tryPush x = (true, ⟨r.items ++ [x], hb⟩) := ⟨_, dif_pos (by omega)⟩
    obtain ⟨hb, hq⟩ := hq
    rw [hq, tryPush]
    split
    · exact ⟨rfl, Fifo.ext (r.refreshTail.items_publish x _)⟩
    · exact ⟨rfl, Fifo.ext (r.items_publish x _)⟩

/-- The ring's pop is the bounded queue's pop. -/
theorem tryPop_refines (r : SPSCRing α N) :
    r.tryPop.1 = r.toFifo.tryPop.1 ∧ r.tryPop.2.toFifo = r.toFifo.tryPop.2 := by
  by_cases hempty : r.tail ≥ r.head
  · have hc : r.tail ≥ r.cachedHead := r.cachedHead_le.trans hempty
    have hnil : r.toFifo.items = [] := List.length_eq_zero_iff.1 (by
      rw [show r.toFifo.items.length = _ from r.items_length]; omega)
    have hnone := Fifo.tryPop_eq_none.2 hnil
    rw [tryPop, dif_pos hc, dif_pos hempty, hnone, Fifo.tryPop_none hnone]
    exact ⟨rfl, rfl⟩
  · have hlt : r.tail < r.head := by omega
    have hitems := r.items_release hlt
    have hq : r.toFifo.tryPop.1 = some (r.slots (mask N r.tail)) ∧
        r.toFifo.tryPop.2.items = (r.release hlt).items := by
      cases hp : r.toFifo.tryPop.1 with
      | none =>
        rw [Fifo.tryPop_eq_none, show r.toFifo.items = _ from hitems] at hp
        exact absurd hp (List.cons_ne_nil _ _)
      | some y =>
        have hy := Fifo.tryPop_some hp
        rw [show r.toFifo.items = _ from hitems] at hy
        injection hy with h1 h2
        exact ⟨by rw [h1], h2.symm⟩
    rw [tryPop]
    split
    · exact ⟨hq.1.symm, Fifo.ext hq.2.symm⟩
    · exact ⟨hq.1.symm, Fifo.ext hq.2.symm⟩

end SPSCRing

end FoxTrader
