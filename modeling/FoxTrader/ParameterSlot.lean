import Mathlib.Algebra.Group.Nat.Defs
import Mathlib.Logic.Function.Basic
import Mathlib.Logic.Function.Iterate

/-! # The parameter slot

    A seqlock with two buffers. Bit 0 of `seq` says that a write is in progress, bit 1 which buffer
    is active. `write` and `read` are the two operations with nothing in between; `ParameterCache`
    takes them apart into their single loads and stores. After `n` completed writes the counter is
    `stableSeq n`, and the bit facts about it below are all that either module needs. -/

namespace FoxTrader

structure ParameterSlot (T : Type) where
  seq : BitVec 64
  buffers : Bool → T
  publishTicks : Bool → Nat

namespace ParameterSlot

variable {T : Type}

/-- `(seq >> 1) & 1`. -/
def activeIdx (seq : BitVec 64) : Bool := (seq >>> 1) &&& 1 = 1

/-- `seq & 1`: a write is in progress. -/
def midWrite (seq : BitVec 64) : Bool := seq &&& 1 = 1

def init (initial : T) : ParameterSlot T := ⟨0, fun _ => initial, fun _ => 0⟩

/-- The producer's side, uninterrupted. -/
def write (slot : ParameterSlot T) (newParams : T) (publishTick : Nat) : ParameterSlot T :=
  let nextIdx := !activeIdx slot.seq
  { seq := slot.seq + 2
    buffers := Function.update slot.buffers nextIdx newParams
    publishTicks := Function.update slot.publishTicks nextIdx publishTick }

/-- The consumer's side with no write in progress: the first pass of the retry loop returns. -/
def read (slot : ParameterSlot T) : T × Nat :=
  (slot.buffers (activeIdx slot.seq), slot.publishTicks (activeIdx slot.seq))

/-! ### The counter after `n` completed writes -/

theorem and_one_eq (x : BitVec 64) : x &&& 1 = 1 ↔ x.toNat % 2 = 1 := by
  rw [← BitVec.toNat_inj, BitVec.toNat_and]
  exact iff_of_eq (congrArg (· = 1) (Nat.and_one_is_mod _))

/-- Clearing bit 0. -/
theorem toNat_and_not_one (x : BitVec 64) : (x &&& ~~~1#64).toNat = 2 * (x.toNat / 2) := by
  have hshift : x &&& ~~~1#64 = (x >>> 1) <<< 1 := by
    refine BitVec.eq_of_getLsbD_eq fun i hi => ?_
    cases i with
    | zero => simp
    | succ i =>
      simp only [BitVec.getLsbD_and, BitVec.getLsbD_not, BitVec.getLsbD_one, BitVec.getLsbD_shiftLeft,
        BitVec.getLsbD_ushiftRight, hi]
      simp [Nat.add_comm 1 i]
  have hx := x.isLt
  rw [hshift, BitVec.toNat_shiftLeft, BitVec.toNat_ushiftRight, Nat.shiftRight_eq_div_pow,
    Nat.shiftLeft_eq]
  omega

def stableSeq (n : Nat) : BitVec 64 := BitVec.ofNat 64 (2 * n)

@[simp] theorem toNat_stableSeq (n : Nat) : (stableSeq n).toNat = 2 * n % 2 ^ 64 := BitVec.toNat_ofNat ..

theorem toNat_stableSeq_add_one (n : Nat) : (stableSeq n + 1).toNat = 2 * n % 2 ^ 64 + 1 := by
  rw [BitVec.toNat_add, toNat_stableSeq]
  exact Nat.mod_eq_of_lt (by have : (1 : BitVec 64).toNat = 1 := rfl; omega)

theorem stableSeq_succ (n : Nat) : stableSeq (n + 1) = stableSeq n + 2 := by
  apply BitVec.eq_of_toNat_eq
  rw [BitVec.toNat_add, toNat_stableSeq, toNat_stableSeq, show (2 : BitVec 64).toNat = 2 from rfl]
  omega

theorem midWrite_stableSeq (n : Nat) : midWrite (stableSeq n) = false := by
  rw [midWrite, decide_eq_false_iff_not, and_one_eq, toNat_stableSeq]
  omega

theorem midWrite_stableSeq_add_one (n : Nat) : midWrite (stableSeq n + 1) = true := by
  rw [midWrite, decide_eq_true_eq, and_one_eq, toNat_stableSeq_add_one]
  omega

/-- Every completed write makes the other buffer the active one, wherever the counter is. -/
theorem activeIdx_add_two (seq : BitVec 64) : activeIdx (seq + 2) = !activeIdx seq := by
  have hidx : ∀ x, activeIdx x = decide (x.toNat / 2 % 2 = 1) := fun x => by
    refine decide_eq_decide.2 ?_
    rw [and_one_eq, BitVec.toNat_ushiftRight, Nat.shiftRight_eq_div_pow, pow_one]
  have hsum : (seq + 2).toNat = (seq.toNat + 2) % 2 ^ 64 := BitVec.toNat_add seq 2
  rw [hidx, hidx, ← decide_not, decide_eq_decide, hsum]
  omega

theorem activeIdx_stableSeq_succ (n : Nat) :
    activeIdx (stableSeq (n + 1)) = !activeIdx (stableSeq n) := by
  rw [stableSeq_succ, activeIdx_add_two]

/-- Rounding down to even forgets a write in progress. -/
theorem and_not_one_stableSeq (n : Nat) : stableSeq n &&& ~~~1#64 = stableSeq n := by
  apply BitVec.eq_of_toNat_eq
  rw [toNat_and_not_one, toNat_stableSeq]
  omega

theorem and_not_one_stableSeq_add_one (n : Nat) : (stableSeq n + 1) &&& ~~~1#64 = stableSeq n := by
  apply BitVec.eq_of_toNat_eq
  rw [toNat_and_not_one, toNat_stableSeq_add_one, toNat_stableSeq]
  omega

/-- Fewer than `2⁶³` writes never bring the counter back to an old value. -/
theorem stableSeq_inj {m n : Nat} (hm : m < 2 ^ 63) (hn : n < 2 ^ 63)
    (h : stableSeq m = stableSeq n) : m = n := by
  have := congrArg BitVec.toNat h
  rw [toNat_stableSeq, toNat_stableSeq] at this
  omega

/-- Two counts less than `2⁶³` writes apart are told apart, wherever the counter is. -/
theorem stableSeq_inj_of_near {m n : Nat} (hle : m ≤ n) (hnear : n < m + 2 ^ 63) (h : stableSeq m = stableSeq n) :
    m = n := by
  have := congrArg BitVec.toNat h
  rw [toNat_stableSeq, toNat_stableSeq] at this
  omega

theorem stableSeq_ne_sentinel (n : Nat) : stableSeq n ≠ -1 := by
  intro h
  have := midWrite_stableSeq n
  rw [h] at this
  exact absurd this (by decide)

theorem read_write (slot : ParameterSlot T) (p : T) (t : Nat) : (slot.write p t).read = (p, t) := by
  simp only [read, write, activeIdx_add_two, Function.update_self]

theorem seq_iterate_write (slot : ParameterSlot T) {m : Nat} (hseq : slot.seq = stableSeq m) (p : T) (t : Nat)
    (n : Nat) :
    ((fun slot : ParameterSlot T => slot.write p t)^[n] slot).seq = stableSeq (m + n) := by
  induction n with
  | zero => exact hseq
  | succ n ih => rw [Function.iterate_succ_apply', write, ih, ← Nat.add_assoc, stableSeq_succ]

/-- Two writes of the same pack leave it in both buffers. -/
theorem write_write {slot : ParameterSlot T} {m : Nat} (hseq : slot.seq = stableSeq m) (p : T) (t : Nat) (b : Bool) :
    ((slot.write p t).write p t).buffers b = p ∧ ((slot.write p t).write p t).publishTicks b = t := by
  have hnext : activeIdx (slot.write p t).seq = !activeIdx slot.seq := by
    simp only [write, hseq, ← stableSeq_succ, activeIdx_stableSeq_succ]
  generalize hs : slot.write p t = slot' at hnext ⊢
  simp only [write, hnext, Bool.not_not]
  subst hs
  rcases eq_or_ne b (activeIdx slot.seq) with rfl | hne
  · exact ⟨Function.update_self .., Function.update_self ..⟩
  · obtain rfl := Bool.eq_not_of_ne hne
    rw [Function.update_of_ne hne, Function.update_of_ne hne]
    exact ⟨Function.update_self .., Function.update_self ..⟩

end ParameterSlot

end FoxTrader
