import Mathlib.Data.Fintype.Basic
import FoxTrader.Lib.Run
import FoxTrader.ParameterSlot

/-! # The hot path's cached parameters, under interleaving

    One producer runs `ParameterSlot_Write` while the execution core refreshes its cache at the top
    of every tick. Each load and store is a step of its own: a pack is copied word by word, in any
    order (`ι` indexes its words, the paired publish tick is one more), so a torn copy is a state
    like any other. A tick that misses copies the slot, checks that `seq` did not move, and then
    loads `seq` *once more* to remember it. A write that completes between those last two loads is
    remembered without having been read. `cached_is_last` says that this window is the only way:
    if no write completes in it, the cached path always serves the last completed write. -/

namespace FoxTrader

open Lib ParameterSlot

namespace ParameterCache

/-- The parameter pack as the memory words it is copied by. -/
abbrev Words (ι : Type) := ι → BitVec 64

/-- Where the producer is in `ParameterSlot_Write`. -/
inductive Writer (ι : Type) where
  | idle
  | loaded (s : BitVec 64) (newParams : Words ι) (publishTick : Nat)
  | copying (s : BitVec 64) (newParams : Words ι) (publishTick : Nat) (done : ι → Bool) (tickDone : Bool)

/-- Where the core is: between ticks, or in the refresh of `ExecutionCore_Tick_Impl`. -/
inductive Reader (ι : Type) where
  | idle
  | reading
  | copying (s1 : BitVec 64) (done : ι → Bool) (tickDone : Bool)
  | reloading

/-- The reader is between ticks. -/
def Reader.isIdle {ι : Type} : Reader ι → Bool
  | .idle => true
  | _ => false

theorem Reader.eq_idle {ι : Type} : ∀ {r : Reader ι}, r.isIdle = true → r = .idle
  | .idle, _ => rfl

/-- The reader is in the window: it has checked its copy and not yet loaded `seq` again. -/
def Reader.isReloading {ι : Type} : Reader ι → Bool
  | .reloading => true
  | _ => false

/-- The slot, both parties, the cache, and two ghosts: the last completed write and their number. -/
structure Sys (ι : Type) where
  slot : ParameterSlot (Words ι)
  writer : Writer ι
  reader : Reader ι
  cachedSeq : BitVec 64
  cachedParams : Words ι
  cachedPublishTick : Nat
  last : Words ι × Nat
  writes : Nat

inductive Act (ι : Type) where
  | writeBegin (newParams : Words ι) (publishTick : Nat)
  | writeMark
  | writeWord (i : ι)
  | writeTick
  | writePublish
  | tick
  | readSeq
  | readWord (i : ι)
  | readTick
  | readCheck
  | reload

variable {ι : Type} [DecidableEq ι] [Fintype ι]

/-- `ExecutionCore_Init`: the initial pack in both buffers and in the cache, `cached_seq = -1`. -/
def init (initial : Words ι) : Sys ι :=
  { slot := .init initial, writer := .idle, reader := .idle, cachedSeq := -1
    cachedParams := initial, cachedPublishTick := 0, last := (initial, 0), writes := 0 }

/-- One load or store of one party; a party that is not there leaves the state alone. -/
def step (s : Sys ι) : Act ι → Sys ι
  | .writeBegin p t =>
    match s.writer with
    | .idle => { s with writer := .loaded s.slot.seq p t }
    | _ => s
  | .writeMark =>
    match s.writer with
    | .loaded q p t =>
      { s with slot := { s.slot with seq := q + 1 }, writer := .copying q p t (fun _ => false) false }
    | _ => s
  | .writeWord i =>
    match s.writer with
    | .copying q p t done tickDone =>
      let next := !activeIdx q
      let buf := Function.update (s.slot.buffers next) i (p i)
      { s with
        slot := { s.slot with buffers := Function.update s.slot.buffers next buf }
        writer := .copying q p t (Function.update done i true) tickDone }
    | _ => s
  | .writeTick =>
    match s.writer with
    | .copying q p t done _ =>
      { s with
        slot := { s.slot with publishTicks := Function.update s.slot.publishTicks (!activeIdx q) t }
        writer := .copying q p t done true }
    | _ => s
  | .writePublish =>
    match s.writer with
    | .copying q p t done tickDone =>
      if (∀ i, done i = true) ∧ tickDone = true then
        { s with
          slot := { s.slot with seq := q + 2 }, writer := .idle, last := (p, t), writes := s.writes + 1 }
      else s
    | _ => s
  | .tick =>
    match s.reader with
    | .idle => if s.slot.seq ≠ s.cachedSeq ∨ midWrite s.slot.seq then { s with reader := .reading } else s
    | _ => s
  | .readSeq =>
    match s.reader with
    | .reading =>
      if midWrite s.slot.seq then s else { s with reader := .copying s.slot.seq (fun _ => false) false }
    | _ => s
  | .readWord i =>
    match s.reader with
    | .copying s1 done tickDone =>
      { s with
        cachedParams := Function.update s.cachedParams i (s.slot.buffers (activeIdx s1) i)
        reader := .copying s1 (Function.update done i true) tickDone }
    | _ => s
  | .readTick =>
    match s.reader with
    | .copying s1 done _ =>
      { s with
        cachedPublishTick := s.slot.publishTicks (activeIdx s1), reader := .copying s1 done true }
    | _ => s
  | .readCheck =>
    match s.reader with
    | .copying s1 done tickDone =>
      if (∀ i, done i = true) ∧ tickDone = true then
        -- the loop returns on an unmoved counter and starts over on a moved one
        { s with reader := if s1 = s.slot.seq then .reloading else .reading }
      else s
    | _ => s
  | .reload =>
    match s.reader with
    | .reloading => { s with cachedSeq := s.slot.seq &&& ~~~1#64, reader := .idle }
    | _ => s

/-- The next tick finds the counter it remembers, even, and uses the cache as it is. -/
def TakesCachedPath (s : Sys ι) : Prop :=
  s.reader.isIdle = true ∧ s.slot.seq = s.cachedSeq ∧ midWrite s.slot.seq = false

instance (s : Sys ι) : Decidable (TakesCachedPath s) := inferInstanceAs (Decidable (_ ∧ _))

/-- The cache holds the last completed write. -/
def Fresh (s : Sys ι) : Prop := (s.cachedParams, s.cachedPublishTick) = s.last

instance (s : Sys ι) : Decidable (Fresh s) := inferInstanceAs (Decidable (_ = _))

/-- No write completes in the window between the reader's last two loads of `seq`, and the counter
    does not wrap around. -/
def NoWriteInWindow (s : Sys ι) : Act ι → Prop
  | .writePublish => s.reader.isReloading = false ∧ s.writes + 1 < 2 ^ 63
  | _ => True

instance (s : Sys ι) : ∀ a, Decidable (NoWriteInWindow s a)
  | .writePublish => inferInstanceAs (Decidable (_ ∧ _))
  | .writeBegin .. | .writeMark | .writeWord _ | .writeTick | .tick | .readSeq | .readWord _
  | .readTick | .readCheck | .reload => isTrue trivial

/-! ### The invariant -/

def WriterOk (s : Sys ι) : Prop :=
  match s.writer with
  | .idle => s.slot.seq = stableSeq s.writes
  | .loaded q _ _ => s.slot.seq = stableSeq s.writes ∧ q = stableSeq s.writes
  | .copying q p t done tickDone =>
    s.slot.seq = stableSeq s.writes + 1 ∧ q = stableSeq s.writes ∧
      (∀ i, done i = true → s.slot.buffers (!activeIdx q) i = p i) ∧
      (tickDone = true → s.slot.publishTicks (!activeIdx q) = t)

/-- What the reader remembers of write `k` is the last write's if there was none since. -/
def ReaderOk (s : Sys ι) : Prop :=
  match s.reader with
  | .idle => s.cachedSeq = -1 ∨ ∃ k ≤ s.writes, s.cachedSeq = stableSeq k ∧ (k = s.writes → Fresh s)
  | .reading => True
  | .copying s1 done tickDone =>
    ∃ k ≤ s.writes, s1 = stableSeq k ∧ (k = s.writes →
      (∀ i, done i = true → s.cachedParams i = s.last.1 i) ∧
      (tickDone = true → s.cachedPublishTick = s.last.2))
  | .reloading => Fresh s

/-- What the producer keeps, however many writes there were. -/
structure SlotOk (s : Sys ι) : Prop where
  buffer : s.slot.buffers (activeIdx (stableSeq s.writes)) = s.last.1
  publishTick : s.slot.publishTicks (activeIdx (stableSeq s.writes)) = s.last.2
  writer : WriterOk s

structure Inv (s : Sys ι) : Prop where
  bound : s.writes < 2 ^ 63
  buffer : s.slot.buffers (activeIdx (stableSeq s.writes)) = s.last.1
  publishTick : s.slot.publishTicks (activeIdx (stableSeq s.writes)) = s.last.2
  writer : WriterOk s
  reader : ReaderOk s

omit [DecidableEq ι] [Fintype ι] in
theorem inv_init (initial : Words ι) : Inv (init initial) :=
  ⟨show 0 < 2 ^ 63 by decide, rfl, rfl, rfl, .inl rfl⟩

omit [DecidableEq ι] [Fintype ι] in
theorem Inv.slotOk {s : Sys ι} (h : Inv s) : SlotOk s := ⟨h.buffer, h.publishTick, h.writer⟩

omit [DecidableEq ι] [Fintype ι] in
/-- In either phase of the producer the counter rounds down to the last completed write's. -/
theorem SlotOk.seq_cases {s : Sys ι} (h : SlotOk s) :
    s.slot.seq = stableSeq s.writes ∨ s.slot.seq = stableSeq s.writes + 1 := by
  have hw := h.writer
  unfold WriterOk at hw
  split at hw
  · exact .inl hw
  · exact .inl hw.1
  · exact .inr hw.1

omit [DecidableEq ι] [Fintype ι] in
theorem SlotOk.seq_of_stable {s : Sys ι} (h : SlotOk s) (hm : midWrite s.slot.seq = false) :
    s.slot.seq = stableSeq s.writes := by
  rcases h.seq_cases with hs | hs
  · exact hs
  · rw [hs, midWrite_stableSeq_add_one] at hm
    exact absurd hm (by decide)

/-! ### The producer's steps -/

/-- A store to the inactive side leaves the active one. -/
theorem update_inactive {β : Type} (f : Bool → β) (b : Bool) (v : β) :
    Function.update f (!b) v b = f b := Function.update_of_ne (by cases b <;> decide) ..

theorem slotOk_writeBegin {s : Sys ι} (h : SlotOk s) (p : Words ι) (t : Nat) : SlotOk (step s (.writeBegin p t)) := by
  cases hw : s.writer with
  | idle =>
    have hwr := h.writer
    simp only [WriterOk, hw] at hwr
    simp only [step, hw]
    exact ⟨h.buffer, h.publishTick, hwr, hwr⟩
  | _ => simpa only [step, hw] using h

theorem slotOk_writeMark {s : Sys ι} (h : SlotOk s) : SlotOk (step s .writeMark) := by
  cases hw : s.writer with
  | loaded q p t =>
    have hwr := h.writer
    simp only [WriterOk, hw] at hwr
    simp only [step, hw]
    refine ⟨h.buffer, h.publishTick, by rw [hwr.2], hwr.2, ?_, ?_⟩
    · intro i hi; exact absurd hi Bool.false_ne_true
    · intro ht; exact absurd ht Bool.false_ne_true
  | _ => simpa only [step, hw] using h

/-- The producer writes into the inactive buffer, so the last write's pack stays where it is. -/
theorem slotOk_writeWord {s : Sys ι} (h : SlotOk s) (i : ι) : SlotOk (step s (.writeWord i)) := by
  cases hw : s.writer with
  | copying q p t done tickDone =>
    have hwr := h.writer
    simp only [WriterOk, hw] at hwr
    obtain ⟨hseq, hq, hdone, htick⟩ := hwr
    simp only [step, hw]
    refine ⟨?_, h.publishTick, hseq, hq, ?_, htick⟩
    · rw [hq]; exact (update_inactive _ _ _).trans h.buffer
    · intro j hj
      show Function.update s.slot.buffers (!activeIdx q) _ (!activeIdx q) j = p j
      rw [Function.update_self]
      by_cases hji : j = i
      · rw [hji, Function.update_self]
      · rw [Function.update_of_ne hji] at hj ⊢
        exact hdone j hj
  | _ => simpa only [step, hw] using h

theorem slotOk_writeTick {s : Sys ι} (h : SlotOk s) : SlotOk (step s .writeTick) := by
  cases hw : s.writer with
  | copying q p t done tickDone =>
    have hwr := h.writer
    simp only [WriterOk, hw] at hwr
    obtain ⟨hseq, hq, hdone, -⟩ := hwr
    simp only [step, hw]
    refine ⟨h.buffer, ?_, hseq, hq, hdone, fun _ => Function.update_self ..⟩
    rw [hq]; exact (update_inactive _ _ _).trans h.publishTick
  | _ => simpa only [step, hw] using h

/-- A completed write is the last one. -/
theorem slotOk_writePublish {s : Sys ι} (h : SlotOk s) : SlotOk (step s .writePublish) := by
  cases hw : s.writer with
  | copying q p t done tickDone =>
    by_cases hall : (∀ i, done i = true) ∧ tickDone = true
    · have hwr := h.writer
      simp only [WriterOk, hw] at hwr
      obtain ⟨hseq, hq, hdone, htick⟩ := hwr
      simp only [step, hw, if_pos hall]
      have hidx : activeIdx (stableSeq (s.writes + 1)) = !activeIdx q := by
        rw [hq, activeIdx_stableSeq_succ]
      refine ⟨?_, ?_, ?_⟩
      · rw [hidx]; funext i; exact hdone i (hall.1 i)
      · rw [hidx]; exact htick hall.2
      · show q + 2 = stableSeq (s.writes + 1)
        rw [stableSeq_succ, hq]
    · simpa only [step, hw, if_neg hall] using h
  | _ => simpa only [step, hw] using h

theorem inv_writeBegin {s : Sys ι} (h : Inv s) (p : Words ι) (t : Nat) :
    Inv (step s (.writeBegin p t)) := by
  have hslot := slotOk_writeBegin h.slotOk p t
  cases hw : s.writer with
  | idle =>
    simp only [step, hw] at hslot ⊢
    exact ⟨h.bound, hslot.buffer, hslot.publishTick, hslot.writer, h.reader⟩
  | _ => simpa only [step, hw] using h

theorem inv_writeMark {s : Sys ι} (h : Inv s) : Inv (step s .writeMark) := by
  have hslot := slotOk_writeMark h.slotOk
  cases hw : s.writer with
  | loaded q p t =>
    simp only [step, hw] at hslot ⊢
    exact ⟨h.bound, hslot.buffer, hslot.publishTick, hslot.writer, h.reader⟩
  | _ => simpa only [step, hw] using h

theorem inv_writeWord {s : Sys ι} (h : Inv s) (i : ι) : Inv (step s (.writeWord i)) := by
  have hslot := slotOk_writeWord h.slotOk i
  cases hw : s.writer with
  | copying q p t done tickDone =>
    simp only [step, hw] at hslot ⊢
    exact ⟨h.bound, hslot.buffer, hslot.publishTick, hslot.writer, h.reader⟩
  | _ => simpa only [step, hw] using h

theorem inv_writeTick {s : Sys ι} (h : Inv s) : Inv (step s .writeTick) := by
  have hslot := slotOk_writeTick h.slotOk
  cases hw : s.writer with
  | copying q p t done tickDone =>
    simp only [step, hw] at hslot ⊢
    exact ⟨h.bound, hslot.buffer, hslot.publishTick, hslot.writer, h.reader⟩
  | _ => simpa only [step, hw] using h

/-- Outside the window, completing a write leaves the reader remembering an older one. -/
theorem inv_writePublish {s : Sys ι} (h : Inv s) (hok : NoWriteInWindow s .writePublish) :
    Inv (step s .writePublish) := by
  have hslot := slotOk_writePublish h.slotOk
  cases hw : s.writer with
  | copying q p t done tickDone =>
    by_cases hall : (∀ i, done i = true) ∧ tickDone = true
    · have hrd := h.reader
      simp only [step, hw, if_pos hall] at hslot ⊢
      refine ⟨hok.2, hslot.buffer, hslot.publishTick, hslot.writer, ?_⟩
      cases hr : s.reader with
      | idle =>
        simp only [ReaderOk, hr] at hrd ⊢
        rcases hrd with hc | ⟨k, hk, hck, -⟩
        · exact .inl hc
        · exact .inr ⟨k, by omega, hck, fun he => absurd he (by omega)⟩
      | reading => simp only [ReaderOk]
      | copying s1 d td =>
        simp only [ReaderOk, hr] at hrd ⊢
        obtain ⟨k, hk, hck, -⟩ := hrd
        exact ⟨k, by omega, hck, fun he => absurd he (by omega)⟩
      | reloading => simp [NoWriteInWindow, hr, Reader.isReloading] at hok
    · simpa only [step, hw, if_neg hall] using h
  | _ => simpa only [step, hw] using h

/-! ### The reader's steps -/

theorem inv_tick {s : Sys ι} (h : Inv s) : Inv (step s .tick) := by
  cases hr : s.reader with
  | idle =>
    simp only [step, hr]
    split
    · exact ⟨h.bound, h.buffer, h.publishTick, h.writer, trivial⟩
    · exact h
  | _ => simpa only [step, hr] using h

theorem inv_readSeq {s : Sys ι} (h : Inv s) : Inv (step s .readSeq) := by
  cases hr : s.reader with
  | reading =>
    cases hm : midWrite s.slot.seq with
    | true => simpa only [step, hr, hm, if_true] using h
    | false =>
      simp only [step, hr, hm, Bool.false_eq_true, if_false]
      refine ⟨h.bound, h.buffer, h.publishTick, h.writer, s.writes, le_rfl, h.slotOk.seq_of_stable hm, ?_⟩
      exact fun _ => ⟨fun i hi => absurd hi Bool.false_ne_true, fun ht => absurd ht Bool.false_ne_true⟩
  | _ => simpa only [step, hr] using h

theorem inv_readWord {s : Sys ι} (h : Inv s) (i : ι) : Inv (step s (.readWord i)) := by
  cases hr : s.reader with
  | copying s1 done tickDone =>
    have hrd := h.reader
    simp only [ReaderOk, hr] at hrd
    obtain ⟨k, hk, hs1, hfresh⟩ := hrd
    simp only [step, hr]
    refine ⟨h.bound, h.buffer, h.publishTick, h.writer, k, hk, hs1, fun he => ⟨?_, (hfresh he).2⟩⟩
    intro j hj
    show Function.update s.cachedParams i _ j = s.last.1 j
    by_cases hji : j = i
    · rw [hji, Function.update_self, hs1, he, h.buffer]
    · rw [Function.update_of_ne hji] at hj ⊢
      exact (hfresh he).1 j hj
  | _ => simpa only [step, hr] using h

theorem inv_readTick {s : Sys ι} (h : Inv s) : Inv (step s .readTick) := by
  cases hr : s.reader with
  | copying s1 done tickDone =>
    have hrd := h.reader
    simp only [ReaderOk, hr] at hrd
    obtain ⟨k, hk, hs1, hfresh⟩ := hrd
    simp only [step, hr]
    refine ⟨h.bound, h.buffer, h.publishTick, h.writer, k, hk, hs1, fun he => ⟨(hfresh he).1, fun _ => ?_⟩⟩
    rw [hs1, he]
    exact h.publishTick
  | _ => simpa only [step, hr] using h

/-- An unmoved counter means no write completed since the copy began, so the copy is whole. -/
theorem inv_readCheck {s : Sys ι} (h : Inv s) : Inv (step s .readCheck) := by
  cases hr : s.reader with
  | copying s1 done tickDone =>
    by_cases hall : (∀ i, done i = true) ∧ tickDone = true
    · have hrd := h.reader
      simp only [ReaderOk, hr] at hrd
      obtain ⟨k, hk, hs1, hfresh⟩ := hrd
      simp only [step, hr, if_pos hall]
      refine ⟨h.bound, h.buffer, h.publishTick, h.writer, ?_⟩
      by_cases heq : s1 = s.slot.seq
      · have hm : midWrite s.slot.seq = false := by rw [← heq, hs1, midWrite_stableSeq]
        have hkn : k = s.writes := stableSeq_inj (by have := h.bound; omega) h.bound (by
          rw [← hs1, heq, h.slotOk.seq_of_stable hm])
        obtain ⟨hwords, htick⟩ := hfresh hkn
        simp only [ReaderOk, if_pos heq, Fresh]
        exact Prod.ext (funext fun i => hwords i (hall.1 i)) (htick hall.2)
      · simp only [ReaderOk, if_neg heq]
    · simpa only [step, hr, if_neg hall] using h
  | _ => simpa only [step, hr] using h

theorem inv_reload {s : Sys ι} (h : Inv s) : Inv (step s .reload) := by
  cases hr : s.reader with
  | reloading =>
    have hrd := h.reader
    simp only [ReaderOk, hr] at hrd
    simp only [step, hr]
    refine ⟨h.bound, h.buffer, h.publishTick, h.writer, .inr ⟨s.writes, le_rfl, ?_, fun _ => hrd⟩⟩
    show s.slot.seq &&& ~~~1#64 = stableSeq s.writes
    rcases h.slotOk.seq_cases with hs | hs
    · rw [hs, and_not_one_stableSeq]
    · rw [hs, and_not_one_stableSeq_add_one]
  | _ => simpa only [step, hr] using h

theorem inv_step (s : Sys ι) (a : Act ι) (h : Inv s) (hok : NoWriteInWindow s a) : Inv (step s a) := by
  cases a with
  | writeBegin p t => exact inv_writeBegin h p t
  | writeMark => exact inv_writeMark h
  | writeWord i => exact inv_writeWord h i
  | writeTick => exact inv_writeTick h
  | writePublish => exact inv_writePublish h hok
  | tick => exact inv_tick h
  | readSeq => exact inv_readSeq h
  | readWord i => exact inv_readWord h i
  | readTick => exact inv_readTick h
  | readCheck => exact inv_readCheck h
  | reload => exact inv_reload h

theorem inv_run (initial : Words ι) (as : List (Act ι))
    (hok : Steps step NoWriteInWindow (init initial) as) : Inv (run step (init initial) as) :=
  run_inv_of_steps inv_step as (inv_init initial) hok

omit [DecidableEq ι] [Fintype ι] in
theorem Inv.fresh_of_cachedPath {s : Sys ι} (h : Inv s) (hc : TakesCachedPath s) : Fresh s := by
  obtain ⟨hidle, hseq, hm⟩ := hc
  have hrd := h.reader
  simp only [ReaderOk, Reader.eq_idle hidle, ← hseq, h.slotOk.seq_of_stable hm] at hrd
  rcases hrd with hs | ⟨k, hk, hks, hfresh⟩
  · exact absurd hs (stableSeq_ne_sentinel _)
  · exact hfresh (stableSeq_inj (by have := h.bound; omega) h.bound hks.symm)

/-- A tick on the cached path changes nothing, so whatever the cache serves it goes on serving. -/
theorem tick_of_cachedPath {s : Sys ι} (hc : TakesCachedPath s) : step s .tick = s := by
  simp only [step, Reader.eq_idle hc.1, hc.2.1]
  rw [if_neg (by rw [← hc.2.1, hc.2.2]; simp)]

/-- In a run in which no write completes inside the refresh window, every tick that takes the
    cached path runs on the parameters and publish tick of the last completed write. -/
theorem cached_is_last (initial : Words ι) (as : List (Act ι))
    (hok : Steps step NoWriteInWindow (init initial) as)
    (hc : TakesCachedPath (run step (init initial) as)) : Fresh (run step (init initial) as) :=
  (inv_run initial as hok).fresh_of_cachedPath hc

/-! ### Uninterrupted, the steps are the slot's operations -/

theorem run_writeWords (q : BitVec 64) (p : Words ι) (t : Nat) (tickDone : Bool) :
    ∀ (ws : List ι) (s : Sys ι) (done : ι → Bool), s.writer = .copying q p t done tickDone →
      run step s (ws.map .writeWord) =
        { s with
          slot := { s.slot with
            buffers := Function.update s.slot.buffers (!activeIdx q)
              fun i => if i ∈ ws then p i else s.slot.buffers (!activeIdx q) i }
          writer := .copying q p t (fun i => done i || decide (i ∈ ws)) tickDone }
  | [], s, done, hw => by simp [← hw]
  | w :: ws, s, done, hw => by
    rw [List.map_cons, run_cons, run_writeWords q p t tickDone ws _ (Function.update done w true)
      (by simp only [step, hw])]
    simp only [step, hw, Function.update_self, Function.update_idem]
    congr 2
    · congr 2
      funext i
      by_cases hiw : i = w <;> by_cases hi : i ∈ ws <;> simp [hiw, hi]
    · funext i
      by_cases hiw : i = w <;> simp [hiw]

/-- A write nobody interrupts is `ParameterSlot.write`. -/
theorem run_write (s : Sys ι) (hw : s.writer = .idle) (p : Words ι) (t : Nat) {ws : List ι}
    (hall : ∀ i, i ∈ ws) :
    run step s ([.writeBegin p t, .writeMark] ++ ws.map .writeWord ++ [.writeTick, .writePublish]) =
      { s with slot := s.slot.write p t, last := (p, t), writes := s.writes + 1 } := by
  rw [run_append, run_append, run_writeWords s.slot.seq p t false ws _ (fun _ => false)
    (by simp only [run_cons, run_nil, step, hw])]
  simp only [run_cons, run_nil, step, hw, hall, if_true, decide_true, Bool.or_true, implies_true,
    and_self, ParameterSlot.write]

theorem run_readWords (s1 : BitVec 64) (tickDone : Bool) :
    ∀ (ws : List ι) (s : Sys ι) (done : ι → Bool), s.reader = .copying s1 done tickDone →
      run step s (ws.map .readWord) =
        { s with
          cachedParams := fun i =>
            if i ∈ ws then s.slot.buffers (activeIdx s1) i else s.cachedParams i
          reader := .copying s1 (fun i => done i || decide (i ∈ ws)) tickDone }
  | [], s, done, hr => by simp [← hr]
  | w :: ws, s, done, hr => by
    rw [List.map_cons, run_cons, run_readWords s1 tickDone ws _ (Function.update done w true)
      (by simp only [step, hr])]
    simp only [step, hr]
    congr 2
    · funext i
      by_cases hiw : i = w <;> by_cases hi : i ∈ ws <;> simp [hiw, hi]
    · funext i
      by_cases hiw : i = w <;> simp [hiw]

/-- A refresh nobody interrupts copies `ParameterSlot.read` into the cache. -/
theorem run_read (s : Sys ι) (hr : s.reader = .reading) (hm : midWrite s.slot.seq = false)
    {ws : List ι} (hall : ∀ i, i ∈ ws) :
    run step s ([.readSeq] ++ ws.map .readWord ++ [.readTick, .readCheck]) =
      { s with
        cachedParams := s.slot.read.1, cachedPublishTick := s.slot.read.2, reader := .reloading } := by
  rw [run_append, run_append, run_readWords s.slot.seq false ws _ (fun _ => false)
    (by simp only [run_cons, run_nil, step, hr, hm, Bool.false_eq_true, if_false])]
  simp only [run_cons, run_nil, step, hr, hm, Bool.false_eq_true, if_false, hall, if_true, decide_true,
    Bool.or_true, implies_true, and_self, ParameterSlot.read]

/-! ### The window at work -/

/-- The 192 bytes of a pack, all words alike. -/
def pack (w : BitVec 64) : Words (Fin 24) := fun _ => w

/-- A whole uninterrupted write of a pack. -/
def wholeWrite (p : Words (Fin 24)) (t : Nat) : List (Act (Fin 24)) :=
  [.writeBegin p t, .writeMark] ++ (List.finRange 24).map .writeWord ++ [.writeTick, .writePublish]

/-- A tick's refresh, up to the check that the counter did not move. -/
def refreshToCheck : List (Act (Fin 24)) :=
  [.tick, .readSeq] ++ (List.finRange 24).map .readWord ++ [.readTick, .readCheck]

theorem cached_is_last_after_write :
    Fresh (run step (init (pack 0)) (wholeWrite (pack 1) 7 ++ refreshToCheck ++ [.reload])) := by
  exact cached_is_last _ _ (by decide +kernel) (by decide +kernel)

/-- One write between the check and the reload: the core remembers its counter, has none of its
    parameters, and takes the cached path. -/
theorem write_in_window_masked :
    TakesCachedPath (run step (init (pack 0)) (refreshToCheck ++ wholeWrite (pack 1) 7 ++ [.reload])) ∧
      ¬ Fresh (run step (init (pack 0)) (refreshToCheck ++ wholeWrite (pack 1) 7 ++ [.reload])) := by
  decide +kernel

end ParameterCache

end FoxTrader
