import FoxTrader.Lib.Run
import FoxTrader.Lib.Fifo
import FoxTrader.OrderEventLog

/-! # The log behind its writer thread

    With the writer thread running, `Append` and `RequestTruncate` only push into a bounded ring and
    the writer applies what it pops. The appender owns the id counter, the writer the array and the
    file; a truncate request is a control record in the same ring. Every step of either thread is
    one action, so a list of actions is one interleaving. The invariant is a simulation: applying
    what the writer holds and what the ring holds to the array gives the log that direct calls would
    have left, so once both are empty the file is that log. -/

namespace FoxTrader

open Lib

/-- `ORDER_EVENT_LOG_ASYNC_RING_SIZE`. -/
abbrev asyncRingSize : Nat := 256

namespace OrderEventLog

/-- The type code that never reaches the disk. -/
def isCtrl (e : OrderEventImage) : Bool := e.type = OrderEventType.ctrlTruncate.code

/-- What callers append: a record of any type but the reserved control one. -/
abbrev DataEvent := { e : OrderEventImage // isCtrl e = false }

/-- The control record `RequestTruncate` pushes: zeroes and its type. -/
def ctrlRecord : OrderEventImage :=
  { eventId := 0, orderId := 0, timestampUs := 0, type := OrderEventType.ctrlTruncate.code, orderType := 0
    nodeId := 0, pad := 0, price := 0, qty := 0, tp := 0, sl := 0, fee := 0
    reason := OrderEventImage.noReason }

/-- The appender is between calls, spinning on the ring, or about to reset its id sequence. -/
inductive Appender where
  | idle
  | pushing (event : DataEvent)
  | pushingCtrl
  | resettingId

/-- The writer is at the top of its drain loop, holds a popped record, is about to look at the stop
    flag, or is in the final drain pass; the flag of `applying` says which pass. -/
inductive Writer where
  | draining
  | applying (final : Bool) (event : OrderEventImage)
  | checking
  | finalDraining
  | exited

structure AsyncLog where
  log : OrderEventLog OrderEventImage
  ring : Fifo OrderEventImage asyncRingSize
  appender : Appender
  writer : Writer
  writerShouldStop : Bool
  ringFullSpins : Nat
  writerReallocFailedCount : Nat
  -- ghosts: the data records pushed since the last control record, and whether there was one
  sinceTruncate : List OrderEventImage
  truncated : Bool

inductive AsyncAct where
  | append (event : DataEvent)
  | requestTruncate
  | tryPush
  | resetId
  | stopWriter
  | pop
  | apply
  | checkStop

/-- `StartAsyncWriter` on a log. -/
def start (log : OrderEventLog OrderEventImage) : AsyncLog :=
  { log := log, ring := .empty, appender := .idle, writer := .draining, writerShouldStop := false
    ringFullSpins := 0, writerReallocFailedCount := 0, sinceTruncate := [], truncated := false }

/-- The event with the id `Append` gives it. -/
def DataEvent.numbered (e : DataEvent) (id : BitVec 64) : DataEvent := ⟨{ e.1 with eventId := id }, e.2⟩

/-- What the writer does with one popped record. -/
def writerApply (log : OrderEventLog OrderEventImage) (event : OrderEventImage) :
    OrderEventLog OrderEventImage :=
  if isCtrl event then truncateDisk { log with entries := [] } else log.applyEvent event

def asyncStep (s : AsyncLog) : AsyncAct → AsyncLog
  | .append e =>
    match s.appender with
    | .idle =>
      { s with
        log := { s.log with nextEventId := s.log.nextEventId + 1 }
        appender := .pushing (e.numbered s.log.nextEventId) }
    | _ => s
  | .requestTruncate =>
    match s.appender with
    | .idle => { s with appender := .pushingCtrl }
    | _ => s
  | .tryPush =>
    match s.appender with
    | .pushing e =>
      if (s.ring.tryPush e.1).1 then
        { s with
          ring := (s.ring.tryPush e.1).2, appender := .idle, sinceTruncate := s.sinceTruncate ++ [e.1] }
      else { s with ringFullSpins := s.ringFullSpins + 1 }
    | .pushingCtrl =>
      if (s.ring.tryPush ctrlRecord).1 then
        { s with
          ring := (s.ring.tryPush ctrlRecord).2, appender := .resettingId, sinceTruncate := []
          truncated := true }
      else { s with ringFullSpins := s.ringFullSpins + 1 }
    | _ => s
  | .resetId =>
    match s.appender with
    | .resettingId => { s with log := { s.log with nextEventId := 1 }, appender := .idle }
    | _ => s
  | .stopWriter => { s with writerShouldStop := true }
  | .pop =>
    match s.writer with
    | .draining =>
      match s.ring.tryPop.1 with
      | some e => { s with ring := s.ring.tryPop.2, writer := .applying false e }
      | none => { s with writer := .checking }
    | .finalDraining =>
      match s.ring.tryPop.1 with
      | some e => { s with ring := s.ring.tryPop.2, writer := .applying true e }
      | none => { s with writer := .exited }
    | _ => s
  | .apply =>
    match s.writer with
    | .applying final e =>
      { s with
        log := writerApply s.log e
        writer := if final then .finalDraining else .draining
        writerReallocFailedCount :=
          if !final && !isCtrl e && decide (s.log.entries.length ≥ s.log.capacity)
          then s.writerReallocFailedCount + 1 else s.writerReallocFailedCount }
    | _ => s
  | .checkStop =>
    match s.writer with
    | .checking => { s with writer := if s.writerShouldStop then .finalDraining else .draining }
    | _ => s

/-- The record the writer has popped and not yet applied. -/
def Writer.held : Writer → List OrderEventImage
  | .applying _ e => [e]
  | _ => []

/-- The writer has caught up: nothing in the ring and nothing in its hands. -/
def CaughtUp (s : AsyncLog) : Prop := s.ring.items = [] ∧ s.writer.held = []

instance (s : AsyncLog) : Decidable (CaughtUp s) := inferInstanceAs (Decidable (_ ∧ _))

/-! ### What direct calls would have left -/

/-- One record on the array: a control record clears it, a full array drops the rest. -/
def applyRecord (capacity : Nat) (entries : List OrderEventImage) (e : OrderEventImage) :
    List OrderEventImage :=
  if isCtrl e then [] else if entries.length ≥ capacity then entries else entries ++ [e]

theorem applyRecord_data {e : OrderEventImage} (he : isCtrl e = false) (capacity : Nat)
    (es : List OrderEventImage) : applyRecord capacity (es.take capacity) e = (es ++ [e]).take capacity := by
  rw [applyRecord, he, if_neg Bool.false_ne_true, List.take_append]
  by_cases hfull : capacity ≤ es.length
  · rw [if_pos (by rw [List.length_take]; omega), Nat.sub_eq_zero_of_le hfull, List.take_zero,
      List.append_nil]
  · rw [if_neg (by rw [List.length_take]; omega), List.take_of_length_le (by omega),
      List.take_of_length_le (by simp; omega)]

theorem applyRecord_ctrl (capacity : Nat) (es : List OrderEventImage) :
    applyRecord capacity es ctrlRecord = [] := rfl

/-- The bytes of a log with these records. -/
def fileOf (entries : List OrderEventImage) : List UInt8 :=
  OrderEventLogFileHeader.currentBytes ++ OrderEventImage.codec.encAll entries

/-- A log open on a clean file: no torn tail, no control record, no more records than fit. -/
structure Clean (log : OrderEventLog OrderEventImage) : Prop where
  room : log.entries.length ≤ log.capacity
  data : ∀ e ∈ log.entries, isCtrl e = false
  disk : log.diskFile = some (fileOf log.entries)

/-- The writer's step keeps array and file together. -/
theorem writerApply_clean {log : OrderEventLog OrderEventImage} (h : Clean log) (e : OrderEventImage) :
    Clean (writerApply log e) ∧ (writerApply log e).capacity = log.capacity ∧
      (writerApply log e).entries = applyRecord log.capacity log.entries e ∧
      (writerApply log e).nextEventId = log.nextEventId := by
  unfold writerApply applyRecord applyEvent
  cases hc : isCtrl e with
  | true =>
    refine ⟨⟨Nat.zero_le _, by simp [truncateDisk], ?_⟩, rfl, rfl, rfl⟩
    simp [truncateDisk, h.disk, fileOf]
  | false =>
    simp only [Bool.false_eq_true, if_false]
    by_cases hfull : log.entries.length ≥ log.capacity
    · rw [if_pos hfull, if_pos hfull]
      exact ⟨⟨h.room, h.data, h.disk⟩, rfl, rfl, rfl⟩
    · rw [if_neg hfull, if_neg hfull]
      refine ⟨⟨by simp; omega, ?_, ?_⟩, rfl, rfl, rfl⟩
      · intro x hx
        rcases List.mem_append.1 hx with hx | hx
        · exact h.data x hx
        · rwa [List.mem_singleton.1 hx]
      · simp only [h.disk, Option.map_some, fileOf, Codec.encAll_append, Codec.encAll_cons, Codec.encAll_nil,
          List.append_nil, List.append_assoc]
        rfl

/-! ### The invariant -/

/-- Consecutive ids from `first`. -/
def idsFrom (first : Nat) (k : Nat) : List (BitVec 64) := (List.range' first k).map (BitVec.ofNat 64)

theorem idsFrom_succ (first k : Nat) : idsFrom first (k + 1) = idsFrom first k ++ [BitVec.ofNat 64 (first + k)] := by
  rw [idsFrom, List.range'_1_concat, List.map_append]; rfl

variable (log₀ : OrderEventLog OrderEventImage)

/-- What the log starts from: its records at the boot, or nothing once truncated. -/
def base (s : AsyncLog) : List OrderEventImage := if s.truncated then [] else log₀.entries

def firstId (s : AsyncLog) : Nat := if s.truncated then 1 else log₀.nextEventId.toNat

/-- The id counter is where the next pushed record needs it. -/
def AppenderOk (s : AsyncLog) : Prop :=
  match s.appender with
  | .idle | .pushingCtrl => s.log.nextEventId = .ofNat 64 (firstId log₀ s + s.sinceTruncate.length)
  | .pushing e =>
    e.1.eventId = .ofNat 64 (firstId log₀ s + s.sinceTruncate.length) ∧
      s.log.nextEventId = .ofNat 64 (firstId log₀ s + s.sinceTruncate.length + 1)
  | .resettingId => s.truncated = true ∧ s.sinceTruncate = []

structure AsyncInv (s : AsyncLog) : Prop where
  clean : Clean s.log
  capacity : s.log.capacity = log₀.capacity
  pending : (s.writer.held ++ s.ring.items).foldl (applyRecord log₀.capacity) s.log.entries =
    (base log₀ s ++ s.sinceTruncate).take log₀.capacity
  ids : s.sinceTruncate.map (·.eventId) = idsFrom (firstId log₀ s) s.sinceTruncate.length
  appender : AppenderOk log₀ s

variable {log₀}

theorem asyncInv_start (h : Clean log₀) : AsyncInv log₀ (start log₀) := by
  refine ⟨h, rfl, ?_, rfl, ?_⟩
  · simp [start, Writer.held, base, List.take_of_length_le h.room]
  · simp [start, AppenderOk, firstId]

theorem ofNat_succ (n : Nat) : BitVec.ofNat 64 n + 1 = BitVec.ofNat 64 (n + 1) := by
  rw [BitVec.ofNat_add]; rfl

/-! ### The appender's steps -/

theorem asyncInv_append {s : AsyncLog} (h : AsyncInv log₀ s) (e : DataEvent) :
    AsyncInv log₀ (asyncStep s (.append e)) := by
  cases ha : s.appender with
  | idle =>
    have hnext := h.appender
    simp only [AppenderOk, ha] at hnext
    simp only [asyncStep, ha]
    exact ⟨⟨h.clean.room, h.clean.data, h.clean.disk⟩, h.capacity, h.pending, h.ids, hnext,
      (congrArg (· + 1) hnext).trans (ofNat_succ _)⟩
  | _ => simpa only [asyncStep, ha] using h

theorem asyncInv_requestTruncate {s : AsyncLog} (h : AsyncInv log₀ s) :
    AsyncInv log₀ (asyncStep s .requestTruncate) := by
  cases ha : s.appender with
  | idle =>
    have hnext := h.appender
    simp only [AppenderOk, ha] at hnext
    simp only [asyncStep, ha]
    exact ⟨h.clean, h.capacity, h.pending, h.ids, hnext⟩
  | _ => simpa only [asyncStep, ha] using h

/-- A push that goes in extends what the pending records will build; one that does not spins. -/
theorem asyncInv_tryPush {s : AsyncLog} (h : AsyncInv log₀ s) : AsyncInv log₀ (asyncStep s .tryPush) := by
  have hap := h.appender
  cases ha : s.appender with
  | pushing e =>
    simp only [AppenderOk, ha] at hap
    simp only [asyncStep, ha]
    split
    next hok =>
      have hitems := Fifo.tryPush_items_of_ok hok
      refine ⟨h.clean, h.capacity, ?_, ?_, ?_⟩
      · simp only [hitems, ← List.append_assoc, List.foldl_append, List.foldl_cons, List.foldl_nil, base]
        rw [← List.foldl_append, h.pending, applyRecord_data e.2]
        rfl
      · simp only [List.map_append, h.ids, List.length_append, List.map_cons, List.map_nil,
          List.length_singleton, idsFrom_succ, firstId]
        rw [hap.1]
        rfl
      · simpa only [AppenderOk, firstId, List.length_append, List.length_singleton, ← Nat.add_assoc] using hap.2
    next =>
      refine ⟨h.clean, h.capacity, h.pending, h.ids, ?_⟩
      simpa only [AppenderOk, firstId, ha] using hap
  | pushingCtrl =>
    simp only [AppenderOk, ha] at hap
    simp only [asyncStep, ha]
    split
    next hok =>
      have hitems := Fifo.tryPush_items_of_ok hok
      refine ⟨h.clean, h.capacity, ?_, rfl, rfl, rfl⟩
      simp only [hitems, ← List.append_assoc, List.foldl_append, List.foldl_cons, List.foldl_nil, base,
        applyRecord_ctrl, if_true, List.append_nil, List.take_nil]
    next =>
      refine ⟨h.clean, h.capacity, h.pending, h.ids, ?_⟩
      simpa only [AppenderOk, firstId, ha] using hap
  | _ => simpa only [asyncStep, ha] using h

theorem asyncInv_resetId {s : AsyncLog} (h : AsyncInv log₀ s) : AsyncInv log₀ (asyncStep s .resetId) := by
  cases ha : s.appender with
  | resettingId =>
    have hap := h.appender
    simp only [AppenderOk, ha] at hap
    simp only [asyncStep, ha]
    refine ⟨⟨h.clean.room, h.clean.data, h.clean.disk⟩, h.capacity, h.pending, h.ids, ?_⟩
    simp [AppenderOk, firstId, hap.1, hap.2]
  | _ => simpa only [asyncStep, ha] using h

/-! ### The writer's steps -/

/-- A record moves from the ring into the writer's hands. -/
theorem held_of_pop {s : AsyncLog} {e : OrderEventImage} (hheld : s.writer.held = [])
    (hp : s.ring.tryPop.1 = some e) :
    s.writer.held ++ s.ring.items = [e] ++ s.ring.tryPop.2.items := by
  rw [hheld, Fifo.tryPop_some hp]; rfl

theorem asyncInv_pop {s : AsyncLog} (h : AsyncInv log₀ s) : AsyncInv log₀ (asyncStep s .pop) := by
  have hpend := h.pending
  cases hw : s.writer with
  | draining =>
    simp only [asyncStep, hw]
    cases hp : s.ring.tryPop.1 with
    | some e =>
      rw [held_of_pop (by rw [hw]; rfl) hp] at hpend
      exact ⟨h.clean, h.capacity, hpend, h.ids, h.appender⟩
    | none =>
      rw [hw] at hpend
      exact ⟨h.clean, h.capacity, hpend, h.ids, h.appender⟩
  | finalDraining =>
    simp only [asyncStep, hw]
    cases hp : s.ring.tryPop.1 with
    | some e =>
      rw [held_of_pop (by rw [hw]; rfl) hp] at hpend
      exact ⟨h.clean, h.capacity, hpend, h.ids, h.appender⟩
    | none =>
      rw [hw] at hpend
      exact ⟨h.clean, h.capacity, hpend, h.ids, h.appender⟩
  | _ => simpa only [asyncStep, hw] using h

theorem asyncInv_apply {s : AsyncLog} (h : AsyncInv log₀ s) : AsyncInv log₀ (asyncStep s .apply) := by
  cases hw : s.writer with
  | applying final e =>
    have hpend := h.pending
    rw [hw] at hpend
    obtain ⟨hclean, hcap, hent, hid⟩ := writerApply_clean h.clean e
    have hap := h.appender
    simp only [asyncStep, hw]
    refine ⟨hclean, hcap.trans h.capacity, ?_, h.ids, ?_⟩
    · have hheld : (if final then Writer.finalDraining else Writer.draining).held = [] := by
        cases final <;> rfl
      simp only [hheld, List.nil_append, hent, h.capacity]
      exact hpend
    · simpa only [AppenderOk, firstId, hid] using hap
  | _ => simpa only [asyncStep, hw] using h

theorem asyncInv_checkStop {s : AsyncLog} (h : AsyncInv log₀ s) : AsyncInv log₀ (asyncStep s .checkStop) := by
  cases hw : s.writer with
  | checking =>
    have hpend := h.pending
    rw [hw] at hpend
    simp only [asyncStep, hw]
    refine ⟨h.clean, h.capacity, ?_, h.ids, h.appender⟩
    cases s.writerShouldStop <;> exact hpend
  | _ => simpa only [asyncStep, hw] using h

theorem asyncInv_step (s : AsyncLog) (a : AsyncAct) (h : AsyncInv log₀ s) : AsyncInv log₀ (asyncStep s a) := by
  cases a with
  | append e => exact asyncInv_append h e
  | requestTruncate => exact asyncInv_requestTruncate h
  | tryPush => exact asyncInv_tryPush h
  | resetId => exact asyncInv_resetId h
  | stopWriter => exact ⟨h.clean, h.capacity, h.pending, h.ids, h.appender⟩
  | pop => exact asyncInv_pop h
  | apply => exact asyncInv_apply h
  | checkStop => exact asyncInv_checkStop h

/-- A first start: `Init`, then `InitWithFile` on a path with no file. -/
def fresh : OrderEventLog OrderEventImage := (initWithFile init none).1

theorem fresh_clean : Clean fresh := ⟨Nat.zero_le _, fun _ he => absurd he List.not_mem_nil, rfl⟩

/-- Two events with a truncate request in between, all pushed before the writer runs. -/
def truncateBetween (e e' : DataEvent) : List AsyncAct :=
  [.append e, .tryPush, .requestTruncate, .tryPush, .resetId, .append e', .tryPush,
    .pop, .apply, .pop, .apply, .pop, .apply]

end OrderEventLog

end FoxTrader
