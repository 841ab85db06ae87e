import Mathlib.Data.Int.Init
import FoxTrader.Lib.CString
import FoxTrader.Lib.CountedRing
import FoxTrader.Lib.Throughput

/-! # The alert queue

    Any thread hands an alert to `Notify_Send`, which puts it into a ring of 64 under the mutex; one
    worker takes alerts out and calls the backend without the mutex; `NotifyState_Shutdown` asks the
    worker to stop and waits for it. What a thread does under the mutex is one step, so a list of
    actions is one interleaving. The clock is read before the mutex is taken: a send carries its
    reading, and readings may come in any order.

    A send that found `worker_started` and takes the mutex after the shutdown destroyed it is not
    modelled. -/

namespace FoxTrader

open Lib Function

/-- `NOTIFY_QUEUE_CAP`. -/
abbrev notifyQueueCap : ℕ := 64

/-- `NOTIFY_KINDS_MAX`. -/
abbrev notifyKindsMax : ℤ := 16

/-- What `strncpy` leaves of a text in an array of `cap + 1` bytes, a null pointer as the empty text. -/
def copied (cap : ℕ) (text : Option (List Char)) : List Char := (text.getD []).take cap

theorem copied_lt (cap : ℕ) (text : Option (List Char)) : (copied cap text).length < cap + 1 :=
  Nat.lt_succ_of_le (List.length_take_le ..)

def copiedInto (cap : ℕ) (text : Option (List Char)) : CharBuf (cap + 1) := ⟨copied cap text, copied_lt cap text⟩

structure NotifyEvent where
  level : ℤ
  eventKind : ℤ
  timestampUs : BitVec 64
  subject : CharBuf 128
  body : CharBuf 512

/-- An event of zero bytes. -/
def NotifyEvent.zero : NotifyEvent :=
  { level := 0, eventKind := 0, timestampUs := 0, subject := copiedInto 127 none, body := copiedInto 511 none }

structure NotifyState where
  ring : CountedRing NotifyEvent
  shutdown : Bool
  lastFiredUs : ℤ → BitVec 64
  cooldownUs : BitVec 64
  workerStarted : Bool

/-- What becomes of a send: no worker, silent inside the cooldown, dropped on a full queue, or queued. -/
inductive Sent where
  | ignored
  | silent
  | dropped
  | queued (ev : NotifyEvent)

/-- The kind has an entry in `last_fired_us`. -/
def hasCooldown (kind : ℤ) : Bool := decide (0 ≤ kind) && decide (kind < notifyKindsMax)

namespace NotifyState

/-- `last_fired_us[kind] != 0 && now - last_fired_us[kind] < cooldown_us`. -/
def coolingDown (ns : NotifyState) (kind : ℤ) (now : BitVec 64) : Bool :=
  hasCooldown kind && (ns.lastFiredUs kind != 0 && decide (now - ns.lastFiredUs kind < ns.cooldownUs))

/-- `last_fired_us[kind] = now`, before the capacity is looked at. -/
def fire (ns : NotifyState) (kind : ℤ) (now : BitVec 64) : NotifyState :=
  if hasCooldown kind then { ns with lastFiredUs := update ns.lastFiredUs kind now } else ns

def enqueue (ns : NotifyState) (ev : NotifyEvent) : NotifyState :=
  { ns with ring := ns.ring.push notifyQueueCap ev }

end NotifyState

/-- The alert a send builds in its slot. -/
def sentEvent (now : BitVec 64) (level kind : ℤ) (subject body : Option (List Char)) : NotifyEvent :=
  { level, eventKind := kind, timestampUs := now, subject := copiedInto 127 subject, body := copiedInto 511 body }

/-- `Notify_Send`, with the clock reading it took. -/
def notifySend (ns : NotifyState) (now : BitVec 64) (level kind : ℤ) (subject body : Option (List Char)) :
    NotifyState × Sent :=
  if !ns.workerStarted then (ns, .ignored)
  else if ns.coolingDown kind now then (ns, .silent)
  else if ns.ring.count ≥ notifyQueueCap then (ns.fire kind now, .dropped)
  else
    ((ns.fire kind now).enqueue (sentEvent now level kind subject body),
      .queued (sentEvent now level kind subject body))

namespace NotifyQueue

/-- The worker is at the head of its loop, in `pthread_cond_wait`, in the backend, or gone; the flag of `waiting`
    says that it was signalled. A worker that could not be created is `absent`. -/
inductive Worker where
  | looking
  | waiting (signalled : Bool)
  | delivering (ev : NotifyEvent)
  | exited
  | absent

/-- `pthread_cond_signal`. -/
def Worker.signal : Worker → Worker
  | .waiting _ => .waiting true
  | worker => worker

structure Sys where
  ns : NotifyState
  worker : Worker

/-- A send by any thread, the worker up to where it next gives the mutex away, a wakeup nobody asked for, and the
    two halves of `NotifyState_Shutdown`. -/
inductive Act where
  | send (now : BitVec 64) (level kind : ℤ) (subject body : Option (List Char))
  | worker
  | wakeup
  | requestShutdown
  | join

/-- `NotifyState_Init`, where `created` says that `pthread_create` succeeded. -/
def init (created : Bool) (cooldownUs : BitVec 64) : Sys where
  ns :=
    { ring := { cells := fun _ => .zero, head := 0, tail := 0, count := 0 }
      shutdown := false, lastFiredUs := fun _ => 0, cooldownUs, workerStarted := created }
  worker := if created then .looking else .absent

/-- The worker with the mutex at the head of its loop: it waits, takes an alert out, or leaves. -/
def look (ns : NotifyState) : NotifyState × Worker :=
  if ns.ring.count = 0 ∧ ns.shutdown = false then (ns, .waiting false)
  else if 0 < ns.ring.count then
    ({ ns with ring := ns.ring.pop notifyQueueCap }, .delivering (ns.ring.cells ns.ring.head))
  else (ns, .exited)

def step (s : Sys) : Act → Sys
  | .send now level kind subject body =>
    let after := notifySend s.ns now level kind subject body
    match after.2 with
    | .queued _ => { ns := after.1, worker := s.worker.signal }
    | _ => { s with ns := after.1 }
  | .worker =>
    match s.worker with
    | .looking => { ns := (look s.ns).1, worker := (look s.ns).2 }
    | .waiting true => { s with worker := .looking }
    | .delivering _ => { s with worker := .looking }
    | _ => s
  | .wakeup =>
    match s.worker with
    | .waiting _ => { s with worker := .looking }
    | _ => s
  | .requestShutdown =>
    if s.ns.workerStarted then { ns := { s.ns with shutdown := true }, worker := s.worker.signal } else s
  | .join =>
    match s.worker with
    | .exited => { s with ns := { s.ns with workerStarted := false } }
    | _ => s

/-- The alerts a step queues. -/
def accepts (s : Sys) : Act → List NotifyEvent
  | .send now level kind subject body =>
    match (notifySend s.ns now level kind subject body).2 with
    | .queued ev => [ev]
    | _ => []
  | _ => []

/-- The alerts a step gives to the backend. -/
def delivers (s : Sys) : Act → List NotifyEvent
  | .worker =>
    match s.worker with
    | .delivering ev => [ev]
    | _ => []
  | _ => []

/-- The alerts queued in a run. -/
def accepted (s : Sys) (as : List Act) : List NotifyEvent := outputs step accepts s as

/-- The alerts given to the backend in a run. -/
def delivered (s : Sys) (as : List Act) : List NotifyEvent := outputs step delivers s as

/-- The alert the worker has taken out and not yet given away. -/
def Worker.inHand : Worker → List NotifyEvent
  | .delivering ev => [ev]
  | _ => []

def Sys.queued (s : Sys) : List NotifyEvent := s.ns.ring.contents notifyQueueCap

/-- What the worker still has to give to the backend. -/
def Sys.outstanding (s : Sys) : List NotifyEvent := s.worker.inHand ++ s.queued

end NotifyQueue

/-! ### A send -/

section Send

variable (ns : NotifyState) (now : BitVec 64) (level kind : ℤ) (subject body : Option (List Char)) (ev : NotifyEvent)

@[simp] theorem fire_ring : (ns.fire kind now).ring = ns.ring := by unfold NotifyState.fire; split <;> rfl

@[simp] theorem fire_shutdown : (ns.fire kind now).shutdown = ns.shutdown := by unfold NotifyState.fire; split <;> rfl

@[simp] theorem fire_cooldownUs : (ns.fire kind now).cooldownUs = ns.cooldownUs := by
  unfold NotifyState.fire; split <;> rfl

@[simp] theorem fire_workerStarted : (ns.fire kind now).workerStarted = ns.workerStarted := by
  unfold NotifyState.fire; split <;> rfl

@[simp] theorem enqueue_shutdown : (ns.enqueue ev).shutdown = ns.shutdown := rfl

@[simp] theorem enqueue_lastFiredUs : (ns.enqueue ev).lastFiredUs = ns.lastFiredUs := rfl

@[simp] theorem enqueue_cooldownUs : (ns.enqueue ev).cooldownUs = ns.cooldownUs := rfl

@[simp] theorem enqueue_workerStarted : (ns.enqueue ev).workerStarted = ns.workerStarted := rfl

/-- All that a send can do. -/
theorem notifySend_cases :
    ((ns.workerStarted = false ∨ ns.coolingDown kind now = true) ∧
      (notifySend ns now level kind subject body).1 = ns ∧
      ((notifySend ns now level kind subject body).2 = .ignored ∨
        (notifySend ns now level kind subject body).2 = .silent)) ∨
    (ns.workerStarted = true ∧ ns.coolingDown kind now = false ∧ notifyQueueCap ≤ ns.ring.count ∧
      notifySend ns now level kind subject body = (ns.fire kind now, .dropped)) ∨
    (ns.workerStarted = true ∧ ns.coolingDown kind now = false ∧ ns.ring.count < notifyQueueCap ∧
      notifySend ns now level kind subject body =
        ((ns.fire kind now).enqueue (sentEvent now level kind subject body),
          .queued (sentEvent now level kind subject body))) := by
  unfold notifySend
  cases hstarted : ns.workerStarted with
  | false => exact .inl ⟨.inl rfl, rfl, .inl rfl⟩
  | true =>
    cases hcool : ns.coolingDown kind now with
    | true => exact .inl ⟨.inr rfl, rfl, .inr rfl⟩
    | false =>
      by_cases hfull : notifyQueueCap ≤ ns.ring.count
      · exact .inr (.inl ⟨rfl, rfl, hfull, by simp [hfull]⟩)
      · exact .inr (.inr ⟨rfl, rfl, by omega, by simp [hfull]⟩)

end Send

namespace NotifyQueue

/-- What holds between any two steps. A worker that waits and was not signalled has nothing to do. -/
structure Inv (s : Sys) : Prop where
  ring : s.ns.ring.Wf notifyQueueCap
  waiting : s.worker = .waiting false → s.ns.ring.count = 0 ∧ s.ns.shutdown = false
  exited : s.worker = .exited → s.ns.shutdown = true
  started : s.worker = .exited ∨ s.worker = .absent ∨ s.ns.workerStarted = true
  absent : s.worker = .absent → s.ns.workerStarted = false ∧ s.ns.shutdown = false

theorem inv_init (created : Bool) (cooldownUs : BitVec 64) : Inv (init created cooldownUs) where
  ring := { head_lt := Nat.zero_lt_succ 63, tail_eq := rfl, count_le := Nat.zero_le _ }
  waiting := by cases created <;> exact fun h => nomatch h
  exited := by cases created <;> exact fun h => nomatch h
  started := by cases created <;> simp [init]
  absent := by cases created <;> simp [init]

variable {s : Sys}

theorem signal_ne_waiting (worker : Worker) : worker.signal ≠ .waiting false := by
  cases worker <;> exact fun h => nomatch h

@[simp] theorem signal_eq_exited (worker : Worker) : worker.signal = .exited ↔ worker = .exited := by
  cases worker <;> simp [Worker.signal]

@[simp] theorem signal_eq_absent (worker : Worker) : worker.signal = .absent ↔ worker = .absent := by
  cases worker <;> simp [Worker.signal]

@[simp] theorem signal_inHand (worker : Worker) : worker.signal.inHand = worker.inHand := by cases worker <;> rfl

/-- All that a send step can do: nothing that shows, a reading noted, or an alert more in the ring. -/
theorem step_send (s : Sys) (now : BitVec 64) (level kind : ℤ) (subject body : Option (List Char)) :
    (step s (.send now level kind subject body) = s ∧ accepts s (.send now level kind subject body) = []) ∨
    (step s (.send now level kind subject body) = { s with ns := s.ns.fire kind now } ∧
      accepts s (.send now level kind subject body) = []) ∨
    (s.ns.workerStarted = true ∧ s.ns.ring.count < notifyQueueCap ∧
      step s (.send now level kind subject body) =
        { ns := (s.ns.fire kind now).enqueue (sentEvent now level kind subject body), worker := s.worker.signal } ∧
      accepts s (.send now level kind subject body) = [sentEvent now level kind subject body]) := by
  rcases notifySend_cases s.ns now level kind subject body with
    ⟨-, hns, hres | hres⟩ | ⟨-, -, -, hsend⟩ | ⟨hstarted, -, hroom, hsend⟩
  · exact .inl (by simp [step, accepts, hns, hres])
  · exact .inl (by simp [step, accepts, hns, hres])
  · exact .inr (.inl (by simp [step, accepts, hsend]))
  · exact .inr (.inr (by simp [step, accepts, hsend, hstarted, hroom]))

/-- All that the worker can do at the head of its loop. -/
theorem look_cases (ns : NotifyState) :
    (ns.ring.count = 0 ∧ ns.shutdown = false ∧ look ns = (ns, .waiting false)) ∨
    (0 < ns.ring.count ∧
      look ns = ({ ns with ring := ns.ring.pop notifyQueueCap }, .delivering (ns.ring.cells ns.ring.head))) ∨
    (ns.ring.count = 0 ∧ ns.shutdown = true ∧ look ns = (ns, .exited)) := by
  unfold look
  rcases Nat.eq_zero_or_pos ns.ring.count with hnone | hsome
  · cases hshut : ns.shutdown with
    | false => exact .inl ⟨hnone, rfl, by simp [hnone]⟩
    | true => exact .inr (.inr ⟨hnone, rfl, by simp [hnone]⟩)
  · exact .inr (.inl ⟨hsome, by simp [hsome, hsome.ne']⟩)

theorem inv_send (h : Inv s) (now : BitVec 64) (level kind : ℤ) (subject body : Option (List Char)) :
    Inv (step s (.send now level kind subject body)) := by
  rcases step_send s now level kind subject body with ⟨hs, -⟩ | ⟨hs, -⟩ | ⟨hstarted, hroom, hs, -⟩
  · rwa [hs]
  · rw [hs]
    exact { ring := by simpa using h.ring, waiting := by simpa using h.waiting, exited := by simpa using h.exited
            started := by simpa using h.started, absent := by simpa using h.absent }
  · rw [hs]
    refine { ring := ?_, waiting := ?_, exited := ?_, started := ?_, absent := ?_ }
    · have hring : (s.ns.fire kind now).ring = s.ns.ring := fire_ring s.ns now kind
      rw [NotifyState.enqueue, hring]
      exact h.ring.push hroom _
    · exact fun hw => absurd hw (signal_ne_waiting s.worker)
    · simpa using h.exited
    · exact .inr (.inr (by simpa using hstarted))
    · simpa using h.absent

theorem inv_look (h : Inv s) (hlook : s.worker = .looking) : Inv ⟨(look s.ns).1, (look s.ns).2⟩ := by
  have hstarted : s.ns.workerStarted = true := by simpa [hlook] using h.started
  rcases look_cases s.ns with ⟨hnone, hshut, hl⟩ | ⟨hsome, hl⟩ | ⟨-, hshut, hl⟩ <;> rw [hl]
  · exact { ring := h.ring, waiting := fun _ => ⟨hnone, hshut⟩, exited := fun hw => (nomatch hw)
            started := .inr (.inr hstarted), absent := fun hw => (nomatch hw) }
  · exact { ring := h.ring.pop hsome, waiting := fun hw => (nomatch hw), exited := fun hw => (nomatch hw)
            started := .inr (.inr hstarted), absent := fun hw => (nomatch hw) }
  · exact { ring := h.ring, waiting := fun hw => (nomatch hw), exited := fun _ => hshut
            started := .inl rfl, absent := fun hw => (nomatch hw) }

/-- Back at the head of the loop. -/
theorem inv_looking (h : Inv s) (hstarted : s.ns.workerStarted = true) : Inv { s with worker := .looking } :=
  { ring := h.ring, waiting := fun hw => (nomatch hw), exited := fun hw => (nomatch hw)
    started := .inr (.inr hstarted), absent := fun hw => (nomatch hw) }

theorem inv_step (s : Sys) (a : Act) (h : Inv s) : Inv (step s a) := by
  cases a with
  | send now level kind subject body => exact inv_send h now level kind subject body
  | worker =>
    cases hw : s.worker with
    | looking => simpa only [step, hw] using inv_look h hw
    | waiting signalled =>
      cases signalled with
      | false => simpa only [step, hw] using h
      | true => simpa only [step, hw] using inv_looking h (by simpa [hw] using h.started)
    | delivering ev => simpa only [step, hw] using inv_looking h (by simpa [hw] using h.started)
    | exited => simpa only [step, hw] using h
    | absent => simpa only [step, hw] using h
  | wakeup =>
    cases hw : s.worker with
    | waiting signalled => simpa only [step, hw] using inv_looking h (by simpa [hw] using h.started)
    | _ => simpa only [step, hw] using h
  | requestShutdown =>
    rw [step]
    split
    · next hstarted =>
      exact { ring := h.ring, waiting := fun hw => absurd hw (signal_ne_waiting s.worker), exited := fun _ => rfl
              started := .inr (.inr hstarted), absent := by simpa [hstarted] using h.absent }
    · exact h
  | join =>
    cases hw : s.worker with
    | exited =>
      simp only [step, hw]
      exact { ring := h.ring, waiting := fun hw => (nomatch hw), exited := fun _ => h.exited hw, started := .inl rfl
              absent := fun hw => (nomatch hw) }
    | _ => simpa only [step, hw] using h

theorem inv_run (created : Bool) (cooldownUs : BitVec 64) (as : List Act) :
    Inv (run step (init created cooldownUs) as) := run_inv inv_step as (inv_init created cooldownUs)

/-! ### Every alert once, in order -/

/-- An alert goes from a send to the ring, from the ring to the worker's hand, and from there to the backend. -/
theorem flow_step (s : Sys) (a : Act) (h : Inv s) :
    s.outstanding ++ accepts s a = delivers s a ++ (step s a).outstanding := by
  cases a with
  | send now level kind subject body =>
    rcases step_send s now level kind subject body with ⟨hs, hacc⟩ | ⟨hs, hacc⟩ | ⟨-, hroom, hs, hacc⟩
    · rw [hs, hacc, List.append_nil]; rfl
    · rw [hs, hacc, List.append_nil]
      simp [Sys.outstanding, Sys.queued, delivers]
    · have hqueued : ((s.ns.fire kind now).enqueue (sentEvent now level kind subject body)).ring.contents
          notifyQueueCap = s.queued ++ [sentEvent now level kind subject body] := by
        have hring : (s.ns.fire kind now).ring = s.ns.ring := fire_ring s.ns now kind
        rw [NotifyState.enqueue, hring]
        exact CountedRing.contents_push h.ring hroom _
      rw [hs, hacc, Sys.outstanding, List.append_assoc, Sys.outstanding, signal_inHand, Sys.queued, Sys.queued,
        hqueued]
      rfl
  | worker =>
    cases hw : s.worker with
    | looking =>
      rcases look_cases s.ns with ⟨-, -, hl⟩ | ⟨hsome, hl⟩ | ⟨-, -, hl⟩ <;>
        simp only [step, accepts, delivers, Sys.outstanding, hw, hl, List.append_nil, List.nil_append]
      · rfl
      · exact CountedRing.contents_pop h.ring hsome
      · rfl
    | waiting signalled =>
      cases signalled <;> simp [step, accepts, delivers, Sys.outstanding, Sys.queued, hw, Worker.inHand]
    | delivering ev => simp [step, accepts, delivers, Sys.outstanding, Sys.queued, hw, Worker.inHand]
    | _ => simp [step, accepts, delivers, Sys.outstanding, hw]
  | wakeup => cases hw : s.worker <;> simp [step, accepts, delivers, Sys.outstanding, Sys.queued, hw, Worker.inHand]
  | requestShutdown =>
    by_cases hstarted : s.ns.workerStarted = true <;>
      simp [step, accepts, delivers, Sys.outstanding, Sys.queued, hstarted]
  | join => cases hw : s.worker <;> simp [step, accepts, delivers, Sys.outstanding, Sys.queued, hw]

theorem outstanding_init (created : Bool) (cooldownUs : BitVec 64) : (init created cooldownUs).outstanding = [] := by
  cases created <;> rfl

theorem accepted_eq (created : Bool) (cooldownUs : BitVec 64) (as : List Act) :
    accepted (init created cooldownUs) as =
      delivered (init created cooldownUs) as ++ (run step (init created cooldownUs) as).outstanding := by
  have hflow := run_flow inv_step flow_step as (inv_init created cooldownUs)
  rwa [outstanding_init, List.nil_append] at hflow

theorem outstanding_of_waiting (h : Inv s) (hw : s.worker = .waiting false) : s.outstanding = [] := by
  rw [Sys.outstanding, hw]
  exact CountedRing.contents_eq_nil.2 (h.waiting hw).1

/-- Whatever the order of the steps, the backend is given the alerts that were queued, each once and in the order
    they were queued in, with at most 64 of them still in the ring and one in the worker's hand. A worker that
    waits unsignalled has none left to give. -/
theorem notify_exactly_once (created : Bool) (cooldownUs : BitVec 64) (as : List Act) :
    accepted (init created cooldownUs) as =
        delivered (init created cooldownUs) as ++ (run step (init created cooldownUs) as).outstanding ∧
      (run step (init created cooldownUs) as).outstanding.length ≤ notifyQueueCap + 1 ∧
      ((run step (init created cooldownUs) as).worker = .waiting false →
        delivered (init created cooldownUs) as = accepted (init created cooldownUs) as) := by
  have hinv := inv_run created cooldownUs as
  refine ⟨accepted_eq created cooldownUs as, ?_, fun hw => ?_⟩
  · have hring := hinv.ring.count_le
    rw [Sys.outstanding, List.length_append, Sys.queued, CountedRing.length_contents]
    cases (run step (init created cooldownUs) as).worker <;> simp [Worker.inHand] <;> omega
  · rw [accepted_eq, outstanding_of_waiting hinv hw, List.append_nil]

/-! ### Shutdown -/

/-- The turns the worker needs at most before it leaves, once asked to and with no more alerts. -/
def Sys.turnsLeft (s : Sys) : ℕ :=
  3 * s.ns.ring.count + match s.worker with
    | .looking => 1
    | .waiting _ => 2
    | .delivering _ => 2
    | .exited => 0
    | .absent => 0

def Act.isWorker : Act → Bool
  | .worker => true
  | _ => false

/-- The worker was asked to leave. -/
structure Leaving (s : Sys) : Prop where
  inv : Inv s
  shutdown : s.ns.shutdown = true

theorem step_shutdown (s : Sys) (a : Act) (h : s.ns.shutdown = true) : (step s a).ns.shutdown = true := by
  cases a with
  | send now level kind subject body =>
    rcases step_send s now level kind subject body with ⟨hs, -⟩ | ⟨hs, -⟩ | ⟨-, -, hs, -⟩ <;> rw [hs]
    · exact h
    · simpa using h
    · simpa using h
  | worker =>
    cases hw : s.worker with
    | looking =>
      rcases look_cases s.ns with ⟨-, hshut, -⟩ | ⟨-, hl⟩ | ⟨-, -, hl⟩
      · exact absurd (h.symm.trans hshut) (by decide)
      · simpa only [step, hw, hl] using h
      · simpa only [step, hw, hl] using h
    | waiting signalled => cases signalled <;> simpa only [step, hw] using h
    | _ => simpa only [step, hw] using h
  | wakeup => cases hw : s.worker <;> simpa only [step, hw] using h
  | requestShutdown => by_cases hstarted : s.ns.workerStarted = true <;> simp [step, hstarted, h]
  | join => cases hw : s.worker <;> simpa only [step, hw] using h

theorem leaving_step (s : Sys) (a : Act) (h : Leaving s) : Leaving (step s a) :=
  ⟨inv_step s a h.inv, step_shutdown s a h.shutdown⟩

theorem exited_step (s : Sys) (a : Act) (h : s.worker = .exited) : (step s a).worker = .exited := by
  cases a with
  | send now level kind subject body =>
    rcases step_send s now level kind subject body with ⟨hs, -⟩ | ⟨hs, -⟩ | ⟨-, -, hs, -⟩ <;> rw [hs]
    · exact h
    · exact h
    · exact (signal_eq_exited s.worker).2 h
  | requestShutdown => by_cases hstarted : s.ns.workerStarted = true <;> simp [step, hstarted, h]
  | _ => simp [step, h]

/-- A worker that was asked to leave makes each of its turns count: it never waits. -/
theorem turnsLeft_step (s : Sys) (a : Act) (h : Leaving s) (hlive : (step s a).worker ≠ .exited) :
    (step s a).turnsLeft + (if a.isWorker then 1 else 0) ≤ s.turnsLeft + 3 * (accepts s a).length := by
  have hshut := h.shutdown
  cases a with
  | send now level kind subject body =>
    rcases step_send s now level kind subject body with ⟨hs, hacc⟩ | ⟨hs, hacc⟩ | ⟨-, -, hs, hacc⟩ <;> rw [hs, hacc]
    · exact Nat.le_refl _
    · simp [Sys.turnsLeft, Act.isWorker]
    · cases hw : s.worker <;>
        simp [Sys.turnsLeft, Act.isWorker, NotifyState.enqueue, CountedRing.push, Worker.signal, hw] <;> omega
  | worker =>
    cases hw : s.worker with
    | looking =>
      rcases look_cases s.ns with ⟨-, hno, -⟩ | ⟨hsome, hl⟩ | ⟨-, -, hl⟩
      · exact absurd (hshut.symm.trans hno) (by decide)
      · simp [step, hw, hl, Sys.turnsLeft, Act.isWorker, CountedRing.pop]
        omega
      · exact absurd (by simp [step, hw, hl]) hlive
    | waiting signalled =>
      cases signalled with
      | false => exact absurd (hshut.symm.trans (h.inv.waiting hw).2) (by decide)
      | true => simp [step, hw, Sys.turnsLeft, Act.isWorker]
    | delivering ev => simp [step, hw, Sys.turnsLeft, Act.isWorker]
    | exited => exact absurd (exited_step s _ hw) hlive
    | absent => exact absurd (hshut.symm.trans (h.inv.absent hw).2) (by decide)
  | wakeup =>
    cases hw : s.worker with
    | waiting signalled => simp only [step, hw, Sys.turnsLeft, Act.isWorker, Bool.false_eq_true, if_false]; omega
    | _ => simp [step, hw, Sys.turnsLeft, Act.isWorker]
  | requestShutdown =>
    by_cases hstarted : s.ns.workerStarted = true <;> cases hw : s.worker <;>
      simp [step, hstarted, hw, Sys.turnsLeft, Act.isWorker, Worker.signal]
  | join => cases hw : s.worker <;> simp [step, hw, Sys.turnsLeft, Act.isWorker]

theorem total_turns (s : Sys) (as : List Act) :
    total step (fun _ a => if a.isWorker then 1 else 0) s as = as.countP Act.isWorker := by
  induction as generalizing s with
  | nil => rfl
  | cons a as ih => rw [total, ih, List.countP_cons, Nat.add_comm]

theorem total_accepts (s : Sys) (as : List Act) :
    total step (fun s a => 3 * (accepts s a).length) s as = 3 * (accepted s as).length := by
  induction as generalizing s with
  | nil => rfl
  | cons a as ih => rw [total, ih, accepted, accepted, outputs, List.length_append, Nat.mul_add]

/-- A worker that leaves has given away all that was queued before. -/
theorem delivered_of_exit (created : Bool) (cooldownUs : BitVec 64) (before : List Act) (a : Act)
    (hlive : (run step (init created cooldownUs) before).worker ≠ .exited)
    (hexit : (step (run step (init created cooldownUs) before) a).worker = .exited) :
    a = .worker ∧ delivered (init created cooldownUs) before = accepted (init created cooldownUs) before := by
  rw [accepted_eq]
  generalize run step (init created cooldownUs) before = s at hlive hexit ⊢
  cases a with
  | worker =>
    refine ⟨rfl, ?_⟩
    cases hw : s.worker with
    | looking =>
      rcases look_cases s.ns with ⟨-, -, hl⟩ | ⟨-, hl⟩ | ⟨hnone, -, -⟩
      · simp [step, hw, hl] at hexit
      · simp [step, hw, hl] at hexit
      · have hqueued : s.queued = [] := CountedRing.contents_eq_nil.2 hnone
        rw [Sys.outstanding, hw, hqueued]
        exact (List.append_nil _).symm
    | waiting signalled => cases signalled <;> simp [step, hw] at hexit
    | delivering ev => simp [step, hw] at hexit
    | exited => exact absurd hw hlive
    | absent => simp [step, hw] at hexit
  | send now level kind subject body =>
    rcases step_send s now level kind subject body with ⟨hs, -⟩ | ⟨hs, -⟩ | ⟨-, -, hs, -⟩ <;> rw [hs] at hexit
    · exact absurd hexit hlive
    · exact absurd hexit hlive
    · exact absurd ((signal_eq_exited s.worker).1 hexit) hlive
  | wakeup => cases hw : s.worker <;> simp [step, hw] at hexit hlive
  | requestShutdown =>
    by_cases hstarted : s.ns.workerStarted = true <;> simp [step, hstarted] at hexit <;> contradiction
  | join => cases hw : s.worker <;> simp [step, hw] at hexit hlive

/-- After it nothing is given to the backend any more. -/
theorem delivers_exited (s : Sys) (a : Act) (h : s.worker = .exited) : delivers s a = [] := by
  cases a <;> simp [delivers, h]

/-- The worker has left. -/
def Gone (s : Sys) : Prop := s.worker = .exited

theorem not_gone_init (created : Bool) (cooldownUs : BitVec 64) : ¬Gone (init created cooldownUs) := by
  cases created <;> exact fun h => nomatch h

/-- One alert, and the request to stop. -/
def alertAndStop : List Act := [.send 7 2 0 none none, .requestShutdown]

/-- Eight turns of the worker. -/
def turns : List Act := List.replicate 8 .worker

/-- The readings of the sends of a kind that get past the cooldown, queued or dropped on a full queue. -/
def fires (kind : ℤ) (s : Sys) : Act → List (BitVec 64)
  | .send now level k subject body =>
    if k = kind then
      match (notifySend s.ns now level k subject body).2 with
      | .dropped => [now]
      | .queued _ => [now]
      | _ => []
    else []
  | _ => []

def fired (kind : ℤ) (s : Sys) (as : List Act) : List (BitVec 64) := outputs step (fires kind) s as

def Act.reading : Act → Option (BitVec 64)
  | .send now _ _ _ _ => some now
  | _ => none

/-- The sends take the mutex in the order they read the clock in, which had started to count. -/
structure ClockOrdered (as : List Act) : Prop where
  ordered : (as.filterMap Act.reading).Pairwise (·.toNat ≤ ·.toNat)
  started : 0 ∉ as.filterMap Act.reading

/-- What is known of a kind with a cooldown: its last reading is the latest of those that got past, and these are a
    cooldown apart. -/
structure Spaced (kind : ℤ) (cooldownUs : BitVec 64) (s : Sys) (stamps : List (BitVec 64)) : Prop where
  cooldown : s.ns.cooldownUs = cooldownUs
  latest : ∀ t ∈ stamps, t.toNat ≤ (s.ns.lastFiredUs kind).toNat
  known : stamps ≠ [] → s.ns.lastFiredUs kind ≠ 0
  apart : stamps.Pairwise fun t t' => t.toNat + cooldownUs.toNat ≤ t'.toNat

/-- A reading not behind the last one of any kind. -/
def Ticks (s : Sys) (a : Act) : Prop := ∀ now ∈ a.reading, now ≠ 0 ∧ ∀ kind, (s.ns.lastFiredUs kind).toNat ≤ now.toNat

section Cooldown

variable {kind : ℤ} {cooldownUs : BitVec 64} {stamps : List (BitVec 64)}

theorem fire_lastFiredUs (ns : NotifyState) (now : BitVec 64) (k kind : ℤ) :
    (ns.fire k now).lastFiredUs kind = if hasCooldown k ∧ kind = k then now else ns.lastFiredUs kind := by
  unfold NotifyState.fire
  cases hk : hasCooldown k with
  | false => simp
  | true => simp [Function.update_apply]

/-- Past the cooldown the reading is a cooldown behind the last one. -/
theorem past_cooldown {ns : NotifyState} {now : BitVec 64} (hkind : hasCooldown kind = true)
    (hcool : ns.coolingDown kind now = false) (hle : (ns.lastFiredUs kind).toNat ≤ now.toNat)
    (hknown : ns.lastFiredUs kind ≠ 0) : (ns.lastFiredUs kind).toNat + ns.cooldownUs.toNat ≤ now.toNat := by
  have hbne : (ns.lastFiredUs kind != 0) = true := by simpa using hknown
  rw [NotifyState.coolingDown, hkind, Bool.true_and, hbne, Bool.true_and, decide_eq_false_iff_not, BitVec.lt_def,
    BitVec.toNat_sub_of_le (BitVec.le_def.2 hle)] at hcool
  omega

/-- Nothing was noted for the kind. -/
theorem Spaced.same {s s' : Sys} (h : Spaced kind cooldownUs s stamps) (hcool : s'.ns.cooldownUs = s.ns.cooldownUs)
    (hlast : s'.ns.lastFiredUs kind = s.ns.lastFiredUs kind) : Spaced kind cooldownUs s' stamps where
  cooldown := hcool.trans h.cooldown
  latest := by simpa only [hlast] using h.latest
  known := by simpa only [hlast] using h.known
  apart := h.apart

/-- A reading that got past was noted. -/
theorem Spaced.noted {s s' : Sys} {now : BitVec 64} (h : Spaced kind cooldownUs s stamps)
    (hkind : hasCooldown kind = true) (hpast : s.ns.coolingDown kind now = false) (hnow : now ≠ 0)
    (hle : (s.ns.lastFiredUs kind).toNat ≤ now.toNat) (hcool : s'.ns.cooldownUs = s.ns.cooldownUs)
    (hlast : s'.ns.lastFiredUs kind = now) : Spaced kind cooldownUs s' (stamps ++ [now]) where
  cooldown := hcool.trans h.cooldown
  latest := by
    intro t ht
    rw [hlast]
    rcases List.mem_append.1 ht with ht | ht
    · exact (h.latest t ht).trans hle
    · rw [List.mem_singleton.1 ht]
  known := fun _ => hlast ▸ hnow
  apart := by
    refine List.pairwise_append.2 ⟨h.apart, List.pairwise_singleton .., fun t ht t' ht' => ?_⟩
    rw [List.mem_singleton.1 ht', ← h.cooldown]
    have hgap := past_cooldown hkind hpast hle (h.known (List.ne_nil_of_mem ht))
    have hlate := h.latest t ht
    omega

theorem spaced_send (hkind : hasCooldown kind = true) {s : Sys} (h : Spaced kind cooldownUs s stamps)
    (now : BitVec 64) (level k : ℤ) (subject body : Option (List Char))
    (hticks : Ticks s (.send now level k subject body)) :
    Spaced kind cooldownUs (step s (.send now level k subject body))
      (stamps ++ fires kind s (.send now level k subject body)) := by
  obtain ⟨hnow, hle⟩ := hticks now rfl
  rcases notifySend_cases s.ns now level k subject body with
    ⟨-, hns, hres | hres⟩ | ⟨-, hpast, -, hsend⟩ | ⟨-, hpast, -, hsend⟩
  · exact (List.append_nil stamps).symm ▸ by simpa [step, fires, hns, hres] using h
  · exact (List.append_nil stamps).symm ▸ by simpa [step, fires, hns, hres] using h
  · by_cases hk : k = kind
    · subst hk
      have hfires : fires k s (.send now level k subject body) = [now] := by simp [fires, hsend]
      rw [hfires]
      exact h.noted hkind hpast hnow (hle k) (by simp [step, hsend]) (by simp [step, hsend, fire_lastFiredUs, hkind])
    · have hfires : fires kind s (.send now level k subject body) = [] := by simp [fires, hk]
      rw [hfires, List.append_nil]
      exact h.same (by simp [step, hsend]) (by simp [step, hsend, fire_lastFiredUs, Ne.symm hk])
  · by_cases hk : k = kind
    · subst hk
      have hfires : fires k s (.send now level k subject body) = [now] := by simp [fires, hsend]
      rw [hfires]
      exact h.noted hkind hpast hnow (hle k) (by simp [step, hsend]) (by simp [step, hsend, fire_lastFiredUs, hkind])
    · have hfires : fires kind s (.send now level k subject body) = [] := by simp [fires, hk]
      rw [hfires, List.append_nil]
      exact h.same (by simp [step, hsend]) (by simp [step, hsend, fire_lastFiredUs, Ne.symm hk])

/-- Only a send notes readings. -/
theorem step_noted {s : Sys} {a : Act} (ha : a.reading = none) :
    (step s a).ns.cooldownUs = s.ns.cooldownUs ∧ (step s a).ns.lastFiredUs = s.ns.lastFiredUs := by
  cases a with
  | send => exact nomatch ha
  | worker =>
    cases hw : s.worker with
    | looking => rcases look_cases s.ns with ⟨-, -, hl⟩ | ⟨-, hl⟩ | ⟨-, -, hl⟩ <;> simp [step, hw, hl]
    | waiting signalled => cases signalled <;> simp [step, hw]
    | _ => simp [step, hw]
  | wakeup => cases hw : s.worker <;> simp [step, hw]
  | requestShutdown => by_cases hstarted : s.ns.workerStarted = true <;> simp [step, hstarted]
  | join => cases hw : s.worker <;> simp [step, hw]

theorem spaced_step (hkind : hasCooldown kind = true) (s : Sys) (a : Act) (stamps : List (BitVec 64))
    (h : Spaced kind cooldownUs s stamps) (hticks : Ticks s a) :
    Spaced kind cooldownUs (step s a) (stamps ++ fires kind s a) := by
  cases hread : a.reading with
  | none =>
    have hfires : fires kind s a = [] := by cases a <;> first | rfl | exact nomatch hread
    obtain ⟨hcool, hlast⟩ := step_noted (s := s) hread
    rw [hfires, List.append_nil]
    exact h.same hcool (congrFun hlast kind)
  | some now =>
    cases a with
    | send now level k subject body => exact spaced_send hkind h now level k subject body hticks
    | _ => exact nomatch hread

/-- What is noted is what was noted before, or the reading. -/
theorem lastFiredUs_step (s : Sys) (a : Act) (kind : ℤ) :
    (step s a).ns.lastFiredUs kind = s.ns.lastFiredUs kind ∨ (step s a).ns.lastFiredUs kind ∈ a.reading := by
  cases hread : a.reading with
  | none => exact .inl (congrFun (step_noted hread).2 kind)
  | some now =>
    cases a with
    | send now level k subject body =>
      obtain rfl := Option.some.inj hread
      rcases step_send s now level k subject body with ⟨hs, -⟩ | ⟨hs, -⟩ | ⟨-, -, hs, -⟩ <;> rw [hs]
      · exact .inl rfl
      · rw [fire_lastFiredUs]
        split <;> simp
      · rw [enqueue_lastFiredUs, fire_lastFiredUs]
        split <;> simp
    | _ => exact nomatch hread

/-- Sends in the order of their readings never read the clock behind what is noted. -/
theorem ticks_of_ordered {s : Sys} {as : List Act} (hclock : ClockOrdered as)
    (hbehind : ∀ now ∈ as.filterMap Act.reading, ∀ kind, (s.ns.lastFiredUs kind).toNat ≤ now.toNat) :
    Steps step Ticks s as := by
  induction as generalizing s with
  | nil => trivial
  | cons a as ih =>
    have htail : ClockOrdered as := by
      constructor
      · exact hclock.ordered.sublist ((List.sublist_cons_self a as).filterMap Act.reading)
      · exact fun hzero => hclock.started (((List.sublist_cons_self a as).filterMap Act.reading).subset hzero)
    have hhead : ∀ now ∈ a.reading, now ∈ (a :: as).filterMap Act.reading := fun now hnow =>
      List.mem_filterMap.2 ⟨a, List.mem_cons_self, hnow⟩
    have hfirst : Ticks s a := fun now hnow =>
      ⟨fun hzero => hclock.started (hzero ▸ hhead now hnow), hbehind now (hhead now hnow)⟩
    refine ⟨hfirst, ih htail fun now hnow kind => ?_⟩
    rcases lastFiredUs_step s a kind with hlast | hlast
    · rw [hlast]
      exact hbehind now (((List.sublist_cons_self a as).filterMap Act.reading).subset hnow) kind
    · have hordered := hclock.ordered
      rw [List.filterMap_cons_some hlast] at hordered
      exact (List.pairwise_cons.1 hordered).1 now hnow

theorem spaced_init (kind : ℤ) (created : Bool) (cooldownUs : BitVec 64) :
    Spaced kind cooldownUs (init created cooldownUs) [] where
  cooldown := rfl
  latest := fun _ ht => absurd ht List.not_mem_nil
  known := fun hne => absurd rfl hne
  apart := List.Pairwise.nil

/-- The alerts of a kind that a step queues carry the reading that got past. -/
theorem accepts_fires (kind : ℤ) (s : Sys) (a : Act) :
    (((accepts s a).filter (·.eventKind = kind)).map (·.timestampUs)).Sublist (fires kind s a) := by
  cases a with
  | send now level k subject body =>
    rcases notifySend_cases s.ns now level k subject body with
      ⟨-, -, hres | hres⟩ | ⟨-, -, -, hsend⟩ | ⟨-, -, -, hsend⟩
    · simp [accepts, hres]
    · simp [accepts, hres]
    · simp [accepts, hsend]
    · by_cases hk : k = kind
      · subst hk
        simp [accepts, fires, hsend, sentEvent]
      · simp [accepts, fires, hsend, sentEvent, hk]
  | _ => exact List.nil_sublist _

theorem accepted_fired (kind : ℤ) (s : Sys) (as : List Act) :
    (((accepted s as).filter (·.eventKind = kind)).map (·.timestampUs)).Sublist (fired kind s as) := by
  induction as generalizing s with
  | nil => exact List.nil_sublist _
  | cons a as ih =>
    rw [accepted, fired, outputs, outputs, List.filter_append, List.map_append]
    exact (accepts_fires kind s a).append (ih (step s a))

end Cooldown

/-- As long as the sends get the mutex in the order they read the clock in, whatever gets past the cooldown of its
    kind, queued or dropped on a full queue, is a cooldown behind whatever of the kind got past before. So a dropped
    alert silences its kind as a queued one does, and the alerts of a kind that are queued are a cooldown apart. -/
theorem cooldown_apart (created : Bool) (cooldownUs : BitVec 64) (kind : ℤ) (hkind : hasCooldown kind = true)
    (as : List Act) (hclock : ClockOrdered as) :
    (fired kind (init created cooldownUs) as).Pairwise (fun t t' => t.toNat + cooldownUs.toNat ≤ t'.toNat) ∧
      (((accepted (init created cooldownUs) as).filter (·.eventKind = kind)).map (·.timestampUs)).Sublist
        (fired kind (init created cooldownUs) as) := by
  have hticks : Steps step Ticks (init created cooldownUs) as := ticks_of_ordered hclock fun _ _ _ => Nat.zero_le _
  have hspaced := run_outputs (spaced_step hkind) as [] (spaced_init kind created cooldownUs) hticks
  exact ⟨hspaced.apart, accepted_fired kind (init created cooldownUs) as⟩

/-- Three sends of one kind, of which a cooldown of 60 silences the second. -/
def threeSends : List Act := [.send 7 2 4 none none, .send 66 2 4 none none, .send 67 2 4 none none]

theorem threeSends_ordered : ClockOrdered threeSends := ⟨by decide +kernel, by decide +kernel⟩

theorem cooldown_apart_three :
    (fired 4 (init true 60) threeSends).Pairwise (fun t t' => t.toNat + (60 : BitVec 64).toNat ≤ t'.toNat) ∧
      (((accepted (init true 60) threeSends).filter (·.eventKind = 4)).map (·.timestampUs)).Sublist
        (fired 4 (init true 60) threeSends) :=
  cooldown_apart true 60 4 (by decide) threeSends threeSends_ordered

end NotifyQueue

end FoxTrader
