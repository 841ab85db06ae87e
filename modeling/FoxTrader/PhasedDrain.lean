import FoxTrader.OrderOutcomes

/-! # Draining the result queues into buckets

    Before anything of a pass is processed, `OrderManager_DrainIntoBuckets` empties the sixteen result
    rings, the user-data queue and the reconcile queue, in this order, and sorts what it pops: fills of
    sell orders, fills of buy orders, reconciles. The producers push while it drains. A bucket for fills
    is as long as one queue, but seventeen of them feed it; what comes after the last place is written
    to a dummy and gone. So the drain places all it pops exactly as long as no pop finds its bucket
    full, and whatever it does, each queue comes out in the order it went in. -/

namespace FoxTrader

open Lib Function

/-- `OrderType_IsClose`. -/
def OrderType.isClose (t : OrderType) : Bool := t.code &&& 1 = 1

/-! ### Buckets -/

structure OmsDrainBuckets where
  closes : List Command
  opens : List Command
  reconciles : List Command

inductive Bucket where
  | closes | opens | reconciles
  deriving DecidableEq

/-- The places of a bucket. -/
def Bucket.size : Bucket → Nat
  | .closes | .opens => omsResultQueueSize
  | .reconciles => 64

namespace OmsDrainBuckets

/-- `OmsDrainBuckets_Reset`. -/
def reset : OmsDrainBuckets := { closes := [], opens := [], reconciles := [] }

def get (b : OmsDrainBuckets) : Bucket → List Command
  | .closes => b.closes
  | .opens => b.opens
  | .reconciles => b.reconciles

/-- A command into its bucket, or into the dummy when all places are taken. -/
def put (size : Nat) (bucket : List Command) (cmd : Command) : List Command :=
  if bucket.length < size then bucket ++ [cmd] else bucket

/-- `handle_drain_bucket_cmd`: the direction is that of the order the id's slot lane points at. -/
def handleDrainBucketCmd (s : OrderManagerState) (b : OmsDrainBuckets) (cmd : Command) : OmsDrainBuckets :=
  if (s.orders (orderIdSlot cmd.orderId)).type.isClose then { b with closes := put omsResultQueueSize b.closes cmd }
  else { b with opens := put omsResultQueueSize b.opens cmd }

/-- `handle_drain_reconcile_cmd`. -/
def handleDrainReconcileCmd (b : OmsDrainBuckets) (cmd : Command) : OmsDrainBuckets :=
  { b with reconciles := put 64 b.reconciles cmd }

end OmsDrainBuckets

/-! ### Queues -/

inductive DrainQueue where
  | rest (n : NodeIdx)
  | ws
  | reconcile
  deriving DecidableEq

/-- What a queue carries. -/
def DrainQueue.kind : DrainQueue → CommandType
  | .rest _ => .fillResult
  | .ws => .wsFill
  | .reconcile => .reconcile

/-- The queue looked at after one that was empty: `OMS_ResultPop` goes through the rings, then the
    next loop begins. -/
def DrainQueue.next : DrainQueue → Option DrainQueue
  | .rest n => if h : n.val + 1 < 16 then some (.rest ⟨n.val + 1, h⟩) else some .ws
  | .ws => some .reconcile
  | .reconcile => none

/-- The queue looked at after one that had a command: `OMS_ResultPop` starts over at ring 0. -/
def DrainQueue.again : DrainQueue → DrainQueue
  | .rest _ => .rest firstIdx
  | q => q

/-- The three dispatch tables: a command of the wrong kind goes to the noop handler. -/
def OmsDrainBuckets.dispatch (s : OrderManagerState) (b : OmsDrainBuckets) (q : DrainQueue) (cmd : Command) :
    OmsDrainBuckets :=
  if cmd.type ≠ q.kind then b
  else
    match q with
    | .rest _ | .ws => b.handleDrainBucketCmd s cmd
    | .reconcile => b.handleDrainReconcileCmd cmd

/-- What the producers push: the adapter's callback, the user-data thread, the reconciler. -/
inductive Arrival where
  | fillResult (clientId : Nat) (result : OrderResult)
  | wsFill (orderId : Nat) (result : OrderResult)
  | reconcile (orderId : Nat) (result : OrderResult)

namespace Arrival

def queue : Arrival → DrainQueue
  | .fillResult clientId _ => .rest (orderIdNode clientId)
  | .wsFill .. => .ws
  | .reconcile .. => .reconcile

def command : Arrival → Command
  | .fillResult clientId result => { type := .fillResult, orderId := clientId, result }
  | .wsFill orderId result => { type := .wsFill, orderId, result }
  | .reconcile orderId result => { type := .reconcile, orderId, result }

end Arrival

namespace OrderManagerState

/-- The commands in a queue, oldest first. -/
def queued (s : OrderManagerState) : DrainQueue → List Command
  | .rest n => (s.resultRings n).items
  | .ws => s.wsResultQueue.items
  | .reconcile => s.reconcileQueue.items

/-- A push onto a queue, and whether it went in. -/
def tryPush (s : OrderManagerState) (q : DrainQueue) (cmd : Command) : Bool × OrderManagerState :=
  match q with
  | .rest n =>
    let push := (s.resultRings n).tryPush cmd
    (push.1, { s with resultRings := update s.resultRings n push.2 })
  | .ws =>
    let push := s.wsResultQueue.tryPush cmd
    (push.1, { s with wsResultQueue := push.2 })
  | .reconcile =>
    let push := s.reconcileQueue.tryPush cmd
    (push.1, { s with reconcileQueue := push.2 })

/-- A pop off a queue. -/
def tryPop (s : OrderManagerState) (q : DrainQueue) : Option Command × OrderManagerState :=
  match q with
  | .rest n =>
    let pop := (s.resultRings n).tryPop
    (pop.1, { s with resultRings := update s.resultRings n pop.2 })
  | .ws =>
    let pop := s.wsResultQueue.tryPop
    (pop.1, { s with wsResultQueue := pop.2 })
  | .reconcile =>
    let pop := s.reconcileQueue.tryPop
    (pop.1, { s with reconcileQueue := pop.2 })

/-- The bucket a command of `q` belongs into. -/
def bucketOf (s : OrderManagerState) (q : DrainQueue) (cmd : Command) : Bucket :=
  match q with
  | .reconcile => .reconciles
  | _ => if (s.orders (orderIdSlot cmd.orderId)).type.isClose then .closes else .opens

end OrderManagerState

/-! ### The drain -/

/-- `OrderManager_DrainIntoBuckets` at work: `at` is the queue it looks at next, none once it has
    returned. -/
structure DrainState where
  oms : OrderManagerState
  buckets : OmsDrainBuckets
  pos : Option DrainQueue

/-- The drain looks at a queue, or a producer pushes. -/
inductive DrainAct where
  | turn
  | arrive (a : Arrival)

/-- A command on its way through a queue. -/
inductive DrainEvent where
  | arrived (q : DrainQueue) (cmd : Command)
  | popped (q : DrainQueue) (cmd : Command)

namespace DrainState

def start (s : OrderManagerState) : DrainState := { oms := s, buckets := .reset, pos := some (.rest firstIdx) }

/-- What the next turn pops. -/
def front (d : DrainState) : Option (DrainQueue × Command) := do
  let q ← d.pos
  let cmd ← (d.oms.tryPop q).1
  return (q, cmd)

def step (d : DrainState) : DrainAct → DrainState
  | .arrive a => { d with oms := (d.oms.tryPush a.queue a.command).2 }
  | .turn =>
    match d.pos with
    | none => d
    | some q =>
      match d.oms.tryPop q with
      | (none, _) => { d with pos := q.next }
      | (some cmd, oms) => { oms, buckets := d.buckets.dispatch d.oms q cmd, pos := some q.again }

/-- What went into a queue in a step, or came out. -/
def events (d : DrainState) : DrainAct → List DrainEvent
  | .arrive a => if (d.oms.tryPush a.queue a.command).1 then [.arrived a.queue a.command] else []
  | .turn => (d.front.map fun x => .popped x.1 x.2).toList

/-- A turn finds a place for what it pops. -/
def roomy (d : DrainState) : DrainAct → Bool
  | .arrive _ => true
  | .turn => d.front.all fun x =>
    decide ((d.buckets.get (d.oms.bucketOf x.1 x.2)).length < (d.oms.bucketOf x.1 x.2).size)

variable {d : DrainState}

theorem step_of_front_none (h : d.front = none) : ∃ pos, d.step .turn = { d with pos } := by
  rw [step]
  rw [front] at h
  rcases hpos : d.pos with _ | q
  · exact ⟨d.pos, rfl⟩
  · rw [hpos] at h
    rcases hpop : d.oms.tryPop q with ⟨_ | cmd, oms⟩
    · exact ⟨q.next, by simp only [hpop]⟩
    · simp [hpop] at h

theorem step_of_front {q : DrainQueue} {cmd : Command} (h : d.front = some (q, cmd)) :
    (d.oms.tryPop q).1 = some cmd ∧
      d.step .turn =
        { oms := (d.oms.tryPop q).2, buckets := d.buckets.dispatch d.oms q cmd, pos := some q.again } := by
  simp only [front, Option.bind_eq_bind, Option.bind_eq_some_iff, Option.pure_def, Option.some_inj,
    Prod.mk.injEq] at h
  obtain ⟨q', hpos, cmd', hpop, rfl, rfl⟩ := h
  refine ⟨hpop, ?_⟩
  rw [step, hpos]
  rcases hpair : d.oms.tryPop q' with ⟨_ | cmd, oms⟩
  · rw [hpair] at hpop
    exact absurd hpop.symm (Option.some_ne_none cmd')
  · rw [hpair] at hpop
    obtain rfl := Option.some_inj.1 hpop
    simp only [hpair]

end DrainState

/-- What came out of `q`, in order. -/
def poppedFrom (q : DrainQueue) (es : List DrainEvent) : List Command :=
  es.filterMap fun
    | .popped q' cmd => if q' = q then some cmd else none
    | .arrived .. => none

/-- What went into `q`, in order. -/
def arrivedAt (q : DrainQueue) (es : List DrainEvent) : List Command :=
  es.filterMap fun
    | .arrived q' cmd => if q' = q then some cmd else none
    | .popped .. => none

/-- What came out for bucket `k`, in order. -/
def poppedFor (s : OrderManagerState) (k : Bucket) (es : List DrainEvent) : List Command :=
  es.filterMap fun
    | .popped q cmd => if s.bucketOf q cmd = k then some cmd else none
    | .arrived .. => none

/-- Every command popped since `s` is in its bucket and in no other, in the order the pops came, and
    every queue has given out what it held and what was pushed onto it, in this order. -/
structure Placed (s : OrderManagerState) (d : DrainState) (es : List DrainEvent) : Prop where
  buckets : ∀ k, d.buckets.get k = poppedFor s k es
  order : ∀ q, s.queued q ++ arrivedAt q es = poppedFrom q es ++ d.oms.queued q

/-! ### Pushes and pops -/

namespace OrderManagerState

variable {s : OrderManagerState} {q q' : DrainQueue} {cmd : Command}

theorem queued_tryPush_self (s : OrderManagerState) (q : DrainQueue) (cmd : Command) :
    (s.tryPush q cmd).2.queued q = s.queued q ++ if (s.tryPush q cmd).1 then [cmd] else [] := by
  cases q with
  | rest n =>
    simp only [tryPush, queued, update_self]
    exact Fifo.tryPush_items_append ..
  | ws => exact Fifo.tryPush_items_append ..
  | reconcile => exact Fifo.tryPush_items_append ..

theorem queued_tryPush_of_ne (hne : q' ≠ q) (s : OrderManagerState) (cmd : Command) :
    (s.tryPush q cmd).2.queued q' = s.queued q' := by
  cases q with
  | rest n =>
    cases q' with
    | rest m =>
      have hm : m ≠ n := fun h => hne (congrArg DrainQueue.rest h)
      simp only [tryPush, queued, update_of_ne hm]
    | ws | reconcile => rfl
  | ws | reconcile => cases q' <;> first | rfl | exact absurd rfl hne

/-- A pop takes the oldest command of its queue. -/
theorem queued_tryPop_self (h : (s.tryPop q).1 = some cmd) : s.queued q = cmd :: (s.tryPop q).2.queued q := by
  cases q with
  | rest n =>
    simp only [tryPop, queued, update_self]
    exact Fifo.tryPop_some h
  | ws => exact Fifo.tryPop_some h
  | reconcile => exact Fifo.tryPop_some h

theorem queued_tryPop_of_ne (hne : q' ≠ q) (s : OrderManagerState) : (s.tryPop q).2.queued q' = s.queued q' := by
  cases q with
  | rest n =>
    cases q' with
    | rest m =>
      have hm : m ≠ n := fun h => hne (congrArg DrainQueue.rest h)
      simp only [tryPop, queued, update_of_ne hm]
    | ws | reconcile => rfl
  | ws | reconcile => cases q' <;> first | rfl | exact absurd rfl hne

theorem orders_tryPush (s : OrderManagerState) (q : DrainQueue) (cmd : Command) :
    (s.tryPush q cmd).2.orders = s.orders := by
  cases q <;> rfl

theorem orders_tryPop (s : OrderManagerState) (q : DrainQueue) : (s.tryPop q).2.orders = s.orders := by
  cases q <;> rfl

/-- The bucket of a command depends on the orders alone. -/
theorem bucketOf_congr {s' : OrderManagerState} (h : s'.orders = s.orders) (q : DrainQueue) (cmd : Command) :
    s'.bucketOf q cmd = s.bucketOf q cmd := by
  cases q <;> simp only [bucketOf, h]

/-- Every queue carries what it is for. -/
def Typed (s : OrderManagerState) : Prop := ∀ q, ∀ cmd ∈ s.queued q, cmd.type = q.kind

theorem Typed.tryPush (h : s.Typed) (hkind : cmd.type = q.kind) : (s.tryPush q cmd).2.Typed := by
  intro q' x hx
  rcases eq_or_ne q' q with rfl | hne
  · rw [queued_tryPush_self, List.mem_append] at hx
    rcases hx with hold | hnew
    · exact h q' x hold
    · split at hnew
      · rwa [List.mem_singleton.1 hnew]
      · exact absurd hnew List.not_mem_nil
  · rw [queued_tryPush_of_ne hne] at hx
    exact h q' x hx

theorem Typed.tryPop (h : s.Typed) (hpop : (s.tryPop q).1 = some cmd) :
    cmd.type = q.kind ∧ (s.tryPop q).2.Typed := by
  refine ⟨h q cmd ?_, fun q' x hx => h q' x ?_⟩
  · rw [queued_tryPop_self hpop]
    exact List.mem_cons_self
  · rcases eq_or_ne q' q with rfl | hne
    · rw [queued_tryPop_self hpop]
      exact List.mem_cons_of_mem cmd hx
    · rwa [queued_tryPop_of_ne hne] at hx

end OrderManagerState

namespace OmsDrainBuckets

variable {s : OrderManagerState} {b : OmsDrainBuckets} {q : DrainQueue} {cmd : Command}

/-- A command of its queue's kind goes into its bucket, and nothing into the others. -/
theorem get_dispatch (hkind : cmd.type = q.kind) (k : Bucket) :
    (b.dispatch s q cmd).get k = if s.bucketOf q cmd = k then put k.size (b.get k) cmd else b.get k := by
  unfold dispatch
  rw [if_neg (not_not.2 hkind)]
  cases q with
  | reconcile => cases k <;> rfl
  | rest n | ws =>
    simp only [handleDrainBucketCmd, OrderManagerState.bucketOf]
    split <;> cases k <;> rfl

/-- A bucket holds the first of what was put into it. -/
theorem put_take (size : Nat) (xs : List Command) (cmd : Command) :
    put size (xs.take size) cmd = (xs ++ [cmd]).take size := by
  unfold put
  rw [List.length_take]
  split
  next hroom =>
    have hlen : xs.length < size := by omega
    rw [List.take_of_length_le (by omega), List.take_of_length_le (by simp; omega)]
  next hfull => rw [List.take_append_of_le_length (by omega)]

end OmsDrainBuckets

/-! ### Every schedule of a pass -/

theorem poppedFor_append (s : OrderManagerState) (k : Bucket) (es es' : List DrainEvent) :
    poppedFor s k (es ++ es') = poppedFor s k es ++ poppedFor s k es' := List.filterMap_append ..

theorem poppedFor_popped (s : OrderManagerState) (k : Bucket) (q : DrainQueue) (cmd : Command) :
    poppedFor s k [.popped q cmd] = if s.bucketOf q cmd = k then [cmd] else [] := by
  by_cases hk : s.bucketOf q cmd = k <;> simp [poppedFor, hk]

theorem poppedFrom_append (q : DrainQueue) (es es' : List DrainEvent) :
    poppedFrom q (es ++ es') = poppedFrom q es ++ poppedFrom q es' := List.filterMap_append ..

theorem arrivedAt_append (q : DrainQueue) (es es' : List DrainEvent) :
    arrivedAt q (es ++ es') = arrivedAt q es ++ arrivedAt q es' := List.filterMap_append ..

/-- What a pass has done since `s`: each bucket holds the first of what was popped for it, and every
    queue gives out what it held and what arrived. -/
structure Drained (s : OrderManagerState) (d : DrainState) (es : List DrainEvent) : Prop where
  orders : d.oms.orders = s.orders
  typed : d.oms.Typed
  buckets : ∀ k, d.buckets.get k = (poppedFor s k es).take k.size
  order : ∀ q, s.queued q ++ arrivedAt q es = poppedFrom q es ++ d.oms.queued q

namespace Drained

variable {s : OrderManagerState} {d : DrainState} {es : List DrainEvent}

theorem start (h : s.Typed) : Drained s (.start s) [] := by
  refine ⟨rfl, h, fun k => ?_, fun q => List.append_nil _⟩
  cases k <;> rfl

theorem arrive (h : Drained s d es) (a : Arrival) : Drained s (d.step (.arrive a)) (es ++ d.events (.arrive a)) := by
  have hkind : a.command.type = a.queue.kind := by
    cases a <;> rfl
  refine ⟨(OrderManagerState.orders_tryPush ..).trans h.orders, h.typed.tryPush hkind, fun k => ?_, fun q => ?_⟩
  · have hnone : poppedFor s k (d.events (.arrive a)) = [] := by
      rw [DrainState.events]
      split <;> rfl
    rw [poppedFor_append, hnone, List.append_nil]
    exact h.buckets k
  · have hnone : poppedFrom q (d.events (.arrive a)) = [] := by
      rw [DrainState.events]
      split <;> rfl
    have hback : (d.step (.arrive a)).oms.queued q = d.oms.queued q ++ arrivedAt q (d.events (.arrive a)) := by
      rw [DrainState.step, DrainState.events]
      rcases eq_or_ne q a.queue with rfl | hne
      · rw [OrderManagerState.queued_tryPush_self]
        split <;> simp [arrivedAt]
      · rw [OrderManagerState.queued_tryPush_of_ne hne]
        split <;> simp [arrivedAt, hne.symm]
    rw [arrivedAt_append, poppedFrom_append, hnone, List.append_nil, hback, ← List.append_assoc, h.order q,
      List.append_assoc]

/-- A turn that finds its queue empty, or has returned. -/
theorem idle (h : Drained s d es) (hfront : d.front = none) : Drained s (d.step .turn) (es ++ d.events .turn) := by
  have hevents : d.events .turn = [] := by
    rw [DrainState.events, hfront]
    rfl
  obtain ⟨pos, hstep⟩ := DrainState.step_of_front_none hfront
  rw [hevents, hstep, List.append_nil]
  exact ⟨h.orders, h.typed, h.buckets, h.order⟩

/-- A turn that pops. -/
theorem pop (h : Drained s d es) {q : DrainQueue} {cmd : Command} (hfront : d.front = some (q, cmd)) :
    Drained s (d.step .turn) (es ++ [.popped q cmd]) := by
  obtain ⟨hpop, hstep⟩ := DrainState.step_of_front hfront
  obtain ⟨hkind, htyped⟩ := h.typed.tryPop hpop
  rw [hstep]
  refine ⟨(OrderManagerState.orders_tryPop ..).trans h.orders, htyped, fun k => ?_, fun q' => ?_⟩
  · rw [OmsDrainBuckets.get_dispatch hkind, OrderManagerState.bucketOf_congr h.orders, h.buckets, poppedFor_append]
    rw [poppedFor_popped]
    split
    · rw [OmsDrainBuckets.put_take]
    · rw [List.append_nil]
  · rw [arrivedAt_append, poppedFrom_append]
    have hnone : arrivedAt q' [.popped q cmd] = [] := rfl
    rw [hnone, List.append_nil, h.order q']
    rcases eq_or_ne q' q with rfl | hne
    · have hlast : poppedFrom q' [.popped q' cmd] = [cmd] := by simp [poppedFrom]
      rw [hlast, OrderManagerState.queued_tryPop_self hpop, List.append_assoc, List.singleton_append]
    · have hlast : poppedFrom q' [.popped q cmd] = [] := by simp [poppedFrom, hne.symm]
      rw [hlast, OrderManagerState.queued_tryPop_of_ne hne, List.append_nil]

theorem step (h : Drained s d es) (a : DrainAct) : Drained s (d.step a) (es ++ d.events a) := by
  cases a with
  | arrive a => exact h.arrive a
  | turn =>
    rcases hfront : d.front with _ | ⟨q, cmd⟩
    · exact h.idle hfront
    · have hevents : d.events .turn = [.popped q cmd] := by
        rw [DrainState.events, hfront]
        rfl
      rw [hevents]
      exact h.pop hfront

/-- As long as the buckets hold all there was for them, a step overflows one exactly if it pops one
    more than it has places for. -/
theorem fits_step (h : Drained s d es) (hfits : ∀ k, (poppedFor s k es).length ≤ k.size) (a : DrainAct) :
    d.roomy a = true ↔ ∀ k, (poppedFor s k (es ++ d.events a)).length ≤ k.size := by
  have hnone : (∀ k, poppedFor s k (d.events a) = []) → ∀ k, (poppedFor s k (es ++ d.events a)).length ≤ k.size := by
    intro hno k
    rw [poppedFor_append, hno k, List.append_nil]
    exact hfits k
  cases a with
  | arrive a =>
    refine iff_of_true rfl (hnone fun k => ?_)
    rw [DrainState.events]
    split <;> rfl
  | turn =>
    rcases hfront : d.front with _ | ⟨q, cmd⟩
    · refine iff_of_true (by rw [DrainState.roomy, hfront]; rfl) (hnone fun k => ?_)
      rw [DrainState.events, hfront]
      rfl
    have hevents : d.events .turn = [.popped q cmd] := by
      rw [DrainState.events, hfront]
      rfl
    have hroomy : d.roomy .turn = true ↔ (poppedFor s (s.bucketOf q cmd) es).length < (s.bucketOf q cmd).size := by
      rw [DrainState.roomy, hfront, Option.all_some, decide_eq_true_iff, OrderManagerState.bucketOf_congr h.orders,
        h.buckets, List.take_of_length_le (hfits _)]
    rw [hroomy, hevents]
    constructor
    · intro hlt k
      rw [poppedFor_append, poppedFor_popped, List.length_append]
      split
      next hk => exact hk ▸ hlt
      next => exact hfits k
    · intro hall
      have hlen := hall (s.bucketOf q cmd)
      rwa [poppedFor_append, poppedFor_popped, if_pos rfl, List.length_append] at hlen

/-- A pass overflows no bucket exactly if it pops no more for each than it has places. -/
theorem fits_run : ∀ (as : List DrainAct) {d : DrainState} {es : List DrainEvent}, Drained s d es →
    (∀ k, (poppedFor s k es).length ≤ k.size) →
      (Steps DrainState.step (fun d a => d.roomy a = true) d as ↔
        ∀ k, (poppedFor s k (es ++ outputs DrainState.step DrainState.events d as)).length ≤ k.size)
  | [], d, es, _, hfits => by simpa [Steps, outputs] using hfits
  | a :: as, d, es, h, hfits => by
    rw [Steps, outputs, ← List.append_assoc, h.fits_step hfits a]
    constructor
    · rintro ⟨hstep, hrest⟩
      exact (fits_run as (h.step a) hstep).1 hrest
    · intro hall
      have hstep : ∀ k, (poppedFor s k (es ++ d.events a)).length ≤ k.size := by
        intro k
        have hlen := hall k
        rw [poppedFor_append, List.length_append] at hlen
        omega
      exact ⟨hstep, (fits_run as (h.step a) hstep).2 hall⟩

/-- Everything is placed exactly if the buckets have places for it. -/
theorem placed_iff (h : Drained s d es) : Placed s d es ↔ ∀ k, (poppedFor s k es).length ≤ k.size := by
  constructor
  · intro hplaced k
    have hall := hplaced.buckets k
    rw [h.buckets k, List.take_eq_self_iff] at hall
    exact hall
  · intro hfits
    exact ⟨fun k => by rw [h.buckets k, List.take_of_length_le (hfits k)], h.order⟩

end Drained

/-! ### From any reachable state -/

namespace OrderManagerState

/-- The user-data thread and the reconciler push what their queues are for. -/
def Act.sound : Act → Bool
  | .pushWs cmd => cmd.type = .wsFill
  | .pushReconcile cmd => cmd.type = .reconcile
  | _ => true

variable {c : OmsConfig} {s s' : OrderManagerState} {cmd : Command} {i : OrderSlot}

theorem typed_init (balance : Money) (tradeLog : Option (List (EmitRecord × Money))) :
    (init balance tradeLog).Typed := by
  intro q cmd hcmd
  cases q <;> exact absurd hcmd List.not_mem_nil

/-- What leaves the queues alone. -/
theorem Typed.congr (h : s.Typed) (hrest : s'.resultRings = s.resultRings) (hws : s'.wsResultQueue = s.wsResultQueue)
    (hreconcile : s'.reconcileQueue = s.reconcileQueue) : s'.Typed := by
  intro q cmd hcmd
  have hsame : s'.queued q = s.queued q := by
    cases q <;> simp only [queued, hrest, hws, hreconcile]
  rw [hsame] at hcmd
  exact h q cmd hcmd

theorem Typed.resultPush (h : s.Typed) (hkind : cmd.type = .fillResult) : (s.resultPush cmd).Typed :=
  h.tryPush (q := .rest (orderIdNode cmd.orderId)) hkind

theorem Typed.submit (h : s.Typed) (cmd : SubmitCommand) : (s.submit c cmd).val.1.Typed := by
  have hout := submit_outcome c s cmd
  generalize s.submit c cmd = m at hout ⊢
  rcases hout with _ | ⟨i, -, -⟩ | _ | _
  · exact h.congr rfl rfl rfl
  · exact Typed.resultPush (s := s.place c cmd i) (h.congr rfl rfl rfl) rfl
  · exact h.congr rfl rfl rfl
  · exact h.congr rfl rfl rfl

theorem Typed.freeIfTerminal (h : s.Typed) : (s.freeIfTerminal i).Typed := by
  unfold OrderManagerState.freeIfTerminal
  split
  · exact h.congr rfl rfl rfl
  · exact h

theorem Typed.endIncomplete (h : s.Typed) : (s.endIncomplete c i).val.Typed := by
  have hcancel : (s.cancel c i).Typed := h.congr rfl rfl rfl
  unfold OrderManagerState.endIncomplete
  split
  · exact (hcancel.submit (resubmission (s.deadOrder i) (s.leftover i))).congr rfl rfl rfl
  · exact hcancel

theorem Typed.processFillCommand (h : s.Typed) : (s.processFillCommand c cmd).val.1.Typed := by
  have hout := processFillCommand_outcome c s cmd
  generalize s.processFillCommand c cmd = m at hout ⊢
  rcases hout with _ | _ | _ | ⟨i, -, -, -⟩ | ⟨i, -, -, -, -⟩ | ⟨i, -, -, -⟩
  · exact h
  · exact h.congr rfl rfl rfl
  · exact h.congr rfl rfl rfl
  · have hbooked : (s.bookExecution c i (s.priced i cmd.result) cmd.result).val.Typed := h.congr rfl rfl rfl
    exact hbooked.freeIfTerminal
  · have hbooked : (s.bookExecution c i (s.priced i cmd.result) cmd.result).val.Typed := h.congr rfl rfl rfl
    exact hbooked.endIncomplete.freeIfTerminal
  · have hreject : (s.reject c i cmd.result).Typed := h.congr rfl rfl rfl
    exact hreject.freeIfTerminal

theorem Typed.processIf (h : s.Typed) (kind : CommandType) : (s.processIf c kind cmd).val.Typed := by
  unfold OrderManagerState.processIf
  split
  · exact h
  split
  · exact h.congr rfl rfl rfl
  · exact h.processFillCommand

theorem Typed.fillRingsApply (h : s.Typed) : (s.fillRingsApply c).val.Typed := by
  unfold OrderManagerState.fillRingsApply
  split
  · exact h.congr rfl rfl rfl
  · exact h

/-- Whatever the owner does, what it takes out of a queue or puts there is of the queue's kind. -/
theorem Typed.act (h : s.Typed) {a : Act} (hsound : a.sound = true) : (s.act c a).val.Typed := by
  cases a with
  | clock us => exact h.congr rfl rfl rfl
  | submit cmd => exact h.submit cmd
  | pushSubmit cmd => exact h.congr rfl rfl rfl
  | popSubmit slot =>
    rcases hpop : (s.submitQueues slot).tryPop with ⟨_ | cmd, q⟩
    · simp only [OrderManagerState.act, hpop]
      exact h
    · simp only [OrderManagerState.act, hpop]
      exact Typed.submit (s := { s with submitQueues := update s.submitQueues slot q }) (h.congr rfl rfl rfl) cmd
  | fillResult clientId result => exact h.resultPush rfl
  | pushWs cmd => exact h.tryPush (q := .ws) (of_decide_eq_true hsound)
  | pushReconcile cmd => exact h.tryPush (q := .reconcile) (of_decide_eq_true hsound)
  | processFill cmd => exact h.processFillCommand
  | processReconcile cmd => exact h.congr rfl rfl rfl
  | popResult =>
    rcases hpop : s.resultPop with _ | ⟨cmd, s'⟩
    · simp only [OrderManagerState.act, hpop]
      exact h
    · simp only [OrderManagerState.act, hpop]
      simp only [resultPop, Option.bind_eq_bind, Option.bind_eq_some_iff, Option.pure_def, Option.some_inj,
        Prod.mk.injEq] at hpop
      obtain ⟨n, -, front, hfront, -, rfl⟩ := hpop
      exact (h.tryPop (q := .rest n) hfront).2.processIf _
  | popWs =>
    rcases hpop : s.wsResultQueue.tryPop with ⟨_ | cmd, q⟩
    · simp only [OrderManagerState.act, hpop]
      exact h
    · simp only [OrderManagerState.act, hpop]
      have hrest := (h.tryPop (q := .ws) (congrArg Prod.fst hpop)).2
      simp only [OrderManagerState.tryPop, hpop] at hrest
      exact hrest.processIf _
  | popReconcile =>
    rcases hpop : s.reconcileQueue.tryPop with ⟨_ | cmd, q⟩
    · simp only [OrderManagerState.act, hpop]
      exact h
    · simp only [OrderManagerState.act, hpop]
      have hrest := (h.tryPop (q := .reconcile) (congrArg Prod.fst hpop)).2
      simp only [OrderManagerState.tryPop, hpop] at hrest
      exact hrest.processIf _
  | staleSweep =>
    show (s.staleSweep c).Typed
    unfold OrderManagerState.staleSweep
    split
    · exact h.congr rfl rfl rfl
    · exact h
  | fillRingsApply => exact h.fillRingsApply
  | compose fatalSites drags => exact Typed.congr (s := (s.fillRingsApply c).val) h.fillRingsApply rfl rfl rfl

theorem typed_run (c : OmsConfig) (balance : Money) (tradeLog : Option (List (EmitRecord × Money))) {as : List Act}
    (hsound : ∀ a ∈ as, a.sound = true) : (run (step c) (init balance tradeLog) as).Typed := by
  have hstep : ∀ (s : OrderManagerState) (a : Act), s.Typed → a.sound = true → (s.step c a).Typed :=
    fun s a h ha => (h.act ha).congr rfl rfl rfl
  exact run_inv_of_steps hstep as (typed_init balance tradeLog) (steps_of_forall hsound)

/-- The acknowledgement of an order and `legs` executions of one unit each, pushed before the drain begins. -/
def sampleBurst (legs turns : Nat) : List DrainAct :=
  .arrive (.fillResult 1 { (sampleLeg 1 0 false).result with avgFillPrice := 0 }) ::
    (List.replicate legs (.arrive (.wsFill 1 (sampleLeg 1 1 false).result)) ++ List.replicate turns .turn)

end OrderManagerState

end FoxTrader
