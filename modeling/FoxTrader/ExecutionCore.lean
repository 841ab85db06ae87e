import FoxTrader.Lib.Run
import FoxTrader.Lib.Fifo
import FoxTrader.ParameterSlot
import FoxTrader.GateParameters

/-! # The execution core

    One core per node. A tick refreshes the cached parameters if the slot moved, evaluates both
    gates on masks, pushes at most one event per leg into the core's event ring, and flips a leg's
    active flag only if that leg's event went in. `tick_cases` says once what a tick can do; the
    alternation of every leg's events, over any run of ticks, parameter pushes, permission changes
    and drains, follows from it by an invariant on the events queued so far. -/

namespace FoxTrader

open Lib

/-- `EXECUTION_NODE_EVENT_RING_SIZE`. -/
abbrev eventRingSize : Nat := 1024

structure ExecutionCore where
  active : Bool
  activeB : Bool
  liveTp : Money
  liveSl : Money
  entryPrice : Money
  entryPriceB : Money
  liveTpB : Money
  liveSlB : Money
  permission : BitVec 8
  paramSlot : ParameterSlot GateParameters
  cachedSeq : BitVec 64
  cachedParams : GateParameters
  cachedPublishTick : Nat
  nodeId : Nat
  eventRing : Fifo TradeEvent eventRingSize
  ringPushFailures : Nat

namespace ExecutionCore

def init (nodeId : Nat) : ExecutionCore :=
  { active := false, activeB := false, liveTp := .zero, liveSl := .zero, entryPrice := .zero
    entryPriceB := .zero, liveTpB := .zero, liveSlB := .zero, permission := 0
    paramSlot := .init .init, cachedSeq := -1, cachedParams := .init, cachedPublishTick := 0
    nodeId := nodeId, eventRing := .empty, ringPushFailures := 0 }

def setParameters (core : ExecutionCore) (newParams : GateParameters) (publishTick : Nat) :
    ExecutionCore := { core with paramSlot := core.paramSlot.write newParams publishTick }

def setPermission (core : ExecutionCore) (value : BitVec 8) : ExecutionCore :=
  { core with permission := value }

/-! ### One tick, section by section -/

/-- Cached parameter slot read: go to the slot only if its counter moved. -/
def refresh (core : ExecutionCore) : ExecutionCore :=
  if core.paramSlot.seq ≠ core.cachedSeq ∨ ParameterSlot.midWrite core.paramSlot.seq then
    { core with
      cachedParams := core.paramSlot.read.1
      cachedPublishTick := core.paramSlot.read.2
      cachedSeq := core.paramSlot.seq &&& ~~~1#64 }
  else core

/-- The staleness gate: the pack is stamped and older than it may be. -/
def stale (core : ExecutionCore) (tick : Tick) : Bool :=
  let paramGap := if tick.sequence ≥ core.cachedPublishTick then tick.sequence - core.cachedPublishTick else 0
  core.cachedParams.has gateFlagStalenessEnabled && decide (core.cachedPublishTick ≠ 0)
    && decide (paramGap > core.cachedParams.paramMaxAgeTicks)

def bgFires (core : ExecutionCore) (tick : Tick) : Bool :=
  core.cachedParams.bgEvaluate tick && !core.stale tick

/-- Leg A: the live levels while in a trade, the pack's own otherwise. -/
def sgFiresA (core : ExecutionCore) (tick : Tick) : Bool :=
  let tp := if core.active then core.liveTp else core.cachedParams.sgTakeProfitPrice
  let sl := if core.active then core.liveSl else core.cachedParams.sgStopLossPrice
  core.cachedParams.sgFires tick.price tp sl

/-- Leg B: computed and masked, or only computed while the leg is open. -/
def sgFiresB (pairBranchless : Bool) (core : ExecutionCore) (tick : Tick) : Bool :=
  if pairBranchless then core.cachedParams.sgFires tick.price core.liveTpB core.liveSlB && core.activeB
  else if core.activeB then core.cachedParams.sgFires tick.price core.liveTpB core.liveSlB else false

/-- Bit 0 of the permission byte. -/
def permitted (core : ExecutionCore) : Bool := core.permission &&& 1 = 1

def canEnter (core : ExecutionCore) (tick : Tick) : Bool :=
  !(core.active || core.activeB) && core.permitted && core.bgFires tick

/-- The event this core sends for `leg` at this tick. -/
def event (core : ExecutionCore) (tick : Tick) (type : TradeEventType) (leg : Leg) : TradeEvent :=
  { price := tick.price, timestamp := tick.timestamp, nodeId := core.nodeId, type := type, leg := leg }

def pushEvent (core : ExecutionCore) (tick : Tick) (type : TradeEventType) (leg : Leg) :
    Bool × ExecutionCore :=
  let (pushed, ring) := core.eventRing.tryPush (core.event tick type leg)
  (pushed, { core with eventRing := ring })

/-- The levels of a leg A that just entered: per fill where a percentage is set, else the pack's. -/
def stashLegA (core : ExecutionCore) (tick : Tick) : ExecutionCore :=
  let p := core.cachedParams
  { core with
    entryPrice := tick.price
    liveTp := if !p.tpPct.isZero then (do Money.add tick.price (← Money.mul tick.price p.tpPct)).val
      else p.sgTakeProfitPrice
    liveSl := if !p.slPct.isZero then (do Money.sub tick.price (← Money.mul tick.price p.slPct)).val
      else p.sgStopLossPrice }

/-- Leg B shares leg A's stop and falls back on its target. -/
def stashLegB (core : ExecutionCore) (tick : Tick) : ExecutionCore :=
  let p := core.cachedParams
  { core with
    entryPriceB := tick.price
    liveTpB := if !p.tpPctB.isZero then (do Money.add tick.price (← Money.mul tick.price p.tpPctB)).val
      else core.liveTp
    liveSlB := core.liveSl }

/-- A leg's exit event, if the gate fired for it. -/
def exitLeg (core : ExecutionCore) (tick : Tick) (fires : Bool) (leg : Leg) : Bool × ExecutionCore :=
  if fires then core.pushEvent tick .exit leg else (true, core)

/-- The entry block: leg A's event, and leg B's only behind it. The two flags say whether each
    event went in, or was not asked for. -/
def enter (core : ExecutionCore) (tick : Tick) : (Bool × Bool) × ExecutionCore :=
  match core.pushEvent tick .entry .a with
  | (false, core) => ((false, true), core)
  | (true, core) =>
    let core := core.stashLegA tick
    if core.cachedParams.has gateFlagPairActive then
      match core.pushEvent tick .entry .b with
      | (false, core) => ((true, false), core)
      | (true, core) => ((true, true), core.stashLegB tick)
    else ((true, true), core)

/-- `ExecutionCore_Tick_Impl` after the refresh. -/
def tickBody (pairBranchless : Bool) (core : ExecutionCore) (tick : Tick) : ExecutionCore :=
  let canEnter := core.canEnter tick
  let canExitA := core.active && core.sgFiresA tick
  let canExitB := core.activeB && core.sgFiresB pairBranchless tick
  let pairActive := core.cachedParams.has gateFlagPairActive
  let (exitAPushed, c) := core.exitLeg tick canExitA .a
  let (exitBPushed, c) := c.exitLeg tick canExitB .b
  let ((entryAPushed, entryBPushed), c) := if canEnter then c.enter tick else ((true, true), c)
  let allPushed := exitAPushed && exitBPushed && entryAPushed && entryBPushed
  -- a leg whose event did not go in keeps its flag, and the next tick tries again
  let exitAEff := canExitA && exitAPushed
  let exitBEff := canExitB && exitBPushed
  let enterAEff := canEnter && entryAPushed
  let enterBEff := enterAEff && entryBPushed && pairActive
  { c with
    active := (core.active || enterAEff) && !exitAEff
    activeB := (core.activeB || enterBEff) && !exitBEff
    ringPushFailures := if allPushed then c.ringPushFailures else c.ringPushFailures + 1 }

def tickImpl (pairBranchless : Bool) (core : ExecutionCore) (tick : Tick) : ExecutionCore :=
  tickBody pairBranchless core.refresh tick

/-- `ExecutionCore_Tick`: the pair flag of the cached pack picks the variant. -/
def tick (core : ExecutionCore) (t : Tick) : ExecutionCore :=
  tickImpl (core.cachedParams.has gateFlagPairActive) core t

/-- The events a tick queued. -/
def queuedBy (core : ExecutionCore) (t : Tick) : List TradeEvent :=
  (core.tick t).eventRing.items.drop core.eventRing.items.length

/-! ### What a tick can do -/

theorem pushEvent_items (c : ExecutionCore) (t : Tick) (type : TradeEventType) (leg : Leg) :
    (c.pushEvent t type leg).2.eventRing.items =
      c.eventRing.items ++ if (c.pushEvent t type leg).1 then [c.event t type leg] else [] :=
  c.eventRing.tryPush_items_append _

theorem exitLeg_items (c : ExecutionCore) (t : Tick) (fires : Bool) (leg : Leg) :
    (c.exitLeg t fires leg).2.eventRing.items =
      c.eventRing.items ++ if fires && (c.exitLeg t fires leg).1 then [c.event t .exit leg] else [] := by
  cases fires with
  | false => simp [exitLeg]
  | true => exact pushEvent_items c t .exit leg

@[simp] theorem exitLeg_event (c : ExecutionCore) (t : Tick) (fires : Bool) (leg leg' : Leg)
    (type : TradeEventType) : (c.exitLeg t fires leg).2.event t type leg' = c.event t type leg' := by
  cases fires <;> rfl

@[simp] theorem exitLeg_false (c : ExecutionCore) (t : Tick) (leg : Leg) :
    c.exitLeg t false leg = (true, c) := rfl

/-- The entry block queues leg A's entry and, behind it, possibly leg B's. -/
theorem enter_items (c : ExecutionCore) (t : Tick) :
    (c.enter t).2.eventRing.items =
      c.eventRing.items ++ if (c.enter t).1.1 then
        c.event t .entry .a ::
          if (c.enter t).1.2 && c.cachedParams.has gateFlagPairActive then [c.event t .entry .b] else []
      else [] := by
  have hA := pushEvent_items c t .entry .a
  unfold enter
  split
  next c' heq => rw [heq] at hA; simpa using hA
  next c' heq =>
    rw [heq] at hA
    have hc : c' = (c.pushEvent t .entry .a).2 := by rw [heq]
    have hflags : (c'.stashLegA t).cachedParams = c.cachedParams := by rw [hc]; rfl
    have hevent : (c'.stashLegA t).event t .entry .b = c.event t .entry .b := by rw [hc]; rfl
    simp only [hflags]
    cases hp : c.cachedParams.has gateFlagPairActive with
    | false => simpa [stashLegA] using hA
    | true =>
      have hB := pushEvent_items (c'.stashLegA t) t .entry .b
      simp only [if_true]
      have hring : (c'.stashLegA t).eventRing = c'.eventRing := rfl
      split
      next c'' heq' => rw [heq', hring, hA] at hB; simpa using hB
      next c'' heq' =>
        rw [heq', hring, hA, hevent] at hB
        simpa [stashLegB] using hB

/-- A tick either queues exits of open legs and closes those, or queues an entry of leg A, possibly
    with leg B, from flat and opens those; in particular it may queue nothing and keep the flags. -/
theorem tickBody_cases (pb : Bool) (c : ExecutionCore) (t : Tick) :
    (∃ ea eb : Bool, (ea = true → c.active = true) ∧ (eb = true → c.activeB = true) ∧
      (tickBody pb c t).active = (c.active && !ea) ∧ (tickBody pb c t).activeB = (c.activeB && !eb) ∧
      (tickBody pb c t).eventRing.items = c.eventRing.items ++
        ((if ea then [c.event t .exit .a] else []) ++ if eb then [c.event t .exit .b] else [])) ∨
    (∃ eb : Bool, c.active = false ∧ c.activeB = false ∧ c.canEnter t = true ∧
      (tickBody pb c t).active = true ∧ (tickBody pb c t).activeB = eb ∧
      (tickBody pb c t).eventRing.items = c.eventRing.items ++
        (c.event t .entry .a :: if eb then [c.event t .entry .b] else [])) := by
  cases hce : c.canEnter t with
  | false =>
    refine .inl ⟨c.active && c.sgFiresA t && (c.exitLeg t (c.active && c.sgFiresA t) .a).1,
      c.activeB && c.sgFiresB pb t && ((c.exitLeg t (c.active && c.sgFiresA t) .a).2.exitLeg t
        (c.activeB && c.sgFiresB pb t) .b).1, ?_, ?_, ?_, ?_, ?_⟩
    · intro h; simp only [Bool.and_eq_true] at h; exact h.1.1
    · intro h; simp only [Bool.and_eq_true] at h; exact h.1.1
    · simp [tickBody, hce]
    · simp [tickBody, hce]
    · simp only [tickBody, hce, Bool.false_eq_true, if_false, exitLeg_items, exitLeg_event,
        List.append_assoc]
  | true =>
    have hflat : c.active = false ∧ c.activeB = false := by
      simp only [canEnter, Bool.and_eq_true, Bool.not_eq_true', Bool.or_eq_false_iff] at hce
      exact hce.1.1
    have hitems := enter_items c t
    cases hA : (c.enter t).1.1 with
    | false =>
      refine .inl ⟨false, false, by simp, by simp, ?_, ?_, ?_⟩
      · simp [tickBody, hce, hflat, hA]
      · simp [tickBody, hce, hflat, hA]
      · simpa [tickBody, hce, hflat, hA] using hitems
    | true =>
      refine .inr ⟨(c.enter t).1.2 && c.cachedParams.has gateFlagPairActive, hflat.1, hflat.2, rfl,
        ?_, ?_, ?_⟩
      · simp [tickBody, hce, hflat, hA]
      · simp [tickBody, hce, hflat, hA]
      · simpa [tickBody, hce, hflat, hA] using hitems

/-- Both variants of the tick compute the same core. -/
theorem tickImpl_pairBranchless (c : ExecutionCore) (t : Tick) : tickImpl true c t = tickImpl false c t := by
  have h : ∀ c : ExecutionCore, c.sgFiresB true t = c.sgFiresB false t := fun c => by
    cases hB : c.activeB <;> simp [sgFiresB, hB]
  simp only [tickImpl, tickBody, h]

end ExecutionCore

end FoxTrader
