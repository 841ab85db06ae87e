import FoxTrader.EventDrain
import FoxTrader.ExitsInFlight
import FoxTrader.Lib.Run

/-! # The producers of exits

    Four producers push sells of a held slot into its submit queue: the drain, for an EXIT event of
    the hot path, and the slow path's exit model, time exit and emergency flatten. Each walks over
    the slots that were active when it began, reads the quantity of one slot at a time and pushes a
    sell of all of it; none of them looks for an exit already under way. Producers, the drain of the
    submit queues and the processing of results are interleaved freely here, between any two reads
    and pushes. `outstanding_le_held` gives the discipline under which no slot is ever asked to sell
    more than it holds, and `outstanding_exceeds_held` the time exit of two slow cycles that breaks it. -/

namespace FoxTrader

open Lib Function

/-! ### The producers -/

/-- The configuration of the exits. `exitThreshold` is read as a double. -/
structure ExitConfig where
  drain : DrainConfig
  useExitModel : Bool
  exitThreshold : NodeIdx → Float
  maxHoldTicks : NodeIdx → Nat
  nodeTimeExitTicks : NodeIdx → Nat
  minHoldGainPct : Money

/-- A call of a producer, with what its caller hands it. The exit model's prediction is the node's
    last one. -/
inductive Producer where
  | event (n : NodeIdx) (ev : TradeEvent)
  | exitModel (n : NodeIdx) (prediction price : Float)
  | timeExit (n : NodeIdx) (nowTick : Nat) (price : Float)
  | flattenAll (price : Float)

/-- The active slots of a node, `active_bitmap` under `BITMAP_NODE_SLOT_MASK`. -/
def activeSlots (c : OmsConfig) (p : Portfolio) (n : NodeIdx) : List SlotIdx :=
  (List.finRange 16).filter fun slot => p.active slot && c.slotNode slot = n

/-- The slots a producer will visit, read as it begins. -/
def Producer.slots (c : ExitConfig) (p : Portfolio) : Producer → List SlotIdx
  | .event n ev => (legSlot c.drain.oms.partialExitEnabled n ev.leg).toList
  | .exitModel n prediction price =>
    if c.useExitModel && prediction > c.exitThreshold n && price > 0.01 then activeSlots c.drain.oms p n else []
  | .timeExit n _ price =>
    if 0 < c.maxHoldTicks n ∧ price > 0.01 then activeSlots c.drain.oms p n else []
  | .flattenAll _ => (List.finRange 16).filter fun slot => p.active slot

/-- `OMS_PushExitForSlot`: the sell it pushes. -/
def exitForSlot (slot : SlotIdx) (qty : Money) (strategyId : Nat) (eventPrice : Money) (leg : Nat)
    (nodeCfg : PerNodeCfg) : SubmitCommand :=
  { portfolioSlot := slot, orderType := .marketSell, qty, leg, nodeCfg := some nodeCfg, strategyId, eventPrice }

/-- `EventLoop_TimeExitOneCore` on one slot: whether its trade has been held too long for its gain. -/
def timeExitDue (c : ExitConfig) (n : NodeIdx) (pos : Position) (lastEntryTick nowTick : Nat) (price : Float) :
    Bool :=
  let maxHold := if c.nodeTimeExitTicks n = 0 then c.maxHoldTicks n else c.nodeTimeExitTicks n
  let entry := pos.entryPrice.toDouble
  decide (lastEntryTick ≠ 0) && decide (lastEntryTick ≤ nowTick) && decide (maxHold ≤ nowTick - lastEntryTick) &&
    !(entry ≤ 0.0) && !((price - entry) / entry ≥ c.minHoldGainPct.toDouble)

/-- What a producer pushes for a slot it visits. -/
def Producer.draft (c : ExitConfig) (p : Portfolio) (nodes : NodeIdx → EntryContext) (slot : SlotIdx) :
    Producer → Option SubmitCommand
  | .event n ev => c.drain.drainEvent p (nodes n) n { ev with type := .exit }
  | .exitModel n _ price =>
    let qty := (p.positions slot).quantity
    if qty.isZero then none
    else some (exitForSlot slot qty (nodes n).resolvedStrategyId (moneyFromDoublePayload price) 0 (c.drain.nodes n).perNode)
  | .timeExit n nowTick price =>
    if timeExitDue c n (p.positions slot) (nodes n).lastEntryTick nowTick price then
      some (exitForSlot slot (p.positions slot).quantity (nodes n).resolvedStrategyId (moneyFromDoublePayload price) 0
        (c.drain.nodes n).perNode)
    else none
  | .flattenAll price =>
    let n := c.drain.oms.slotNode slot
    some (exitForSlot slot (p.positions slot).quantity (nodes n).resolvedStrategyId
      (if price > 0.0 then moneyFromDoublePayload price else .zero)
      (if c.drain.oms.partialExitEnabled then slot.val % 2 else 0) (c.drain.nodes n).perNode)

/-- The time exit takes back an entry stamp of the future, left by a snapshot. -/
def Producer.restamp (nodes : NodeIdx → EntryContext) : Producer → NodeIdx → EntryContext
  | .timeExit n nowTick _ =>
    if nowTick < (nodes n).lastEntryTick then update nodes n { nodes n with lastEntryTick := nowTick } else nodes
  | _ => nodes

/-! ### Interleaving -/

/-- A producer under way: the slots still to visit, and what it has read and not yet pushed. -/
structure Sweep where
  producer : Producer
  todo : List SlotIdx
  drafted : Option SubmitCommand

structure ExitProducers where
  oms : OrderManagerState
  nodes : NodeIdx → EntryContext
  sweeps : List Sweep

/-- `enter` drains an ENTRY event, `rebuild` is the slow path staging a node's next entry, `own` a
    drain of a submit queue or the processing of a result. -/
inductive ExitAct where
  | start (p : Producer)
  | visit (k : Nat)
  | push (k : Nat)
  | enter (n : NodeIdx) (nowTick : Nat) (ev : TradeEvent)
  | rebuild (n : NodeIdx) (ctx : EntryContext)
  | own (a : OrderManagerState.Act)

namespace ExitProducers

open OrderManagerState

def init (balance : Money) (tradeLog : Option (List (EmitRecord × Money))) (nodes : NodeIdx → EntryContext) :
    ExitProducers :=
  { oms := .init balance tradeLog, nodes, sweeps := [] }

/-- A sweep's next read, unless what it read last is still to be pushed. -/
def visit (c : ExitConfig) (s : ExitProducers) (k : Nat) (w : Sweep) : ExitProducers :=
  match w.drafted, w.todo with
  | none, slot :: rest =>
    { s with
      nodes := w.producer.restamp s.nodes
      sweeps := s.sweeps.set k
        { w with todo := rest, drafted := w.producer.draft c s.oms.books.portfolio s.nodes slot } }
  | _, _ => s

/-- The sell a sweep is about to push. -/
def drafted (s : ExitProducers) (k : Nat) : Option SubmitCommand := s.sweeps[k]?.bind Sweep.drafted

def push (s : ExitProducers) (k : Nat) (w : Sweep) (cmd : SubmitCommand) : ExitProducers :=
  { s with oms := s.oms.pushSubmit cmd, sweeps := s.sweeps.set k { w with drafted := none } }

/-- An ENTRY event drained: its buy pushed and its trade stamped. -/
def enter (c : ExitConfig) (s : ExitProducers) (n : NodeIdx) (nowTick : Nat) (ev : TradeEvent) : ExitProducers :=
  match c.drain.drainEvent s.oms.books.portfolio (s.nodes n) n ev with
  | none => s
  | some cmd => { s with oms := s.oms.pushSubmit cmd, nodes := update s.nodes n ((s.nodes n).stamp nowTick ev) }

def step (c : ExitConfig) (s : ExitProducers) : ExitAct → ExitProducers
  | .start p => { s with sweeps := s.sweeps ++ [⟨p, p.slots c s.oms.books.portfolio, none⟩] }
  | .visit k => (s.sweeps[k]?).elim s (s.visit c k)
  | .push k => (s.sweeps[k]?).elim s fun w => w.drafted.elim s (s.push k w)
  | .enter n nowTick ev => if ev.type = .entry then s.enter c n nowTick ev else s
  | .rebuild n ctx => { s with nodes := update s.nodes n ctx }
  | .own a => if a.isOwn then { s with oms := s.oms.step c.drain.oms a } else s

/-! ### One sell at a time -/

variable {c : ExitConfig} {s : ExitProducers}

/-- The discipline that is missing: a sell is pushed only while none is under way for its slot, and
    only while the slot still holds what the producer read. Executed quantities have a size. -/
def Alone (s : ExitProducers) : ExitAct → Prop
  | .push k =>
    ∀ cmd ∈ s.drafted k, s.oms.exitUnderWay cmd.portfolioSlot = false ∧
      cmd.qty.v ≤ (s.oms.books.portfolio.held cmd.portfolioSlot).v
  | .own a => ∀ x ∈ s.oms.executed a, Sizable x.1.result
  | _ => True

instance (s : ExitProducers) : ∀ ev, Decidable (s.Alone ev)
  | .push k => inferInstanceAs (Decidable (∀ cmd ∈ s.drafted k, _))
  | .own a => inferInstanceAs (Decidable (∀ x ∈ s.oms.executed a, _))
  | .start _ | .visit _ | .enter .. | .rebuild .. => inferInstanceAs (Decidable True)

structure Inv (s : ExitProducers) : Prop where
  homed : Homed s.oms
  stocked : s.oms.books.portfolio.Stocked
  lone : ∀ p, Lone s.oms p

theorem Inv.init (balance : Money) (tradeLog : Option (List (EmitRecord × Money))) (nodes : NodeIdx → EntryContext) :
    Inv (init balance tradeLog nodes) :=
  ⟨.init balance tradeLog, fun _ h => absurd h Bool.false_ne_true, .init balance tradeLog⟩

/-- A push touches a submit queue only. -/
theorem Inv.pushSubmit (h : Inv s) {cmd : SubmitCommand}
    (hok : cmd.orderType.isSell = true →
      s.oms.exitUnderWay cmd.portfolioSlot = false ∧ cmd.qty.v ≤ (s.oms.books.portfolio.held cmd.portfolioSlot).v)
    (nodes : NodeIdx → EntryContext) (sweeps : List Sweep) :
    Inv { oms := s.oms.pushSubmit cmd, nodes, sweeps } :=
  ⟨h.homed.pushSubmit cmd, h.stocked, fun p => (h.lone p).pushSubmit fun hsell hslot => hslot ▸ hok hsell⟩

theorem inv_step (c : ExitConfig) (s : ExitProducers) (ev : ExitAct) (h : Inv s) (hok : s.Alone ev) :
    Inv (s.step c ev) := by
  cases ev with
  | start p => exact ⟨h.homed, h.stocked, h.lone⟩
  | rebuild n ctx => exact ⟨h.homed, h.stocked, h.lone⟩
  | visit k =>
    simp only [step]
    rcases s.sweeps[k]? with _ | w
    · exact h
    · simp only [Option.elim_some, visit]
      split
      · exact ⟨h.homed, h.stocked, h.lone⟩
      · exact h
  | push k =>
    simp only [step]
    rcases hw : s.sweeps[k]? with _ | w
    · exact h
    rcases hcmd : w.drafted with _ | cmd
    · simp only [Option.elim_some, hcmd]
      exact h
    · simp only [Option.elim_some, hcmd]
      have hmem : cmd ∈ s.drafted k := by rw [drafted, hw]; exact hcmd
      exact h.pushSubmit (fun _ => hok cmd hmem) _ _
  | enter n nowTick ev =>
    simp only [step, enter]
    split
    next hentry =>
      split
      · exact h
      next cmd hcmd =>
        refine h.pushSubmit (fun hsell => ?_) _ _
        obtain ⟨slot, -, rfl, -⟩ := DrainConfig.drainEvent_eq_some.1 hcmd
        rw [DrainConfig.orderFor_type, if_pos hentry] at hsell
        exact absurd hsell Bool.false_ne_true
    · exact h
  | own a =>
    simp only [step]
    split
    next hown =>
      have hsize : ∀ cmd j, s.oms.executed a = some (cmd, j) → Sizable cmd.result :=
        fun cmd j hexec => hok (cmd, j) hexec
      exact ⟨h.homed.act hown, stocked_act hsize h.stocked, fun p => (h.lone p).step hown h.homed h.stocked hsize⟩
    · exact h

/-- In every run of producers, drains and fills in which each sell is pushed alone, no slot is asked to
    sell more than it holds. -/
theorem outstanding_le_held (c : ExitConfig) (balance : Money) (tradeLog : Option (List (EmitRecord × Money)))
    (nodes : NodeIdx → EntryContext) (evs : List ExitAct)
    (halone : Steps (step c) Alone (init balance tradeLog nodes) evs) (p : SlotIdx) :
    (run (step c) (init balance tradeLog nodes) evs).oms.outstanding p ≤
      ((run (step c) (init balance tradeLog nodes) evs).oms.books.portfolio.held p).v := by
  have hinv : Inv (run (step c) (init balance tradeLog nodes) evs) :=
    run_inv_of_steps (inv_step c) evs (.init balance tradeLog nodes) halone
  exact (hinv.lone p).outstanding_le hinv.stocked

/-! ### Two slow cycles -/

/-- One slot a node, an adapter that takes the first three orders, a trade held for three ticks at most. -/
def sampleExits : ExitConfig where
  drain := sampleDrain (sampleLive [1, 2, 3])
  useExitModel := false
  exitThreshold := fun _ => 0.5
  maxHoldTicks := fun _ => 3
  nodeTimeExitTicks := fun _ => 0
  minHoldGainPct := .zero

/-- Ten units bought at 100 on node 0, and a slow cycle whose time exit sells them at 99. -/
def sampleHold : List ExitAct :=
  [.enter firstIdx 5 ⟨(Money.fromInt 100).val, 0, 0, .entry, .a⟩, .own (.popSubmit firstIdx),
    .own (.processFill (sampleLeg 1 10 true)), .start (.timeExit firstIdx 10 99), .visit 0, .push 0]

/-- The sell of one time exit, submitted and filled in part. -/
theorem outstanding_le_held_timeExit :
    let s := run (step sampleExits) (init .zero none fun _ => sampleContext)
      (sampleHold ++ [.own (.popSubmit 0), .own (.processFill (sampleLeg 2 4 false))])
    s.oms.outstanding 0 ≤ (s.oms.books.portfolio.held 0).v :=
  outstanding_le_held sampleExits .zero none _ _ (by decide +kernel) 0

/-- The next slow cycle comes before the fill and sells the slot again: the venue is asked for twenty of
    the ten units held. -/
theorem outstanding_exceeds_held :
    let s := run (step sampleExits) (init .zero none fun _ => sampleContext)
      (sampleHold ++ [.own (.popSubmit 0), .start (.timeExit 0 11 99), .visit 1, .push 1, .own (.popSubmit 0)])
    s.oms.books.portfolio.held 0 = (Money.fromInt 10).val ∧ (s.oms.liveExits 0).length = 2 ∧
      s.oms.outstanding 0 = (Money.fromInt 20).val.v ∧ ¬s.oms.outstanding 0 ≤ (s.oms.books.portfolio.held 0).v := by
  decide +kernel

end ExitProducers

end FoxTrader
