import FoxTrader.GateParameters
import FoxTrader.OrderManager

/-! # Draining the cores' events

    What `EngineCommon_DrainEventsAndSubmit` makes of one event popped from a core's ring: the
    portfolio slot of the event's leg, the quantity, and the submission pushed if that is positive.
    An entry takes the node's intended quantity, split between the legs where partial exits are on;
    an exit takes what the slot holds at that moment. -/

namespace FoxTrader

open Lib

def Leg.index : Leg → Nat
  | .a => 0
  | .b => 1

/-- `Sharded_LegSlot`: no slot for a leg B without partial exits, nor for a node past the last pair. -/
def legSlot (partialOn : Bool) (n : NodeIdx) (leg : Leg) : Option SlotIdx :=
  if partialOn then
    if h : n.val * 2 + leg.index < 16 then some ⟨n.val * 2 + leg.index, h⟩ else none
  else
    match leg with
    | .a => some n
    | .b => none

/-- The leg a slot is for. -/
def slotLeg (partialOn : Bool) (slot : SlotIdx) : Leg := if partialOn && slot.val % 2 = 1 then .b else .a

/-- Slots and the legs that have one are the same thing. -/
theorem legSlot_eq_some {partialOn : Bool} {n : NodeIdx} {leg : Leg} {slot : SlotIdx} :
    legSlot partialOn n leg = some slot ↔ slotNode partialOn slot = n ∧ slotLeg partialOn slot = leg := by
  cases partialOn <;> cases leg <;> revert n slot <;> decide +kernel

/-! ### What the drain reads -/

/-- What a node's configuration has on its entries. -/
structure EntryCfg where
  perNode : PerNodeCfg
  partialExitPct : Money
  tp2Mult : Money
  takeProfitPct : Money
  simpledipTpPct : Money
  mrTpPct : Money

/-- Zero inherits the node's value. -/
structure NodeOverrides where
  partialExitPct : Money
  tp2Mult : Money

structure DrainConfig where
  oms : OmsConfig
  nodes : NodeIdx → EntryCfg
  nodeOverrides : NodeIdx → NodeOverrides

/-- What the slow path stages for a node's next entry, and the stamps of its last one. -/
structure EntryContext where
  intendedQty : Money
  intendedTp : Money
  intendedSl : Money
  resolvedStrategyId : Nat
  lastEntryPrice : Money
  lastEntryTick : Nat

/-- A value, or the one it inherits where it is zero. -/
def orInherit (value inherited : Money) : Money := if !value.isZero then value else inherited

abbrev strategyMeanReversion : Nat := 0
abbrev strategySimpleDip : Nat := 2

/-- `ResolvePerFillTpPct`. -/
def resolvePerFillTpPct (strategyId : Nat) (cfg : EntryCfg) : Money :=
  if strategyId = strategySimpleDip then orInherit cfg.simpledipTpPct cfg.takeProfitPct
  else if strategyId = strategyMeanReversion then orInherit cfg.mrTpPct cfg.takeProfitPct
  else cfg.takeProfitPct

namespace DrainConfig

variable (c : DrainConfig)

def partialPct (n : NodeIdx) : Money := orInherit (c.nodeOverrides n).partialExitPct (c.nodes n).partialExitPct

def tp2Mult (n : NodeIdx) : Money := orInherit (c.nodeOverrides n).tp2Mult (c.nodes n).tp2Mult

/-- Whether the second leg's share, target and target percentage apply. -/
def isLegB (leg : Leg) : Bool := c.oms.partialExitEnabled && leg = .b

/-! ### One event -/

/-- An entry's share of the intended quantity: leg B takes the exact remainder of leg A's. -/
def entryQty (ctx : EntryContext) (n : NodeIdx) (leg : Leg) : Flagged 64 Money := do
  let legA ← ctx.intendedQty.mul (c.partialPct n)
  if c.oms.partialExitEnabled then
    match leg with
    | .a => return legA
    | .b => ctx.intendedQty.sub legA
  else return ctx.intendedQty

def orderQty (p : Portfolio) (ctx : EntryContext) (n : NodeIdx) (slot : SlotIdx) (ev : TradeEvent) :
    Flagged 64 Money :=
  match ev.type with
  | .exit => pure (p.positions slot).quantity
  | .entry => c.entryQty ctx n ev.leg

/-- The target in absolute price: leg B's distance is scaled. -/
def legTp (ctx : EntryContext) (n : NodeIdx) (ev : TradeEvent) : Flagged 64 Money :=
  if ev.type = .entry ∧ c.isLegB ev.leg then do
    let distA ← ctx.intendedTp.sub ev.price
    let distB ← distA.mul (c.tp2Mult n)
    ev.price.add distB
  else pure ctx.intendedTp

/-- The target percentage carried to the fill, on entries only. -/
def legTpPct (ctx : EntryContext) (n : NodeIdx) (ev : TradeEvent) : Flagged 64 Money :=
  match ev.type with
  | .exit => pure .zero
  | .entry =>
    let tpPct := resolvePerFillTpPct ctx.resolvedStrategyId (c.nodes n)
    if c.isLegB ev.leg then tpPct.mul (c.tp2Mult n) else pure tpPct

/-- The submission an event leads to, before its quantity is looked at. -/
def orderFor (p : Portfolio) (ctx : EntryContext) (n : NodeIdx) (slot : SlotIdx) (ev : TradeEvent) :
    Flagged 64 SubmitCommand := do
  let qty ← c.orderQty p ctx n slot ev
  let intendedTp ← c.legTp ctx n ev
  let tpPct ← c.legTpPct ctx n ev
  return {
    portfolioSlot := slot, orderType := if ev.type = .entry then .marketBuy else .marketSell, qty
    leg := ev.leg.index, nodeCfg := some (c.nodes n).perNode, strategyId := ctx.resolvedStrategyId
    intendedTp, intendedSl := ctx.intendedSl, eventPrice := ev.price, tpPct }

/-- The submission pushed for an event of node `n`, if its leg has a slot and its quantity is positive. -/
def drainEvent (p : Portfolio) (ctx : EntryContext) (n : NodeIdx) (ev : TradeEvent) : Option SubmitCommand :=
  (legSlot c.oms.partialExitEnabled n ev.leg).bind fun slot =>
    (some (c.orderFor p ctx n slot ev).val).filter fun cmd => cmd.qty.gt .zero

end DrainConfig

/-- The entry stamps of a submitted event: one trade, one stamp, so leg A's. -/
def EntryContext.stamp (ctx : EntryContext) (nowTick : Nat) (ev : TradeEvent) : EntryContext :=
  if ev.type = .entry ∧ ev.leg = .a then { ctx with lastEntryPrice := ev.price, lastEntryTick := nowTick } else ctx

/-! ### What a drained event submits -/

variable {c : DrainConfig} {p : Portfolio} {ctx : EntryContext} {n : NodeIdx} {ev : TradeEvent} {cmd : SubmitCommand}

@[simp] theorem DrainConfig.orderFor_slot (slot : SlotIdx) : (c.orderFor p ctx n slot ev).val.portfolioSlot =
  slot := rfl

@[simp] theorem DrainConfig.orderFor_type (slot : SlotIdx) :
    (c.orderFor p ctx n slot ev).val.orderType = if ev.type = .entry then .marketBuy else .marketSell := rfl

@[simp] theorem DrainConfig.orderFor_qty (slot : SlotIdx) :
    (c.orderFor p ctx n slot ev).val.qty = (c.orderQty p ctx n slot ev).val := rfl

/-- The submission of an event goes to the slot of its leg, and buys for an entry and sells for an exit. -/
theorem DrainConfig.drainEvent_eq_some :
    c.drainEvent p ctx n ev = some cmd ↔
      ∃ slot, legSlot c.oms.partialExitEnabled n ev.leg = some slot ∧ cmd = (c.orderFor p ctx n slot ev).val ∧
        cmd.qty.gt .zero = true := by
  simp only [drainEvent, Option.bind_eq_some_iff, Option.filter_eq_some_iff, Option.some_inj]
  constructor
  · rintro ⟨slot, hslot, rfl, hqty⟩
    exact ⟨slot, hslot, rfl, hqty⟩
  · rintro ⟨slot, hslot, rfl, hqty⟩
    exact ⟨slot, hslot, rfl, hqty⟩

/-! ### A sample configuration -/

/-- No fees, no targets of its own. -/
def sampleDrain (oms : OmsConfig) : DrainConfig where
  oms := oms
  nodes := fun _ => ⟨.nullStub, .zero, .zero, .zero, .zero, .zero⟩
  nodeOverrides := fun _ => ⟨.zero, .zero⟩

/-- Ten units to buy. -/
def sampleContext : EntryContext :=
  { intendedQty := (Money.fromInt 10).val, intendedTp := .zero, intendedSl := .zero, resolvedStrategyId := 1
    lastEntryPrice := .zero, lastEntryTick := 0 }

end FoxTrader
