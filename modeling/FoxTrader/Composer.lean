import FoxTrader.Lib.Fifo
import FoxTrader.Lib.Lanes
import FoxTrader.Order

/-! # The composer: ledger, node rows and the event funnel

    A booked leg leaves the order manager as a fill event on its node's ring and, in event-log mode
    1, as an audit event on its node's funnel ring. Only the composer writes what is global: it
    drains the fill rings, lowest node first and first-in first-out within a node, into the ledger
    and the node rows, then the funnel rings in the same order into the event log. Neither kind of
    ring ever drops an event: a full one is drained on the spot and the push repeated. Without an
    aggregator (the test harness) both go straight to the ledger and the log. -/

namespace FoxTrader

open Lib Function

/-! ### Configuration -/

/-- The two submit functions of the exchange adapter, `none` for a null pointer: whether the
    adapter takes an order, by its id and quantity. -/
structure ExchangeAdapter where
  submitMarketBuy : Option (Nat → Float → Bool)
  submitMarketSell : Option (Nat → Float → Bool)

/-- The event-log mode that appends. -/
def appendMode : Fin 4 := 1

/-- What `OrderManager_Init` and the boot set for the whole run. -/
structure OmsConfig where
  liveTrading : Bool
  partialExitEnabled : Bool
  eventLogMode : Fin 4
  adapter : ExchangeAdapter
  aggWired : Bool

/-- The node of a portfolio slot. -/
def OmsConfig.slotNode (c : OmsConfig) (slot : SlotIdx) : NodeIdx := FoxTrader.slotNode c.partialExitEnabled slot

/-! ### Fill events and node rows -/

structure FillEvent where
  slot : SlotIdx
  node : NodeIdx
  isSell : Bool
  orderComplete : Bool
  isMaker : Bool
  slotFlat : Bool
  seq : Nat
  qty : Money
  price : Money
  fee : Money
  net : Money
  notional : Money
  entryFeeLeg : Money

structure EmitRecord where
  fillPrice : Money
  entryPriceSnap : Money
  qty : Money
  net : Money
  fee : Money
  timestampUs : Nat
  slot : SlotIdx
  strategyId : Nat
  isEntry : Bool

/-- The accounting row of one node. -/
structure NodeContext where
  nodeRealized : Money
  nodeFees : Money
  nodeOpenNotional : Money
  nodeGrossWins : Money
  nodeGrossLosses : Money
  partnerPendingPnl : Money
  entriesProcessed : Nat
  exitsProcessed : Nat
  nodeWins : Nat
  nodeLosses : Nat

def NodeContext.zero : NodeContext :=
  { nodeRealized := .zero, nodeFees := .zero, nodeOpenNotional := .zero, nodeGrossWins := .zero
    nodeGrossLosses := .zero, partnerPendingPnl := .zero, entriesProcessed := 0, exitsProcessed := 0
    nodeWins := 0, nodeLosses := 0 }

/-- `FILL_EVENT_RING_SIZE`. -/
abbrev fillEventRingSize : Nat := 128

structure AggregatorState where
  fillRings : NodeIdx → Fifo FillEvent fillEventRingSize
  emitRings : NodeIdx → Fifo EmitRecord fillEventRingSize
  slotNotional : SlotIdx → Money
  pendingTradeNet : SlotIdx → Money
  appliedSeq : NodeIdx → Nat
  fillRingFullEvents : Nat
  killTripFatalSeq : Nat

structure EventLoopState where
  agg : AggregatorState
  nodes : NodeIdx → NodeContext
  partnerPendingBitmap : NodeIdx → Bool
  totalEntries : Nat
  totalExits : Nat
  totalEventsProcessed : Nat

structure Ledger where
  balance : Money
  realizedPnl : Money
  ksPeakBalance : Money
  totalFees : Money
  totalMakerFees : Money
  totalTakerFees : Money
  makerFillsCount : Nat
  takerFillsCount : Nat

/-- `OE_FUNNEL_RING_SIZE`. -/
abbrev oeFunnelRingSize : Nat := 64

/-- Everything the composer writes. `tradeLog` holds the rendered rows, each with the balance after
    it; `none` while no trade log is wired. -/
structure Composer where
  ledger : Ledger
  els : EventLoopState
  eventLog : OrderEventLog OrderEvent
  oeRings : NodeIdx → Fifo OrderEvent oeFunnelRingSize
  tradeLog : Option (List (EmitRecord × Money))

/-! ### Booking -/

/-- `OrderManager_AccountMakerTakerFee`. -/
def Ledger.accountMakerTakerFee (l : Ledger) (isMaker : Bool) (fee : Money) : Flagged 64 Ledger := do
  let totalFees ← l.totalFees.add fee
  let totalMakerFees ← (if isMaker then l.totalMakerFees.add fee else pure l.totalMakerFees)
  let totalTakerFees ← (if isMaker then pure l.totalTakerFees else l.totalTakerFees.add fee)
  return { l with
    totalFees, totalMakerFees, totalTakerFees
    makerFillsCount := l.makerFillsCount + isMaker.toNat
    takerFillsCount := l.takerFillsCount + (!isMaker).toNat }

/-- `OrderManager_LedgerApplyFill`. -/
def Ledger.applyFill (l : Ledger) (fe : FillEvent) : Flagged 64 Ledger := do
  let l ← l.accountMakerTakerFee fe.isMaker fe.fee
  let balance ← l.balance.add fe.net
  let realizedPnl ← l.realizedPnl.add fe.net
  return { l with balance, realizedPnl, ksPeakBalance := l.ksPeakBalance.max balance }

/-- A concluded trade in a node's win and loss counts. -/
def NodeContext.classify (ctx : NodeContext) (net : Money) : Flagged 64 NodeContext :=
  if net.gt .zero then do
    let nodeGrossWins ← ctx.nodeGrossWins.add net
    return { ctx with nodeGrossWins, nodeWins := ctx.nodeWins + 1 }
  else do
    let nodeGrossLosses ← ctx.nodeGrossLosses.add net.neg
    return { ctx with nodeGrossLosses, nodeLosses := ctx.nodeLosses + 1 }

/-- The net of a slot's trade taken off it. -/
def EventLoopState.clearTradeNet (st : EventLoopState) (slot : SlotIdx) : EventLoopState :=
  { st with agg := { st.agg with pendingTradeNet := update st.agg.pendingTradeNet slot .zero } }

/-- The slot-flat end of `EngineCommon_NodeRowsBook`: the trade's total is classified, with partial
    exits on together with its partner leg's. -/
def EventLoopState.concludeTrade (partialOn : Bool) (st : EventLoopState) (slot : SlotIdx) (node : NodeIdx) :
    Flagged 64 EventLoopState :=
  if !partialOn then do
    let ctx ← (st.nodes node).classify (st.agg.pendingTradeNet slot)
    return { st.clearTradeNet slot with nodes := update st.nodes node ctx }
  else if st.partnerPendingBitmap node then do
    let totalNet ← (st.nodes node).partnerPendingPnl.add (st.agg.pendingTradeNet slot)
    let ctx ← (st.nodes node).classify totalNet
    return { st.clearTradeNet slot with
      nodes := update st.nodes node { ctx with partnerPendingPnl := .zero }
      partnerPendingBitmap := update st.partnerPendingBitmap node false }
  else
    pure { st.clearTradeNet slot with
      nodes := update st.nodes node
        { st.nodes node with partnerPendingPnl := st.agg.pendingTradeNet slot }
      partnerPendingBitmap := update st.partnerPendingBitmap node true }

/-- The buy half of `EngineCommon_NodeRowsBook`. -/
def EventLoopState.bookBuy (st : EventLoopState) (fe : FillEvent) : Flagged 64 EventLoopState := do
  let ctx := st.nodes fe.node
  let slotNotional ← (st.agg.slotNotional fe.slot).add fe.notional
  let nodeOpenNotional ← ctx.nodeOpenNotional.add fe.notional
  return { st with
    agg := { st.agg with slotNotional := update st.agg.slotNotional fe.slot slotNotional }
    nodes := update st.nodes fe.node
      { ctx with nodeOpenNotional, entriesProcessed := ctx.entriesProcessed + 1 }
    totalEntries := st.totalEntries + 1
    totalEventsProcessed := st.totalEventsProcessed + 1 }

/-- The sell half of `EngineCommon_NodeRowsBook` up to the trade's end. -/
def EventLoopState.bookSell (st : EventLoopState) (fe : FillEvent) : Flagged 64 EventLoopState := do
  let ctx := st.nodes fe.node
  let nodeRealized ← ctx.nodeRealized.add fe.net
  let legFees ← fe.entryFeeLeg.add fe.fee
  let nodeFees ← ctx.nodeFees.add legFees
  let relief := if fe.slotFlat then st.agg.slotNotional fe.slot else fe.notional
  let nodeOpenNotional ← ctx.nodeOpenNotional.sub relief
  let slotNotional ← (st.agg.slotNotional fe.slot).sub relief
  let pendingTradeNet ← (st.agg.pendingTradeNet fe.slot).add fe.net
  return { st with
    agg := { st.agg with
      slotNotional := update st.agg.slotNotional fe.slot slotNotional
      pendingTradeNet := update st.agg.pendingTradeNet fe.slot pendingTradeNet }
    nodes := update st.nodes fe.node
      { ctx with nodeRealized, nodeFees, nodeOpenNotional, exitsProcessed := ctx.exitsProcessed + 1 }
    totalExits := st.totalExits + 1
    totalEventsProcessed := st.totalEventsProcessed + 1 }

/-- `EngineCommon_NodeRowsBook`. -/
def EventLoopState.nodeRowsBook (partialOn : Bool) (st : EventLoopState) (fe : FillEvent) :
    Flagged 64 EventLoopState :=
  if !fe.isSell then st.bookBuy fe
  else do
    let st ← st.bookSell fe
    if fe.slotFlat then st.concludeTrade partialOn fe.slot fe.node else pure st

namespace Composer

/-! ### The event funnel -/

/-- The audit events in the funnel, in the order it is drained. -/
def pendingEvents (k : Composer) : List OrderEvent := lanes fun n => (k.oeRings n).items

/-- `OMS_EventFunnelDrain`. -/
def eventFunnelDrain (k : Composer) : Composer :=
  { k with eventLog := k.pendingEvents.foldl OrderEventLog.append k.eventLog, oeRings := fun _ => .empty }

/-- `OMS_EventFunnelPush`; an event of no slot goes to ring 0. -/
def eventFunnelPush (c : OmsConfig) (k : Composer) (ev : OrderEvent) (slot : Option SlotIdx) : Composer :=
  if !c.aggWired then { k with eventLog := k.eventLog.append ev }
  else
    let n := (slot.map c.slotNode).getD firstIdx
    match (k.oeRings n).tryPush ev with
    | (true, ring) => { k with oeRings := update k.oeRings n ring }
    | (false, _) =>
      let k := k.eventFunnelDrain
      { k with oeRings := update k.oeRings n ((k.oeRings n).tryPush ev).2 }

/-! ### The fill rings -/

/-- The fill events in the rings, in the order they are applied. -/
def pendingFills (k : Composer) : List FillEvent := lanes fun n => (k.els.agg.fillRings n).items

/-- `EngineCommon_EmitTradeRow` for the record paired with a fill of `node`, if a log is wired. -/
def emitTradeRow (k : Composer) (node : NodeIdx) : Composer :=
  match k.tradeLog with
  | none => k
  | some rows =>
    match (k.els.agg.emitRings node).tryPop with
    | (none, _) => k
    | (some rec, ring) =>
      { k with
        els := { k.els with agg := { k.els.agg with emitRings := update k.els.agg.emitRings node ring } }
        tradeLog := some (rows ++ [(rec, k.ledger.balance)]) }

/-- One turn of `EngineCommon_FillRingsApply`'s loop. -/
def applyFill (c : OmsConfig) (k : Composer) (fe : FillEvent) : Flagged 64 Composer := do
  let ledger ← k.ledger.applyFill fe
  let els ← k.els.nodeRowsBook c.partialExitEnabled fe
  return emitTradeRow
    { k with
      ledger
      els := { els with agg := { els.agg with appliedSeq := update els.agg.appliedSeq fe.node fe.seq } } }
    fe.node

/-- Empty every fill ring. -/
def clearFillRings (k : Composer) : Composer :=
  { k with els := { k.els with agg := { k.els.agg with fillRings := fun _ => .empty } } }

/-- `EngineCommon_FillRingsApply`. -/
def fillRingsApply (c : OmsConfig) (k : Composer) : Flagged 64 Composer := do
  let k ← k.pendingFills.foldlM (applyFill c) k.clearFillRings
  return k.eventFunnelDrain

def setFillRing (k : Composer) (n : NodeIdx) (ring : Fifo FillEvent fillEventRingSize) : Composer :=
  { k with els := { k.els with agg := { k.els.agg with fillRings := update k.els.agg.fillRings n ring } } }

def countFillRingFull (k : Composer) : Composer :=
  { k with els := { k.els with agg := { k.els.agg with fillRingFullEvents := k.els.agg.fillRingFullEvents + 1 } } }

/-- `fill_emit`: `OrderManager_FillEmitDirect` without an aggregator, else `EngineCommon_FillEmit`. -/
def fillEmit (c : OmsConfig) (k : Composer) (fe : FillEvent) : Flagged 64 Composer :=
  if !c.aggWired then do
    let ledger ← k.ledger.applyFill fe
    return { k with ledger }
  else
    match (k.els.agg.fillRings fe.node).tryPush fe with
    | (true, ring) => pure (k.setFillRing fe.node ring)
    | (false, _) => do
      let k ← k.countFillRingFull.fillRingsApply c
      return k.setFillRing fe.node ((k.els.agg.fillRings fe.node).tryPush fe).2

/-- `on_entry_fill_emit`, `on_exit_fill_emit`: the trade row, queued behind its fill event. -/
def emitRecord (c : OmsConfig) (k : Composer) (rec : EmitRecord) : Composer :=
  match k.tradeLog with
  | none => k
  | some rows =>
    if !c.aggWired then { k with tradeLog := some (rows ++ [(rec, k.ledger.balance)]) }
    else
      let n := c.slotNode rec.slot
      { k with
        els := { k.els with
          agg := { k.els.agg with
            emitRings := update k.els.agg.emitRings n ((k.els.agg.emitRings n).tryPush rec).2 } } }

/-- The number of the next fatal site, handed out. -/
def countFatal (k : Composer) : Composer :=
  { k with els := { k.els with agg := { k.els.agg with killTripFatalSeq := k.els.agg.killTripFatalSeq + 1 } } }

def fatalRow (site : String) (qty : Money) : OrderEvent :=
  { eventId := 0, orderId := 0, timestampUs := 0, type := .ringFullFatal, orderType := .marketBuy, nodeId := -1
    price := .zero, qty, tp := .zero, sl := .zero, fee := .zero, reason := "FATAL:" ++ site }

/-- The ledger-side marker of a fatal site, a direct append: the composer is the only appender. -/
def fatalMarker (c : OmsConfig) (k : Composer) (site : String) : Flagged 64 Composer :=
  if c.eventLogMode = appendMode then do
    let qty ← Money.fromInt k.countFatal.els.agg.killTripFatalSeq
    return { k.countFatal with eventLog := k.eventLog.append (fatalRow site qty) }
  else pure k.countFatal

end Composer

end FoxTrader
