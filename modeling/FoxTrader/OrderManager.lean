import FoxTrader.Lib.Run
import FoxTrader.FillHandlers

/-! # The order manager

    One thread owns the order table: it submits, and it processes the results other threads push.
    An order takes the lowest free slot of the table and an id that names that slot, its node and a
    counter; a result finds its order by the slot in the id and only if the id is still the
    occupant's. `ProcessFillCommand` refuses, acknowledges, books a leg, ends an order short and
    sells its remainder again, or rejects.

    `step` interleaves the owner with the producers. The loops of `OMS_DrainSubmit` and
    `OrderManager_Tick` are runs of their turns (`popSubmit`; `popResult`, `popWs`, `popReconcile`
    and then `staleSweep`), so that results may also arrive between two turns. -/

namespace FoxTrader

open Lib Function

/-- `OMS_RESULT_RING_PER_NODE`, `OMS_RESULT_QUEUE_SIZE` and the other queue depths. -/
abbrev omsResultRingPerNode : Nat := 16
abbrev omsResultQueueSize : Nat := 256
abbrev omsReconcileQueueSize : Nat := 64
abbrev omsSubmitQueueSize : Nat := 32

/-- `OMS_STALE_INFLIGHT_WARN_US`. -/
abbrev omsStaleInflightWarnUs : Nat := 10000000

/-- `orderBitmap` is the set of occupied table slots. `issued` records every id `Submit` has made
    up, newest first; nothing reads it. `moneyOpFlags` collects the status word of every step. -/
structure OrderManagerState where
  orders : OrderSlot → Order
  orderBitmap : OrderSlot → Bool
  nextOrderId : Nat
  totalSubmitted : Nat
  totalFilled : Nat
  totalRejected : Nat
  resultRings : NodeIdx → Fifo Command omsResultRingPerNode
  wsResultQueue : Fifo Command omsResultQueueSize
  reconcileQueue : Fifo Command omsReconcileQueueSize
  submitQueues : SlotIdx → Fifo SubmitCommand omsSubmitQueueSize
  books : Books
  nowUs : Nat
  issued : List Nat
  moneyOpFlags : BitVec 64

namespace OrderManagerState

/-- `OrderManager_Init` on a zeroed state, with the aggregator and the trade log as booted. -/
def init (startingBalance : Money) (tradeLog : Option (List (EmitRecord × Money))) : OrderManagerState where
  orders := fun _ => .blank
  orderBitmap := fun _ => false
  nextOrderId := 1
  totalSubmitted := 0
  totalFilled := 0
  totalRejected := 0
  resultRings := fun _ => .empty
  wsResultQueue := .empty
  reconcileQueue := .empty
  submitQueues := fun _ => .empty
  books :=
    { portfolio := .init
      fillEmitSeq := fun _ => 0
      composer :=
        { ledger :=
            { balance := startingBalance, realizedPnl := .zero, ksPeakBalance := startingBalance
              totalFees := .zero, totalMakerFees := .zero, totalTakerFees := .zero
              makerFillsCount := 0, takerFillsCount := 0 }
          els :=
            { agg :=
                { fillRings := fun _ => .empty, emitRings := fun _ => .empty, slotNotional := fun _ => .zero
                  pendingTradeNet := fun _ => .zero, appliedSeq := fun _ => 0, fillRingFullEvents := 0
                  killTripFatalSeq := 0 }
              nodes := fun _ => .zero, partnerPendingBitmap := fun _ => false
              totalEntries := 0, totalExits := 0, totalEventsProcessed := 0 }
          eventLog := .init, oeRings := fun _ => .empty, tradeLog } }
  nowUs := 0
  issued := []
  moneyOpFlags := 0

/-! ### Submitting -/

/-- `ctz` of the free mask. -/
def freeSlot (bitmap : OrderSlot → Bool) : Option OrderSlot := (List.finRange 16).find? fun i => !bitmap i

/-- The order `Submit` writes into its table slot. -/
def submittedOrder (old : Order) (id : Nat) (cmd : SubmitCommand) (nowUs : Nat) : Order :=
  let o := { old.init id cmd.portfolioSlot cmd.orderType with
    submittedAtUs := nowUs, requestedQty := cmd.qty, intendedTp := cmd.intendedTp
    intendedSl := cmd.intendedSl, strategyId := cmd.strategyId, eventPrice := cmd.eventPrice
    leg := cmd.leg, state := .submitted }
  let o := o.bindPreResolved (cmd.nodeCfg.getD .nullStub)
  { o with preResolved := { o.preResolved with tpPct := cmd.tpPct } }

/-- The paper fill price: slippage makes an entry dearer and an exit cheaper. -/
def paperFillPrice (type : OrderType) (eventPrice slippagePct : Money) : Flagged 64 Money := do
  let slip ← eventPrice.mul slippagePct
  let buy ← eventPrice.add slip
  let sell ← eventPrice.sub slip
  return if type = .marketSell then sell else buy

/-- The synthetic result of a paper order: all of it at once. -/
def paperResult (id : Nat) (price qty : Money) : Command where
  type := .fillResult
  orderId := id
  result :=
    { success := true, exchangeId := "PAPER", avgFillPrice := price.toDouble, fillQty := qty.toDouble
      errorMessage := "", isMaker := false, orderComplete := true, venueTerminal := false, commission := 0
      commissionAsset := "" }

/-- `OMS_ResultPush`: onto the ring of the id's node, dropped when that is full. -/
def resultPush (s : OrderManagerState) (cmd : Command) : OrderManagerState :=
  let n := orderIdNode cmd.orderId
  { s with resultRings := update s.resultRings n ((s.resultRings n).tryPush cmd).2 }

/-- Whether the live adapter is wired and takes the order. -/
def adapterTakes (c : OmsConfig) (type : OrderType) (id : Nat) (qty : Money) : Bool :=
  match c.adapter.submitMarketBuy, c.adapter.submitMarketSell with
  | some buy, some sell => if type = .marketBuy then buy id qty.toDouble else sell id qty.toDouble
  | _, _ => false

/-- The order in `slot` never reached the venue: reject it and free the slot. -/
def refuseSubmit (s : OrderManagerState) (slot : OrderSlot) : OrderManagerState :=
  { s with
    orders := update s.orders slot { s.orders slot with state := .rejected }
    orderBitmap := update s.orderBitmap slot false
    totalRejected := s.totalRejected + 1 }

/-- The counter spent on a submission, whatever becomes of it. -/
def countSubmission (s : OrderManagerState) : OrderManagerState := { s with nextOrderId := s.nextOrderId + 1 }

/-- The id of the next order, were it to go into `slot`. -/
def nextId (c : OmsConfig) (s : OrderManagerState) (cmd : SubmitCommand) (slot : OrderSlot) : Nat :=
  encodeOrderId slot (c.slotNode cmd.portfolioSlot) s.nextOrderId

/-- The order in its slot, not yet sent anywhere. -/
def place (c : OmsConfig) (s : OrderManagerState) (cmd : SubmitCommand) (slot : OrderSlot) : OrderManagerState :=
  let id := s.nextId c cmd slot
  { s.countSubmission with
    orders := update s.orders slot (submittedOrder (s.orders slot) id cmd s.nowUs)
    orderBitmap := update s.orderBitmap slot true
    totalSubmitted := s.totalSubmitted + 1
    issued := id :: s.issued }

/-- `OrderManager_Submit`: the id of the live order, or 0. -/
def submit (c : OmsConfig) (s : OrderManagerState) (cmd : SubmitCommand) : Flagged 64 (OrderManagerState × Nat) :=
  match freeSlot s.orderBitmap with
  | none => pure (s.countSubmission, 0)
  | some slot =>
    let id := s.nextId c cmd slot
    let s := s.place c cmd slot
    if !c.liveTrading then do
      let price ← paperFillPrice cmd.orderType cmd.eventPrice (s.orders slot).preResolved.slippagePct
      return (s.resultPush (paperResult id price cmd.qty), id)
    else if adapterTakes c cmd.orderType id cmd.qty then pure (s, id)
    else pure (s.refuseSubmit slot, 0)

/-- `OMS_PushSubmit`. -/
def pushSubmit (s : OrderManagerState) (cmd : SubmitCommand) : OrderManagerState :=
  { s with
    submitQueues := update s.submitQueues cmd.portfolioSlot ((s.submitQueues cmd.portfolioSlot).tryPush cmd).2 }

/-! ### Processing results -/

/-- The occupied slot whose order has this id, if the id's slot lane finds it. -/
def occupant (s : OrderManagerState) (id : Nat) : Option OrderSlot :=
  let i := orderIdSlot id
  if s.orderBitmap i ∧ (s.orders i).id = id then some i else none

def setOrder (s : OrderManagerState) (i : OrderSlot) (o : Order) : OrderManagerState :=
  { s with orders := update s.orders i o }

/-- Free the slot of an order that has ended. -/
def freeIfTerminal (s : OrderManagerState) (i : OrderSlot) : OrderManagerState :=
  if (s.orders i).state.isTerminal then { s with orderBitmap := update s.orderBitmap i false } else s

/-- A result that carries no execution and ends nothing. -/
def isAck (r : OrderResult) : Bool := r.fillQty == 0.0 && r.avgFillPrice == 0.0 && !r.venueTerminal

/-- A late acknowledgement never takes a partial fill back. -/
def acknowledge (o : Order) : Order := if o.state = .partialFill then o else { o with state := .acknowledged }

/-- The tripwire: a REST response with a quantity after legs were booked. -/
def restAfterLegs (cmd : Command) (o : Order) : Bool :=
  cmd.type = .fillResult && !o.filledQty.isZero && decide (cmd.result.fillQty > 0.0)

/-- The order after one execution leg. -/
def legOrder (o : Order) (r : OrderResult) : Flagged 64 Order := do
  let filledQty ← o.filledQty.add (moneyFromDoublePayload r.fillQty)
  return { o with
    filledQty, isMaker := r.isMaker, state := if r.orderComplete then .filled else .partialFill }

/-- The leg's quantity, not the running total, is what is booked; none is booked without one. -/
def bookLeg (c : OmsConfig) (nowUs : Nat) (b : Books) (o : Order) (r : OrderResult) : Flagged 64 Books :=
  if r.fillQty > 0.0 then
    b.handleFill c nowUs o o.avgFillPrice (moneyFromDoublePayload r.fillQty) r.commission r.commissionAsset
  else pure b

/-- Count and book an execution of the order in `i`, whose record so far is `o`. -/
def bookExecution (c : OmsConfig) (s : OrderManagerState) (i : OrderSlot) (o : Order) (r : OrderResult) :
    Flagged 64 OrderManagerState := do
  let o ← legOrder o r
  let books ← bookLeg c s.nowUs s.books o r
  return { s with
    orders := update s.orders i o, books
    totalFilled := s.totalFilled + r.orderComplete.toNat }

/-- What the slot still holds. -/
def remaining (b : Books) (slot : SlotIdx) : Money :=
  if b.portfolio.active slot then (b.portfolio.positions slot).quantity else .zero

def terminalIncompleteEvent (dead : Order) (rest : Money) : OrderEvent :=
  { eventId := 0, orderId := dead.id, timestampUs := dead.submittedAtUs, type := .terminalIncomplete
    orderType := dead.type, nodeId := dead.portfolioSlot.val, price := .zero, qty := dead.filledQty
    tp := .zero, sl := .zero, fee := .zero, reason := "term-incomplete rem=" ++ fixed8 rest.toDouble }

/-- The exit submitted again for what the dead one left. -/
def resubmission (dead : Order) (rest : Money) : SubmitCommand :=
  { portfolioSlot := dead.portfolioSlot, orderType := .marketSell, qty := rest
    leg := dead.portfolioSlot.val % 2, nodeCfg := none, intendedTp := dead.intendedTp
    intendedSl := dead.intendedSl, strategyId := dead.strategyId, eventPrice := dead.avgFillPrice }

/-- Submit the remainder and carry the dead order's binding over to the slot the id decodes to. -/
def resubmit (c : OmsConfig) (s : OrderManagerState) (dead : Order) (rest : Money) :
    Flagged 64 OrderManagerState := do
  let r ← s.submit c (resubmission dead rest)
  let i := orderIdSlot r.2
  return r.1.setOrder i { r.1.orders i with preResolved := dead.preResolved }

/-- The record of an order the venue ended short of complete. -/
def deadOrder (s : OrderManagerState) (i : OrderSlot) : Order := { s.orders i with state := .canceled }

/-- What the dead order's portfolio slot still holds. -/
def leftover (s : OrderManagerState) (i : OrderSlot) : Money := remaining s.books (s.orders i).portfolioSlot

/-- The dead order's slot freed, the audit row appended. -/
def cancel (c : OmsConfig) (s : OrderManagerState) (i : OrderSlot) : OrderManagerState :=
  { s with
    orders := update s.orders i (s.deadOrder i)
    orderBitmap := update s.orderBitmap i false
    books := s.books.auditAppend c (terminalIncompleteEvent (s.deadOrder i) (s.leftover i))
      (some (s.orders i).portfolioSlot) }

/-- The terminal-incomplete disposition: a sell's unexecuted remainder is submitted again. -/
def endIncomplete (c : OmsConfig) (s : OrderManagerState) (i : OrderSlot) : Flagged 64 OrderManagerState :=
  if (s.orders i).type = .marketSell ∧ (s.leftover i).isZero = false then
    (s.cancel c i).resubmit c (s.deadOrder i) (s.leftover i)
  else pure (s.cancel c i)

/-- The order of `i` under the venue's name. -/
def named (s : OrderManagerState) (i : OrderSlot) (r : OrderResult) : Order :=
  { s.orders i with exchangeId := r.exchangeId }

/-- The order of `i` at the leg's price. -/
def priced (s : OrderManagerState) (i : OrderSlot) (r : OrderResult) : Order :=
  { s.named i r with avgFillPrice := moneyFromDoublePayload r.avgFillPrice }

/-- A success for the order in `i`; whether the command counts as processed. -/
def processExecution (c : OmsConfig) (s : OrderManagerState) (i : OrderSlot) (cmd : Command) :
    Flagged 64 (OrderManagerState × Bool) :=
  let r := cmd.result
  if isAck r then pure (s.setOrder i (acknowledge (s.named i r)), true)
  else if restAfterLegs cmd (s.priced i r) then pure (s.setOrder i (s.priced i r), false)
  else do
    let s ← s.bookExecution c i (s.priced i r) r
    let s ← (if r.venueTerminal ∧ !r.orderComplete then s.endIncomplete c i else pure s)
    return (s.freeIfTerminal i, true)

/-- The order of `i` rejected, whatever was booked on it before, and the audit row appended. -/
def reject (c : OmsConfig) (s : OrderManagerState) (i : OrderSlot) (r : OrderResult) : OrderManagerState :=
  let o := { s.orders i with state := .rejected }
  { s with
    orders := update s.orders i o
    totalRejected := s.totalRejected + 1
    books := s.books.auditAppend c (.makeRejection o r.errorMessage) (some o.portfolioSlot) }

/-- A failure for the order in `i`. -/
def processFailure (c : OmsConfig) (s : OrderManagerState) (i : OrderSlot) (r : OrderResult) :
    OrderManagerState := (s.reject c i r).freeIfTerminal i

/-- `OrderManager_ProcessFillCommand`: whether the command was processed. -/
def processFillCommand (c : OmsConfig) (s : OrderManagerState) (cmd : Command) :
    Flagged 64 (OrderManagerState × Bool) :=
  if cmd.orderId = 0 ∧ cmd.type = .wsFill then pure (s, false)
  else
    match s.occupant cmd.orderId with
    | none => pure (s, false)
    | some i =>
      if (s.orders i).state = .filled then pure (s, false)
      else if cmd.result.success then s.processExecution c i cmd
      else pure (s.processFailure c i cmd.result, true)

/-- `OrderManager_ProcessReconcile`: detect-only, one audit row. -/
def processReconcile (c : OmsConfig) (s : OrderManagerState) (cmd : Command) : OrderManagerState :=
  let ev : OrderEvent :=
    { eventId := 0, orderId := 0, timestampUs := 0, type := .reconciled, orderType := .marketBuy, nodeId := -1
      price := moneyFromDoublePayload cmd.result.avgFillPrice, qty := .zero, tp := .zero, sl := .zero
      fee := .zero, reason := cmd.result.errorMessage }
  { s with books := s.books.auditAppend c ev none }

/-- Whether the order is due a stale-inflight warning; ages are unsigned. -/
def isStale (s : OrderManagerState) (o : Order) : Bool :=
  !o.state.isTerminal && !o.staleWarned &&
    decide ((2 ^ 64 + s.nowUs - o.submittedAtUs) % 2 ^ 64 > omsStaleInflightWarnUs)

/-- The age sweep at the end of `OrderManager_Tick`. -/
def staleSweep (c : OmsConfig) (s : OrderManagerState) : OrderManagerState :=
  if c.liveTrading then
    { s with
      orders := fun i =>
        if s.orderBitmap i && s.isStale (s.orders i) then { s.orders i with staleWarned := true }
        else s.orders i }
  else s

/-! ### The composer's pass -/

/-- A drag of a held position's take-profit or stop-loss on the screen. -/
structure DragCmd where
  slot : SlotIdx
  isTp : Bool
  price : Money

def applyDrag (p : Portfolio) (dc : DragCmd) : Portfolio :=
  if !p.active dc.slot then p
  else
    let pos := p.positions dc.slot
    { p with
      positions := update p.positions dc.slot
        (if dc.isTp then { pos with takeProfitPrice := dc.price } else { pos with stopLossPrice := dc.price }) }

/-- `EngineCommon_FillRingsApply`, run only where an aggregator is wired. -/
def fillRingsApply (c : OmsConfig) (s : OrderManagerState) : Flagged 64 OrderManagerState :=
  if c.aggWired then do
    let composer ← s.books.composer.fillRingsApply c
    return { s with books := { s.books with composer } }
  else pure s

/-- What `EngineCommon_ComposeAndKillEval` does to the books: the pending fills, a marker for each
    fatal site requested, the drags. -/
def compose (c : OmsConfig) (s : OrderManagerState) (fatalSites : List String) (drags : List DragCmd) :
    Flagged 64 OrderManagerState := do
  let s ← s.fillRingsApply c
  let composer ← fatalSites.foldlM (Composer.fatalMarker c) s.books.composer
  return { s with books := { s.books with composer, portfolio := drags.foldl applyDrag s.books.portfolio } }

/-! ### Interleaving -/

/-- A turn of the owner or of a producer. -/
inductive Act where
  | clock (us : Nat)
  | submit (cmd : SubmitCommand)
  | pushSubmit (cmd : SubmitCommand)
  | popSubmit (slot : SlotIdx)
  | fillResult (clientId : Nat) (result : OrderResult)
  | pushWs (cmd : Command)
  | pushReconcile (cmd : Command)
  | processFill (cmd : Command)
  | processReconcile (cmd : Command)
  | popResult
  | popWs
  | popReconcile
  | staleSweep
  | fillRingsApply
  | compose (fatalSites : List String) (drags : List DragCmd)

/-- `OMS_ResultPop`: the front of the lowest ring that has one. -/
def resultPop (s : OrderManagerState) : Option (Command × OrderManagerState) := do
  let n ← (List.finRange 16).find? fun n => !(s.resultRings n).items.isEmpty
  let cmd ← (s.resultRings n).tryPop.1
  return (cmd, { s with resultRings := update s.resultRings n (s.resultRings n).tryPop.2 })

/-- Dispatch a popped command if it is of the kind the queue carries. -/
def processIf (c : OmsConfig) (kind : CommandType) (s : OrderManagerState) (cmd : Command) :
    Flagged 64 OrderManagerState :=
  if cmd.type ≠ kind then pure s
  else if kind = .reconcile then pure (s.processReconcile c cmd)
  else do return (← s.processFillCommand c cmd).1

def act (c : OmsConfig) (s : OrderManagerState) : Act → Flagged 64 OrderManagerState
  | .clock us => pure { s with nowUs := us }
  | .submit cmd => do return (← s.submit c cmd).1
  | .pushSubmit cmd => pure (s.pushSubmit cmd)
  | .popSubmit slot =>
    match (s.submitQueues slot).tryPop with
    | (none, _) => pure s
    | (some cmd, q) => do
      return (← { s with submitQueues := update s.submitQueues slot q }.submit c cmd).1
  | .fillResult clientId result => pure (s.resultPush { type := .fillResult, orderId := clientId, result })
  | .pushWs cmd => pure { s with wsResultQueue := (s.wsResultQueue.tryPush cmd).2 }
  | .pushReconcile cmd => pure { s with reconcileQueue := (s.reconcileQueue.tryPush cmd).2 }
  | .processFill cmd => do return (← s.processFillCommand c cmd).1
  | .processReconcile cmd => pure (s.processReconcile c cmd)
  | .popResult =>
    match s.resultPop with
    | none => pure s
    | some (cmd, s) => s.processIf c .fillResult cmd
  | .popWs =>
    match s.wsResultQueue.tryPop with
    | (none, _) => pure s
    | (some cmd, q) => { s with wsResultQueue := q }.processIf c .wsFill cmd
  | .popReconcile =>
    match s.reconcileQueue.tryPop with
    | (none, _) => pure s
    | (some cmd, q) => { s with reconcileQueue := q }.processIf c .reconcile cmd
  | .staleSweep => pure (s.staleSweep c)
  | .fillRingsApply => s.fillRingsApply c
  | .compose fatalSites drags => s.compose c fatalSites drags

/-- One turn, its fault bits stuck onto the status word. -/
def step (c : OmsConfig) (s : OrderManagerState) (a : Act) : OrderManagerState :=
  let r := s.act c a
  { r.val with moneyOpFlags := s.moneyOpFlags ||| r.flags }

end OrderManagerState

/-! ### Sample configurations and orders -/

/-- Paper trading into the event log, one slot a node. -/
def samplePaper : OmsConfig :=
  { liveTrading := false, partialExitEnabled := false, eventLogMode := appendMode, adapter := ⟨none, none⟩,
    aggWired := false }

/-- Live trading over an adapter that takes the orders whose counter is in `taken`. -/
def sampleLive (taken : List Nat) : OmsConfig :=
  let takes := some fun id (_ : Float) => taken.contains (id % orderIdCounterSize)
  { samplePaper with liveTrading := true, adapter := ⟨takes, takes⟩ }

/-- A market order for `qty` units seen at a price of 100. -/
def sampleOrder (slot : SlotIdx) (type : OrderType) (qty : Int) : SubmitCommand :=
  { portfolioSlot := slot, orderType := type, qty := (Money.fromInt qty).val, leg := 0, nodeCfg := none
    eventPrice := (Money.fromInt 100).val }

/-- A tenth of a percent. -/
def sampleRate : Money := moneyFromDoublePayload 0.001

/-- The same order at a fee rate of a tenth of a percent. -/
def sampleTrade (slot : SlotIdx) (type : OrderType) (qty : Int) : SubmitCommand :=
  { sampleOrder slot type qty with nodeCfg := some ⟨sampleRate, sampleRate, .zero⟩ }

/-- The venue's report of `qty` executed at 100. -/
def sampleLeg (id : Nat) (qty : Float) (complete : Bool) : Command where
  type := .wsFill
  orderId := id
  result :=
    { success := true, exchangeId := "1", avgFillPrice := 100, fillQty := qty, errorMessage := "", isMaker := false
      orderComplete := complete, venueTerminal := complete, commission := 0, commissionAsset := "" }

/-- The response to a submission that timed out. -/
def sampleFailure (id : Nat) : Command where
  type := .fillResult
  orderId := id
  result :=
    { success := false, exchangeId := "", avgFillPrice := 0, fillQty := 0, errorMessage := "timeout", isMaker := false
      orderComplete := false, venueTerminal := false, commission := 0, commissionAsset := "" }

/-- The venue ends the order with `qty` of it executed at 100 and the rest not. -/
def sampleExpiry (id : Nat) (qty : Float) : Command :=
  { sampleLeg id qty false with result := { (sampleLeg id qty false).result with venueTerminal := true } }

end FoxTrader
