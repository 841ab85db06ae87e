import FoxTrader.Composer

/-! # Booking the legs of a fill

    `HandleFill` settles a leg's fee once, appends the audit event in log mode 1 and hands the leg
    to the handler of its side. The buy handler emits the fee and opens the slot or averages the leg
    into it. The sell handler takes at most what the slot holds, splits off its share of the entry
    fee, emits the net and gives the slot up when nothing is left; on a slot that is not held, or
    with nothing to take, it does nothing. The books are all that any of this writes. -/

namespace FoxTrader

open Lib Function

/-- The positions, and what the composer makes of the legs booked on them. -/
structure Books where
  portfolio : Portfolio
  composer : Composer
  fillEmitSeq : NodeIdx → Nat

/-- `OrderEvent_MakeFill`. -/
def OrderEvent.makeFill (o : Order) (price qty fee : Money) : OrderEvent :=
  { eventId := 0, orderId := o.id, timestampUs := o.submittedAtUs
    type := if o.state = .filled then .fullFill else .partialFill
    orderType := o.type, nodeId := o.portfolioSlot.val, price, qty, tp := o.intendedTp, sl := o.intendedSl
    fee, reason := "" }

/-- `OrderEvent_MakeRejection`. -/
def OrderEvent.makeRejection (o : Order) (reason : String) : OrderEvent :=
  { eventId := 0, orderId := o.id, timestampUs := o.submittedAtUs, type := .rejected
    orderType := o.type, nodeId := o.portfolioSlot.val, price := .zero, qty := .zero, tp := .zero
    sl := .zero, fee := .zero, reason }

/-- The take-profit an entry leg arms: relative to its own price, or the intended one. -/
def perFillTp (o : Order) (fillPrice : Money) : Flagged 64 Money :=
  if !o.preResolved.tpPct.isZero then do fillPrice.add (← fillPrice.mul o.preResolved.tpPct)
  else pure o.intendedTp

namespace Books

/-- The position side of `handle_buy_fill`. -/
def openOrAccumulate (p : Portfolio) (o : Order) (fillPrice fillQty entryFee tp : Money) (nowUs : Nat) :
    Flagged 64 Portfolio :=
  if p.active o.portfolioSlot then p.accumulateSlotLeg o.portfolioSlot fillPrice fillQty entryFee
  else pure (p.openSlot o.portfolioSlot
    { entryPrice := fillPrice, quantity := fillQty, takeProfitPrice := tp, stopLossPrice := o.intendedSl
      entryFee } nowUs)

/-- A buy leg leaves the other slots alone. -/
theorem openOrAccumulate_of_ne {p : Portfolio} {o : Order} {price qty fee tp : Money} {nowUs : Nat} {i : SlotIdx}
    (hne : i ≠ o.portfolioSlot) :
    (openOrAccumulate p o price qty fee tp nowUs).val.active i = p.active i ∧
      (openOrAccumulate p o price qty fee tp nowUs).val.positions i = p.positions i := by
  unfold openOrAccumulate
  split
  · exact ⟨rfl, update_of_ne hne ..⟩
  · exact ⟨update_of_ne hne .., update_of_ne hne ..⟩

/-- The number of the next fill event of a slot's node. -/
def nextSeq (c : OmsConfig) (b : Books) (slot : SlotIdx) : Nat := b.fillEmitSeq (c.slotNode slot) + 1

def buyFill (c : OmsConfig) (b : Books) (o : Order) (fillPrice fillQty bookedFee notional : Money) : FillEvent :=
  { slot := o.portfolioSlot, node := c.slotNode o.portfolioSlot, isSell := false
    orderComplete := o.state = .filled, isMaker := o.isMaker, slotFlat := false
    seq := b.nextSeq c o.portfolioSlot, qty := fillQty, price := fillPrice, fee := bookedFee, net := .zero
    notional, entryFeeLeg := .zero }

/-- `handle_buy_fill`. -/
def handleBuyFill (c : OmsConfig) (nowUs : Nat) (b : Books) (o : Order) (fillPrice fillQty bookedFee : Money) :
    Flagged 64 Books := do
  let notional ← fillPrice.mul fillQty
  let composer ← b.composer.fillEmit c (b.buyFill c o fillPrice fillQty bookedFee notional)
  let tp ← perFillTp o fillPrice
  let portfolio ← openOrAccumulate b.portfolio o fillPrice fillQty bookedFee tp nowUs
  return {
    portfolio
    fillEmitSeq := update b.fillEmitSeq (c.slotNode o.portfolioSlot) (b.nextSeq c o.portfolioSlot)
    composer := composer.emitRecord c
      { fillPrice, entryPriceSnap := fillPrice, qty := fillQty, net := .zero, fee := bookedFee
        timestampUs := o.submittedAtUs, slot := o.portfolioSlot, strategyId := o.strategyId, isEntry := true } }

def sellFill (c : OmsConfig) (b : Books) (o : Order) (fillPrice qLeg bookedFee net notional entryFeeLeg : Money) :
    FillEvent :=
  { slot := o.portfolioSlot, node := c.slotNode o.portfolioSlot, isSell := true
    orderComplete := o.state = .filled, isMaker := o.isMaker
    slotFlat := qLeg.eq (b.portfolio.positions o.portfolioSlot).quantity
    seq := b.nextSeq c o.portfolioSlot, qty := qLeg, price := fillPrice, fee := bookedFee, net, notional
    entryFeeLeg }

/-- `handle_sell_fill` past its guards: take `qLeg` out of the slot. -/
def closeLeg (c : OmsConfig) (b : Books) (o : Order) (fillPrice qLeg bookedFee : Money) : Flagged 64 Books := do
  let pos := b.portfolio.positions o.portfolioSlot
  let leg ← b.portfolio.takeLeg o.portfolioSlot fillPrice qLeg
  let totalFee ← leg.entryFee.add bookedFee
  let net ← leg.gross.sub totalFee
  let notional ← pos.entryPrice.mul qLeg
  let composer ← b.composer.fillEmit c (b.sellFill c o fillPrice qLeg bookedFee net notional leg.entryFee)
  return {
    portfolio := leg.portfolio
    fillEmitSeq := update b.fillEmitSeq (c.slotNode o.portfolioSlot) (b.nextSeq c o.portfolioSlot)
    composer := composer.emitRecord c
      { fillPrice, entryPriceSnap := pos.entryPrice, qty := qLeg, net, fee := totalFee
        timestampUs := o.submittedAtUs, slot := o.portfolioSlot, strategyId := o.strategyId, isEntry := false } }

/-- The quantity a sell leg takes: what it filled, at most what is held. -/
def sellQty (b : Books) (slot : SlotIdx) (fillQty : Money) : Money :=
  clampQty fillQty (b.portfolio.positions slot).quantity

/-- `handle_sell_fill`. -/
def handleSellFill (c : OmsConfig) (b : Books) (o : Order) (fillPrice fillQty bookedFee : Money) :
    Flagged 64 Books :=
  if !b.portfolio.active o.portfolioSlot then pure b
  else
    let qLeg := b.sellQty o.portfolioSlot fillQty
    if qLeg.isZero then pure b else b.closeLeg c o fillPrice qLeg bookedFee

/-- The fee computed from the order's rate. -/
def computedFee (o : Order) (fillPrice fillQty : Money) : Flagged 64 Money := do
  (← fillPrice.mul fillQty).mul o.preResolved.feeRate

/-- The fee rule of `HandleFill`: the venue's commission if it is paid in the quote asset. -/
def bookedFee (computed : Money) (commission : Float) (commissionAsset : String) : Money :=
  if commission > 0.0 ∧ commissionAsset = "USDT" then moneyFromDoublePayload commission else computed

/-- The audit append, in event-log mode 1 only. -/
def auditAppend (c : OmsConfig) (b : Books) (ev : OrderEvent) (slot : Option SlotIdx) : Books :=
  if c.eventLogMode = appendMode then { b with composer := b.composer.eventFunnelPush c ev slot } else b

/-- `OrderManager_HandleFill`, with `g_fill_dispatch` as its last step. -/
def handleFill (c : OmsConfig) (nowUs : Nat) (b : Books) (o : Order) (fillPrice fillQty : Money)
    (commission : Float) (commissionAsset : String) : Flagged 64 Books := do
  let computed ← computedFee o fillPrice fillQty
  let fee := bookedFee computed commission commissionAsset
  let b := b.auditAppend c (.makeFill o fillPrice fillQty fee) (some o.portfolioSlot)
  match o.type with
  | .marketBuy | .limitBuy => b.handleBuyFill c nowUs o fillPrice fillQty fee
  | .marketSell | .limitSell => b.handleSellFill c o fillPrice fillQty fee

end Books

end FoxTrader
