import Mathlib.Algebra.BigOperators.Fin
import FoxTrader.MoneyExact
import FoxTrader.ScheduleIndependence
import FoxTrader.OrderTable

/-! # The cash the reconciler expects

    The ledger's balance never debits a buy, so the free cash the venue should report is derived: the
    balance, less what the held slots cost to open, less a reserve for the buys that still work. Where
    no operation rounds this is the cash that came in and went out with the legs: a leg moves the
    balance and the cost of its slot, and the two moves together are its cash.

    A sell leg takes its cost out of its slot at once and its net comes to the balance with its fill
    event, so while the event waits in its ring the expectation is short of that net. -/

namespace FoxTrader

open Lib Function

/-! ### The expectation -/

/-- `OMS_OpenPositionCost`: the entry notional and the entry fee of the slots held. -/
def Portfolio.openPositionCost (p : Portfolio) : Flagged 64 Money :=
  (List.finRange 16).foldlM (fun cost slot =>
    if p.active slot then do
      let notional ← (p.positions slot).entryPrice.mul (p.positions slot).quantity
      cost.add (← notional.add (p.positions slot).entryFee)
    else pure cost) .zero

/-- The order is of the set `OMS_ExpectedFreeCash` reserves for. -/
def Order.reserves (o : Order) : Bool :=
  (o.state = .submitted || o.state = .acknowledged || o.state = .partialFill) && o.type = .marketBuy

/-- The notional of what is not filled yet, and the fee estimated for it. -/
def Order.reserve (o : Order) : Flagged 64 Money := do
  let remain ← o.requestedQty.sub o.filledQty
  let notional ← remain.mul o.eventPrice
  let estFee ← notional.mul o.preResolved.feeRate
  notional.add estFee

namespace OrderManagerState

/-- `OMS_ExpectedFreeCash`. -/
def expectedFreeCash (s : OrderManagerState) : Flagged 64 Money := do
  let expected ← s.books.composer.ledger.balance.sub (← s.books.portfolio.openPositionCost)
  (List.finRange 16).foldlM (fun expected i =>
    if s.orderBitmap i && (s.orders i).reserves then do expected.sub (← (s.orders i).reserve)
      else pure expected) expected

end OrderManagerState

/-! ### The cash of a leg -/

/-- What a leg brings: an entry takes its notional and its fee, an exit brings its notional less its fee. -/
def BookedLeg.cash (l : BookedLeg) : ℚ :=
  if l.isSell then l.price.worth * l.qty.worth - l.fee.worth else -(l.price.worth * l.qty.worth + l.fee.worth)

/-- What is booked of a leg: an entry as it is, an exit for at most what its slot holds, and not at all if
    the slot is not held or nothing is taken. -/
def Portfolio.booked (p : Portfolio) (l : BookedLeg) : List BookedLeg :=
  let qLeg := clampQty l.qty (p.positions l.slot).quantity
  if l.isSell then if !p.active l.slot || qLeg.isZero then [] else [{ l with qty := qLeg }]
  else [l]

/-- No product or quotient of the leg rounds: of an entry its notional and the average it leaves, of an exit
    its gross and the cost it takes out. -/
def Portfolio.TakesExactly (p : Portfolio) (l : BookedLeg) : Prop :=
  let pos := p.positions l.slot
  if l.isSell then
    Money.MulExact (l.price.sub pos.entryPrice).val (clampQty l.qty pos.quantity) ∧
      Money.MulExact pos.entryPrice (clampQty l.qty pos.quantity)
  else
    Money.MulExact l.price l.qty ∧
      (p.active l.slot = true →
        Money.DivExact ((pos.entryPrice.mul pos.quantity).val.add (l.price.mul l.qty).val).val
          (pos.quantity.add l.qty).val)

instance (p : Portfolio) (l : BookedLeg) : Decidable (p.TakesExactly l) :=
  let pos := p.positions l.slot
  if hside : l.isSell = true then
    decidable_of_iff (Money.MulExact (l.price.sub pos.entryPrice).val (clampQty l.qty pos.quantity) ∧
      Money.MulExact pos.entryPrice (clampQty l.qty pos.quantity)) (iff_of_eq (if_pos hside)).symm
  else
    decidable_of_iff (Money.MulExact l.price l.qty ∧
      (p.active l.slot = true →
        Money.DivExact ((pos.entryPrice.mul pos.quantity).val.add (l.price.mul l.qty).val).val
          (pos.quantity.add l.qty).val))
      (iff_of_eq (if_neg hside)).symm

/-! ### What the slots cost -/

namespace Portfolio

/-- What a slot cost to open. -/
def slotCost (p : Portfolio) (slot : SlotIdx) : ℚ :=
  if p.active slot then
    (p.positions slot).entryPrice.worth * (p.positions slot).quantity.worth + (p.positions slot).entryFee.worth
  else 0

def committed (p : Portfolio) : ℚ := ∑ slot, p.slotCost slot

/-- The cost of every held slot comes out at the scale. -/
def CostExact (p : Portfolio) : Prop :=
  ∀ slot, p.active slot = true → Money.MulExact (p.positions slot).entryPrice (p.positions slot).quantity

variable {p p' : Portfolio} {slot : SlotIdx} {price qty fee : Money}

/-- A portfolio that differs in one slot differs by the cost of that slot. -/
theorem committed_of_slot (h : ∀ i, i ≠ slot → p'.active i = p.active i ∧ p'.positions i = p.positions i) :
    p'.committed = p.committed + (p'.slotCost slot - p.slotCost slot) := by
  have hothers : ∑ i ∈ Finset.univ.erase slot, p'.slotCost i = ∑ i ∈ Finset.univ.erase slot, p.slotCost i := by
    refine Finset.sum_congr rfl fun i hi => ?_
    obtain ⟨hactive, hpos⟩ := h i (Finset.ne_of_mem_erase hi)
    rw [slotCost, slotCost, hactive, hpos]
  rw [committed, committed, ← Finset.add_sum_erase _ _ (Finset.mem_univ slot),
    ← Finset.add_sum_erase _ p.slotCost (Finset.mem_univ slot), hothers]
  ring

theorem costExact_of_slot (h : ∀ i, i ≠ slot → p'.active i = p.active i ∧ p'.positions i = p.positions i)
    (hp : p.CostExact) (hslot : p'.active slot = true → Money.MulExact (p'.positions slot).entryPrice (p'.positions slot).quantity) :
    p'.CostExact := by
  intro i hi
  rcases eq_or_ne i slot with rfl | hne
  · exact hslot hi
  · obtain ⟨hactive, hpos⟩ := h i hne
    rw [hpos]
    exact hp i (hactive.symm.trans hi)

variable {o : Order} {tp : Money} {nowUs : Nat}

/-- A leg averaged into its slot without rounding adds its notional and its fee to the cost. -/
theorem slotCost_accumulateSlotLeg (hactive : p.active slot = true)
    (hcost : Money.MulExact (p.positions slot).entryPrice (p.positions slot).quantity)
    (hnotional : Money.MulExact price qty)
    (hmean : Money.DivExact (((p.positions slot).entryPrice.mul (p.positions slot).quantity).val.add (price.mul qty).val).val
      ((p.positions slot).quantity.add qty).val)
    (hc : (p.accumulateSlotLeg slot price qty fee).Clean) :
    (p.accumulateSlotLeg slot price qty fee).val.slotCost slot =
      p.slotCost slot + (price.worth * qty.worth + fee.worth) ∧
      Money.MulExact ((p.accumulateSlotLeg slot price qty fee).val.positions slot).entryPrice
        ((p.accumulateSlotLeg slot price qty fee).val.positions slot).quantity := by
  simp only [accumulateSlotLeg, Flagged.clean_bind, Flagged.clean_pure, and_true] at hc
  obtain ⟨hold, hleg, hquantity, hsum, hdiv, hfee⟩ := hc
  simp only [slotCost, accumulateSlotLeg, Flagged.bind_val, Flagged.pure_val, hactive, if_true, update_self]
  refine ⟨?_, Money.mulExact_div hmean hdiv⟩
  rw [Money.worth_div hmean hdiv, Money.worth_add hsum, Money.worth_mul hcost hold, Money.worth_mul hnotional hleg,
    Money.worth_add hfee]
  ring

/-- A buy leg that does not round adds its notional and its fee to what is committed. -/
theorem committed_openOrAccumulate (hp : p.CostExact) (hnotional : Money.MulExact price qty)
    (hmean : p.active o.portfolioSlot = true →
      Money.DivExact (((p.positions o.portfolioSlot).entryPrice.mul (p.positions o.portfolioSlot).quantity).val.add
        (price.mul qty).val).val ((p.positions o.portfolioSlot).quantity.add qty).val)
    (hc : (Books.openOrAccumulate p o price qty fee tp nowUs).Clean) :
    (Books.openOrAccumulate p o price qty fee tp nowUs).val.committed =
        p.committed + (price.worth * qty.worth + fee.worth) ∧
      (Books.openOrAccumulate p o price qty fee tp nowUs).val.CostExact := by
  have hframe : ∀ i, i ≠ o.portfolioSlot →
      (Books.openOrAccumulate p o price qty fee tp nowUs).val.active i = p.active i ∧
        (Books.openOrAccumulate p o price qty fee tp nowUs).val.positions i = p.positions i :=
    fun _ hne => Books.openOrAccumulate_of_ne hne
  have hslot : (Books.openOrAccumulate p o price qty fee tp nowUs).val.slotCost o.portfolioSlot =
        p.slotCost o.portfolioSlot + (price.worth * qty.worth + fee.worth) ∧
      Money.MulExact ((Books.openOrAccumulate p o price qty fee tp nowUs).val.positions o.portfolioSlot).entryPrice
        ((Books.openOrAccumulate p o price qty fee tp nowUs).val.positions o.portfolioSlot).quantity := by
    unfold Books.openOrAccumulate at hc ⊢
    rcases hactive : p.active o.portfolioSlot with _ | _
    · simp only [Bool.false_eq_true, if_false, Flagged.pure_val, slotCost, openSlot, update_self, hactive,
        if_true, zero_add]
      exact ⟨trivial, hnotional⟩
    · simp only [hactive, if_true] at hc ⊢
      exact slotCost_accumulateSlotLeg hactive (hp _ hactive) hnotional (hmean hactive) hc
  refine ⟨?_, costExact_of_slot hframe hp fun _ => hslot.2⟩
  rw [committed_of_slot hframe, hslot.1]
  ring

/-- What a sell leg leaves in its slot cost what is left of the quantity and of the entry fee. -/
theorem slotCost_takeLeg {qLeg : Money} (hactive : p.active slot = true) (hc : (p.takeLeg slot price qLeg).Clean) :
    (p.takeLeg slot price qLeg).val.portfolio.slotCost slot =
      p.slotCost slot - ((p.positions slot).entryPrice.worth * qLeg.worth + (p.takeLeg slot price qLeg).val.entryFee.worth) := by
  simp only [takeLeg, closeSlotLeg, setEntryFee, Flagged.clean_bind, Flagged.clean_pure, and_true, update_self] at hc
  obtain ⟨hconsumed, -, hquantity⟩ := hc
  have hrest : ((p.takeLeg slot price qLeg).val.portfolio.positions slot).entryFee.worth =
      (p.positions slot).entryFee.worth - (p.takeLeg slot price qLeg).val.entryFee.worth := by
    have hint := congrArg (Int.cast : ℤ → ℚ) (consumeEntryFeeLeg_v hconsumed)
    rw [Int.cast_add] at hint
    rw [takeLeg_entryFee, Money.worth, Money.worth, Money.worth, ← sub_div, ← hint]
    exact congrArg (· / _) (add_sub_cancel_left _ _).symm
  have hprice : ((p.takeLeg slot price qLeg).val.portfolio.positions slot).entryPrice =
    (p.positions slot).entryPrice := by
    simp only [takeLeg, closeSlotLeg, setEntryFee, Flagged.bind_val, Flagged.pure_val, update_self]
  have hleft : (p.takeLeg slot price qLeg).val.portfolio.slotCost slot = (p.positions slot).entryPrice.worth *
        ((p.positions slot).quantity.sub qLeg).val.worth +
      ((p.takeLeg slot price qLeg).val.portfolio.positions slot).entryFee.worth := by
    rw [slotCost, takeLeg_active hactive, hprice, takeLeg_quantity]
    split
    · rfl
    next hflat =>
      -- the last leg leaves neither a quantity nor a fee
      have hzero : ((p.positions slot).quantity.sub qLeg).val.isZero = true := by simpa using hflat
      have hall := Money.sub_isZero_iff.1 hzero
      rw [takeLeg_entryFee, hall, consumeEntryFeeLeg_flat, Money.sub_self]
      simp
  rw [hleft, hrest, Money.worth_sub hquantity, slotCost, if_pos hactive]
  ring

/-- A sell leg that does not round takes its cost out of what is committed. -/
theorem committed_takeLeg {qLeg : Money} (hactive : p.active slot = true) (hp : p.CostExact)
    (hcost : Money.MulExact (p.positions slot).entryPrice qLeg) (hc : (p.takeLeg slot price qLeg).Clean) :
    (p.takeLeg slot price qLeg).val.portfolio.committed = p.committed -
        ((p.positions slot).entryPrice.worth * qLeg.worth + (p.takeLeg slot price qLeg).val.entryFee.worth) ∧
      (p.takeLeg slot price qLeg).val.portfolio.CostExact := by
  have hframe : ∀ i, i ≠ slot → _ := fun i hne => takeLeg_of_ne (p := p) hne price qLeg
  refine ⟨?_, costExact_of_slot hframe hp fun _ => ?_⟩
  · rw [committed_of_slot hframe, slotCost_takeLeg hactive hc]
    ring
  · simp only [takeLeg, closeSlotLeg, setEntryFee, Flagged.clean_bind, Flagged.clean_pure, and_true,
      update_self] at hc
    simp only [takeLeg, closeSlotLeg, setEntryFee, Flagged.bind_val, Flagged.pure_val, update_self]
    exact Money.mulExact_sub (hp slot hactive) hcost hc.2.2

/-- The gross of a leg that does not round. -/
theorem gross_takeLeg {qLeg : Money} (hgross : Money.MulExact (price.sub (p.positions slot).entryPrice).val qLeg)
    (hc : (p.takeLeg slot price qLeg).Clean) :
    (p.takeLeg slot price qLeg).val.gross.worth =
      (price.worth - (p.positions slot).entryPrice.worth) * qLeg.worth := by
  simp only [takeLeg, closeSlotLeg, setEntryFee, Money.fillGross, Flagged.clean_bind, Flagged.clean_pure, and_true,
    update_self] at hc
  simp only [takeLeg, closeSlotLeg, setEntryFee, Money.fillGross, Flagged.bind_val, Flagged.pure_val, update_self]
  rw [Money.worth_mul hgross hc.2.1.2, Money.worth_sub hc.2.1.1]

end Portfolio

/-! ### The books -/

/-- With everything waiting counted as booked, the balance less what is committed is the starting balance and
    the cash of the legs `ls`. -/
structure CashKept (start : Money) (ls : List BookedLeg) (b : Books) : Prop where
  cash : (Composer.balanceTotal.settled b.composer : ℚ) / moneyScale - b.portfolio.committed =
    start.worth + (ls.map BookedLeg.cash).sum
  exactly : b.portfolio.CostExact

namespace CashKept

open Composer

variable {c : OmsConfig} {start : Money} {ls : List BookedLeg} {b b' : Books} {l : BookedLeg} {o : Order}
    {nowUs : Nat}
  {price qty : Money} {commission : Float} {asset : String}

theorem congr (h : CashKept start ls b)
    (hsettled : balanceTotal.settled b'.composer = balanceTotal.settled b.composer)
    (hcommitted : b'.portfolio.committed = b.portfolio.committed) (hexactly : b'.portfolio.CostExact) :
    CashKept start ls b' :=
  ⟨by rw [hsettled, hcommitted, h.cash], hexactly⟩

/-- A leg whose event brings `net` and that moves what is committed by as much as is missing to its cash. -/
theorem emit (net : Money) (h : CashKept start ls b)
    (hsettled : balanceTotal.settled b'.composer = balanceTotal.settled b.composer + net.v)
    (hcash : net.worth - b'.portfolio.committed = l.cash - b.portfolio.committed)
    (hexactly : b'.portfolio.CostExact) :
    CashKept start (ls ++ [l]) b' := by
  refine ⟨?_, hexactly⟩
  have hbefore := h.cash
  have hnet : (net.v : ℚ) / moneyScale = net.worth := rfl
  rw [hsettled, Int.cast_add, add_div, hnet, List.map_append, List.sum_append, List.map_singleton, List.sum_singleton]
  linarith

theorem handleBuyFill (hl : o.bookedLeg price qty commission asset = l) (hbuy : o.type.isSell = false)
    (h : CashKept start ls b) (hexact : b.portfolio.TakesExactly l)
    (hc : (b.handleBuyFill c nowUs o price qty l.fee).Clean) :
    CashKept start (ls ++ b.portfolio.booked l) (b.handleBuyFill c nowUs o price qty l.fee).val := by
  have hside : l.isSell = false := by rw [← hl]; exact hbuy
  have hself : b.portfolio.booked l = [l] := if_neg (ne_true_of_eq_false hside)
  rw [Portfolio.TakesExactly, if_neg (ne_true_of_eq_false hside)] at hexact
  simp only [Books.handleBuyFill, Flagged.clean_bind, Flagged.clean_pure, and_true] at hc
  obtain ⟨-, hemit, -, hopen⟩ := hc
  subst hl
  obtain ⟨hcommitted, hexactly⟩ := Portfolio.committed_openOrAccumulate h.exactly hexact.1 hexact.2 hopen
  rw [hself]
  refine h.emit .zero ((balanceTotal.settled_emitRecord ..).trans (Total.settled_fillEmit_ofLedger hemit)) ?_ hexactly
  have hcash : (o.bookedLeg price qty commission asset).cash =
    -((o.bookedLeg price qty commission asset).price.worth *
      (o.bookedLeg price qty commission asset).qty.worth + (o.bookedLeg price qty commission asset).fee.worth) :=
    if_neg (ne_true_of_eq_false hside)
  rw [hcash, Money.worth_zero]
  refine (congrArg (0 - ·) hcommitted).trans ?_
  ring

theorem closeLeg (hl : o.bookedLeg price qty commission asset = l) (hsell : o.type.isSell = true)
    (h : CashKept start ls b)
    (hactive : b.portfolio.active l.slot = true) (hexact : b.portfolio.TakesExactly l)
    (hc : (b.closeLeg c o price (b.sellQty o.portfolioSlot qty) l.fee).Clean) :
    CashKept start (ls ++ [{ l with qty := b.sellQty o.portfolioSlot qty }])
      (b.closeLeg c o price (b.sellQty o.portfolioSlot qty) l.fee).val := by
  have hside : l.isSell = true := by rw [← hl]; exact hsell
  rw [Portfolio.TakesExactly, if_pos hside] at hexact
  simp only [Books.closeLeg, Flagged.clean_bind, Flagged.clean_pure, and_true] at hc
  obtain ⟨hleg, htotal, hnet, -, hemit⟩ := hc
  subst hl
  obtain ⟨hcommitted, hexactly⟩ := Portfolio.committed_takeLeg hactive h.exactly hexact.2 hleg
  refine h.emit _ ((balanceTotal.settled_emitRecord ..).trans (Total.settled_fillEmit_ofLedger hemit)) ?_ hexactly
  have hcash : ({ o.bookedLeg price qty commission asset with qty := b.sellQty o.portfolioSlot qty } : BookedLeg).cash =
      price.worth * (b.sellQty o.portfolioSlot qty).worth -
        (o.bookedLeg price qty commission asset).fee.worth := if_pos hside
  have hworth := (Money.worth_sub hnet).trans
    (congrArg₂ (· - ·) (Portfolio.gross_takeLeg hexact.1 hleg) (Money.worth_add htotal))
  rw [hcash]
  refine (congrArg₂ (· - ·) hworth hcommitted).trans ?_
  simp only [Order.bookedLeg, Books.sellQty]
  ring

theorem handleSellFill (hl : o.bookedLeg price qty commission asset = l) (hsell : o.type.isSell = true)
    (h : CashKept start ls b) (hexact : b.portfolio.TakesExactly l)
    (hc : (b.handleSellFill c o price qty l.fee).Clean) :
    CashKept start (ls ++ b.portfolio.booked l) (b.handleSellFill c o price qty l.fee).val := by
  have hbooked : b.portfolio.booked l =
      if !b.portfolio.active o.portfolioSlot || (b.sellQty o.portfolioSlot qty).isZero then []
      else [{ l with qty := b.sellQty o.portfolioSlot qty }] := by
    subst hl
    exact if_pos hsell
  unfold Books.handleSellFill at hc ⊢
  rcases hactive : b.portfolio.active o.portfolioSlot with _ | _
  · rw [hbooked, hactive]
    simpa using h
  simp only [hactive, Bool.not_true, Bool.false_eq_true, if_false, Bool.false_or] at hc hbooked ⊢
  split
  next hnone =>
    rw [hbooked, if_pos hnone, List.append_nil]
    exact h
  next hsome =>
    rw [if_neg hsome] at hc hbooked
    rw [hbooked]
    exact h.closeLeg hl hsell (by rw [← hl]; exact hactive) hexact hc

theorem auditAppend (h : CashKept start ls b) (ev : OrderEvent) (slot : Option SlotIdx) :
    CashKept start ls (b.auditAppend c ev slot) := by
  unfold Books.auditAppend
  split
  · exact h.congr (balanceTotal.settled_eventFunnelPush c b.composer ev slot) rfl h.exactly
  · exact h

theorem handleFill (h : CashKept start ls b)
    (hexact : b.portfolio.TakesExactly (o.bookedLeg price qty commission asset))
    (hc : (b.handleFill c nowUs o price qty commission asset).Clean) :
    CashKept start (ls ++ b.portfolio.booked (o.bookedLeg price qty commission asset))
      (b.handleFill c nowUs o price qty commission asset).val := by
  have haudit := h.auditAppend (c := c) (.makeFill o price qty (o.bookedLeg price qty commission asset).fee)
    (some o.portfolioSlot)
  have hportfolio : (b.auditAppend c (.makeFill o price qty (o.bookedLeg price qty commission asset).fee)
      (some o.portfolioSlot)).portfolio = b.portfolio := by
    unfold Books.auditAppend
    split <;> rfl
  rw [← hportfolio] at hexact ⊢
  simp only [Books.handleFill, Flagged.clean_bind] at hc
  simp only [Books.handleFill, Flagged.bind_val]
  rcases htype : o.type with _ | _ | _ | _
  all_goals simp only [htype] at hc ⊢
  · exact haudit.handleBuyFill rfl (by rw [htype]; rfl) hexact hc.2
  · exact haudit.handleSellFill rfl (by rw [htype]; rfl) hexact hc.2
  · exact haudit.handleBuyFill rfl (by rw [htype]; rfl) hexact hc.2
  · exact haudit.handleSellFill rfl (by rw [htype]; rfl) hexact hc.2

end CashKept

namespace OrderManagerState

open Composer

variable {c : OmsConfig} {s : OrderManagerState} {orders : OrderSlot → Order} {bitmap : OrderSlot → Bool}
  {start : Money} {ls : List BookedLeg}

/-! ### The orders that work -/

/-- The order has been sent, and its state is known. -/
def Sent (o : Order) : Prop := o.state ≠ .pending ∧ o.state ≠ .unknown

theorem sent_of_state {o : Order} (state : OrderState) (hsent : decide (state ≠ .pending ∧ state ≠ .unknown) = true)
    (h : o.state = state) : Sent o := by
  rw [Sent, h]
  exact of_decide_eq_true hsent

/-- Every order in the table has been sent. -/
def AllSent (orders : OrderSlot → Order) (bitmap : OrderSlot → Bool) : Prop := ∀ i, bitmap i = true → Sent (orders i)

theorem AllSent.update_order (h : AllSent orders bitmap) {i : OrderSlot} {o : Order} (ho : bitmap i = true → Sent o) :
    AllSent (update orders i o) bitmap := by
  intro j hj
  rcases eq_or_ne j i with rfl | hne
  · rw [update_self]
    exact ho hj
  · rw [update_of_ne hne]
    exact h j hj

theorem AllSent.free (h : AllSent orders bitmap) (i : OrderSlot) : AllSent orders (update bitmap i false) :=
  fun j hj => h j (of_update_false hj).2

theorem AllSent.place (h : AllSent s.orders s.orderBitmap) (cmd : SubmitCommand) (i : OrderSlot) :
    AllSent (s.place c cmd i).orders (s.place c cmd i).orderBitmap := by
  intro j hj
  simp only [OrderManagerState.place] at hj ⊢
  rcases eq_or_ne j i with rfl | hne
  · rw [update_self]
    exact sent_of_state .submitted rfl rfl
  · rw [update_of_ne hne] at hj ⊢
    exact h j hj

theorem AllSent.submit (h : AllSent s.orders s.orderBitmap) (cmd : SubmitCommand) :
    AllSent (s.submit c cmd).val.1.orders (s.submit c cmd).val.1.orderBitmap := by
  have hout := submit_outcome c s cmd
  generalize s.submit c cmd = m at hout ⊢
  rcases hout with hfull | ⟨i, hfree, -⟩ | ⟨i, hfree, -, -⟩ | ⟨i, hfree, -, -⟩
  · exact h
  · exact h.place cmd i
  · exact h.place cmd i
  · exact ((h.place cmd i).update_order (o := { (s.place c cmd i).orders i with state := .rejected })
      fun _ => sent_of_state .rejected rfl rfl).free i

theorem AllSent.freeIfTerminal (h : AllSent s.orders s.orderBitmap) (i : OrderSlot) :
    AllSent (s.freeIfTerminal i).orders (s.freeIfTerminal i).orderBitmap := by
  unfold OrderManagerState.freeIfTerminal
  split
  · exact h.free i
  · exact h

theorem sent_legOrder (o : Order) (r : OrderResult) : Sent (legOrder o r).val := by
  rcases hcomplete : r.orderComplete with _ | _
  · exact sent_of_state .partialFill rfl (by simp [legOrder, hcomplete])
  · exact sent_of_state .filled rfl (by simp [legOrder, hcomplete])

theorem sent_acknowledge (o : Order) : Sent (acknowledge o) := by
  unfold acknowledge
  split
  next hpartial => exact sent_of_state .partialFill rfl hpartial
  next => exact sent_of_state .acknowledged rfl rfl

theorem AllSent.endIncomplete (h : AllSent s.orders s.orderBitmap) (i : OrderSlot) :
    AllSent (s.endIncomplete c i).val.orders (s.endIncomplete c i).val.orderBitmap := by
  have hcancel : AllSent (s.cancel c i).orders (s.cancel c i).orderBitmap :=
    (h.update_order (o := s.deadOrder i) fun _ => sent_of_state .canceled rfl rfl).free i
  unfold OrderManagerState.endIncomplete
  split
  · have hsub := hcancel.submit (c := c) (resubmission (s.deadOrder i) (s.leftover i))
    exact hsub.update_order fun hocc => hsub _ hocc
  · exact hcancel

theorem AllSent.processFillCommand (h : AllSent s.orders s.orderBitmap) (cmd : Command) :
    AllSent (s.processFillCommand c cmd).val.1.orders (s.processFillCommand c cmd).val.1.orderBitmap := by
  have hout := processFillCommand_outcome c s cmd
  generalize s.processFillCommand c cmd = m at hout ⊢
  have hleg : ∀ i, AllSent (s.bookExecution c i (s.priced i cmd.result) cmd.result).val.orders s.orderBitmap :=
    fun i => h.update_order fun _ => sent_legOrder ..
  rcases hout with
    _ | ⟨i, -, -⟩ | ⟨i, -, -⟩ | ⟨i, -, -, -⟩ | ⟨i, -, -, -, -⟩ | ⟨i, -, -, -⟩
  · exact h
  · exact h.update_order fun _ => sent_acknowledge _
  · exact h.update_order fun hocc => h i hocc
  · exact AllSent.freeIfTerminal (hleg i) i
  · exact (AllSent.endIncomplete (hleg i) i).freeIfTerminal i
  · exact AllSent.freeIfTerminal (s := s.reject c i cmd.result)
      (h.update_order fun _ => sent_of_state .rejected rfl rfl) i

theorem AllSent.act (h : AllSent s.orders s.orderBitmap) (a : Act) :
    AllSent (s.act c a).val.orders (s.act c a).val.orderBitmap := by
  have hout := act_outcome c s a
  generalize s.act c a = m at hout ⊢
  rcases hout with _ | ⟨rings, ws, reconcile, submits, us, cmd, -, -⟩ | ⟨rings, ws, reconcile, submits, us, cmd, -⟩ |
    _ | _ | _ | ⟨fatalSites, drags⟩
  · exact h
  · exact AllSent.submit (s := s.requeue rings ws reconcile submits us) h cmd
  · exact AllSent.processFillCommand (s := s.requeue rings ws reconcile submits us) h cmd
  · exact h
  · unfold OrderManagerState.staleSweep
    split
    · intro i hi
      simp only [Flagged.pure_val] at hi ⊢
      split <;> exact h i hi
    · exact h
  · obtain ⟨horders, hbitmap⟩ := fillRingsApply_orders c s
    rw [horders, hbitmap]
    exact h
  · obtain ⟨horders, hbitmap⟩ := fillRingsApply_orders c s
    simp only [OrderManagerState.compose, Flagged.bind_val, Flagged.pure_val, horders, hbitmap]
    exact h

/-- In the table of a run, the orders the expectation reserves for are the buys. -/
theorem reserves_iff (hsent : AllSent s.orders s.orderBitmap) (hworking : Working s.orders s.orderBitmap)
    {i : OrderSlot}
    (hi : s.orderBitmap i = true) : (s.orders i).reserves = true ↔ (s.orders i).type = .marketBuy := by
  obtain ⟨hpending, hunknown⟩ := hsent i hi
  have hterminal := hworking i hi
  unfold Order.reserves
  rcases hstate : (s.orders i).state with _ | _ | _ | _ | _ | _ | _ | _ | _
  all_goals simp_all [OrderState.isTerminal]

/-! ### Turns -/

/-- What a turn books of its leg. -/
def bookedLegs (s : OrderManagerState) (a : Act) : List BookedLeg := (s.legsOf a).flatMap s.books.portfolio.booked

/-- No operation of the turn saturates, and its leg does not round. -/
def RoundsNothing (c : OmsConfig) (s : OrderManagerState) (a : Act) : Prop :=
  (s.act c a).Clean ∧ ∀ l ∈ s.legsOf a, s.books.portfolio.TakesExactly l

instance (c : OmsConfig) (s : OrderManagerState) (a : Act) : Decidable (RoundsNothing c s a) :=
  inferInstanceAs (Decidable ((s.act c a).Clean ∧ ∀ l ∈ s.legsOf a, s.books.portfolio.TakesExactly l))

/-- A turn adds the cash of what it books. -/
theorem cashKept_act (h : CashKept start ls s.books) {a : Act} (hok : RoundsNothing c s a) :
    CashKept start (ls ++ s.bookedLegs a) (s.act c a).val.books := by
  obtain ⟨hc, hexact⟩ := hok
  refine books_act_leg (CashKept start ls) (CashKept start (ls ++ s.bookedLegs a)) ?_ ?_ ?_ ?_ ?_ ?_ h hc
  · intro hexec hb
    rw [bookedLegs, legsOf, hexec]
    exact (List.append_nil ls).symm ▸ hb
  · intro cmd i hcmd hexec us hb hleg
    have hlegs : s.executed a = some (cmd, i) := by
      simp [executed, hcmd, hexec]
    unfold bookLeg at hleg ⊢
    split
    next hqty =>
      rw [if_pos hqty] at hleg
      simp only [legsOf, hlegs, if_pos hqty, List.mem_singleton, forall_eq] at hexact
      simp only [bookedLegs, legsOf, hlegs, if_pos hqty, List.flatMap_singleton]
      exact hb.handleFill hexact hleg
    next hqty =>
      simp only [bookedLegs, legsOf, hlegs, if_neg hqty, List.flatMap_nil, List.append_nil]
      exact hb
  · exact fun b ev slot _ hb => hb.auditAppend ev slot
  · exact fun _ b hb hclean => hb.congr (balanceTotal.settled_fillRingsApply hclean) rfl hb.exactly
  · exact fun b site hb _ => hb.congr (balanceTotal.settled_fatalMarker c b.composer site) rfl hb.exactly
  · intro b dc _ hb
    have hsame := applyDrag_sameSlot b.portfolio dc
    refine hb.congr rfl (Finset.sum_congr rfl fun i _ => ?_) fun i hi => ?_
    · rw [Portfolio.slotCost, Portfolio.slotCost, (hsame i).active, (hsame i).entryPrice, (hsame i).quantity,
        (hsame i).entryFee]
    · rw [(hsame i).entryPrice, (hsame i).quantity]
      exact hb.exactly i ((hsame i).active.symm.trans hi)

theorem cashKept_init (balance : Money) (tradeLog : Option (List (EmitRecord × Money))) :
    CashKept balance [] (init balance tradeLog).books := by
  have hdrained : (init balance tradeLog).books.composer.pendingFills = [] := lanes_eq_nil fun _ => rfl
  refine ⟨?_, fun _ hactive => absurd hactive Bool.false_ne_true⟩
  have hnone : (init balance tradeLog).books.portfolio.committed = 0 :=
    Finset.sum_eq_zero fun _ _ => if_neg Bool.false_ne_true
  rw [Total.settled_of_drained _ hdrained, hnone, sub_zero, List.map_nil, List.sum_nil, add_zero]
  rfl

/-! ### The expectation of a run -/

end OrderManagerState

/-- A loop of which every turn moves a sum by its item's own amount. -/
theorem worth_foldlM {α : Type} {f : Money → α → Flagged 64 Money} {g : α → ℚ}
    (hf : ∀ m x, (f m x).Clean → (f m x).val.worth = m.worth + g x) :
    ∀ (l : List α) (m : Money), (l.foldlM f m).Clean → (l.foldlM f m).val.worth = m.worth + (l.map g).sum
  | [], m, _ => by rw [List.map_nil, List.sum_nil, add_zero]; rfl
  | x :: l, m, hc => by
    rw [List.foldlM_cons, Flagged.clean_bind] at hc
    rw [List.foldlM_cons, Flagged.bind_val, worth_foldlM hf l _ hc.2, hf m x hc.1, List.map_cons, List.sum_cons,
      add_assoc]

/-- Over exact costs the sum does not round. -/
theorem Portfolio.worth_openPositionCost {p : Portfolio} (hp : p.CostExact) (hc : p.openPositionCost.Clean) :
    p.openPositionCost.val.worth = p.committed := by
  have hloop := worth_foldlM (g := p.slotCost) ?_ (List.finRange 16) .zero hc
  · rw [Money.worth_zero, zero_add, ← Fin.sum_univ_def] at hloop
    exact hloop
  intro m slot hslot
  unfold slotCost
  split
  next hactive =>
    rw [if_pos hactive, Flagged.clean_bind, Flagged.clean_bind] at hslot
    rw [Flagged.bind_val, Flagged.bind_val, Money.worth_add hslot.2.2, Money.worth_add hslot.2.1,
      Money.worth_mul (hp slot hactive) hslot.1]
  next => exact (add_zero _).symm

/-- The reserve of an order as it should be: the notional of what is not filled, and the fee on it. -/
def Order.outstanding (o : Order) : ℚ :=
  let notional := (o.requestedQty.worth - o.filledQty.worth) * o.eventPrice.worth
  notional + notional * o.preResolved.feeRate.worth

/-- Neither product of the reserve rounds. -/
def Order.ReserveExact (o : Order) : Prop :=
  Money.MulExact (o.requestedQty.sub o.filledQty).val o.eventPrice ∧
    Money.MulExact ((o.requestedQty.sub o.filledQty).val.mul o.eventPrice).val o.preResolved.feeRate

instance (o : Order) : Decidable o.ReserveExact :=
  inferInstanceAs (Decidable (Money.MulExact (o.requestedQty.sub o.filledQty).val o.eventPrice ∧
    Money.MulExact ((o.requestedQty.sub o.filledQty).val.mul o.eventPrice).val o.preResolved.feeRate))

theorem Order.worth_reserve {o : Order} (hexact : o.ReserveExact) (hc : o.reserve.Clean) :
    o.reserve.val.worth = o.outstanding := by
  simp only [reserve, Flagged.clean_bind] at hc
  obtain ⟨hremain, hnotional, hfee, hsum⟩ := hc
  simp only [reserve, Flagged.bind_val]
  rw [Money.worth_add hsum, Money.worth_mul hexact.2 hfee, Money.worth_mul hexact.1 hnotional,
    Money.worth_sub hremain]
  rfl

namespace OrderManagerState

open Composer

variable {c : OmsConfig} {s : OrderManagerState} {start : Money} {ls : List BookedLeg}

/-- The orders in the table that buy. -/
def workingBuys (s : OrderManagerState) : Finset OrderSlot :=
  Finset.univ.filter fun i => s.orderBitmap i = true ∧ (s.orders i).type = .marketBuy

/-- The nets of the fill events that still wait in the rings. -/
def waitingNet (s : OrderManagerState) : ℚ := (s.books.composer.pendingFills.map fun fe => fe.net.worth).sum

/-- The balance once everything waiting is booked. -/
theorem settled_worth (s : OrderManagerState) :
    (balanceTotal.settled s.books.composer : ℚ) / moneyScale =
      s.books.composer.ledger.balance.worth + s.waitingNet := by
  have hsum : ∀ fes : List FillEvent,
      (((fes.map fun fe => fe.net.v).sum : ℤ) : ℚ) / moneyScale = (fes.map fun fe => fe.net.worth).sum := by
    intro fes
    induction fes with
    | nil => simp
    | cons fe fes ih =>
      rw [List.map_cons, List.sum_cons, List.map_cons, List.sum_cons, ← ih, Int.cast_add, add_div]
      rfl
  show ((s.books.composer.ledger.balance.v + (s.books.composer.pendingFills.map fun fe => fe.net.v).sum : ℤ) : ℚ) / _ = _
  rw [Int.cast_add, add_div, hsum]
  rfl

/-- `OMS_ExpectedFreeCash` in terms of its three parts. -/
theorem worth_expectedFreeCash (hcost : s.books.portfolio.CostExact) (hsent : AllSent s.orders s.orderBitmap)
    (hworking : Working s.orders s.orderBitmap) (hreserves : ∀ i ∈ s.workingBuys, (s.orders i).ReserveExact)
    (hc : s.expectedFreeCash.Clean) :
    s.expectedFreeCash.val.worth = s.books.composer.ledger.balance.worth - s.books.portfolio.committed -
      ∑ i ∈ s.workingBuys, (s.orders i).outstanding := by
  rw [expectedFreeCash, Flagged.clean_bind, Flagged.clean_bind] at hc
  obtain ⟨hopen, hbalance, hloop⟩ := hc
  have hreserved : ∀ i, (s.orderBitmap i && (s.orders i).reserves) = true ↔ i ∈ s.workingBuys := by
    intro i
    rw [Bool.and_eq_true, workingBuys, Finset.mem_filter]
    refine ⟨fun ⟨hi, hr⟩ => ⟨Finset.mem_univ i, hi, (reserves_iff hsent hworking hi).1 hr⟩, fun ⟨_, hi, hbuy⟩ =>
      ⟨hi, (reserves_iff hsent hworking hi).2 hbuy⟩⟩
  have hworth := worth_foldlM (g := fun i => if i ∈ s.workingBuys then -(s.orders i).outstanding else 0) ?_
    (List.finRange 16) _ hloop
  · rw [Money.worth_sub hbalance, Portfolio.worth_openPositionCost hcost hopen, ← Fin.sum_univ_def,
      Finset.sum_ite_mem,
      Finset.univ_inter, Finset.sum_neg_distrib, ← sub_eq_add_neg] at hworth
    exact hworth
  intro m i hturn
  by_cases hi : i ∈ s.workingBuys
  · rw [if_pos ((hreserved i).2 hi), Flagged.clean_bind] at hturn
    rw [if_pos ((hreserved i).2 hi), if_pos hi, Flagged.bind_val, Money.worth_sub hturn.2,
      Order.worth_reserve (hreserves i hi) hturn.1, sub_eq_add_neg]
  · rw [if_neg fun hr => hi ((hreserved i).1 hr), if_neg hi, add_zero, Flagged.pure_val]

/-- In every run that neither saturates nor rounds, whatever its interleaving, the expected free cash and the nets
    that wait in the rings are the starting balance and the cash of the legs booked, less the reserve of every
    buy that works. Where nothing waits, as when the composer has applied the rings, that is the expectation. -/
theorem expected_free_cash (c : OmsConfig) (balance : Money) (tradeLog : Option (List (EmitRecord × Money)))
    (as : List Act) {s : OrderManagerState} (hrun : run (step c) (init balance tradeLog) as = s)
    (hexact : Steps (step c) (RoundsNothing c) (init balance tradeLog) as)
    (hreserves : ∀ i ∈ s.workingBuys, (s.orders i).ReserveExact) (hclean : s.expectedFreeCash.Clean) :
    s.expectedFreeCash.val.worth + s.waitingNet =
      balance.worth + ((outputs (step c) bookedLegs (init balance tradeLog) as).map BookedLeg.cash).sum -
        ∑ i ∈ s.workingBuys, (s.orders i).outstanding := by
  have hbooks : ∀ (s : OrderManagerState) (a : Act) (ls : List BookedLeg), CashKept balance ls s.books →
      RoundsNothing c s a → CashKept balance (ls ++ s.bookedLegs a) (s.step c a).books :=
    fun s a ls h hok => cashKept_act h hok
  have hkept : CashKept balance ([] ++ outputs (step c) bookedLegs (init balance tradeLog) as)
      (run (step c) (init balance tradeLog) as).books := run_outputs hbooks as []
        (cashKept_init balance tradeLog) hexact
  have hsends : ∀ (s : OrderManagerState) (a : Act), AllSent s.orders s.orderBitmap →
      AllSent (s.step c a).orders (s.step c a).orderBitmap := fun s a h => h.act a
  have hsent : AllSent (run (step c) (init balance tradeLog) as).orders
    (run (step c) (init balance tradeLog) as).orderBitmap :=
    run_inv hsends as fun _ hi => absurd hi Bool.false_ne_true
  have hworking := (TableInv.of_run (c := c) balance tradeLog as).working
  rw [hrun] at hkept hsent hworking
  have hcash := hkept.cash
  rw [settled_worth, List.nil_append] at hcash
  rw [worth_expectedFreeCash hkept.exactly hsent hworking hreserves hclean, ← hcash]
  ring

/-- Ten bought in two legs and four sold, an order of three more half filled; the sell's event still waits. -/
def sampleHalfSold : List Act :=
  [.submit (sampleTrade firstIdx .marketBuy 10), .processFill (sampleLeg 1 4 false), .processFill (sampleLeg 1 6 true),
    .submit (sampleTrade firstIdx .marketSell 4), .processFill (sampleLeg 2 4 true),
      .submit (sampleTrade nextIdx .marketBuy 3)]

/-- Live, with an aggregator. -/
def sampleDesk : OmsConfig := { sampleLive [1, 2, 3] with aggWired := true }

/-- Where the sample run ends before its events are applied, and after. -/
def sampleUnapplied : OrderManagerState := run (step sampleDesk) (init (Money.fromInt 1000).val none) sampleHalfSold

def sampleApplied : OrderManagerState :=
  run (step sampleDesk) (init (Money.fromInt 1000).val none) (sampleHalfSold ++ [.fillRingsApply])

theorem expected_free_cash_half_sold :
    sampleApplied.expectedFreeCash.val.worth + sampleApplied.waitingNet =
      (Money.fromInt 1000).val.worth +
          ((outputs (step sampleDesk) bookedLegs (init (Money.fromInt 1000).val none)
            (sampleHalfSold ++ [.fillRingsApply])).map BookedLeg.cash).sum -
        ∑ i ∈ sampleApplied.workingBuys, (sampleApplied.orders i).outstanding := by
  have hexact : Steps (step sampleDesk) (RoundsNothing sampleDesk) (init (Money.fromInt 1000).val none)
      (sampleHalfSold ++ [.fillRingsApply]) := by decide +kernel
  have hclean : sampleApplied.expectedFreeCash.Clean := by decide +kernel
  exact expected_free_cash sampleDesk _ none _ rfl hexact (by decide +kernel) hclean

/-- Before the sell's event is applied the expectation is short of its net. -/
theorem expected_free_cash_waiting :
    Steps (step sampleDesk) (RoundsNothing sampleDesk) (init (Money.fromInt 1000).val none) sampleHalfSold ∧
      (∀ i ∈ sampleUnapplied.workingBuys, (sampleUnapplied.orders i).ReserveExact) ∧
        sampleUnapplied.expectedFreeCash.Clean ∧
      ¬sampleUnapplied.expectedFreeCash.val.worth =
        (Money.fromInt 1000).val.worth +
            ((outputs (step sampleDesk) bookedLegs (init (Money.fromInt 1000).val none) sampleHalfSold).map BookedLeg.cash).sum -
          ∑ i ∈ sampleUnapplied.workingBuys, (sampleUnapplied.orders i).outstanding := by
  decide +kernel

end OrderManagerState

end FoxTrader
