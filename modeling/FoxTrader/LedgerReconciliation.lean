import FoxTrader.ComposerTotals
import FoxTrader.OrderOutcomes

/-! # The ledger against the node rows

    The order manager decides what a leg earns and costs and emits it; the composer books the same
    fill twice, into the ledger and into the row of its node. Settled, the balance is the starting
    balance and the realized profit, the realized profit is what the nodes realized, and the fees
    are what the nodes paid and what is still held with open positions: a buy leg's fee goes into
    its position, and a sell leg's row takes its share of it back out. -/

namespace FoxTrader

open Lib Function

/-! ### The node rows -/

/-- A figure of a node's row that depends on what it realized and paid alone. -/
structure RowField where
  of : NodeContext → ℤ
  congr : ∀ {ctx ctx' : NodeContext}, ctx'.nodeRealized = ctx.nodeRealized → ctx'.nodeFees = ctx.nodeFees →
    of ctx' = of ctx

/-- A row rewritten without touching what the field depends on leaves the sum alone. -/
theorem RowField.sum_update_same (F : RowField) {rows : NodeIdx → NodeContext} {n : NodeIdx} {row : NodeContext}
    (hrealized : row.nodeRealized = (rows n).nodeRealized) (hfees : row.nodeFees = (rows n).nodeFees) :
    ∑ m, F.of (update rows n row m) = ∑ m, F.of (rows m) := by
  rw [sum_update_field, F.congr hrealized hfees, sub_self, add_zero]

theorem NodeContext.classify_keeps (ctx : NodeContext) (net : Money) :
    (ctx.classify net).val.nodeRealized = ctx.nodeRealized ∧ (ctx.classify net).val.nodeFees = ctx.nodeFees := by
  unfold classify
  split <;> exact ⟨rfl, rfl⟩

namespace EventLoopState

variable {partialOn : Bool} {st : EventLoopState} {fe : FillEvent}

theorem sum_concludeTrade (F : RowField) (partialOn : Bool) (st : EventLoopState) (slot : SlotIdx) (node : NodeIdx) :
    ∑ n, F.of ((st.concludeTrade partialOn slot node).val.nodes n) = ∑ n, F.of (st.nodes n) := by
  unfold concludeTrade
  split
  · exact F.sum_update_same (NodeContext.classify_keeps ..).1 (NodeContext.classify_keeps ..).2
  split
  · exact F.sum_update_same (NodeContext.classify_keeps ..).1 (NodeContext.classify_keeps ..).2
  · exact F.sum_update_same rfl rfl

/-- A buy leaves what the nodes realized and paid alone; a sell changes its own node's row. -/
theorem sum_nodeRowsBook (F : RowField) (partialOn : Bool) (st : EventLoopState) (fe : FillEvent) :
    ∑ n, F.of ((st.nodeRowsBook partialOn fe).val.nodes n) =
      ∑ n, F.of (st.nodes n) +
        if fe.isSell then F.of ((st.bookSell fe).val.nodes fe.node) - F.of (st.nodes fe.node) else 0 := by
  unfold nodeRowsBook
  rcases fe.isSell with _ | _
  · simp only [Bool.not_false, if_true, Bool.false_eq_true, if_false, add_zero]
    exact F.sum_update_same rfl rfl
  have hsell : ∑ n, F.of ((st.bookSell fe).val.nodes n) =
      ∑ n, F.of (st.nodes n) + (F.of ((st.bookSell fe).val.nodes fe.node) - F.of (st.nodes fe.node)) := by
    simp only [bookSell, Flagged.bind_val, Flagged.pure_val]
    rw [sum_update_field, update_self]
  simp only [Bool.not_true, Bool.false_eq_true, if_false, if_true, Flagged.bind_val]
  rw [← hsell]
  split
  · exact sum_concludeTrade ..
  · rfl

theorem bookSell_v (hc : (st.bookSell fe).Clean) :
    ((st.bookSell fe).val.nodes fe.node).nodeRealized.v = (st.nodes fe.node).nodeRealized.v + fe.net.v ∧
      ((st.bookSell fe).val.nodes fe.node).nodeFees.v =
        (st.nodes fe.node).nodeFees.v + (fe.entryFeeLeg.v + fe.fee.v) := by
  simp only [bookSell, Flagged.clean_bind, Flagged.clean_pure, and_true] at hc
  obtain ⟨hrealized, hleg, hfees, -⟩ := hc
  simp only [bookSell, Flagged.bind_val, Flagged.pure_val, update_self]
  exact ⟨Money.add_v hrealized, by rw [Money.add_v hfees, Money.add_v hleg]⟩

theorem nodeRowsBook_clean (hsell : fe.isSell = true) (hc : (st.nodeRowsBook partialOn fe).Clean) :
    (st.bookSell fe).Clean := by
  rw [nodeRowsBook, if_neg (by simp [hsell]), Flagged.clean_bind] at hc
  exact hc.1

end EventLoopState

namespace Composer

def realizedField : RowField := ⟨fun ctx => ctx.nodeRealized.v, fun h _ => congrArg Money.v h⟩

def paidField : RowField := ⟨fun ctx => ctx.nodeFees.v, fun _ h => congrArg Money.v h⟩

theorem applyFill_rows_clean {c : OmsConfig} {k : Composer} {fe : FillEvent} (hc : (k.applyFill c fe).Clean) :
    (k.els.nodeRowsBook c.partialExitEnabled fe).Clean := by
  simp only [applyFill, Flagged.clean_bind] at hc
  exact hc.2.1

/-- The sum of a field over the nodes, which a sell moves by `sold` and a buy not at all. -/
def Total.ofRows (F : RowField) (sold : FillEvent → ℤ)
    (applied : ∀ st fe, (EventLoopState.bookSell st fe).Clean →
      F.of ((st.bookSell fe).val.nodes fe.node) = F.of (st.nodes fe.node) + sold fe) : Total where
  figure _ nodes := ∑ n, F.of (nodes n)
  weight fe := if fe.isSell then sold fe else 0
  applied c k fe hc := by
    rw [applyFill_nodes, EventLoopState.sum_nodeRowsBook]
    split
    next hsell =>
      rw [applied _ _ (EventLoopState.nodeRowsBook_clean hsell (applyFill_rows_clean hc)), add_sub_cancel_left]
    next => rfl

def nodeRealizedTotal : Total :=
  .ofRows realizedField (·.net.v) fun _ _ hc => (EventLoopState.bookSell_v hc).1

def nodeFeesTotal : Total :=
  .ofRows paidField (fun fe => fe.entryFeeLeg.v + fe.fee.v) fun _ _ hc => (EventLoopState.bookSell_v hc).2

end Composer

/-! ### The fees held with open positions -/

namespace Portfolio

/-- The entry fee still held with a slot. -/
def heldFee (p : Portfolio) (slot : SlotIdx) : ℤ := if p.active slot then (p.positions slot).entryFee.v else 0

def heldFees (p : Portfolio) : ℤ := ∑ slot, p.heldFee slot

/-- A portfolio that differs in one slot differs by what that slot holds. -/
theorem heldFees_of_slot {p p' : Portfolio} {slot : SlotIdx}
    (h : ∀ i, i ≠ slot → p'.active i = p.active i ∧ p'.positions i = p.positions i) :
    p'.heldFees = p.heldFees + (p'.heldFee slot - p.heldFee slot) := by
  have hheld : p'.heldFee = update p.heldFee slot (p'.heldFee slot) := by
    funext i
    rcases eq_or_ne i slot with rfl | hne
    · rw [update_self]
    · rw [update_of_ne hne, heldFee, heldFee, (h i hne).1, (h i hne).2]
  rw [heldFees, hheld, sum_update, update_self]
  rfl

end Portfolio

/-! ### The books reconcile -/

open Composer in
/-- The three reconciliations, with everything waiting in the rings counted as booked. -/
structure Reconciled (start : ℤ) (b : Books) : Prop where
  balance : balanceTotal.settled b.composer = start + realizedTotal.settled b.composer
  realized : realizedTotal.settled b.composer = nodeRealizedTotal.settled b.composer
  fees : feesTotal.settled b.composer = nodeFeesTotal.settled b.composer + b.portfolio.heldFees

namespace Reconciled

open Composer

variable {c : OmsConfig} {start : ℤ} {b : Books} {o : Order} {nowUs : Nat} {price qty fee : Money}

/-- What settles nothing and holds the same fees reconciles as before. -/
theorem congr {b' : Books} (h : Reconciled start b)
    (hsettled : ∀ T : Total, T.settled b'.composer = T.settled b.composer)
    (hheld : b'.portfolio.heldFees = b.portfolio.heldFees) : Reconciled start b' := by
  refine ⟨?_, ?_, ?_⟩
  · rw [hsettled, hsettled]
    exact h.balance
  · rw [hsettled, hsettled]
    exact h.realized
  · rw [hsettled, hsettled, hheld]
    exact h.fees

/-- One fill emitted, and what its slot holds moved by what the fill costs beyond its row. -/
theorem emit {b' : Books} (fe : FillEvent) (h : Reconciled start b)
    (hsettled : ∀ T : Total, T.settled b'.composer = T.settled b.composer + T.weight fe)
    (hnet : fe.isSell = false → fe.net = .zero)
    (hheld : b'.portfolio.heldFees = b.portfolio.heldFees + (fe.fee.v - nodeFeesTotal.weight fe)) :
    Reconciled start b' := by
  have hrow : nodeRealizedTotal.weight fe = fe.net.v := by
    show (if fe.isSell then fe.net.v else 0) = fe.net.v
    split
    · rfl
    next hbuy => rw [hnet (eq_false_of_ne_true hbuy), Money.zero_v]
  refine ⟨?_, ?_, ?_⟩
  · rw [hsettled, hsettled, h.balance, add_assoc]
    rfl
  · rw [hsettled, hsettled, h.realized, hrow]
    rfl
  · rw [hsettled, hsettled, hheld, h.fees]
    show _ + fe.fee.v = _
    ring

/-- A buy leg's fee goes into its position. -/
theorem heldFees_openOrAccumulate {p : Portfolio} {tp : Money}
    (hc : (Books.openOrAccumulate p o price qty fee tp nowUs).Clean) :
    (Books.openOrAccumulate p o price qty fee tp nowUs).val.heldFees = p.heldFees + fee.v := by
  rcases hactive : p.active o.portfolioSlot with _ | _
  · simp only [Books.openOrAccumulate, hactive, Bool.false_eq_true, if_false, Flagged.pure_val]
    have hframe : ∀ args : PositionEntryArgs, ∀ i, i ≠ o.portfolioSlot →
        (p.openSlot o.portfolioSlot args nowUs).active i = p.active i ∧
          (p.openSlot o.portfolioSlot args nowUs).positions i = p.positions i :=
      fun _ i hne => ⟨update_of_ne hne .., update_of_ne hne ..⟩
    rw [Portfolio.heldFees_of_slot (hframe _)]
    simp [Portfolio.heldFee, Portfolio.openSlot, hactive]
  · simp only [Books.openOrAccumulate, hactive, if_true] at hc ⊢
    have hframe : ∀ i, i ≠ o.portfolioSlot →
        (p.accumulateSlotLeg o.portfolioSlot price qty fee).val.active i = p.active i ∧
          (p.accumulateSlotLeg o.portfolioSlot price qty fee).val.positions i = p.positions i :=
      fun i hne => ⟨rfl, update_of_ne hne ..⟩
    rw [Portfolio.heldFees_of_slot hframe]
    simp only [Portfolio.accumulateSlotLeg, Flagged.clean_bind, Flagged.clean_pure, and_true] at hc
    obtain ⟨-, -, -, -, -, hfee⟩ := hc
    simp only [Portfolio.heldFee, Portfolio.accumulateSlotLeg, Flagged.bind_val, Flagged.pure_val, hactive, if_true,
      update_self, Money.add_v hfee]
    ring

theorem handleBuyFill (hwired : c.aggWired = true) (h : Reconciled start b)
    (hc : (b.handleBuyFill c nowUs o price qty fee).Clean) :
    Reconciled start (b.handleBuyFill c nowUs o price qty fee).val := by
  simp only [Books.handleBuyFill, Flagged.clean_bind, Flagged.clean_pure, and_true] at hc
  obtain ⟨-, hemit, -, hopen⟩ := hc
  refine h.emit (b.buyFill c o price qty fee (price.mul qty).val) (fun T => ?_) (fun _ => rfl) ?_
  · exact (T.settled_emitRecord ..).trans (T.settled_fillEmit hwired hemit)
  · refine (heldFees_openOrAccumulate hopen).trans ?_
    show _ = _ + (fee.v - 0)
    rw [sub_zero]

/-- A sell leg takes its share of the entry fee out of its position. -/
theorem heldFees_takeLeg {p : Portfolio} {slot : SlotIdx} {qLeg : Money} (hactive : p.active slot = true)
    (hc : (p.takeLeg slot price qLeg).Clean) :
    (p.takeLeg slot price qLeg).val.portfolio.heldFees = p.heldFees - (p.takeLeg slot price qLeg).val.entryFee.v := by
  have hshare : (p.takeLeg slot price qLeg).val.entryFee.v +
      ((p.takeLeg slot price qLeg).val.portfolio.positions slot).entryFee.v = (p.positions slot).entryFee.v := by
    rw [Portfolio.takeLeg, Flagged.clean_bind] at hc
    rw [Portfolio.takeLeg_entryFee]
    exact consumeEntryFeeLeg_v hc.1
  have hheld : (p.takeLeg slot price qLeg).val.portfolio.heldFee slot =
      ((p.takeLeg slot price qLeg).val.portfolio.positions slot).entryFee.v := by
    rw [Portfolio.heldFee, Portfolio.takeLeg_active hactive]
    split
    · rfl
    next hflat =>
      -- the last leg leaves no fee behind
      have hall : (p.positions slot).quantity = qLeg := Money.sub_isZero_iff.1 (by simpa using hflat)
      rw [Portfolio.takeLeg_entryFee, hall, consumeEntryFeeLeg_flat]
      rfl
  have hbefore : p.heldFee slot = (p.positions slot).entryFee.v := if_pos hactive
  rw [Portfolio.heldFees_of_slot fun i hne => Portfolio.takeLeg_of_ne hne _ _, hheld, hbefore]
  linarith

theorem closeLeg {qLeg : Money} (hwired : c.aggWired = true) (hactive : b.portfolio.active o.portfolioSlot = true)
    (h : Reconciled start b) (hc : (b.closeLeg c o price qLeg fee).Clean) :
    Reconciled start (b.closeLeg c o price qLeg fee).val := by
  simp only [Books.closeLeg, Flagged.clean_bind, Flagged.clean_pure, and_true] at hc
  obtain ⟨hleg, -, -, -, hemit⟩ := hc
  refine h.emit _ (fun T => (T.settled_emitRecord ..).trans (T.settled_fillEmit hwired hemit))
    (fun hbuy => absurd hbuy Bool.false_ne_true.symm) ?_
  refine (heldFees_takeLeg hactive hleg).trans ?_
  show _ = _ + (fee.v - (_ + fee.v))
  rw [Books.sellFill]
  ring

theorem handleSellFill (hwired : c.aggWired = true) (h : Reconciled start b)
    (hc : (b.handleSellFill c o price qty fee).Clean) :
    Reconciled start (b.handleSellFill c o price qty fee).val := by
  unfold Books.handleSellFill at hc ⊢
  rcases hactive : b.portfolio.active o.portfolioSlot with _ | _
  · simpa [hactive] using h
  simp only [hactive, Bool.not_true, Bool.false_eq_true, if_false] at hc ⊢
  split
  · exact h
  next hsome =>
    rw [if_neg hsome] at hc
    exact h.closeLeg hwired hactive hc

theorem auditAppend (h : Reconciled start b) (ev : OrderEvent) (slot : Option SlotIdx) :
    Reconciled start (b.auditAppend c ev slot) := by
  unfold Books.auditAppend
  split
  · exact h.congr (fun T => T.settled_eventFunnelPush c b.composer ev slot) rfl
  · exact h

theorem bookLeg (hwired : c.aggWired = true) (h : Reconciled start b) {r : OrderResult}
    (hc : (OrderManagerState.bookLeg c nowUs b o r).Clean) :
    Reconciled start (OrderManagerState.bookLeg c nowUs b o r).val := by
  unfold OrderManagerState.bookLeg at hc ⊢
  split
  swap
  · exact h
  next hqty =>
    rw [if_pos hqty] at hc
    simp only [Books.handleFill, Flagged.clean_bind] at hc
    simp only [Books.handleFill, Flagged.bind_val]
    have haudit := h.auditAppend (c := c)
      (.makeFill o o.avgFillPrice (moneyFromDoublePayload r.fillQty)
        (Books.bookedFee (Books.computedFee o o.avgFillPrice (moneyFromDoublePayload r.fillQty)).val r.commission
          r.commissionAsset)) (some o.portfolioSlot)
    rcases htype : o.type with _ | _ | _ | _
    all_goals simp only [htype] at hc ⊢
    · exact haudit.handleBuyFill hwired hc.2
    · exact haudit.handleSellFill hwired hc.2
    · exact haudit.handleBuyFill hwired hc.2
    · exact haudit.handleSellFill hwired hc.2

end Reconciled

namespace OrderManagerState

open Composer

variable {c : OmsConfig} {start : ℤ} {s : OrderManagerState}

theorem reconciled_init (balance : Money) (tradeLog : Option (List (EmitRecord × Money))) :
    Reconciled balance.v (init balance tradeLog).books := by
  have hdrained : (init balance tradeLog).books.composer.pendingFills = [] := lanes_eq_nil fun _ => rfl
  have hzero : ∑ _n : NodeIdx, (0 : ℤ) = 0 := Finset.sum_const_zero
  refine ⟨?_, ?_, ?_⟩
  all_goals rw [Total.settled_of_drained _ hdrained, Total.settled_of_drained _ hdrained]
  · exact (add_zero _).symm
  · exact hzero.symm
  · exact (congrArg₂ (· + ·) hzero hzero).symm

/-- As long as nothing has saturated, every turn leaves reconciled books behind. -/
theorem reconciled_act (hwired : c.aggWired = true) (h : Reconciled start s.books) {a : Act}
    (hc : (s.act c a).Clean) :
    Reconciled start (s.act c a).val.books := by
  refine books_act (Reconciled start) ?_ ?_ ?_ ?_ ?_ h hc
  · exact fun cmd i _ _ us hb hleg => hb.bookLeg hwired hleg
  · exact fun b ev slot _ hb => hb.auditAppend ev slot
  · exact fun _ b hb hclean => hb.congr (fun T => T.settled_fillRingsApply hclean) rfl
  · exact fun b site hb _ => hb.congr (fun T => T.settled_fatalMarker c b.composer site) rfl
  · refine fun b dc hb => hb.congr (fun _ => rfl) (Finset.sum_congr rfl fun i _ => ?_)
    obtain ⟨hactive, -, -, hfee⟩ := applyDrag_keeps b.portfolio dc i
    rw [Portfolio.heldFee, Portfolio.heldFee, hactive, hfee]

theorem reconciled_run (hwired : c.aggWired = true) (balance : Money) (tradeLog : Option (List (EmitRecord × Money)))
    (as : List Act) (hclean : (run (step c) (init balance tradeLog) as).moneyOpFlags = 0) :
    Reconciled balance.v (run (step c) (init balance tradeLog) as).books := by
  have hstep : ∀ (s : OrderManagerState) (a : Act), (s.moneyOpFlags = 0 → Reconciled balance.v s.books) →
      ((s.step c a).moneyOpFlags = 0 → Reconciled balance.v (s.step c a).books) := by
    intro s a h hflags
    obtain ⟨hbefore, hact⟩ := Flagged.or_eq_zero.1 hflags
    exact reconciled_act hwired (h hbefore) hact
  exact run_inv hstep as (fun _ => reconciled_init balance tradeLog) hclean

/-- In every run without a saturated operation, whatever its interleaving, once the fill rings are
    drained: the balance is the starting balance and the realized profit; the nodes realized the
    realized profit; and the fees booked are those the nodes paid and those still held with the
    active slots. -/
theorem ledger_reconciles (c : OmsConfig) (hwired : c.aggWired = true) (balance : Money)
    (tradeLog : Option (List (EmitRecord × Money))) (as : List Act) {s : OrderManagerState}
    (hrun : run (step c) (init balance tradeLog) as = s) (hclean : s.moneyOpFlags = 0)
    (hdrained : s.books.composer.pendingFills = []) :
    let k := s.books.composer
    let p := s.books.portfolio
    k.ledger.balance.v = balance.v + k.ledger.realizedPnl.v ∧
      k.ledger.realizedPnl.v = ∑ n, (k.els.nodes n).nodeRealized.v ∧
      k.ledger.totalFees.v =
        ∑ n, (k.els.nodes n).nodeFees.v + ∑ slot with p.active slot, (p.positions slot).entryFee.v := by
  obtain rfl := hrun
  obtain ⟨hbalance, hrealized, hfees⟩ := reconciled_run hwired balance tradeLog as hclean
  simp only [Total.settled_of_drained _ hdrained] at hbalance hrealized hfees
  intro k p
  refine ⟨hbalance, hrealized, ?_⟩
  rw [Finset.sum_filter]
  exact hfees

/-- Ten units bought, four sold: the fee of the other six is still held. -/
theorem ledger_reconciles_half_sold :
    let s := run (step { samplePaper with aggWired := true }) (init (Money.fromInt 1000).val none)
      [.submit (sampleTrade 0 .marketBuy 10), .popResult, .submit (sampleTrade 0 .marketSell 4), .popResult,
        .fillRingsApply]
    let k := s.books.composer
    let p := s.books.portfolio
    k.ledger.totalFees = moneyFromDoublePayload 1.4 ∧
      k.ledger.balance.v = (Money.fromInt 1000).val.v + k.ledger.realizedPnl.v ∧
      k.ledger.realizedPnl.v = ∑ n, (k.els.nodes n).nodeRealized.v ∧
      k.ledger.totalFees.v =
        ∑ n, (k.els.nodes n).nodeFees.v + ∑ slot with p.active slot, (p.positions slot).entryFee.v :=
  ⟨by decide +kernel, ledger_reconciles _ rfl _ none _ rfl (by decide +kernel) (List.isEmpty_iff.1 (by decide +kernel))⟩

end OrderManagerState

end FoxTrader
