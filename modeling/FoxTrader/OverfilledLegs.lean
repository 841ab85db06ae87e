import FoxTrader.ComposerTotals
import FoxTrader.LegRounding

/-! # The three records of a sell leg

    `HandleFill` works out the fee of a leg and appends its audit row before the handler of the side
    looks at the slot. The sell handler then takes no more than the slot holds, or nothing where the
    slot is not held. So the row carries the quantity reported and the ledger is charged the fee on
    it, and both are what the slot gave up only if it held as much. -/

namespace FoxTrader.Books

open Lib Function

variable {c : OmsConfig} {b : Books} {o : Order} {price qty fee : Money} {nowUs : Nat} {commission : Float}
    {asset : String}

/-- The audit rows of a leg. -/
def fillRows (c : OmsConfig) (o : Order) (price qty fee : Money) : List OrderEvent :=
  if c.eventLogMode = appendMode then [.makeFill o price qty fee] else []

/-- The fill event of a sell leg; none comes of a slot that is not held, or of nothing to take. -/
def sellEvent (c : OmsConfig) (b : Books) (o : Order) (price qty fee : Money) : Option FillEvent :=
  let pos := b.portfolio.positions o.portfolioSlot
  let qLeg := b.sellQty o.portfolioSlot qty
  if b.portfolio.active o.portfolioSlot = false ∨ qLeg.isZero = true then none
  else
    let leg := (b.portfolio.takeLeg o.portfolioSlot price qLeg).val
    let net := (leg.gross.sub (leg.entryFee.add fee).val).val
    some (b.sellFill c o price qLeg fee net (pos.entryPrice.mul qLeg).val leg.entryFee)

/-- What an event charges the ledger in fees. -/
def feeCharged : Option FillEvent → Money
  | none => .zero
  | some fe => fe.fee

/-- All the sell handler does to the composer is emit the leg's event and its trade row. -/
theorem handleSellFill_emits (c : OmsConfig) (b : Books) (o : Order) (price qty fee : Money) :
    match b.sellEvent c o price qty fee with
    | none => b.handleSellFill c o price qty fee = pure b
    | some fe =>
      ∃ rec, (b.handleSellFill c o price qty fee).val.composer = (b.composer.fillEmit c fe).val.emitRecord c rec ∧
        ((b.handleSellFill c o price qty fee).Clean → (b.composer.fillEmit c fe).Clean) := by
  unfold sellEvent handleSellFill
  dsimp only
  rcases hactive : b.portfolio.active o.portfolioSlot with _ | _
  · rfl
  rcases hzero : (b.sellQty o.portfolioSlot qty).isZero with _ | _
  · refine ⟨_, rfl, ?_⟩
    simp only [Bool.not_true, Bool.false_eq_true, if_false, closeLeg, Flagged.clean_bind]
    exact fun h => h.2.2.2.2.1
  · rfl

theorem sellEvent_auditAppend (ev : OrderEvent) (slot : Option SlotIdx) :
    (b.auditAppend c ev slot).sellEvent c o price qty fee = b.sellEvent c o price qty fee := by
  unfold auditAppend
  split <;> rfl

/-- A sell fill settles the fee of its event in the ledger, and nothing else. -/
theorem settled_handleFill_sell (hsell : o.type.isSell = true)
    (hc : (b.handleFill c nowUs o price qty commission asset).Clean) :
    Composer.feesTotal.settled (b.handleFill c nowUs o price qty commission asset).val.composer =
      Composer.feesTotal.settled b.composer +
        (feeCharged (b.sellEvent c o price qty (bookedFee (computedFee o price qty).val commission asset))).v := by
  have hhandler : ((b.auditAppend c
      (.makeFill o price qty (bookedFee (computedFee o price qty).val commission asset))
        (some o.portfolioSlot)).handleSellFill
        c o price qty (bookedFee (computedFee o price qty).val commission asset)).Clean := by
    simp only [handleFill, Flagged.clean_bind] at hc
    cases htype : o.type with
    | marketBuy | limitBuy => exact absurd ((congrArg OrderType.isSell htype).symm.trans hsell) Bool.false_ne_true
    | marketSell | limitSell => simpa only [htype] using hc.2
  rw [handleFill_of_sell hsell]
  generalize bookedFee (computedFee o price qty).val commission asset = fee at hhandler ⊢
  have haudit : Composer.feesTotal.settled (b.auditAppend c (.makeFill o price qty fee) (some o.portfolioSlot)).composer =
      Composer.feesTotal.settled b.composer := by
    unfold auditAppend
    split
    · exact Composer.feesTotal.settled_eventFunnelPush ..
    · rfl
  have hemits :=
    handleSellFill_emits c (b.auditAppend c (.makeFill o price qty fee) (some o.portfolioSlot)) o price qty fee
  rw [sellEvent_auditAppend] at hemits
  rw [← haudit]
  generalize b.auditAppend c (.makeFill o price qty fee) (some o.portfolioSlot) = b' at hhandler hemits ⊢
  generalize b.sellEvent c o price qty fee = fe at hemits ⊢
  rcases fe with _ | fe
  · rw [hemits]
    exact (Int.add_zero _).symm
  · obtain ⟨rec, hcomposer, hclean⟩ := hemits
    rw [hcomposer, Composer.Total.settled_emitRecord]
    exact Composer.Total.settled_fillEmit_ofLedger (hclean hhandler)

/-! ### What is recorded and what was sold -/

/-- What a sell fill takes out of its slot. -/
def removedQty (c : OmsConfig) (nowUs : Nat) (b : Books) (o : Order) (price qty : Money) (commission : Float)
    (asset : String) : Money :=
  ((b.portfolio.held o.portfolioSlot).sub
    ((b.handleFill c nowUs o price qty commission asset).val.portfolio.held o.portfolioSlot)).val

/-- A commission the fee rule takes over. -/
def Quoted (commission : Float) (asset : String) : Prop := commission > 0.0 ∧ asset = "USDT"

/-- The ledger is charged the fee on what was taken, unless the venue has set it, and the audit rows say
    that much was filled. -/
def RecordsAgree (c : OmsConfig) (nowUs : Nat) (b : Books) (o : Order) (price qty : Money) (commission : Float)
    (asset : String) : Prop :=
  let fee := bookedFee (computedFee o price qty).val commission asset
  let removed := b.removedQty c nowUs o price qty commission asset
  (¬Quoted commission asset → feeCharged (b.sellEvent c o price qty fee) = (computedFee o price removed).val) ∧
    ∀ ev ∈ fillRows c o price qty fee, ev.qty = removed

/-- The slot holds what was filled; or no row is written, and nothing is held, or the fee is the venue's
    or the same on both quantities. -/
def Covered (c : OmsConfig) (b : Books) (o : Order) (price qty : Money) (commission : Float) (asset : String) :
    Prop :=
  let held := b.portfolio.held o.portfolioSlot
  qty.v ≤ held.v ∨
    c.eventLogMode ≠ appendMode ∧
      (held = .zero ∨ Quoted commission asset ∨
        (computedFee o price qty).val = (computedFee o price held).val)

/-- What is taken is what was filled, at most what is held. -/
theorem removedQty_eq (hsell : o.type.isSell = true) (hqty : 0 ≤ qty.v)
    (hheld : b.portfolio.active o.portfolioSlot = true → 0 ≤ (b.portfolio.positions o.portfolioSlot).quantity.v) :
    b.removedQty c nowUs o price qty commission asset = clampQty qty (b.portfolio.held o.portfolioSlot) := by
  have hafter := Portfolio.sold_held hqty hheld price
  have hbefore : 0 ≤ (b.portfolio.held o.portfolioSlot).v := by
    unfold Portfolio.held
    split
    next hactive => exact hheld hactive
    next => exact le_rfl
  have hup := (b.portfolio.held o.portfolioSlot).upper
  have hclamp := Portfolio.clampQty_v qty (b.portfolio.held o.portfolioSlot)
  unfold removedQty
  rw [handleFill_sell hsell]
  generalize (b.portfolio.sold o.portfolioSlot price qty).held o.portfolioSlot = after at hafter ⊢
  have hclean : ((b.portfolio.held o.portfolioSlot).sub after).Clean := by
    refine Money.saturate_clean_iff.2 ?_
    simp only [Money.neg]
    split at hafter <;> omega
  refine Money.ext ?_
  rw [Money.sub_v hclean, hafter, hclamp]
  split <;> omega

theorem computedFee_zero (o : Order) (price : Money) : (computedFee o price .zero).val = .zero := by
  have hround : halfEven 0 moneyScale = 0 := by decide
  have hzero : (Money.saturate 0).val = .zero := rfl
  simp only [computedFee, Flagged.bind_val, Money.mul_eq, Money.zero_v, Int.mul_zero, Int.zero_mul, hround, hzero]

/-- The fee charged is the one booked, if anything is taken. -/
theorem feeCharged_sellEvent (hqty : 0 ≤ qty.v) :
    feeCharged (b.sellEvent c o price qty fee) =
      if clampQty qty (b.portfolio.held o.portfolioSlot) = .zero then .zero else fee := by
  unfold sellEvent sellQty Portfolio.held
  dsimp only
  rcases hactive : b.portfolio.active o.portfolioSlot with _ | _
  · have hclamp := Portfolio.clampQty_v qty .zero
    have hnone : clampQty qty .zero = .zero := by
      refine Money.ext ?_
      rw [Money.zero_v] at hclamp ⊢
      split at hclamp <;> omega
    simp only [true_or, if_true, Bool.false_eq_true, if_false, hnone]
    rfl
  · simp only [Bool.true_eq_false, false_or, if_true, Money.isZero_iff]
    split <;> rfl

/-- The three records of a sell fill agree exactly when the slot covers it. -/
theorem handleFill_records_iff (hsell : o.type.isSell = true) (hqty : 0 ≤ qty.v)
    (hheld : b.portfolio.active o.portfolioSlot = true → 0 ≤ (b.portfolio.positions o.portfolioSlot).quantity.v) :
    b.RecordsAgree c nowUs o price qty commission asset ↔ b.Covered c o price qty commission asset := by
  unfold RecordsAgree Covered
  dsimp only
  rw [removedQty_eq hsell hqty hheld, feeCharged_sellEvent hqty]
  generalize b.portfolio.held o.portfolioSlot = held
  have hclamp := Portfolio.clampQty_v qty held
  have hbooked : ¬Quoted commission asset →
      bookedFee (computedFee o price qty).val commission asset = (computedFee o price qty).val := fun h => if_neg h
  generalize bookedFee (computedFee o price qty).val commission asset = fee at hbooked ⊢
  by_cases hle : qty.v ≤ held.v
  · -- what was filled is taken
    have htaken : clampQty qty held = qty := Money.ext (hclamp.trans (if_pos hle))
    rw [htaken]
    refine iff_of_true ⟨fun hnot => ?_, fun ev hev => ?_⟩ (.inl hle)
    · split
      next hzero => rw [hzero, computedFee_zero]
      next => exact hbooked hnot
    · unfold fillRows at hev
      split at hev
      · rw [List.mem_singleton.1 hev]
        rfl
      · exact absurd hev List.not_mem_nil
  · have htaken : clampQty qty held = held := Money.ext (hclamp.trans (if_neg hle))
    have hne : qty ≠ held := fun h => hle (h ▸ le_rfl)
    rw [htaken]
    by_cases hmode : c.eventLogMode = appendMode
    · -- the row says more than was taken
      refine iff_of_false (fun h => hne (h.2 (.makeFill o price qty fee) ?_)) (by simp [hle, hmode])
      rw [fillRows, if_pos hmode]
      exact List.mem_singleton.2 rfl
    · have hrows : fillRows c o price qty fee = [] := if_neg hmode
      rw [hrows]
      by_cases hzero : held = .zero
      · simp [hmode, hzero, computedFee_zero]
      · by_cases hquoted : Quoted commission asset
        · simp [hmode, hquoted]
        · simp [hle, hmode, hzero, hquoted, hbooked hquoted]

/-- A market buy of two units filled at 100, and the sell of both submitted. -/
def sampleBoughtPair : OrderManagerState :=
  run (OrderManagerState.step (sampleLive [1, 2])) (.init .zero none)
    [.submit (sampleTrade firstIdx .marketBuy 2), .processFill (sampleLeg 1 2 true),
      .submit (sampleTrade firstIdx .marketSell 2)]

theorem handleFill_records_iff_pair :
    let s := sampleBoughtPair
    s.books.RecordsAgree (sampleLive [1, 2]) 0 (s.orders firstIdx) (Money.fromInt 100).val (Money.fromInt 2).val 0 "" ↔
      s.books.Covered (sampleLive [1, 2]) (s.orders firstIdx) (Money.fromInt 100).val (Money.fromInt 2).val 0 "" :=
  handleFill_records_iff (by decide +kernel) (by decide) (by decide +kernel)

/-- Three units reported on a slot of two: two are taken, the fee of three is charged and the row says
    three. -/
theorem overfilled_leg_recorded :
    let s := sampleBoughtPair
    let o := s.orders firstIdx
    let price := (Money.fromInt 100).val
    let qty := (Money.fromInt 3).val
    o.type.isSell = true ∧ s.books.removedQty (sampleLive [1, 2]) 0 o price qty 0 "" = (Money.fromInt 2).val ∧
      feeCharged (s.books.sellEvent (sampleLive [1, 2]) o price qty (bookedFee (computedFee o price qty).val 0 "")) ≠
        (computedFee o price (Money.fromInt 2).val).val ∧
      ¬s.books.RecordsAgree (sampleLive [1, 2]) 0 o price qty 0 "" := by
  have hremoved : sampleBoughtPair.books.removedQty (sampleLive [1, 2]) 0 (sampleBoughtPair.orders firstIdx)
      (Money.fromInt 100).val (Money.fromInt 3).val 0 "" = (Money.fromInt 2).val := by decide +kernel
  refine ⟨by decide +kernel, hremoved, by decide +kernel, fun h => ?_⟩
  have hqty := h.2 _ (List.mem_singleton.2 rfl)
  rw [hremoved] at hqty
  exact absurd hqty (by decide +kernel)

end FoxTrader.Books
