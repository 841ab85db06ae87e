import FoxTrader.OrderOutcomes

/-! # The remainder of an exit the venue ended short

    A sell that the venue expires or cancels with part of it unexecuted is submitted again for what
    its portfolio slot still holds. The dead order's table slot is freed first, so a slot is always
    found; the new order takes over the dead one's binding through the slot its id decodes to. An
    adapter that refuses makes the id 0, and 0 decodes to slot 0: the binding then lands on whatever
    order is there. -/

namespace FoxTrader

open Lib Function

namespace Books

variable {c : OmsConfig} {b : Books} {o : Order} {price qty fee : Money}

/-- What a slot holds after a sell leg: what it held, less what the leg takes. -/
def unsold (b : Books) (slot : SlotIdx) (fillQty : Money) : Money :=
  if b.portfolio.active slot then ((b.portfolio.positions slot).quantity.sub (b.sellQty slot fillQty)).val
  else .zero

theorem remaining_handleSellFill (c : OmsConfig) (b : Books) (o : Order) (price qty fee : Money) :
    OrderManagerState.remaining (b.handleSellFill c o price qty fee).val o.portfolioSlot =
      b.unsold o.portfolioSlot qty := by
  unfold handleSellFill unsold
  rcases hactive : b.portfolio.active o.portfolioSlot with _ | _
  · exact if_neg (ne_true_of_eq_false hactive)
  simp only [Bool.not_true, Bool.false_eq_true, if_false, if_true]
  split
  next hnone =>
    -- nothing to take: the position is as it was
    rw [Money.isZero_iff.1 hnone, Money.sub_zero]
    exact if_pos hactive
  next hsome =>
    have hactive' : (b.closeLeg c o price (b.sellQty o.portfolioSlot qty) fee).val.portfolio.active o.portfolioSlot =
        !((b.portfolio.positions o.portfolioSlot).quantity.sub (b.sellQty o.portfolioSlot qty)).val.isZero :=
      Portfolio.takeLeg_active hactive price _
    have hqty : ((b.closeLeg c o price (b.sellQty o.portfolioSlot qty) fee).val.portfolio.positions o.portfolioSlot).quantity =
        ((b.portfolio.positions o.portfolioSlot).quantity.sub (b.sellQty o.portfolioSlot qty)).val :=
      Portfolio.takeLeg_quantity _ _ price _
    rw [OrderManagerState.remaining, hactive', hqty]
    split
    · rfl
    next hflat => exact (Money.isZero_iff.1 (by simpa using hflat)).symm

/-- A sell fill is booked by the sell handler, on the books with the audit row appended. -/
theorem handleFill_of_sell (hsell : o.type.isSell = true) (nowUs : Nat) (commission : Float) (asset : String) :
    (b.handleFill c nowUs o price qty commission asset).val =
      ((b.auditAppend c (.makeFill o price qty (bookedFee (computedFee o price qty).val commission asset))
        (some o.portfolioSlot)).handleSellFill c o price qty
          (bookedFee (computedFee o price qty).val commission asset)).val := by
  simp only [handleFill, Flagged.bind_val]
  cases htype : o.type with
  | marketBuy | limitBuy => exact absurd ((congrArg OrderType.isSell htype).symm.trans hsell) Bool.false_ne_true
  | marketSell | limitSell => rfl

theorem auditAppend_portfolio (c : OmsConfig) (b : Books) (ev : OrderEvent) (slot : Option SlotIdx) :
    (b.auditAppend c ev slot).portfolio = b.portfolio := by
  unfold auditAppend
  split <;> rfl

theorem unsold_auditAppend (c : OmsConfig) (b : Books) (ev : OrderEvent) (slot' : Option SlotIdx) (slot : SlotIdx)
    (qty : Money) : (b.auditAppend c ev slot').unsold slot qty = b.unsold slot qty := by
  rw [unsold, unsold, sellQty, sellQty, auditAppend_portfolio]

end Books

namespace OrderManagerState

variable {c : OmsConfig} {s : OrderManagerState} {i : OrderSlot} {r : OrderResult} {cmd : Command}

/-! ### What is left, and where it goes -/

/-- What the slot of the order in `i` holds once the execution is booked. -/
def remainder (s : OrderManagerState) (i : OrderSlot) (r : OrderResult) : Money :=
  if r.fillQty > 0.0 then s.books.unsold (s.orders i).portfolioSlot (moneyFromDoublePayload r.fillQty)
  else remaining s.books (s.orders i).portfolioSlot

/-- The id the remainder's order gets in the table slot `k`. -/
def remainderId (c : OmsConfig) (s : OrderManagerState) (i k : OrderSlot) : Nat :=
  encodeOrderId k (c.slotNode (s.orders i).portfolioSlot) s.nextOrderId

/-- Whether the remainder's order, in the lowest slot free once `i` is, would be taken. -/
def takesRemainder (c : OmsConfig) (s : OrderManagerState) (i : OrderSlot) (r : OrderResult) : Bool :=
  !c.liveTrading || (freeSlot (update s.orderBitmap i false)).any fun k =>
    adapterTakes c .marketSell (s.remainderId c i k) (s.remainder i r)

/-- `o` is the live exit for `rest` in the slot `k`, under the binding of the order in `i`. -/
structure IsRemainder (c : OmsConfig) (s : OrderManagerState) (i : OrderSlot) (rest : Money) (k : OrderSlot)
    (o : Order) : Prop where
  id : o.id = s.remainderId c i k
  state : o.state = .submitted
  type : o.type = .marketSell
  portfolioSlot : o.portfolioSlot = (s.orders i).portfolioSlot
  requestedQty : o.requestedQty = rest
  preResolved : o.preResolved = (s.orders i).preResolved

/-- No order but the dead one and the new one is touched, and what is left is on its way out or
    counted as rejected. -/
structure RemainderHandled (c : OmsConfig) (s s' : OrderManagerState) (i : OrderSlot) (rest : Money) : Prop where
  others : ∀ j, j ≠ i → s.orderBitmap j = true → s'.orderBitmap j = true ∧ s'.orders j = s.orders j
  exits : rest.isZero = false →
    (∃ k, (k = i ∨ s.orderBitmap k = false) ∧ s'.orderBitmap k = true ∧ IsRemainder c s i rest k (s'.orders k)) ∨
      s'.totalRejected = s.totalRejected + 1

/-- When the slot held exactly the open quantity of the order, the remainder is what is left of it. -/
theorem remainder_unfilled {fillQty : Money} {b : Books} {o : Order}
    (hactive : b.portfolio.active o.portfolioSlot = true)
    (hopen : (b.portfolio.positions o.portfolioSlot).quantity.v = o.requestedQty.v - o.filledQty.v)
    (hfill : 0 ≤ fillQty.v) (hle : fillQty.v ≤ o.requestedQty.v - o.filledQty.v) :
    (b.unsold o.portfolioSlot fillQty).v = o.requestedQty.v - (o.filledQty.v + fillQty.v) := by
  have htaken : b.sellQty o.portfolioSlot fillQty = fillQty := by
    refine if_neg fun hgt => ?_
    rw [Money.gt_iff] at hgt
    omega
  have hclean : ((b.portfolio.positions o.portfolioSlot).quantity.sub fillQty).Clean := by
    have := (b.portfolio.positions o.portfolioSlot).quantity.upper
    refine Money.saturate_clean_iff.2 ?_
    simp only [Money.neg]
    omega
  rw [Books.unsold, if_pos hactive, htaken, Money.sub_v hclean]
  omega

/-! ### Booking the last leg -/

theorem remaining_bookLeg {nowUs : Nat} {b : Books} {o : Order} (hsell : o.type.isSell = true) :
    remaining (bookLeg c nowUs b o r).val o.portfolioSlot =
      if r.fillQty > 0.0 then b.unsold o.portfolioSlot (moneyFromDoublePayload r.fillQty)
      else remaining b o.portfolioSlot := by
  unfold bookLeg
  split
  · rw [Books.handleFill_of_sell hsell, Books.remaining_handleSellFill, Books.unsold_auditAppend]
  · rfl

theorem legOrder_type (o : Order) : (legOrder o r).val.type = o.type := rfl

theorem legOrder_portfolioSlot (o : Order) : (legOrder o r).val.portfolioSlot = o.portfolioSlot := rfl

theorem leftover_bookExecution (hsell : (s.orders i).type.isSell = true) :
    (s.bookExecution c i (s.priced i r) r).val.leftover i = s.remainder i r := by
  have horder : (s.bookExecution c i (s.priced i r) r).val.orders i = (legOrder (s.priced i r) r).val :=
    update_self ..
  have hbooks : (s.bookExecution c i (s.priced i r) r).val.books =
      (bookLeg c s.nowUs s.books (legOrder (s.priced i r) r).val r).val := rfl
  have hsell' : (legOrder (s.priced i r) r).val.type.isSell = true :=
    (congrArg OrderType.isSell (legOrder_type _)).trans hsell
  have hslot : (legOrder (s.priced i r) r).val.portfolioSlot = (s.orders i).portfolioSlot := legOrder_portfolioSlot _
  rw [leftover, horder, hbooks, remaining_bookLeg hsell', hslot, remainder]

theorem processFillCommand_endedShort (hexec : s.executing cmd = some i) (hterminal : cmd.result.venueTerminal = true)
    (hshort : cmd.result.orderComplete = false) :
    (s.processFillCommand c cmd).val.1 =
      ((s.bookExecution c i (s.priced i cmd.result) cmd.result).val.endIncomplete c i).val.freeIfTerminal i := by
  have hout := processFillCommand_outcome c s cmd
  generalize s.processFillCommand c cmd = m at hout ⊢
  rcases hout with hno | ⟨j, -, hno⟩ | ⟨j, -, hno⟩ | ⟨j, -, -, hgoes⟩ | ⟨j, -, hexec', -, -⟩ | ⟨j, -, hno, -⟩
  · exact absurd (hexec.symm.trans hno) (Option.some_ne_none i)
  · exact absurd (hexec.symm.trans hno) (Option.some_ne_none i)
  · exact absurd (hexec.symm.trans hno) (Option.some_ne_none i)
  · exact absurd (hshort.symm.trans (hgoes hterminal)) Bool.false_ne_true
  · obtain rfl := Option.some_inj.1 (hexec.symm.trans hexec')
    rfl
  · exact absurd (hexec.symm.trans hno) (Option.some_ne_none i)

/-! ### Submitting again -/

/-- A remainder that is taken is the order of the slot it was given. -/
theorem resubmit_taken {dead : Order} {rest : Money} {k : OrderSlot} (hfree : freeSlot s.orderBitmap = some k)
    (htakes : c.liveTrading = true → adapterTakes c .marketSell (s.nextId c (resubmission dead rest) k) rest = true) :
    (s.resubmit c dead rest).val.orderBitmap = update s.orderBitmap k true ∧
      (s.resubmit c dead rest).val.orders = update s.orders k
        { submittedOrder (s.orders k) (s.nextId c (resubmission dead rest) k) (resubmission dead rest) s.nowUs with
          preResolved := dead.preResolved } := by
  have hout := submit_outcome c s (resubmission dead rest)
  simp only [resubmit, Flagged.bind_val, Flagged.pure_val]
  generalize s.submit c (resubmission dead rest) = m at hout ⊢
  rcases hout with hfull | ⟨k', hfree', -⟩ | ⟨k', hfree', -, -⟩ | ⟨k', hfree', hlive, hrefused⟩
  · exact absurd (hfree.symm.trans hfull) (Option.some_ne_none k)
  · obtain rfl := Option.some_inj.1 (hfree.symm.trans hfree')
    simp [nextId, setOrder, resultPush, place, countSubmission]
  · obtain rfl := Option.some_inj.1 (hfree.symm.trans hfree')
    simp [nextId, setOrder, place, countSubmission]
  · obtain rfl := Option.some_inj.1 (hfree.symm.trans hfree')
    exact absurd (hrefused.symm.trans (htakes hlive)) Bool.false_ne_true

/-- A remainder that is refused is counted, its slot is free again, and the binding goes to slot 0. -/
theorem resubmit_refused {dead : Order} {rest : Money} {k : OrderSlot} (hfree : freeSlot s.orderBitmap = some k)
    (hlive : c.liveTrading = true)
    (hrefused : adapterTakes c .marketSell (s.nextId c (resubmission dead rest) k) rest = false) :
    (s.resubmit c dead rest).val.totalRejected = s.totalRejected + 1 ∧
      ∀ j, s.orderBitmap j = true →
        (s.resubmit c dead rest).val.orderBitmap j = true ∧
          (s.resubmit c dead rest).val.orders j =
            if j = 0 then { s.orders j with preResolved := dead.preResolved } else s.orders j := by
  have hout := submit_outcome c s (resubmission dead rest)
  simp only [resubmit, Flagged.bind_val, Flagged.pure_val]
  have hkeeps := fun j hj => submit_keeps (c := c) (s := s) (j := j) hj (resubmission dead rest)
  generalize s.submit c (resubmission dead rest) = m at hout hkeeps ⊢
  rcases hout with hfull | ⟨k', -, hpaper⟩ | ⟨k', hfree', -, htakes⟩ | ⟨k', hfree', -, -⟩
  · exact absurd (hfree.symm.trans hfull) (Option.some_ne_none k)
  · exact absurd (hpaper.symm.trans hlive) Bool.false_ne_true
  · obtain rfl := Option.some_inj.1 (hfree.symm.trans hfree')
    exact absurd (hrefused.symm.trans htakes) Bool.false_ne_true
  · refine ⟨rfl, fun j hj => ⟨(hkeeps j hj).1, ?_⟩⟩
    have horder := (hkeeps j hj).2
    simp only [Flagged.pure_val, orderIdSlot_zero, setOrder] at horder ⊢
    split
    next hzero =>
      subst hzero
      rw [update_self, horder]
    next hne => rw [update_of_ne hne, horder]

/-! ### The whole command -/

theorem freeIfTerminal_keeps {j : OrderSlot} (hj : s.orderBitmap j = true)
    (hlive : j = i → (s.orders i).state.isTerminal = false) : (s.freeIfTerminal i).orderBitmap j = true := by
  unfold freeIfTerminal
  split
  next hends =>
    have hne : j ≠ i := fun heq => Bool.false_ne_true ((hlive heq).symm.trans hends)
    exact (update_of_ne hne ..).trans hj
  next => exact hj

theorem freeIfTerminal_orders (s : OrderManagerState) (i : OrderSlot) : (s.freeIfTerminal i).orders = s.orders := by
  unfold freeIfTerminal
  split <;> rfl

theorem freeIfTerminal_totalRejected (s : OrderManagerState) (i : OrderSlot) :
    (s.freeIfTerminal i).totalRejected = s.totalRejected := by
  unfold freeIfTerminal
  split <;> rfl

/-- `t` is `s` once the order in `i` is dead and its slot free. -/
structure Cancelled (s t : OrderManagerState) (i : OrderSlot) : Prop where
  bitmap : t.orderBitmap = update s.orderBitmap i false
  orders : ∀ j, j ≠ i → t.orders j = s.orders j
  nextOrderId : t.nextOrderId = s.nextOrderId
  totalRejected : t.totalRejected = s.totalRejected

theorem Cancelled.occupied {t : OrderManagerState} (h : Cancelled s t i) {j : OrderSlot} (hne : j ≠ i)
    (hj : s.orderBitmap j = true) : t.orderBitmap j = true := by
  rw [h.bitmap, update_of_ne hne]
  exact hj

theorem Cancelled.free {t : OrderManagerState} (h : Cancelled s t i) {k : OrderSlot} (hk : t.orderBitmap k = false) :
    k = i ∨ s.orderBitmap k = false := by
  rcases eq_or_ne k i with heq | hne
  · exact .inl heq
  · rw [h.bitmap, update_of_ne hne] at hk
    exact .inr hk

theorem nextId_resubmission {t : OrderManagerState} (h : Cancelled s t i) {dead : Order} (rest : Money)
    {k : OrderSlot}
    (hslot : dead.portfolioSlot = (s.orders i).portfolioSlot) :
    t.nextId c (resubmission dead rest) k = s.remainderId c i k := by
  rw [nextId, remainderId, h.nextOrderId, ← hslot]
  rfl

theorem isRemainder_resubmission {dead old : Order} {rest : Money} {k : OrderSlot} {id nowUs : Nat}
    (hid : id = s.remainderId c i k) (hslot : dead.portfolioSlot = (s.orders i).portfolioSlot)
    (hpre : dead.preResolved = (s.orders i).preResolved) :
    IsRemainder c s i rest k
      { submittedOrder old id (resubmission dead rest) nowUs with preResolved := dead.preResolved } :=
  ⟨hid, rfl, rfl, hslot, rfl, hpre⟩

theorem Cancelled.handled_of_taken {t : OrderManagerState} {dead : Order} {rest : Money} {k : OrderSlot}
    (h : Cancelled s t i) (hslot : dead.portfolioSlot = (s.orders i).portfolioSlot)
    (hpre : dead.preResolved = (s.orders i).preResolved) (hfree : freeSlot t.orderBitmap = some k)
    (htakes : c.liveTrading = true → adapterTakes c .marketSell (s.remainderId c i k) rest = true) :
    RemainderHandled c s ((t.resubmit c dead rest).val.freeIfTerminal i) i rest := by
  rw [← nextId_resubmission (c := c) h rest hslot] at htakes
  obtain ⟨hbitmap, horders⟩ := resubmit_taken hfree htakes
  constructor
  · intro j hne hj
    have hjk : j ≠ k := by
      rintro rfl
      exact Bool.false_ne_true ((freeSlot_some hfree).symm.trans (h.occupied hne hj))
    refine ⟨freeIfTerminal_keeps ?_ fun heq => absurd heq hne, ?_⟩
    · rw [hbitmap, update_of_ne hjk]
      exact h.occupied hne hj
    · rw [freeIfTerminal_orders, horders, update_of_ne hjk, h.orders j hne]
  · intro _
    refine .inl ⟨k, h.free (freeSlot_some hfree), freeIfTerminal_keeps ?_ ?_, ?_⟩
    · rw [hbitmap, update_self]
    · rintro rfl
      rw [horders, update_self]
      exact submittedOrder_working ..
    · rw [freeIfTerminal_orders, horders, update_self]
      exact isRemainder_resubmission (nextId_resubmission h rest hslot) hslot hpre

/-- A refused remainder is counted; the one order that can be hurt is slot 0's. -/
theorem Cancelled.handled_of_refused {t : OrderManagerState} {dead : Order} {rest : Money} {k : OrderSlot}
    (h : Cancelled s t i) (hslot : dead.portfolioSlot = (s.orders i).portfolioSlot)
    (hpre : dead.preResolved = (s.orders i).preResolved) (hfree : freeSlot t.orderBitmap = some k)
    (hlive : c.liveTrading = true) (hrefused : adapterTakes c .marketSell (s.remainderId c i k) rest = false) :
    RemainderHandled c s ((t.resubmit c dead rest).val.freeIfTerminal i) i rest ↔
      i = 0 ∨ s.orderBitmap 0 = false ∨ (s.orders 0).preResolved = (s.orders i).preResolved := by
  rw [← nextId_resubmission (c := c) h rest hslot] at hrefused
  obtain ⟨hcounted, hkeeps⟩ := resubmit_refused hfree hlive hrefused
  constructor
  · intro hhandled
    rcases eq_or_ne i 0 with hzero | hne
    · exact .inl hzero
    rcases hheld : s.orderBitmap 0 with _ | _
    · exact .inr (.inl rfl)
    -- slot 0 holds another order, and it ends up with the dead one's binding
    have hsame := (hhandled.others 0 hne.symm hheld).2
    rw [freeIfTerminal_orders, (hkeeps 0 (h.occupied hne.symm hheld)).2, if_pos rfl, h.orders 0 hne.symm] at hsame
    exact .inr (.inr ((congrArg Order.preResolved hsame).symm.trans hpre))
  · intro hspared
    refine ⟨fun j hne hj => ⟨freeIfTerminal_keeps (hkeeps j (h.occupied hne hj)).1 fun heq => absurd heq hne, ?_⟩,
      fun _ => .inr ?_⟩
    · rw [freeIfTerminal_orders, (hkeeps j (h.occupied hne hj)).2, h.orders j hne]
      split
      next hzero =>
        subst hzero
        rcases hspared with rfl | hfree0 | hsame
        · exact absurd rfl hne
        · exact absurd (hfree0.symm.trans hj) Bool.false_ne_true
        · rw [hpre, ← hsame]
      next => rfl
    · rw [freeIfTerminal_totalRejected, hcounted, h.totalRejected]

theorem freeIfTerminal_free {k : OrderSlot} (hk : s.orderBitmap k = false) :
    (s.freeIfTerminal i).orderBitmap k = false := by
  unfold freeIfTerminal
  split
  · rcases eq_or_ne k i with rfl | hne
    · exact update_self ..
    · exact (update_of_ne hne ..).trans hk
  · exact hk

/-- A dead order that is not submitted again is handled exactly when nothing is left. -/
theorem Cancelled.handled_iff_flat {t : OrderManagerState} {rest : Money} (h : Cancelled s t i) :
    RemainderHandled c s (t.freeIfTerminal i) i rest ↔ rest.isZero = true := by
  constructor
  · intro hhandled
    by_contra hrest
    rcases hhandled.exits (eq_false_of_ne_true hrest) with ⟨k, hk, hplaced, -⟩ | hcounted
    · -- no slot was free before and is taken now
      have hfree : t.orderBitmap k = false := by
        rcases eq_or_ne k i with rfl | hne
        · rw [h.bitmap, update_self]
        · rw [h.bitmap, update_of_ne hne]
          exact hk.resolve_left hne
      exact Bool.false_ne_true ((freeIfTerminal_free hfree).symm.trans hplaced)
    · rw [freeIfTerminal_totalRejected, h.totalRejected] at hcounted
      exact absurd hcounted (Nat.lt_succ_self _).ne
  · intro hflat
    refine ⟨fun j hne hj => ⟨freeIfTerminal_keeps (h.occupied hne hj) fun heq => absurd heq hne, ?_⟩,
      fun hrest => absurd (hrest.symm.trans hflat) Bool.false_ne_true⟩
    rw [freeIfTerminal_orders, h.orders j hne]

/-- What is submitted again is handled exactly when it is taken or spares slot 0. -/
theorem Cancelled.handled_iff_taken {t : OrderManagerState} {dead : Order} (h : Cancelled s t i)
    (hslot : dead.portfolioSlot = (s.orders i).portfolioSlot) (hpre : dead.preResolved = (s.orders i).preResolved) :
    RemainderHandled c s ((t.resubmit c dead (s.remainder i r)).val.freeIfTerminal i) i (s.remainder i r) ↔
      takesRemainder c s i r = true ∨
        i = 0 ∨ s.orderBitmap 0 = false ∨ (s.orders 0).preResolved = (s.orders i).preResolved := by
  have hsome : ∃ k, freeSlot t.orderBitmap = some k := by
    refine Option.ne_none_iff_exists'.1 fun hfull => ?_
    have := freeSlot_none hfull i
    rw [h.bitmap, update_self] at this
    exact Bool.false_ne_true this
  obtain ⟨k, hfree⟩ := hsome
  have htakes : takesRemainder c s i r =
      (!c.liveTrading || adapterTakes c .marketSell (s.remainderId c i k) (s.remainder i r)) := by
    rw [takesRemainder, ← h.bitmap, hfree, Option.any_some]
  rw [htakes]
  rcases hlive : c.liveTrading with _ | _
  · exact iff_of_true (h.handled_of_taken hslot hpre hfree fun h => absurd (hlive.symm.trans h) Bool.false_ne_true)
      (.inl rfl)
  rcases hadapter : adapterTakes c .marketSell (s.remainderId c i k) (s.remainder i r) with _ | _
  · simp only [Bool.not_true, Bool.or_false, Bool.false_eq_true, false_or]
    exact h.handled_of_refused hslot hpre hfree hlive hadapter
  · exact iff_of_true (h.handled_of_taken hslot hpre hfree fun _ => hadapter) (.inl rfl)

/-- A position of ten units in `held` whose exit is in table slot 1, behind a buy of `other` under a
    fee; the adapter takes the orders whose counter is in `taken`. -/
def sampleExit (held other : SlotIdx) (taken : List Nat) : OrderManagerState :=
  run (step (sampleLive taken)) (init .zero none)
    [.submit (sampleOrder held .marketBuy 10), .processFill (sampleLeg (encodeOrderId firstIdx held 1) 10 true),
      .submit (sampleTrade other .marketBuy 5), .submit (sampleOrder held .marketSell 10)]

end OrderManagerState

end FoxTrader
