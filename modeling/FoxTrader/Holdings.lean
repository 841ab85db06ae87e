import FoxTrader.OrderLives

/-! # What the slots hold from turn to turn

    Only a booked leg moves what a slot holds, and only the slot of its order: a buy leg puts its
    quantity in, a sell leg takes its quantity out, at most what is there. A slot is active exactly
    while it holds something, provided that no leg is booked whose quantity rounds to nothing. -/

namespace FoxTrader

open Lib Function

/-- An active slot holds something. -/
def Portfolio.Stocked (p : Portfolio) : Prop := ∀ i, p.active i = true → 0 < (p.positions i).quantity.v

/-- The quantity of a slot, zero unless it is active. -/
def Portfolio.held (p : Portfolio) (i : SlotIdx) : Money := if p.active i then (p.positions i).quantity else .zero

namespace Portfolio

variable {p : Portfolio} {i : SlotIdx} {o : Order} {price qty fee tp : Money} {nowUs : Nat}

theorem Stocked.active_iff (h : p.Stocked) : p.active i = true ↔ 0 < (p.held i).v := by
  unfold held
  constructor
  · intro hactive
    rw [if_pos hactive]
    exact h i hactive
  · intro hpos
    by_contra hflat
    rw [if_neg hflat, Money.zero_v] at hpos
    exact Int.lt_irrefl 0 hpos

theorem Stocked.held_nonneg (h : p.Stocked) (i : SlotIdx) : 0 ≤ (p.held i).v := by
  unfold held
  split
  next hactive => exact (h i hactive).le
  · exact Int.le_refl 0

theorem held_of_active (h : p.active i = true) : p.held i = (p.positions i).quantity := if_pos h

/-- Two portfolios hold the same in slot `i`. -/
structure SameAt (p : Portfolio) (i : SlotIdx) (p' : Portfolio) : Prop where
  active : p'.active i = p.active i
  quantity : (p'.positions i).quantity = (p.positions i).quantity

theorem SameAt.refl (p : Portfolio) (i : SlotIdx) : p.SameAt i p := ⟨rfl, rfl⟩

theorem SameAt.of_eq {p' : Portfolio} (h : p' = p) : p.SameAt i p' := h ▸ .refl p i

theorem SameAt.held {p' : Portfolio} (h : p.SameAt i p') : p'.held i = p.held i := by
  rw [Portfolio.held, Portfolio.held, h.active, h.quantity]

/-! ### A buy leg -/

/-- What a buy leg does: its slot is active and holds no less, the other slots are as they were. -/
structure Bought (p p' : Portfolio) (slot : SlotIdx) : Prop where
  active : p'.active slot = true
  pos : 0 < (p'.positions slot).quantity.v
  held : (p.held slot).v ≤ (p'.held slot).v
  others : ∀ i, i ≠ slot → p'.active i = p.active i ∧ p'.positions i = p.positions i

theorem Bought.stocked {p' : Portfolio} {slot : SlotIdx} (h : p.Bought p' slot) (hst : p.Stocked) : p'.Stocked := by
  intro i hactive
  rcases eq_or_ne i slot with rfl | hne
  · exact h.pos
  · obtain ⟨hact, hpos⟩ := h.others i hne
    rw [hact] at hactive
    rw [hpos]
    exact hst i hactive

theorem openOrAccumulate_bought (hqty : 0 < qty.v) (hst : p.Stocked) :
    p.Bought (Books.openOrAccumulate p o price qty fee tp nowUs).val o.portfolioSlot := by
  have hown : (Books.openOrAccumulate p o price qty fee tp nowUs).val.active o.portfolioSlot = true ∧
      0 < ((Books.openOrAccumulate p o price qty fee tp nowUs).val.positions o.portfolioSlot).quantity.v ∧
      (p.held o.portfolioSlot).v ≤
        ((Books.openOrAccumulate p o price qty fee tp nowUs).val.positions o.portfolioSlot).quantity.v := by
    unfold Books.openOrAccumulate held
    rcases hactive : p.active o.portfolioSlot with _ | _
    · simp only [Bool.false_eq_true, if_false, openSlot, Flagged.pure_val, update_self, Money.zero_v]
      exact ⟨trivial, hqty, hqty.le⟩
    · simp only [if_true, accumulateSlotLeg, Flagged.bind_val, Flagged.pure_val, update_self]
      obtain ⟨hold, hnew⟩ := Money.add_ge (hst _ hactive).le hqty.le
      exact ⟨hactive, hqty.trans_le hnew, hold⟩
  obtain ⟨hactive, hpos, hheld⟩ := hown
  refine ⟨hactive, hpos, ?_, fun i hne => Books.openOrAccumulate_of_ne hne⟩
  rw [held_of_active hactive]
  exact hheld

/-! ### A sell leg -/

/-- What `handle_sell_fill` does to the positions. -/
def sold (p : Portfolio) (slot : SlotIdx) (price qty : Money) : Portfolio :=
  if !p.active slot then p
  else if (clampQty qty (p.positions slot).quantity).isZero then p
  else (p.takeLeg slot price (clampQty qty (p.positions slot).quantity)).val.portfolio

theorem sold_of_ne {slot : SlotIdx} (hne : i ≠ slot) (price qty : Money) :
    (p.sold slot price qty).active i = p.active i ∧ (p.sold slot price qty).positions i = p.positions i := by
  unfold sold
  split
  · exact ⟨rfl, rfl⟩
  split
  · exact ⟨rfl, rfl⟩
  · exact takeLeg_of_ne hne ..

theorem clampQty_v (a b : Money) : (clampQty a b).v = if a.v ≤ b.v then a.v else b.v := by
  unfold clampQty
  by_cases hgt : b.v < a.v
  · rw [if_pos (Money.gt_iff.2 hgt), if_neg (by omega)]
  · rw [if_neg fun h => hgt (Money.gt_iff.1 h), if_pos (by omega)]

/-- What a leg leaves of a quantity. -/
theorem sub_clampQty_v {a b : Money} (ha : 0 ≤ a.v) (hb : 0 ≤ b.v) :
    (b.sub (clampQty a b)).val.v = if a.v ≤ b.v then b.v - a.v else 0 := by
  have hclamp := clampQty_v a b
  have hup := b.upper
  have hclean : (b.sub (clampQty a b)).Clean := by
    refine Money.saturate_clean_iff.2 ?_
    simp only [Money.neg]
    split at hclamp <;> omega
  rw [Money.sub_v hclean, hclamp]
  split <;> omega

/-- A sell leg takes its quantity out of its slot, or all that is there. -/
theorem sold_held (hqty : 0 ≤ qty.v) {slot : SlotIdx}
    (hnonneg : p.active slot = true → 0 ≤ (p.positions slot).quantity.v)
    (price : Money) :
    ((p.sold slot price qty).held slot).v = if qty.v ≤ (p.held slot).v then (p.held slot).v - qty.v else 0 := by
  unfold sold
  rcases hactive : p.active slot with _ | _
  · have hflat : (p.held slot).v = 0 := by rw [held, hactive]; rfl
    simp only [Bool.not_false, if_true, hflat]
    split <;> omega
  have hpos := hnonneg hactive
  have hheld : (p.held slot).v = (p.positions slot).quantity.v := by rw [held, hactive]; rfl
  have hclamp := clampQty_v qty (p.positions slot).quantity
  simp only [Bool.not_true, Bool.false_eq_true, if_false, hheld]
  split
  next hnone =>
    have hzero := congrArg Money.v (Money.isZero_iff.1 hnone)
    rw [hclamp, Money.zero_v] at hzero
    rw [hheld]
    split at hzero <;> split <;> omega
  next hsome =>
    have hleft := sub_clampQty_v hqty hpos
    have hflat := takeLeg_active hactive price (clampQty qty (p.positions slot).quantity)
    have hqtyAfter := takeLeg_quantity p slot price (clampQty qty (p.positions slot).quantity)
    rw [held, hqtyAfter, hflat]
    rcases hzero : ((p.positions slot).quantity.sub (clampQty qty (p.positions slot).quantity)).val.isZero with _ | _
    · exact hleft
    · rw [Money.isZero_iff.1 hzero] at hleft
      exact hleft

/-- A slot that has given up all it held is no longer held. -/
theorem sold_own (hqty : 0 ≤ qty.v) (hst : p.Stocked) (slot : SlotIdx) (price : Money) :
    ((p.sold slot price qty).active slot = true → 0 < ((p.sold slot price qty).positions slot).quantity.v) ∧
      ((p.sold slot price qty).held slot).v =
        if qty.v ≤ (p.held slot).v then (p.held slot).v - qty.v else 0 := by
  refine ⟨?_, sold_held hqty (fun h => (hst slot h).le) price⟩
  unfold sold
  rcases hactive : p.active slot with _ | _
  · exact fun h => absurd (hactive.symm.trans h) Bool.false_ne_true
  simp only [Bool.not_true, Bool.false_eq_true, if_false]
  split
  next => exact fun _ => hst slot hactive
  next =>
    have hleft := sub_clampQty_v hqty (hst slot hactive).le
    rw [takeLeg_active hactive, takeLeg_quantity]
    intro hsome
    have hne : ((p.positions slot).quantity.sub (clampQty qty (p.positions slot).quantity)).val.v ≠ 0 := by
      simpa [Money.isZero] using hsome
    split at hleft <;> omega

theorem sold_stocked (hqty : 0 ≤ qty.v) (hst : p.Stocked) (slot : SlotIdx) (price : Money) :
    (p.sold slot price qty).Stocked := by
  intro i hactive
  rcases eq_or_ne i slot with rfl | hne
  · exact (sold_own hqty hst i price).1 hactive
  · obtain ⟨hact, hpos⟩ := sold_of_ne (p := p) hne price qty
    rw [hact] at hactive
    rw [hpos]
    exact hst i hactive

end Portfolio

namespace Books

variable {c : OmsConfig} {b : Books} {o : Order} {price qty fee : Money} {nowUs : Nat}

theorem handleFill_buy (hbuy : o.type.isSell = false) (hqty : 0 < qty.v) (hst : b.portfolio.Stocked)
    (commission : Float) (asset : String) :
    b.portfolio.Bought (b.handleFill c nowUs o price qty commission asset).val.portfolio o.portfolioSlot := by
  simp only [handleFill, Flagged.bind_val]
  cases htype : o.type with
  | marketBuy | limitBuy =>
    simp only [handleBuyFill, Flagged.bind_val, Flagged.pure_val, auditAppend_portfolio]
    exact Portfolio.openOrAccumulate_bought hqty hst
  | marketSell | limitSell => exact absurd ((congrArg OrderType.isSell htype).symm.trans hbuy) Bool.false_ne_true.symm

theorem handleSellFill_portfolio (c : OmsConfig) (b : Books) (o : Order) (price qty fee : Money) :
    (b.handleSellFill c o price qty fee).val.portfolio = b.portfolio.sold o.portfolioSlot price qty := by
  unfold handleSellFill Portfolio.sold sellQty
  split
  · rfl
  · simp only
    split <;> rfl

theorem handleFill_sell (hsell : o.type.isSell = true) (commission : Float) (asset : String) :
    (b.handleFill c nowUs o price qty commission asset).val.portfolio =
      b.portfolio.sold o.portfolioSlot price qty := by
  rw [handleFill_of_sell hsell, handleSellFill_portfolio, auditAppend_portfolio]

end Books

namespace OrderManagerState

variable {c : OmsConfig} {s : OrderManagerState}

/-- What booking a leg on the order `o` does to what a slot holds. -/
inductive Moved (p p' : Portfolio) (o : Order) (r : OrderResult) (i : SlotIdx) : Prop
  | same (hactive : p'.active i = p.active i) (hheld : p'.held i = p.held i)
      (hnot : r.fillQty > 0.0 → i ≠ o.portfolioSlot)
  | bought (hslot : i = o.portfolioSlot) (hbuy : o.type.isSell = false) (hactive : p'.active i = true)
      (hheld : (p.held i).v ≤ (p'.held i).v)
  | sold (hslot : i = o.portfolioSlot) (hsell : o.type.isSell = true)
      (hheld : (p'.held i).v = if (moneyFromDoublePayload r.fillQty).v ≤ (p.held i).v then
        (p.held i).v - (moneyFromDoublePayload r.fillQty).v else 0)

theorem bookLeg_moves {b : Books} {o : Order} {r : OrderResult} {nowUs : Nat} (hsize : Sizable r)
    (hst : b.portfolio.Stocked) (i : SlotIdx) :
    Moved b.portfolio (bookLeg c nowUs b o r).val.portfolio o r i := by
  unfold bookLeg
  split
  next hqty =>
    rcases hsell : o.type.isSell with _ | _
    · have hbought : b.portfolio.Bought (b.handleFill c nowUs o o.avgFillPrice _ _ _).val.portfolio o.portfolioSlot :=
        Books.handleFill_buy hsell (hsize.2 hqty) hst r.commission r.commissionAsset
      rcases eq_or_ne i o.portfolioSlot with rfl | hne
      · exact .bought rfl hsell hbought.active hbought.held
      · obtain ⟨hactive, hpos⟩ := hbought.others i hne
        exact .same hactive (Portfolio.SameAt.held ⟨hactive, by rw [hpos]⟩) fun _ => hne
    · rw [Books.handleFill_sell hsell]
      rcases eq_or_ne i o.portfolioSlot with rfl | hne
      · exact .sold rfl hsell (Portfolio.sold_own hsize.1 hst _ _).2
      · obtain ⟨hactive, hpos⟩ := Portfolio.sold_of_ne (p := b.portfolio) hne o.avgFillPrice
          (moneyFromDoublePayload r.fillQty)
        exact .same hactive (Portfolio.SameAt.held ⟨hactive, by rw [hpos]⟩) fun _ => hne
  next hqty => exact .same rfl rfl fun h => absurd h hqty

theorem bookLeg_stocked {b : Books} {o : Order} {r : OrderResult} {nowUs : Nat} (hsize : Sizable r)
    (hst : b.portfolio.Stocked) : (bookLeg c nowUs b o r).val.portfolio.Stocked := by
  unfold bookLeg
  split
  next hqty =>
    rcases hsell : o.type.isSell with _ | _
    · exact (Books.handleFill_buy hsell (hsize.2 hqty) hst _ _).stocked hst
    · rw [Books.handleFill_sell hsell]
      exact Portfolio.sold_stocked hsize.1 hst _ _
  · exact hst

theorem processFillCommand_portfolio (cmd : Command) :
    (s.processFillCommand c cmd).val.1.books.portfolio =
      match s.executing cmd with
      | none => s.books.portfolio
      | some j => (s.legOf c j cmd.result).val.portfolio := by
  have hout := processFillCommand_outcome c s cmd
  generalize s.processFillCommand c cmd = m at hout ⊢
  rcases hout with hexec | ⟨j, -, hexec⟩ | ⟨j, -, hexec⟩ | ⟨j, -, hexec, -⟩ | ⟨j, -, hexec, -, -⟩ | ⟨j, -, hexec, -⟩
  · rw [hexec]
    rfl
  · rw [hexec]
    rfl
  · rw [hexec]
    rfl
  · rw [hexec]
    simp only [Flagged.bind_val, Flagged.pure_val, freeIfTerminal_books]
    rfl
  · rw [hexec]
    simp only [Flagged.bind_val, Flagged.pure_val, freeIfTerminal_books, endIncomplete_books,
      Books.auditAppend_portfolio]
    rfl
  · rw [hexec]
    simp only [Flagged.pure_val, processFailure, freeIfTerminal_books, reject, Books.auditAppend_portfolio]

/-- A drag moves no quantity. -/
theorem foldl_applyDrag (drags : List DragCmd) (p : Portfolio) (i : SlotIdx) :
    p.SameAt i (drags.foldl applyDrag p) := by
  induction drags generalizing p with
  | nil => exact .refl p i
  | cons dc drags ih =>
    obtain ⟨hactive, hqty, -, -⟩ := applyDrag_keeps p dc i
    exact ⟨(ih _).active.trans hactive, (ih _).quantity.trans hqty⟩

theorem fillRingsApply_portfolio (c : OmsConfig) (s : OrderManagerState) :
    (s.fillRingsApply c).val.books.portfolio = s.books.portfolio := by
  unfold fillRingsApply
  split <;> rfl

/-- The positions once the leg a turn books is in. -/
def afterLeg (c : OmsConfig) (s : OrderManagerState) (us : Nat) : Option (Command × OrderSlot) → Portfolio
  | none => s.books.portfolio
  | some (cmd, j) => (bookLeg c us s.books (legOrder (s.priced j cmd.result) cmd.result).val cmd.result).val.portfolio

/-- But for the leg it books, a turn moves no quantity. -/
theorem act_portfolio (c : OmsConfig) (s : OrderManagerState) (a : Act) :
    ∃ us, ∀ i, (s.afterLeg c us (s.executed a)).SameAt i (s.act c a).val.books.portfolio := by
  have hidle : ∀ {p' : Portfolio}, s.dispatched a = none → (∀ i, s.books.portfolio.SameAt i p') →
      ∃ us, ∀ i, (s.afterLeg c us (s.executed a)).SameAt i p' := by
    intro p' hnone hsame
    have hexec : s.executed a = none := by
      rw [executed, hnone]
      rfl
    rw [hexec]
    exact ⟨0, hsame⟩
  have hout := act_outcome c s a
  generalize s.act c a = m at hout ⊢
  rcases hout with ⟨rings, ws, reconcile, submits, us, hnone⟩ | ⟨rings, ws, reconcile, submits, us, cmd, hnone, -⟩ |
    ⟨rings, ws, reconcile, submits, us, cmd, hcmd⟩ | ⟨rings, ws, reconcile, submits, us, cmd, hnone⟩ | _ | _ |
    ⟨fatalSites, drags⟩
  · exact hidle hnone fun i => .refl ..
  · exact hidle hnone fun i => .of_eq (congrArg Books.portfolio (submit_books ..))
  · refine ⟨us, fun i => .of_eq ?_⟩
    simp only [Flagged.bind_val, Flagged.pure_val]
    rw [processFillCommand_portfolio, executed_of_dispatched hcmd]
    have hexec : (s.requeue rings ws reconcile submits us).executing cmd = s.executing cmd := rfl
    rw [hexec]
    cases s.executing cmd <;> rfl
  · exact hidle hnone fun i => .of_eq (Books.auditAppend_portfolio ..)
  · refine hidle rfl fun i => .of_eq ?_
    unfold staleSweep
    split <;> rfl
  · exact hidle rfl fun i => .of_eq (fillRingsApply_portfolio c s)
  · refine hidle rfl fun i => ?_
    have hport : (s.compose c fatalSites drags).val.books.portfolio =
        drags.foldl applyDrag (s.fillRingsApply c).val.books.portfolio := rfl
    rw [hport, fillRingsApply_portfolio]
    exact foldl_applyDrag ..

/-! ### Turns -/

/-- A turn that executes nothing leaves every slot as it is. -/
theorem held_of_idle {a : Act} (hidle : s.executed a = none) (i : SlotIdx) :
    s.books.portfolio.SameAt i (s.act c a).val.books.portfolio := by
  obtain ⟨us, hsame⟩ := act_portfolio c s a
  rw [hidle] at hsame
  exact hsame i

/-- What a turn that executes does to a slot. -/
theorem moves_of_executed {a : Act} {cmd : Command} {j : OrderSlot} (hexec : s.executed a = some (cmd, j))
    (hsize : Sizable cmd.result) (hst : s.books.portfolio.Stocked) (i : SlotIdx) :
    Moved s.books.portfolio (s.act c a).val.books.portfolio (s.orders j) cmd.result i := by
  obtain ⟨us, hsame⟩ := act_portfolio c s a
  rw [hexec] at hsame
  have hactive := (hsame i).active
  have hheld := (hsame i).held
  have hleg : Moved s.books.portfolio (s.afterLeg c us (some (cmd, j)))
      (legOrder (s.priced j cmd.result) cmd.result).val cmd.result i := bookLeg_moves hsize hst i
  rcases hleg with ⟨ha, hh, hnot⟩ | ⟨hslot, hbuy, ha, hh⟩ | ⟨hslot, hsell, hh⟩
  · exact .same (hactive.trans ha) (hheld.trans hh) hnot
  · exact .bought hslot hbuy (hactive.trans ha) (hheld.symm ▸ hh)
  · exact .sold hslot hsell ((congrArg Money.v hheld).trans hh)

theorem stocked_act {a : Act} (hsize : ∀ cmd j, s.executed a = some (cmd, j) → Sizable cmd.result)
    (hst : s.books.portfolio.Stocked) : (s.act c a).val.books.portfolio.Stocked := by
  obtain ⟨us, hsame⟩ := act_portfolio c s a
  have hleg : (s.afterLeg c us (s.executed a)).Stocked := by
    rcases hexec : s.executed a with _ | ⟨cmd, j⟩
    · exact hst
    · exact bookLeg_stocked (hsize cmd j hexec) hst
  intro i hactive
  rw [(hsame i).quantity]
  exact hleg i ((hsame i).active ▸ hactive)

end OrderManagerState

end FoxTrader
