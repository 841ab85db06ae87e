import FoxTrader.LedgerReplay

/-! # The take-profit a replay restores

    The first leg of an entry arms the slot's take-profit relative to its own price, by the
    percentage the order was submitted with. The row it leaves behind carries the target the order
    was submitted with, and that is what the fold opens the slot at. A drag on the screen moves the
    live take-profit and leaves no row at all. So the fold restores the live targets in the runs
    whose opening legs arm the intended target and whose drags move no take-profit. -/

namespace FoxTrader

open Lib Function Composer

/-! ### One slot's target -/

/-- What one slot holds, and the take-profit it was opened at. -/
structure SlotTarget where
  active : Bool
  quantity : Money
  takeProfit : Money

namespace SlotTarget

def closed : SlotTarget := { active := false, quantity := .zero, takeProfit := .zero }

/-- Only the leg that opens the slot sets the target. -/
def buy (t : SlotTarget) (qty tp : Money) : SlotTarget :=
  if t.active then { t with quantity := (t.quantity.add qty).val }
  else { active := true, quantity := qty, takeProfit := tp }

def sell (t : SlotTarget) (qty : Money) : SlotTarget :=
  if !t.active then t
  else
    let qLeg := clampQty qty t.quantity
    if qLeg.isZero then t
    else { t with active := !(t.quantity.sub qLeg).val.isZero, quantity := (t.quantity.sub qLeg).val }

/-- One row of the slot. -/
def post (t : SlotTarget) (e : OrderEvent) : SlotTarget :=
  match e.orderType with
  | .marketBuy => t.buy e.qty e.tp
  | .marketSell => t.sell e.qty
  | _ => t

/-- The target is what the portfolio has in the slot, as take-profit and as original take-profit. -/
structure Shows (t : SlotTarget) (p : Portfolio) (slot : SlotIdx) : Prop where
  active : p.active slot = t.active
  quantity : (p.positions slot).quantity = t.quantity
  takeProfitPrice : (p.positions slot).takeProfitPrice = t.takeProfit
  originalTp : (p.positions slot).originalTp = t.takeProfit

variable {t : SlotTarget} {p p' : Portfolio} {slot : SlotIdx} {price qty tp fee : Money}

theorem Shows.of_positions_eq (h : t.Shows p slot) (hactive : p'.active slot = p.active slot)
    (hpos : p'.positions slot = p.positions slot) : t.Shows p' slot := by
  constructor
  · exact hactive.trans h.active
  all_goals rw [hpos]
  · exact h.quantity
  · exact h.takeProfitPrice
  · exact h.originalTp

/-- A later leg is averaged in, at whatever target it came with. -/
theorem Shows.accumulate (h : t.Shows p slot) (hactive : p.active slot = true) :
    (t.buy qty tp).Shows (p.accumulateSlotLeg slot price qty fee).val slot := by
  rw [buy, if_pos (h.active.symm.trans hactive)]
  constructor
  · exact h.active
  all_goals simp only [Portfolio.accumulateSlotLeg, Flagged.bind_val, Flagged.pure_val, update_self]
  · rw [h.quantity]
  · exact h.takeProfitPrice
  · exact h.originalTp

theorem Shows.open {args : PositionEntryArgs} {nowUs : Nat} (h : t.Shows p slot) (hactive : p.active slot = false)
    (hqty : args.quantity = qty) (htp : args.takeProfitPrice = tp) :
    (t.buy qty tp).Shows (p.openSlot slot args nowUs) slot := by
  subst hqty htp
  rw [buy, if_neg (ne_true_of_eq_false (h.active.symm.trans hactive))]
  constructor <;> simp only [Portfolio.openSlot, update_self]

/-- A sell leg takes its quantity and leaves the target. -/
theorem Shows.takeLeg (h : t.Shows p slot) (hactive : p.active slot = true) (price : Money)
    {qLeg : Money} (hleg : clampQty qty (p.positions slot).quantity = qLeg) (hsome : ¬qLeg.isZero = true) :
    (t.sell qty).Shows (p.takeLeg slot price qLeg).val.portfolio slot := by
  subst hleg
  have hheld : (!t.active) = false := by rw [← h.active, hactive, Bool.not_true]
  simp only [sell, hheld, Bool.false_eq_true, if_false, ← h.quantity, if_neg hsome]
  constructor
  · exact Portfolio.takeLeg_active hactive ..
  · exact Portfolio.takeLeg_quantity ..
  all_goals
    simp only [Portfolio.takeLeg, Portfolio.closeSlotLeg, Portfolio.setEntryFee, Flagged.bind_val, Flagged.pure_val,
      update_self]
  · exact h.takeProfitPrice
  · exact h.originalTp

/-- A slot that is not held, or a leg of nothing, is left as it was. -/
theorem sell_of_none (h : t.Shows p slot)
    (hnone : p.active slot = false ∨ (clampQty qty (p.positions slot).quantity).isZero = true) : t.sell qty = t := by
  rcases hnone with hflat | hzero
  · simp [sell, ← h.active, hflat]
  · simp [sell, ← h.quantity, hzero]

end SlotTarget

/-! ### The targets of all slots -/

/-- What each slot makes of its own rows. -/
def targets (rows : List OrderEvent) : SlotIdx → SlotTarget :=
  foldOn OrderEvent.booking SlotTarget.post SlotTarget.closed rows

/-- Every slot of the portfolio is as its rows tell. -/
def ShowsTargets (rows : List OrderEvent) (p : Portfolio) : Prop := ∀ slot, (targets rows slot).Shows p slot

namespace ShowsTargets

variable {rows : List OrderEvent} {p p' : Portfolio} {e : OrderEvent} {slot : SlotIdx}

theorem init : ShowsTargets [] .init := fun _ => ⟨rfl, rfl, rfl, rfl⟩

/-- A row that books on `slot` is posted there. -/
theorem post (h : ShowsTargets rows p) (hkey : e.booking = some slot)
    (hothers : ∀ i, i ≠ slot → p'.active i = p.active i ∧ p'.positions i = p.positions i)
    (hshows : ((targets rows slot).post e).Shows p' slot) : ShowsTargets (rows ++ [e]) p' := by
  intro i
  rw [targets, foldOn_snoc_some _ _ _ hkey]
  rcases eq_or_ne i slot with rfl | hne
  · rw [update_self]
    exact hshows
  · rw [update_of_ne hne]
    exact (h i).of_positions_eq (hothers i hne).1 (hothers i hne).2

theorem skip (h : ShowsTargets rows p) (hkey : e.booking = none) : ShowsTargets (rows ++ [e]) p := by
  intro i
  rw [targets, foldOn_snoc_none _ _ _ hkey]
  exact h i

/-- A row that is posted without effect. -/
theorem idle (h : ShowsTargets rows p) (hkey : e.booking = some slot)
    (hsame : (targets rows slot).post e = targets rows slot) : ShowsTargets (rows ++ [e]) p :=
  h.post hkey (fun _ _ => ⟨rfl, rfl⟩) (hsame.symm ▸ h slot)

end ShowsTargets

/-! ### What the fold restores -/

namespace FoldResult

variable {rate : Money} {nowUs : Nat} {rows : List OrderEvent} {r : FoldResult} {e : OrderEvent} {slot : SlotIdx}

theorem showsTargets_foldBuy (h : ShowsTargets rows r.portfolio) (hkey : e.booking = some slot)
    (hbuy : e.orderType = .marketBuy) : ShowsTargets (rows ++ [e]) (foldBuy rate nowUs r slot e).val.portfolio := by
  simp only [foldBuy, Flagged.bind_val, Flagged.pure_val]
  generalize (rowFee rate e (pure (e.price.mul e.qty).val)).val = legFee
  refine h.post hkey ?_ ?_
  · intro i hne
    unfold placeLeg
    split
    · exact ⟨rfl, update_of_ne hne ..⟩
    · exact ⟨update_of_ne hne .., update_of_ne hne ..⟩
  · rw [SlotTarget.post, hbuy]
    rcases hactive : r.portfolio.active slot with _ | _
    · simp only [placeLeg, hactive, Bool.false_eq_true, if_false, Flagged.pure_val]
      exact (h slot).open hactive rfl rfl
    · simp only [placeLeg, hactive, if_true]
      exact (h slot).accumulate hactive

theorem showsTargets_foldSell (h : ShowsTargets rows r.portfolio) (hkey : e.booking = some slot)
    (hsell : e.orderType = .marketSell) : ShowsTargets (rows ++ [e]) (foldSell rate r slot e).val.portfolio := by
  have hpost : (targets rows slot).post e = (targets rows slot).sell e.qty := by rw [SlotTarget.post, hsell]
  unfold foldSell
  rcases hactive : r.portfolio.active slot with _ | _
  · exact h.idle hkey (hpost.trans (SlotTarget.sell_of_none (h slot) (.inl hactive)))
  simp only [Bool.not_true, Bool.false_eq_true, if_false]
  split
  next hnone => exact h.idle hkey (hpost.trans (SlotTarget.sell_of_none (h slot) (.inr hnone)))
  next hsome =>
    refine h.post hkey (fun i hne => Portfolio.takeLeg_of_ne hne e.price _) ?_
    rw [hpost]
    exact (h slot).takeLeg hactive e.price rfl hsome

theorem showsTargets_foldEvent (h : ShowsTargets rows r.portfolio) :
    ShowsTargets (rows ++ [e]) (foldEvent rate nowUs r e).val.portfolio := by
  unfold foldEvent
  rcases hfill : e.isFill with _ | _
  · exact h.skip (by rw [OrderEvent.booking, hfill]; rfl)
  simp only [Bool.not_true, Bool.false_eq_true, if_false]
  rcases hslot : slotOfNode e.nodeId with _ | slot
  · exact h.skip (by rw [OrderEvent.booking, hfill, hslot]; rfl)
  have hkey : e.booking = some slot := by rw [OrderEvent.booking, hfill, hslot]; rfl
  rcases htype : e.orderType with _ | _ | _ | _
  · exact showsTargets_foldBuy h hkey htype
  · exact showsTargets_foldSell h hkey htype
  all_goals exact h.idle hkey (by rw [SlotTarget.post, htype])

end FoldResult

/-- The fold restores what the slots make of their rows, whatever it saturates. -/
theorem showsTargets_portfolioFromEventLog (entries : List OrderEvent) (startingBalance rate : Money) (nowUs : Nat) :
    ShowsTargets entries (portfolioFromEventLog entries startingBalance rate nowUs).val.portfolio := by
  have hfold := Flagged.foldlM_inv_of (κ := False) (f := FoldResult.foldEvent rate nowUs)
    (fun r rest => ∃ rows, entries = rows ++ rest ∧ ShowsTargets rows r.portfolio)
    (by
      rintro r e rest ⟨rows, hrows, h⟩ -
      exact ⟨rows ++ [e], by rw [hrows, List.append_assoc]; rfl, FoldResult.showsTargets_foldEvent h⟩)
    entries (s := ⟨startingBalance, .zero, .init, 0⟩) ⟨[], rfl, .init⟩ False.elim
  obtain ⟨rows, hrows, h⟩ := hfold
  rw [List.append_nil] at hrows
  exact hrows ▸ h

/-! ### What is live -/

namespace Books

/-- Whether what a leg of `o` books live is what its row tells the fold: an opening leg arms the
    target the order was submitted with, and a limit order's row has nothing to book. -/
def anchors (b : Books) (o : Order) (price qty : Money) : Bool :=
  match o.type with
  | .marketBuy => b.portfolio.active o.portfolioSlot || (perFillTp o price).val.eq o.intendedTp
  | .marketSell => true
  | .limitBuy => false
  | .limitSell => !b.portfolio.active o.portfolioSlot || (b.sellQty o.portfolioSlot qty).isZero

end Books

/-- The live slots are as the trail of their rows tells, for as long as the log takes every row. -/
def Anchored (c : OmsConfig) (b : Books) : Prop :=
  b.composer.eventLog.logFullDrops = 0 → b.composer.Laned c ∧ ShowsTargets b.composer.trail b.portfolio

namespace Anchored

variable {c : OmsConfig} {b b' : Books} {o : Order} {nowUs : Nat} {price qty fee : Money} {commission : Float}
  {asset : String}

theorem targets_of_logs {rows : List OrderEvent} {k k' : Composer} (h : Logs c rows k k') (hl : k.Laned c)
    (hroom : k'.eventLog.logFullDrops = 0) : targets k'.trail = targets (k.trail ++ rows) :=
  foldOn_congr _ _ _ fun slot => h.rows hl hroom slot

/-- Rows that book nothing, and targets that stay. -/
theorem congr {rows : List OrderEvent} (h : Anchored c b) (hlogs : Logs c rows b.composer b'.composer)
    (hrows : ∀ e ∈ rows, e.booking = none)
    (hshows : ∀ slot (t : SlotTarget), t.Shows b.portfolio slot → t.Shows b'.portfolio slot) : Anchored c b' := by
  intro hroom
  obtain ⟨hlaned, hlive⟩ := h (hlogs.room hroom)
  have hnone : ∀ slot, (b.composer.trail ++ rows).filter (fun e => e.booking = some slot) =
      b.composer.trail.filter fun e => e.booking = some slot := by
    intro slot
    have hno : rows.filter (fun e => e.booking = some slot) = [] :=
      List.filter_eq_nil_iff.2 fun e he => by simp [hrows e he]
    rw [List.filter_append, hno, List.append_nil]
  refine ⟨hlogs.laned hlaned, fun slot => ?_⟩
  rw [targets_of_logs hlogs hlaned hroom, targets, foldOn_congr _ _ _ hnone]
  exact hshows slot _ (hlive slot)

theorem showsTargets_auditAppend {rows : List OrderEvent} (h : ShowsTargets rows b.portfolio) (ev : OrderEvent)
    (slot : Option SlotIdx) : ShowsTargets rows (b.auditAppend c ev slot).portfolio := by
  unfold Books.auditAppend
  split <;> exact h

/-- A buy leg, of a row with the same quantity and the target it arms. -/
theorem showsTargets_handleBuyFill {rows : List OrderEvent} {e : OrderEvent} (h : ShowsTargets rows b.portfolio)
    (hkey : e.booking = some o.portfolioSlot) (hbuy : e.orderType = .marketBuy) (hqty : e.qty = qty)
    (htp : b.portfolio.active o.portfolioSlot = true ∨ (perFillTp o price).val = e.tp) :
    ShowsTargets (rows ++ [e]) (b.handleBuyFill c nowUs o price qty fee).val.portfolio := by
  simp only [Books.handleBuyFill, Flagged.bind_val, Flagged.pure_val]
  refine h.post hkey (fun i hne => Books.openOrAccumulate_of_ne hne) ?_
  rw [SlotTarget.post, hbuy]
  simp only [hqty, Books.openOrAccumulate]
  rcases hactive : b.portfolio.active o.portfolioSlot with _ | _
  · have harmed : (perFillTp o price).val = e.tp := htp.resolve_left (ne_true_of_eq_false hactive)
    simp only [Bool.false_eq_true, if_false, Flagged.pure_val]
    exact (h o.portfolioSlot).open hactive rfl harmed
  · simp only [if_true]
    exact (h o.portfolioSlot).accumulate hactive

/-- A sell leg, of a row with the same quantity. -/
theorem showsTargets_handleSellFill {rows : List OrderEvent} {e : OrderEvent} (h : ShowsTargets rows b.portfolio)
    (hkey : e.booking = some o.portfolioSlot) (hsell : e.orderType = .marketSell) (hqty : e.qty = qty) :
    ShowsTargets (rows ++ [e]) (b.handleSellFill c o price qty fee).val.portfolio := by
  have hpost : (targets rows o.portfolioSlot).post e = (targets rows o.portfolioSlot).sell qty := by
    rw [SlotTarget.post, hsell, ← hqty]
  unfold Books.handleSellFill
  rcases hactive : b.portfolio.active o.portfolioSlot with _ | _
  · exact h.idle hkey (hpost.trans (SlotTarget.sell_of_none (h _) (.inl hactive)))
  simp only [Bool.not_true, Bool.false_eq_true, if_false]
  split
  next hnone => exact h.idle hkey (hpost.trans (SlotTarget.sell_of_none (h _) (.inr hnone)))
  next hsome =>
    refine h.post hkey (fun i hne => Portfolio.takeLeg_of_ne hne price _) ?_
    rw [hpost]
    exact (h _).takeLeg hactive price rfl hsome

/-- A limit order's sell leg that takes nothing. -/
theorem handleSellFill_idle
    (hnone : b.portfolio.active o.portfolioSlot = false ∨ (b.sellQty o.portfolioSlot qty).isZero = true) :
    (b.handleSellFill c o price qty fee).val = b := by
  unfold Books.handleSellFill
  rcases hnone with hflat | hzero
  · rw [hflat]
    rfl
  · simp only [hzero, if_true]
    split <;> rfl

/-- One leg, of the row it leaves behind. -/
theorem handleFill (hmode : c.eventLogMode = appendMode) (h : Anchored c b)
    (hanchors : b.anchors o price qty = true) :
    Anchored c (b.handleFill c nowUs o price qty commission asset).val := by
  intro hroom
  have hlogs : Logs c [OrderEvent.makeFill o price qty (Books.bookedFee (Books.computedFee o price qty).val commission asset)]
      b.composer (b.handleFill c nowUs o price qty commission asset).val.composer := Mirrored.logs_handleFill hmode
  obtain ⟨hlaned, hlive⟩ := h (hlogs.room hroom)
  refine ⟨hlogs.laned hlaned, ?_⟩
  have htrail := targets_of_logs hlogs hlaned hroom
  rw [ShowsTargets, htrail]
  simp only [Books.handleFill, Flagged.bind_val]
  generalize Books.bookedFee (Books.computedFee o price qty).val commission asset = fee
  have hkey : (OrderEvent.makeFill o price qty fee).booking = some o.portfolioSlot := booking_makeFill ..
  have hlive' := showsTargets_auditAppend (c := c) hlive (.makeFill o price qty fee) (some o.portfolioSlot)
  have hportfolio : (b.auditAppend c (.makeFill o price qty fee) (some o.portfolioSlot)).portfolio = b.portfolio := by
    unfold Books.auditAppend
    split <;> rfl
  rw [Books.anchors] at hanchors
  rcases htype : o.type with _ | _ | _ | _
  all_goals simp only [htype] at hanchors ⊢
  · refine showsTargets_handleBuyFill hlive' hkey htype rfl ?_
    rw [hportfolio]
    exact (Bool.or_eq_true_iff.1 hanchors).imp_right Money.eq_iff.1
  · exact showsTargets_handleSellFill hlive' hkey htype rfl
  · exact absurd hanchors Bool.false_ne_true
  · have hpost : (targets b.composer.trail o.portfolioSlot).post (.makeFill o price qty fee) =
        targets b.composer.trail o.portfolioSlot := by
      rw [SlotTarget.post, show (OrderEvent.makeFill o price qty fee).orderType = .limitSell from htype]
    rw [handleSellFill_idle]
    · exact hlive'.idle hkey hpost
    · rw [Books.sellQty, hportfolio]
      simpa [Books.sellQty] using hanchors

end Anchored

namespace OrderManagerState

variable {c : OmsConfig} {s : OrderManagerState} {a : Act}

/-- Whether what is booked for an execution of `o`, if anything is, is what its row tells. -/
def legAnchors (b : Books) (o : Order) (r : OrderResult) : Bool :=
  !decide (r.fillQty > 0.0) || b.anchors o o.avgFillPrice (moneyFromDoublePayload r.fillQty)

/-- Whether a drag leaves the take-profit where it is. -/
def dragKeeps (p : Portfolio) (dc : DragCmd) : Bool :=
  !dc.isTp || !p.active dc.slot || dc.price.eq (p.positions dc.slot).takeProfitPrice

/-- Whether a turn leaves the live targets as its rows tell. -/
def anchoring (s : OrderManagerState) (a : Act) : Bool :=
  ((s.dispatched a).all fun cmd => (s.executing cmd).all fun i =>
    legAnchors s.books (legOrder (s.priced i cmd.result) cmd.result).val cmd.result) &&
      a.drags.all (dragKeeps s.books.portfolio)

theorem legAnchors_of_anchoring {cmd : Command} {i : OrderSlot} (h : s.anchoring a = true)
    (hcmd : s.dispatched a = some cmd) (hexec : s.executing cmd = some i) :
    legAnchors s.books (legOrder (s.priced i cmd.result) cmd.result).val cmd.result = true := by
  have hlegs := (Bool.and_eq_true_iff.1 h).1
  simpa [hcmd, hexec] using hlegs

theorem dragKeeps_of_anchoring {dc : DragCmd} (h : s.anchoring a = true) (hdc : dc ∈ a.drags) :
    dragKeeps s.books.portfolio dc = true :=
  List.all_eq_true.1 (Bool.and_eq_true_iff.1 h).2 dc hdc

/-- A turn that dispatches a result hands no drags over. -/
theorem drags_of_dispatched {cmd : Command} (hcmd : s.dispatched a = some cmd) : a.drags = [] := by
  cases a with
  | compose fatalSites drags => cases hcmd
  | _ => rfl

/-- The same slots are held, at the same take-profit. -/
structure SameTargets (p p' : Portfolio) : Prop where
  active : p.active = p'.active
  takeProfitPrice : ∀ slot, (p.positions slot).takeProfitPrice = (p'.positions slot).takeProfitPrice

theorem dragKeeps_congr {p p' : Portfolio} (h : SameTargets p p') (dc : DragCmd) :
    dragKeeps p dc = dragKeeps p' dc := by
  rw [dragKeeps, dragKeeps, h.active, h.takeProfitPrice]

/-- What a drag that keeps the take-profit leaves of a slot. -/
theorem applyDrag_targets {p : Portfolio} {dc : DragCmd} (hkeeps : dragKeeps p dc = true) (slot : SlotIdx) :
    ((applyDrag p dc).positions slot).takeProfitPrice = (p.positions slot).takeProfitPrice ∧
      ((applyDrag p dc).positions slot).originalTp = (p.positions slot).originalTp := by
  unfold applyDrag
  split
  · exact ⟨rfl, rfl⟩
  next hheld =>
    have hactive : p.active dc.slot = true := by simpa using hheld
    dsimp only
    rcases eq_or_ne slot dc.slot with rfl | hne
    · rw [update_self]
      split
      next htp =>
        have hprice : dc.price.eq (p.positions dc.slot).takeProfitPrice = true := by
          simpa [dragKeeps, htp, hactive] using hkeeps
        exact ⟨Money.eq_iff.1 hprice, rfl⟩
      next => exact ⟨rfl, rfl⟩
    · rw [update_of_ne hne]
      exact ⟨rfl, rfl⟩

theorem anchored_bookLeg (hmode : c.eventLogMode = appendMode) {b : Books} (h : Anchored c b) {o : Order}
    {r : OrderResult}
    {nowUs : Nat} (hanchors : legAnchors b o r = true) : Anchored c (bookLeg c nowUs b o r).val := by
  unfold bookLeg
  split
  next hqty =>
    rw [legAnchors, decide_eq_true hqty] at hanchors
    exact h.handleFill hmode hanchors
  next => exact h

/-- Anchored in the midst of turn `a` of `s`, whose drags are still to meet the positions it began with. -/
structure AnchoredIn (c : OmsConfig) (s : OrderManagerState) (a : Act) (b : Books) : Prop where
  anchored : Anchored c b
  same : a.drags ≠ [] → SameTargets b.portfolio s.books.portfolio

/-- The step lemma: a turn that books legs as their rows tell and drags no take-profit away. -/
theorem anchored_act (hmode : c.eventLogMode = appendMode) (h : Anchored c s.books)
    (hanchors : s.anchoring a = true) :
    Anchored c (s.act c a).val.books := by
  suffices hmidst : AnchoredIn c s a (s.act c a).val.books from hmidst.anchored
  refine books_act_of (κ := False) (Anchored c) (AnchoredIn c s a)
    (fun _ hb => ⟨hb, fun _ => ⟨rfl, fun _ => rfl⟩⟩) ?_ ?_ ?_ ?_ ?_ h
    False.elim
  · intro cmd i hcmd hexec us hb _
    refine ⟨anchored_bookLeg hmode hb (legAnchors_of_anchoring hanchors hcmd hexec), fun hdrags => ?_⟩
    exact absurd (drags_of_dispatched hcmd) hdrags
  · rintro b ev slot haudit ⟨hb, hsame⟩
    have hnone := haudit.booking
    rw [Books.auditAppend, if_pos hmode]
    refine ⟨hb.congr (logs_eventFunnelPush fun i hi => ?_) ?_ fun _ _ hshows => hshows, hsame⟩
    · exact absurd (hnone.symm.trans hi) (Option.some_ne_none i).symm
    · intro e he
      obtain rfl := List.mem_singleton.1 he
      exact hnone
  · rintro _ b ⟨hb, hsame⟩ _
    exact ⟨hb.congr (logs_fillRingsApply c b.composer) (fun _ he => absurd he List.not_mem_nil) fun _ _ hshows => hshows,
      hsame⟩
  · rintro b site ⟨hb, hsame⟩ _
    obtain ⟨rows, hrows, hlogs⟩ := logs_fatalMarker c b.composer site
    exact ⟨hb.congr hlogs hrows fun _ _ hshows => hshows, hsame⟩
  · rintro b dc hdc ⟨hb, hsame⟩
    have hsame' := hsame (List.ne_nil_of_mem hdc)
    have hkeeps : dragKeeps b.portfolio dc = true :=
      (dragKeeps_congr hsame' dc).trans (dragKeeps_of_anchoring hanchors hdc)
    refine ⟨hb.congr (.of_sameQueues ⟨rfl, rfl, rfl⟩) (fun _ he => absurd he List.not_mem_nil) ?_, fun _ => ⟨?_, ?_⟩⟩
    · intro i t hshows
      obtain ⟨hactive, hquantity, -, -⟩ := applyDrag_keeps b.portfolio dc i
      obtain ⟨htp, horiginal⟩ := applyDrag_targets hkeeps i
      exact ⟨hactive.trans hshows.active, hquantity.trans hshows.quantity, htp.trans hshows.takeProfitPrice,
        horiginal.trans hshows.originalTp⟩
    · exact (funext fun i => (applyDrag_keeps b.portfolio dc i).1).trans hsame'.active
    · exact fun i => (applyDrag_targets hkeeps i).1.trans (hsame'.takeProfitPrice i)

theorem anchored_init (c : OmsConfig) (balance : Money) (tradeLog : Option (List (EmitRecord × Money))) :
    Anchored c (init balance tradeLog).books := by
  intro _
  have htrail : (init balance tradeLog).books.composer.trail = [] := by
    have hpending : (init balance tradeLog).books.composer.pendingEvents = [] := lanes_eq_nil fun _ => rfl
    rw [trail, hpending]
    rfl
  rw [htrail]
  exact ⟨⟨fun _ _ he => absurd he List.not_mem_nil, fun _ _ => rfl⟩, .init⟩

theorem anchored_run (hmode : c.eventLogMode = appendMode) (balance : Money)
    (tradeLog : Option (List (EmitRecord × Money)))
    (as : List Act) (hsteps : Steps (step c) (fun s a => s.anchoring a = true) (init balance tradeLog) as) :
    Anchored c (run (step c) (init balance tradeLog) as).books := by
  have hstep : ∀ (s : OrderManagerState) (a : Act), Anchored c s.books → s.anchoring a = true →
      Anchored c (s.step c a).books := fun _ _ h hok => anchored_act hmode h hok
  exact run_inv_of_steps hstep as (anchored_init c balance tradeLog) hsteps

/-- What the claim asks of a restored portfolio: every slot that is held has both its targets. -/
structure RestoresTargets (restored live : Portfolio) : Prop where
  active : ∀ slot, live.active slot = true → restored.active slot = true
  takeProfitPrice : ∀ slot, live.active slot = true →
    (restored.positions slot).takeProfitPrice = (live.positions slot).takeProfitPrice
  originalTp : ∀ slot, live.active slot = true →
    (restored.positions slot).originalTp = (live.positions slot).originalTp

/-- In the appending mode, in every run whose opening legs arm the target they were submitted with
    and whose drags move no take-profit: once no row is waiting and as long as none was dropped, the
    fold of the log has both targets of every position held. -/
theorem fold_restores_targets (c : OmsConfig) (hmode : c.eventLogMode = appendMode) (rate balance : Money)
    (tradeLog : Option (List (EmitRecord × Money))) (nowUs : Nat) (as : List Act) {s : OrderManagerState}
    (hrun : run (step c) (init balance tradeLog) as = s)
    (hsteps : Steps (step c) (fun s a => s.anchoring a = true) (init balance tradeLog) as)
    (hroom : s.books.composer.eventLog.logFullDrops = 0) (hevents : s.books.composer.pendingEvents = []) :
    RestoresTargets (portfolioFromEventLog s.books.composer.eventLog.entries balance rate nowUs).val.portfolio
      s.books.portfolio := by
  obtain rfl := hrun
  obtain ⟨-, hlive⟩ := anchored_run hmode balance tradeLog as hsteps hroom
  generalize (run (step c) (init balance tradeLog) as).books = b at *
  have htrail : targets b.composer.trail = targets b.composer.eventLog.entries := by
    rw [trail, hevents, List.append_nil]
    exact foldOn_map _ _ _ OrderEvent.booking_unstamped (fun _ _ => rfl) _
  rw [ShowsTargets, htrail] at hlive
  have hfold := showsTargets_portfolioFromEventLog b.composer.eventLog.entries balance rate nowUs
  constructor <;> intro slot hheld
  · exact (hfold slot).active.trans ((hlive slot).active.symm.trans hheld)
  · exact (hfold slot).takeProfitPrice.trans (hlive slot).takeProfitPrice.symm
  · exact (hfold slot).originalTp.trans (hlive slot).originalTp.symm

/-- A buy of ten at 100 or so, to be sold five percent above. -/
def sampleEntry (slippagePct : Money) : SubmitCommand :=
  { sampleTrade firstIdx .marketBuy 10 with
    nodeCfg := some ⟨sampleRate, sampleRate, slippagePct⟩, intendedTp := (Money.fromInt 105).val
    tpPct := moneyFromDoublePayload 0.05 }

/-- Filled at the price it was seen at, the entry arms the intended 105. -/
theorem fold_restores_targets_unslipped :
    let s := run (step samplePaper) (init (Money.fromInt 1000).val none) [.submit (sampleEntry .zero), .popResult]
    s.books.portfolio.active firstIdx = true ∧ RestoresTargets
      (portfolioFromEventLog s.books.composer.eventLog.entries (Money.fromInt 1000).val sampleRate 0).val.portfolio
      s.books.portfolio :=
  ⟨by decide +kernel, fold_restores_targets samplePaper rfl sampleRate _ none 0 _ rfl (by decide +kernel)
    (by decide +kernel) (List.isEmpty_iff.1 (by decide +kernel))⟩

/-- A tenth of a percent of slippage fills the entry at 100.1: the position is sold at 105.105, the
    restored one at 105. -/
theorem fold_restores_submitted_target :
    let s := run (step samplePaper) (init (Money.fromInt 1000).val none) [.submit (sampleEntry sampleRate),
      .popResult]
    let restored :=
      (portfolioFromEventLog s.books.composer.eventLog.entries (Money.fromInt 1000).val sampleRate 0).val.portfolio
    (s.books.composer.eventLog.logFullDrops = 0 ∧ s.books.composer.pendingEvents.isEmpty ∧
      s.books.portfolio.active firstIdx = true ∧ s.moneyOpFlags = 0) ∧
      (restored.positions firstIdx).takeProfitPrice = (Money.fromInt 105).val ∧
      (s.books.portfolio.positions firstIdx).takeProfitPrice = moneyFromDoublePayload 105.105 ∧
      ¬RestoresTargets restored s.books.portfolio := by
  intro s restored
  refine ⟨by decide +kernel, by decide +kernel, by decide +kernel, fun h => ?_⟩
  exact absurd (h.takeProfitPrice firstIdx (by decide +kernel)) (by decide +kernel)

end OrderManagerState

end FoxTrader
