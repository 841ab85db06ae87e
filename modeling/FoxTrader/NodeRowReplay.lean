import FoxTrader.NodeRowWalk
import FoxTrader.ScheduleIndependence

/-! # The node rows, booked live and walked

    What the composer books on a node's row is what the accounts of the node's slots come to, as long as the
    leg that empties a slot relieves what is tracked there and ends no half of a pair. The walk puts the same
    accounts on the rows. The rows of one slot reach the log in the order they were booked, so the accounts of
    the log are the live ones once everything waiting is booked.

    With partial exits on the composer counts the two slots of a node as one trade and the walk counts each;
    and the walk's last relief of a slot is the average entry price times the quantity, rounded like every
    leg's, where the composer takes whatever is left. -/

namespace FoxTrader

open Lib Function

/-! ### What the composer books -/

/-- A node's row, its partner bit, and what is tracked for its slots. -/
structure NodeView where
  figures : RowFigure → ℤ
  notional : SlotIdx → ℤ
  tradeNet : SlotIdx → ℤ
  pending : Bool
  partner : ℤ

namespace NodeView

def count (v : NodeView) (won : Bool) : NodeView := { v with figures := v.figures + tradeFigures won }

/-- The trade of a slot ends: it is counted, with partial exits on together with the one before. -/
def conclude (partialOn : Bool) (v : NodeView) (slot : SlotIdx) : NodeView :=
  let cleared := { v with tradeNet := update v.tradeNet slot 0 }
  if !partialOn then cleared.count (0 < v.tradeNet slot)
  else if v.pending then { cleared with pending := false, partner := 0 }.count (0 < v.partner + v.tradeNet slot)
  else { cleared with pending := true, partner := v.tradeNet slot }

def buy (v : NodeView) (fe : FillEvent) : NodeView :=
  { v with
    figures := v.figures + buyFigures fe.notional.v
    notional := update v.notional fe.slot (v.notional fe.slot + fe.notional.v) }

def relief (v : NodeView) (fe : FillEvent) : ℤ := if fe.slotFlat then v.notional fe.slot else fe.notional.v

def sell (v : NodeView) (fe : FillEvent) : NodeView :=
  { v with
    figures := v.figures + sellFigures fe.net.v (fe.entryFeeLeg.v + fe.fee.v) (v.relief fe)
    notional := update v.notional fe.slot (v.notional fe.slot - v.relief fe)
    tradeNet := update v.tradeNet fe.slot (v.tradeNet fe.slot + fe.net.v) }

/-- A node's row after an event of the node. -/
def book (partialOn : Bool) (v : NodeView) (fe : FillEvent) : NodeView :=
  if fe.isSell then if fe.slotFlat then (v.sell fe).conclude partialOn fe.slot else v.sell fe else v.buy fe

end NodeView

/-- What is tracked for the slots of a node. -/
def ownSlots (c : OmsConfig) (n : NodeIdx) (f : SlotIdx → Money) (slot : SlotIdx) : ℤ :=
  if c.slotNode slot = n then (f slot).v else 0

theorem ownSlots_update (c : OmsConfig) (n : NodeIdx) (f : SlotIdx → Money) (slot : SlotIdx) (x : Money) :
    ownSlots c n (update f slot x) = if n = c.slotNode slot then update (ownSlots c n f) slot x.v
      else ownSlots c n f := by
  funext i
  unfold ownSlots
  rcases eq_or_ne n (c.slotNode slot) with rfl | hn
  · rw [if_pos rfl]
    rcases eq_or_ne i slot with rfl | hne
    · rw [update_self, update_self, if_pos rfl]
    · rw [update_of_ne hne, update_of_ne hne]
  · rw [if_neg hn]
    rcases eq_or_ne i slot with rfl | hne
    · rw [if_neg (Ne.symm hn), if_neg (Ne.symm hn)]
    · rw [update_of_ne hne]

def EventLoopState.nodeView (c : OmsConfig) (st : EventLoopState) (n : NodeIdx) : NodeView where
  figures := (st.nodes n).figure
  notional := ownSlots c n st.agg.slotNotional
  tradeNet := ownSlots c n st.agg.pendingTradeNet
  pending := st.partnerPendingBitmap n
  partner := (st.nodes n).partnerPendingPnl.v

namespace EventLoopState

variable {c : OmsConfig} {st st' : EventLoopState} {fe : FillEvent} {n : NodeIdx}

theorem nodeView_congr (h : st.SameRows st') : st'.nodeView c = st.nodeView c := by
  funext n
  simp only [nodeView, h.nodes, h.pending, h.notional, h.tradeNet]

theorem bookBuy_nodeView (hown : c.slotNode fe.slot = fe.node) (hc : (st.bookBuy fe).Clean) (n : NodeIdx) :
    (st.bookBuy fe).val.nodeView c n = if n = fe.node then (st.nodeView c n).buy fe else st.nodeView c n := by
  simp only [bookBuy, Flagged.clean_bind, Flagged.clean_pure, and_true] at hc
  simp only [bookBuy, Flagged.bind_val, Flagged.pure_val, nodeView, ownSlots_update, hown, NodeView.buy]
  rcases eq_or_ne n fe.node with rfl | hne
  · have hself : ownSlots c fe.node st.agg.slotNotional fe.slot = (st.agg.slotNotional fe.slot).v := if_pos hown
    simp only [if_true, update_self, hself, Money.add_v hc.1]
    congr 1
    funext f
    cases f
    case openNotional => exact Money.add_v hc.2
    case entries => exact Int.natCast_succ _
    all_goals exact (add_zero _).symm
  · simp only [if_neg hne, update_of_ne hne]

theorem bookSell_nodeView (hown : c.slotNode fe.slot = fe.node) (hc : (st.bookSell fe).Clean) (n : NodeIdx) :
    (st.bookSell fe).val.nodeView c n = if n = fe.node then (st.nodeView c n).sell fe else st.nodeView c n := by
  simp only [bookSell, Flagged.clean_bind, Flagged.clean_pure, and_true] at hc
  obtain ⟨hrealized, hleg, hfees, hopen, hslot, hnet⟩ := hc
  simp only [bookSell, Flagged.bind_val, Flagged.pure_val, nodeView, ownSlots_update, hown, NodeView.sell]
  rcases eq_or_ne n fe.node with rfl | hne
  · have hself : ∀ f : SlotIdx → Money, ownSlots c fe.node f fe.slot = (f fe.slot).v := fun _ => if_pos hown
    have hrelief : NodeView.relief (st.nodeView c fe.node) fe =
        (if fe.slotFlat then st.agg.slotNotional fe.slot else fe.notional).v := by
      simp only [NodeView.relief, nodeView, hself]
      split <;> rfl
    simp only [nodeView] at hrelief
    simp only [if_true, update_self, hself, hrelief, Money.sub_v hslot, Money.add_v hnet]
    congr 1
    funext f
    cases f
    case realized => exact Money.add_v hrealized
    case fees => exact (Money.add_v hfees).trans (congrArg _ (Money.add_v hleg))
    case openNotional => exact (Money.sub_v hopen).trans (sub_eq_add_neg ..)
    case exits => exact Int.natCast_succ _
    all_goals exact (add_zero _).symm
  · simp only [if_neg hne, update_of_ne hne]

/-- A trade in the counts of its node. -/
theorem figure_classify (ctx : NodeContext) (net : Money) :
    (ctx.classify net).val.figure = ctx.figure + tradeFigures (0 < net.v) ∧
      (ctx.classify net).val.partnerPendingPnl = ctx.partnerPendingPnl := by
  have hgt : net.gt .zero = decide (0 < net.v) := rfl
  unfold NodeContext.classify
  rw [hgt]
  split
  next hwon =>
    rw [hwon]
    refine ⟨funext fun f => ?_, rfl⟩
    cases f
    case wins => exact Int.natCast_succ _
    all_goals exact (add_zero _).symm
  next hlost =>
    rw [eq_false_of_ne_true hlost]
    refine ⟨funext fun f => ?_, rfl⟩
    cases f
    case losses => exact Int.natCast_succ _
    all_goals exact (add_zero _).symm

theorem concludeTrade_nodeView {slot : SlotIdx} {node : NodeIdx} (hown : c.slotNode slot = node)
    (hc : (st.concludeTrade c.partialExitEnabled slot node).Clean) (n : NodeIdx) :
    (st.concludeTrade c.partialExitEnabled slot node).val.nodeView c n =
      if n = node then (st.nodeView c n).conclude c.partialExitEnabled slot else st.nodeView c n := by
  have hself : ownSlots c node st.agg.pendingTradeNet slot = (st.agg.pendingTradeNet slot).v := if_pos hown
  unfold concludeTrade at hc ⊢
  rcases hpairs : c.partialExitEnabled with _ | _
  · simp only [Bool.not_false, if_true, Flagged.bind_val, Flagged.pure_val, nodeView, clearTradeNet,
      ownSlots_update, hown,
      NodeView.conclude]
    rcases eq_or_ne n node with rfl | hne
    · simp only [if_true, update_self, hself, NodeView.count, (figure_classify ..).1, (figure_classify ..).2]
      rfl
    · simp only [if_neg hne, update_of_ne hne]
  simp only [hpairs, Bool.not_true, Bool.false_eq_true, if_false] at hc ⊢
  split at hc
  next hpending =>
    rw [if_pos hpending]
    rw [Flagged.clean_bind] at hc
    simp only [Flagged.bind_val, Flagged.pure_val, nodeView, clearTradeNet, ownSlots_update, hown, NodeView.conclude]
    rcases eq_or_ne n node with rfl | hne
    · simp only [if_true, update_self, hself, hpending, NodeView.count, Bool.not_true, Bool.false_eq_true, if_false,
        ← Money.add_v hc.1]
      congr 1
      exact (figure_classify ..).1
    · simp only [if_neg hne, update_of_ne hne]
  next hpending =>
    rw [if_neg hpending]
    simp only [Flagged.pure_val, nodeView, clearTradeNet, ownSlots_update, hown, NodeView.conclude]
    rcases eq_or_ne n node with rfl | hne
    · simp only [if_true, update_self, hself, eq_false_of_ne_true hpending, Bool.not_true, Bool.false_eq_true,
        if_false]
      rfl
    · simp only [if_neg hne, update_of_ne hne]

theorem nodeView_nodeRowsBook (hown : c.slotNode fe.slot = fe.node)
    (hc : (st.nodeRowsBook c.partialExitEnabled fe).Clean) (n : NodeIdx) :
    (st.nodeRowsBook c.partialExitEnabled fe).val.nodeView c n =
      if n = fe.node then (st.nodeView c n).book c.partialExitEnabled fe else st.nodeView c n := by
  unfold nodeRowsBook at hc ⊢
  rcases hside : fe.isSell with _ | _
  · simp only [hside, Bool.not_false, if_true, NodeView.book, Bool.false_eq_true, if_false] at hc ⊢
    exact bookBuy_nodeView hown hc n
  simp only [hside, Bool.not_true, Bool.false_eq_true, if_false, Flagged.clean_bind] at hc ⊢
  rw [Flagged.bind_val]
  have hsold := bookSell_nodeView hown hc.1
  rcases hflat : fe.slotFlat with _ | _
  · simp only [Bool.false_eq_true, if_false, Flagged.pure_val, hsold n, NodeView.book, hside, hflat, if_true]
  · simp only [hflat, if_true] at hc ⊢
    rw [concludeTrade_nodeView hown hc.2 n, hsold n]
    rcases eq_or_ne n fe.node with rfl | hne
    · simp only [if_true, NodeView.book, hside, hflat]
    · simp only [if_neg hne]

end EventLoopState

/-- The rows as a view. -/
def rowView (c : OmsConfig) : RowView c NodeView where
  view := EventLoopState.nodeView c
  next := NodeView.book c.partialExitEnabled
  congr := EventLoopState.nodeView_congr
  booked _ _ n hown hc := EventLoopState.nodeView_nodeRowsBook hown hc n

namespace NodeView

variable {v : NodeView} {fe : FillEvent} {partialOn : Bool} {i : SlotIdx}

/-- An event leaves what is tracked for the other slots alone. -/
theorem book_of_ne (hne : i ≠ fe.slot) :
    (v.book partialOn fe).notional i = v.notional i ∧ (v.book partialOn fe).tradeNet i = v.tradeNet i := by
  have hsold : (v.sell fe).notional i = v.notional i ∧ (v.sell fe).tradeNet i = v.tradeNet i :=
    ⟨update_of_ne hne .., update_of_ne hne ..⟩
  unfold book
  split
  · split
    · have hcleared : update (v.sell fe).tradeNet fe.slot 0 i = v.tradeNet i := (update_of_ne hne ..).trans hsold.2
      unfold conclude
      dsimp only
      split
      · exact ⟨hsold.1, hcleared⟩
      split <;> exact ⟨hsold.1, hcleared⟩
    · exact hsold
  · exact ⟨update_of_ne hne .., rfl⟩

end NodeView

/-! ### The live accounts -/

open Composer

/-- The accounts are the live positions and, once everything waiting is booked, the live rows. -/
structure RowsAccount (c : OmsConfig) (acc : SlotIdx → SlotAccount) (b : Books) : Prop where
  rings : b.composer.OwnRings c
  shows : ∀ slot, (acc slot).book.Shows b.portfolio slot
  figures : ∀ n f, ((rowView c).settled b.composer n).figures f = nodeSum c n fun slot => (acc slot).figures f
  notional : ∀ slot, ((rowView c).settled b.composer (c.slotNode slot)).notional slot =
    (acc slot).figures .openNotional
  tradeNet : ∀ slot, ((rowView c).settled b.composer (c.slotNode slot)).tradeNet slot = (acc slot).pendingNet

namespace RowsAccount

variable {c : OmsConfig} {acc : SlotIdx → SlotAccount} {b b' : Books} {o : Order} {nowUs : Nat}
    {price qty fee : Money}

theorem congr (h : RowsAccount c acc b) (hrings : b'.composer.OwnRings c)
    (hsettled : (rowView c).settled b'.composer = (rowView c).settled b.composer)
    (hshows : ∀ slot (book : SlotBook), book.Shows b.portfolio slot → book.Shows b'.portfolio slot) :
    RowsAccount c acc b' := by
  refine ⟨hrings, fun slot => hshows slot _ (h.shows slot), ?_, ?_, ?_⟩ <;> rw [hsettled]
  · exact h.figures
  · exact h.notional
  · exact h.tradeNet

theorem congr_fills (h : RowsAccount c acc b) (hfills : b.composer.SameFills b'.composer)
    (hshows : ∀ slot (book : SlotBook), book.Shows b.portfolio slot → book.Shows b'.portfolio slot) :
    RowsAccount c acc b' := by
  refine h.congr ?_ ((rowView c).settled_congr hfills.fillRings ⟨hfills.nodes, hfills.pending, hfills.notional, hfills.tradeNet⟩)
    hshows
  rw [OwnRings, hfills.fillRings]
  exact h.rings

/-- One event emitted, and the account of its slot written. -/
theorem emit {a : SlotAccount} (fe : FillEvent) {rec : EmitRecord} (hwired : c.aggWired = true)
    (h : RowsAccount c acc b)
    (hnode : fe.node = c.slotNode fe.slot)
    (hcomposer : b'.composer = ((b.composer.fillEmit c fe).val).emitRecord c rec)
    (hc : (b.composer.fillEmit c fe).Clean)
    (hothers : ∀ i, i ≠ fe.slot → b'.portfolio.active i = b.portfolio.active i ∧
      b'.portfolio.positions i = b.portfolio.positions i)
    (hshows : a.book.Shows b'.portfolio fe.slot)
    (hfigures : ∀ f, (((rowView c).settled b.composer fe.node).book c.partialExitEnabled fe).figures f =
      ((rowView c).settled b.composer fe.node).figures f + (a.figures f - (acc fe.slot).figures f))
    (hnotional : (((rowView c).settled b.composer fe.node).book c.partialExitEnabled fe).notional fe.slot =
      a.figures .openNotional)
    (htradeNet : (((rowView c).settled b.composer fe.node).book c.partialExitEnabled fe).tradeNet fe.slot = a.pendingNet) :
    RowsAccount c (update acc fe.slot a) b' := by
  have hfills := sameFills_emitRecord c (b.composer.fillEmit c fe).val rec
  have hsettled : (rowView c).settled b'.composer = update ((rowView c).settled b.composer) fe.node
      (((rowView c).settled b.composer fe.node).book c.partialExitEnabled fe) := by
    rw [hcomposer,
      (rowView c).settled_congr hfills.fillRings ⟨hfills.nodes, hfills.pending, hfills.notional,
      hfills.tradeNet⟩]
    exact (rowView c).settled_fillEmit hwired h.rings hc
  have hslots : ∀ g : SlotAccount →
    ℤ, (fun i => g (update acc fe.slot a i)) = update (fun i => g (acc i)) fe.slot (g a) :=
    fun g => funext fun i => apply_update (fun _ => g) ..
  refine ⟨?_, fun i => ?_, fun n f => ?_, fun i => ?_, fun i => ?_⟩
  · rw [OwnRings, hcomposer, hfills.fillRings]
    exact ownRings_fillEmit hwired hnode.symm h.rings
  · rcases eq_or_ne i fe.slot with rfl | hne
    · rw [update_self]
      exact hshows
    · rw [update_of_ne hne]
      exact (h.shows i).of_positions_eq (hothers i hne).1 (hothers i hne).2
  · rw [hslots fun a => a.figures f, nodeSum_update, ← h.figures, hsettled, ← hnode]
    rcases eq_or_ne n fe.node with rfl | hne
    · rw [update_self, if_pos rfl, hfigures]
    · rw [update_of_ne hne, if_neg hne, add_zero]
  all_goals
    rw [hsettled]
    rcases eq_or_ne i fe.slot with rfl | hne
  · rw [← hnode, update_self, update_self]
    exact hnotional
  · rw [update_of_ne hne, ← h.notional i]
    rcases eq_or_ne (c.slotNode i) fe.node with hn | hn
    · rw [hn, update_self, (NodeView.book_of_ne hne).1]
    · rw [update_of_ne hn]
  · rw [← hnode, update_self, update_self]
    exact htradeNet
  · rw [update_of_ne hne, ← h.tradeNet i]
    rcases eq_or_ne (c.slotNode i) fe.node with hn | hn
    · rw [hn, update_self, (NodeView.book_of_ne hne).2]
    · rw [update_of_ne hn]

theorem handleBuyFill (hwired : c.aggWired = true) (h : RowsAccount c acc b)
    (hc : (b.handleBuyFill c nowUs o price qty fee).Clean) :
    RowsAccount c (update acc o.portfolioSlot ((acc o.portfolioSlot).buy price qty fee))
      (b.handleBuyFill c nowUs o price qty fee).val := by
  simp only [Books.handleBuyFill, Flagged.clean_bind, Flagged.clean_pure, and_true] at hc
  have hbook : ∀ v : NodeView, v.book c.partialExitEnabled (b.buyFill c o price qty fee (price.mul qty).val) =
      v.buy (b.buyFill c o price qty fee (price.mul qty).val) := fun _ => if_neg Bool.false_ne_true
  refine h.emit (b.buyFill c o price qty fee (price.mul qty).val) hwired rfl rfl hc.2.1
    (fun i hne => Books.openOrAccumulate_of_ne hne) ?_ ?_ ?_ ?_
  · simp only [Books.handleBuyFill, Books.openOrAccumulate, Flagged.bind_val, Flagged.pure_val]
    split
    next hactive => exact (h.shows _).accumulate hactive
    next hactive => exact (h.shows _).open (eq_false_of_ne_true hactive) rfl rfl rfl
  · intro f
    rw [hbook]
    simp only [NodeView.buy, SlotAccount.buy, Books.buyFill, Pi.add_apply, add_sub_cancel_left]
  · rw [hbook]
    simp only [NodeView.buy, SlotAccount.buy, update_self, Pi.add_apply, ← h.notional]
    rfl
  · rw [hbook]
    exact h.tradeNet o.portfolioSlot

/-- A leg of `qLeg` that empties its slot relieves what is tracked there, and ends no half of a pair. -/
def ClosesEvenly (c : OmsConfig) (b : Books) (slot : SlotIdx) (qLeg : Money) : Prop :=
  qLeg = (b.portfolio.positions slot).quantity → c.partialExitEnabled = false ∧
    ((b.portfolio.positions slot).entryPrice.mul qLeg).val.v =
      ((rowView c).settled b.composer (c.slotNode slot)).notional slot

/-- What the row makes of a sell leg is what the account of its slot does, if the last leg relieves what is
    tracked. -/
theorem book_close (fe : FillEvent) (price fee : Money) {v : NodeView} {a : SlotAccount} {qLeg : Money}
    (hsell : fe.isSell = true)
    (hflat : fe.slotFlat = qLeg.eq a.book.quantity) (hnet : fe.net = a.book.net price qLeg fee)
    (hfees : fe.entryFeeLeg.v + fe.fee.v = SlotAccount.legFees a.book qLeg fee)
    (hrelief : fe.notional = (a.book.entryPrice.mul qLeg).val)
    (hnotional : v.notional fe.slot = a.figures .openNotional)
    (htradeNet : v.tradeNet fe.slot = a.pendingNet)
    (heven : qLeg = a.book.quantity → c.partialExitEnabled = false ∧ fe.notional.v = v.notional fe.slot) :
    (∀ f, (v.book c.partialExitEnabled fe).figures f = v.figures f + ((a.close price qLeg fee).figures f - a.figures f)) ∧
      (v.book c.partialExitEnabled fe).notional fe.slot = (a.close price qLeg fee).figures .openNotional ∧
        (v.book c.partialExitEnabled fe).tradeNet fe.slot = (a.close price qLeg fee).pendingNet := by
  unfold NodeView.book SlotAccount.close
  rw [if_pos hsell, hflat]
  by_cases hlast : qLeg.eq a.book.quantity = true
  · obtain ⟨hpairs, htracked⟩ := heven (Money.eq_iff.1 hlast)
    have hrelieved : v.relief fe = (a.book.entryPrice.mul qLeg).val.v := by
      rw [NodeView.relief, hflat, if_pos hlast, ← htracked, hrelief]
    have htrade : (v.sell fe).tradeNet fe.slot = a.pendingNet + (a.book.net price qLeg fee).v := by
      simp only [NodeView.sell, update_self, htradeNet, hnet]
    simp only [hlast, if_true, NodeView.conclude, hpairs, Bool.not_false, NodeView.count, htrade]
    simp only [NodeView.sell, hnet, hfees, hrelieved, hnotional, update_self]
    refine ⟨fun f => ?_, ?_, trivial⟩
    · simp only [Pi.add_apply]
      ring
    · simp only [Pi.add_apply, sellFigures, tradeFigures]
      ring
  · have hrelieved : v.relief fe = (a.book.entryPrice.mul qLeg).val.v := by
      rw [NodeView.relief, hflat, if_neg hlast, hrelief]
    simp only [if_neg hlast, NodeView.sell, hnet, hfees, hrelieved, hnotional, htradeNet, update_self]
    refine ⟨fun f => ?_, ?_, trivial⟩
    · simp only [Pi.add_apply, add_sub_cancel_left]
    · simp only [Pi.add_apply, sellFigures]
      ring

theorem closeLeg {qLeg : Money} (hwired : c.aggWired = true) (h : RowsAccount c acc b)
    (hactive : b.portfolio.active o.portfolioSlot = true) (heven : ClosesEvenly c b o.portfolioSlot qLeg)
    (hc : (b.closeLeg c o price qLeg fee).Clean) :
    RowsAccount c (update acc o.portfolioSlot ((acc o.portfolioSlot).close price qLeg fee))
      (b.closeLeg c o price qLeg fee).val := by
  have hshows := h.shows o.portfolioSlot
  simp only [Books.closeLeg, Flagged.clean_bind, Flagged.clean_pure, and_true] at hc
  obtain ⟨-, -, -, -, hemit⟩ := hc
  have hbook : ((acc o.portfolioSlot).close price qLeg fee).book =
    (acc o.portfolioSlot).book.close price qLeg fee := by
    unfold SlotAccount.close
    dsimp only
    split <;> rfl
  have hfees : (b.portfolio.takeLeg o.portfolioSlot price qLeg).val.entryFee.v + fee.v =
      SlotAccount.legFees (acc o.portfolioSlot).book qLeg fee := by
    rw [SlotAccount.legFees, ← hshows.entryFee, ← hshows.quantity]
    rfl
  rw [ClosesEvenly, hshows.quantity] at heven
  obtain ⟨hfigures, hnotional, htradeNet⟩ := book_close
    (b.sellFill c o price qLeg fee _ ((b.portfolio.positions o.portfolioSlot).entryPrice.mul qLeg).val _) price fee rfl
    (congrArg qLeg.eq hshows.quantity) (hshows.net price qLeg fee) hfees (by rw [← hshows.entryPrice]; rfl)
    (h.notional o.portfolioSlot) (h.tradeNet o.portfolioSlot) heven
  exact h.emit _ hwired rfl rfl hemit (fun i hne => Portfolio.takeLeg_of_ne hne price _)
    (by rw [hbook]; exact hshows.takeLeg hactive ..) hfigures hnotional htradeNet

theorem handleSellFill (hwired : c.aggWired = true) (h : RowsAccount c acc b)
    (heven : b.portfolio.active o.portfolioSlot = true → (b.sellQty o.portfolioSlot qty).isZero = false →
      ClosesEvenly c b o.portfolioSlot (b.sellQty o.portfolioSlot qty))
    (hc : (b.handleSellFill c o price qty fee).Clean) :
    RowsAccount c (update acc o.portfolioSlot ((acc o.portfolioSlot).sell price qty fun _ => fee))
      (b.handleSellFill c o price qty fee).val := by
  have hshows := h.shows o.portfolioSlot
  have hqty : b.sellQty o.portfolioSlot qty = clampQty qty (acc o.portfolioSlot).book.quantity := by
    rw [Books.sellQty, hshows.quantity]
  unfold Books.handleSellFill at hc ⊢
  rcases hactive : b.portfolio.active o.portfolioSlot with _ | _
  · have hsame : (acc o.portfolioSlot).sell price qty (fun _ => fee) = acc o.portfolioSlot := by
      rw [SlotAccount.sell, ← hshows.active, hactive]
      rfl
    simp only [hsame, update_eq_self, Bool.not_false, if_true, Flagged.pure_val]
    exact h
  simp only [hactive, Bool.not_true, Bool.false_eq_true, if_false] at hc ⊢
  split
  next hnone =>
    have hsame : (acc o.portfolioSlot).sell price qty (fun _ => fee) = acc o.portfolioSlot := by
      simp [SlotAccount.sell, ← hqty, hnone]
    rw [hsame, update_eq_self]
    exact h
  next hsome =>
    rw [if_neg hsome] at hc
    have hclose : (acc o.portfolioSlot).sell price qty (fun _ => fee) =
        (acc o.portfolioSlot).close price (b.sellQty o.portfolioSlot qty) fee := by
      simp [SlotAccount.sell, ← hqty, ← hshows.active, hactive, hsome]
    rw [hclose]
    exact h.closeLeg hwired hactive (heven hactive (eq_false_of_ne_true hsome)) hc

theorem auditAppend (h : RowsAccount c acc b) (ev : OrderEvent) (slot : Option SlotIdx) :
    RowsAccount c acc (b.auditAppend c ev slot) := by
  unfold Books.auditAppend
  split
  · exact h.congr_fills (sameFills_eventFunnelPush ..) fun _ _ => id
  · exact h

end RowsAccount

/-! ### The rows of a leg -/

namespace SlotAccount

variable {rate price qty fee : Money} {a : SlotAccount} {o : Order} {b : Books}

/-- A leg that replays is posted as it was booked; one of a limit order then books nothing. -/
theorem post_makeFill (hshows : a.book.Shows b.portfolio o.portfolioSlot)
    (hrep : b.replays rate o price qty fee = true) :
    a.post rate (.makeFill o price qty fee) =
      if o.type.isSell then a.sell price qty fun _ => fee else a.buy price qty fee := by
  have hrow : (OrderEvent.makeFill o price qty fee).orderType = o.type := rfl
  unfold post
  rw [hrow]
  rcases htype : o.type with _ | _ | _ | _
  · have hfee : SlotBook.replayFee rate (.makeFill o price qty fee) qty = fee :=
      SlotBook.replayFee_makeFill fun hzero => by simpa [Books.replays, htype, hzero] using hrep
    exact congrArg (a.buy price qty) hfee
  · show a.sell price qty (SlotBook.replayFee rate (.makeFill o price qty fee)) = a.sell price qty fun _ => fee
    rw [sell, sell]
    rcases hactive : a.book.active with _ | _
    · rfl
    have hfee : SlotBook.replayFee rate (.makeFill o price qty fee) (clampQty qty a.book.quantity) = fee := by
      refine SlotBook.replayFee_makeFill fun hzero => ?_
      simpa [Books.replays, Books.sellQty, htype, hzero, hshows.active, hactive, hshows.quantity] using hrep
    simp only [hfee]
  · rw [Books.replays, htype] at hrep
    exact absurd hrep Bool.false_ne_true
  · simp only [Books.replays, Books.sellQty, htype, hshows.active, hshows.quantity, Bool.or_eq_true,
      Bool.not_eq_true'] at hrep
    show a = a.sell price qty fun _ => fee
    rcases hrep with hinactive | hnone
    · simp [sell, hinactive]
    · simp [sell, hnone]

end SlotAccount

/-! ### The rows mirror their trail -/

/-- The accounts of the trail are live, for as long as the log takes every row. -/
def RowsMirrored (c : OmsConfig) (rates : NodeIdx → Money) (b : Books) : Prop :=
  b.composer.eventLog.logFullDrops = 0 → b.composer.Laned c ∧ RowsAccount c (accounts c rates b.composer.trail) b

namespace RowsMirrored

variable {c : OmsConfig} {rates : NodeIdx → Money} {b b' : Books} {o : Order} {nowUs : Nat} {price qty : Money}
  {commission : Float} {asset : String}

theorem accounts_of_logs {rows : List OrderEvent} {k k' : Composer} (h : Logs c rows k k') (hl : k.Laned c)
    (hroom : k'.eventLog.logFullDrops = 0) : accounts c rates k'.trail = accounts c rates (k.trail ++ rows) :=
  foldOn_congr _ _ _ fun slot => h.rows hl hroom slot

/-- Rows that book nothing, and nothing settled or held otherwise. -/
theorem congr {rows : List OrderEvent} (h : RowsMirrored c rates b) (hlogs : Logs c rows b.composer b'.composer)
    (hrows : ∀ e ∈ rows, e.booking = none)
    (hkeeps : ∀ acc, RowsAccount c acc b → RowsAccount c acc b') : RowsMirrored c rates b' := by
  intro hroom
  obtain ⟨hlaned, hlive⟩ := h (hlogs.room hroom)
  have hnone : ∀ slot, (b.composer.trail ++ rows).filter (fun e => e.booking = some slot) =
      b.composer.trail.filter fun e => e.booking = some slot := by
    intro slot
    have hno : rows.filter (fun e => e.booking = some slot) = [] :=
      List.filter_eq_nil_iff.2 fun e he => by simp [hrows e he]
    rw [List.filter_append, hno, List.append_nil]
  refine ⟨hlogs.laned hlaned, ?_⟩
  rw [accounts_of_logs hlogs hlaned hroom, accounts, foldOn_congr _ _ _ hnone]
  exact hkeeps _ hlive

/-- The audit row moves neither the positions nor what is settled. -/
theorem auditAppend_keeps (c : OmsConfig) (b : Books) (ev : OrderEvent) (slot : Option SlotIdx) :
    (b.auditAppend c ev slot).portfolio = b.portfolio ∧
      (rowView c).settled (b.auditAppend c ev slot).composer = (rowView c).settled b.composer := by
  unfold Books.auditAppend
  split
  · have hfills := sameFills_eventFunnelPush c b.composer ev slot
    exact ⟨rfl,
      (rowView c).settled_congr hfills.fillRings ⟨hfills.nodes, hfills.pending, hfills.notional,
      hfills.tradeNet⟩⟩
  · exact ⟨rfl, rfl⟩

/-- One leg, of the row it leaves behind. -/
theorem handleFill (hmode : c.eventLogMode = appendMode) (hwired : c.aggWired = true) (h : RowsMirrored c rates b)
    (hrep : b.replays (rates (c.slotNode o.portfolioSlot)) o price qty
      (Books.bookedFee (Books.computedFee o price qty).val commission asset) = true)
    (heven : o.type.isSell = true → b.portfolio.active o.portfolioSlot = true →
      (b.sellQty o.portfolioSlot qty).isZero = false →
        RowsAccount.ClosesEvenly c b o.portfolioSlot (b.sellQty o.portfolioSlot qty))
    (hc : (b.handleFill c nowUs o price qty commission asset).Clean) :
    RowsMirrored c rates (b.handleFill c nowUs o price qty commission asset).val := by
  intro hroom
  have hlogs : Logs c [OrderEvent.makeFill o price qty (Books.bookedFee (Books.computedFee o price qty).val commission asset)]
      b.composer (b.handleFill c nowUs o price qty commission asset).val.composer := Mirrored.logs_handleFill hmode
  obtain ⟨hlaned, hlive⟩ := h (hlogs.room hroom)
  refine ⟨hlogs.laned hlaned, ?_⟩
  rw [accounts_of_logs hlogs hlaned hroom, accounts_snoc (booking_makeFill ..),
    SlotAccount.post_makeFill (hlive.shows o.portfolioSlot) hrep]
  simp only [Books.handleFill, Flagged.clean_bind] at hc
  simp only [Books.handleFill, Flagged.bind_val]
  generalize Books.bookedFee (Books.computedFee o price qty).val commission asset = fee at hrep hc ⊢
  have haudit := hlive.auditAppend (.makeFill o price qty fee) (some o.portfolioSlot)
  obtain ⟨hportfolio, hsettled⟩ := auditAppend_keeps c b (.makeFill o price qty fee) (some o.portfolioSlot)
  have heven' : o.type.isSell = true →
      (b.auditAppend c (.makeFill o price qty fee) (some o.portfolioSlot)).portfolio.active o.portfolioSlot = true →
        ((b.auditAppend c (.makeFill o price qty fee) (some o.portfolioSlot)).sellQty o.portfolioSlot qty).isZero = false →
          RowsAccount.ClosesEvenly c (b.auditAppend c (.makeFill o price qty fee) (some o.portfolioSlot)) o.portfolioSlot
            ((b.auditAppend c (.makeFill o price qty fee) (some o.portfolioSlot)).sellQty o.portfolioSlot qty) := by
    simp only [Books.sellQty, RowsAccount.ClosesEvenly, hportfolio, hsettled]
    exact heven
  rcases htype : o.type with _ | _ | _ | _
  all_goals simp only [htype] at hc heven' ⊢
  · exact haudit.handleBuyFill hwired hc.2
  · exact haudit.handleSellFill hwired (heven' rfl) hc.2
  · exact haudit.handleBuyFill hwired hc.2
  · exact haudit.handleSellFill hwired (heven' rfl) hc.2

end RowsMirrored

namespace OrderManagerState

variable {c : OmsConfig} {rates : NodeIdx → Money} {s : OrderManagerState}

/-- The rate of the node whose leg a turn books, if it books one. -/
def legRate (c : OmsConfig) (rates : NodeIdx → Money) (s : OrderManagerState) (a : Act) : Money :=
  match s.executed a with
  | none => .zero
  | some (_, i) => rates (c.slotNode (s.orders i).portfolioSlot)

/-- The walk books what the turn books: nothing saturates, the leg's fee is its row's, and a leg that empties its
    slot closes it evenly. -/
def Rebuildable (c : OmsConfig) (rates : NodeIdx → Money) (s : OrderManagerState) (a : Act) : Prop :=
  (s.act c a).Clean ∧ s.replayable (s.legRate c rates a) a = true ∧
    ∀ l ∈ s.legsOf a, l.isSell = true → s.books.portfolio.active l.slot = true →
      (s.books.sellQty l.slot l.qty).isZero = false →
        RowsAccount.ClosesEvenly c s.books l.slot (s.books.sellQty l.slot l.qty)

instance (c : OmsConfig) (b : Books) (slot : SlotIdx) (qLeg : Money) :
    Decidable (RowsAccount.ClosesEvenly c b slot qLeg) :=
  inferInstanceAs (Decidable (qLeg = (b.portfolio.positions slot).quantity → c.partialExitEnabled = false ∧
    ((b.portfolio.positions slot).entryPrice.mul qLeg).val.v =
      ((rowView c).settled b.composer (c.slotNode slot)).notional slot))

instance (c : OmsConfig) (rates : NodeIdx → Money) (s : OrderManagerState) (a : Act) :
    Decidable (Rebuildable c rates s a) :=
  inferInstanceAs (Decidable ((s.act c a).Clean ∧ s.replayable (s.legRate c rates a) a = true ∧
    ∀ l ∈ s.legsOf a, l.isSell = true → s.books.portfolio.active l.slot = true →
      (s.books.sellQty l.slot l.qty).isZero = false →
        RowsAccount.ClosesEvenly c s.books l.slot (s.books.sellQty l.slot l.qty)))

/-- A turn the walk rebuilds. -/
theorem rowsMirrored_act (hmode : c.eventLogMode = appendMode) (hwired : c.aggWired = true)
    (h : RowsMirrored c rates s.books) {a : Act} (hok : Rebuildable c rates s a) :
    RowsMirrored c rates (s.act c a).val.books := by
  obtain ⟨hc, hrep, heven⟩ := hok
  refine books_act_leg (RowsMirrored c rates) (RowsMirrored c rates) (fun _ => id) ?_ ?_ ?_ ?_ ?_ h hc
  · intro cmd i hcmd hexec us hb hleg
    have hexecuted : s.executed a = some (cmd, i) := by
      simp [executed, hcmd, hexec]
    have hreplays := legReplays_of_replayable hrep hcmd hexec
    unfold bookLeg at hleg ⊢
    split
    swap
    · exact hb
    next hqty =>
      rw [if_pos hqty] at hleg
      simp only [legReplays, decide_eq_true hqty, Bool.not_true, Bool.false_or, legRate, hexecuted] at hreplays
      simp only [legsOf, hexecuted, if_pos hqty, List.mem_singleton, forall_eq] at heven
      exact hb.handleFill hmode hwired hreplays heven hleg
  · intro b ev slot haudit hb
    have hnone := haudit.booking
    refine hb.congr (Mirrored.logs_auditAppend hmode fun i hi => ?_) (fun e he => ?_) fun acc hacc =>
      hacc.auditAppend ev slot
    · exact absurd (hnone.symm.trans hi) (Option.some_ne_none i).symm
    · obtain rfl := List.mem_singleton.1 he
      exact hnone
  · intro _ b hb hclean
    refine hb.congr (logs_fillRingsApply c b.composer) (fun _ he => absurd he List.not_mem_nil) fun acc hacc => ?_
    exact hacc.congr (ownRings_fillRingsApply c b.composer)
      ((rowView c).settled_fillRingsApply hacc.rings hclean) fun _ _ => id
  · intro b site hb _
    obtain ⟨rows, hrows, hlogs⟩ := logs_fatalMarker c b.composer site
    exact hb.congr hlogs hrows fun acc hacc => hacc.congr_fills (sameFills_fatalMarker ..) fun _ _ => id
  · intro b dc _ hb
    refine hb.congr (.of_sameQueues ⟨rfl, rfl, rfl⟩) (fun _ he => absurd he List.not_mem_nil) fun acc hacc => ?_
    refine hacc.congr hacc.rings rfl fun i book hshows => ?_
    obtain ⟨hactive, hquantity, hentryPrice, hentryFee⟩ := applyDrag_keeps b.portfolio dc i
    exact hshows.congr hactive hquantity hentryPrice hentryFee

theorem rowsMirrored_init (c : OmsConfig) (rates : NodeIdx → Money) (balance : Money)
    (tradeLog : Option (List (EmitRecord × Money))) : RowsMirrored c rates (init balance tradeLog).books := by
  intro _
  have htrail : (init balance tradeLog).books.composer.trail = [] := by
    have hpending : (init balance tradeLog).books.composer.pendingEvents = [] := lanes_eq_nil fun _ => rfl
    rw [trail, hpending]
    rfl
  have hsettled : ∀ n, (rowView c).settled (init balance tradeLog).books.composer n =
      (init balance tradeLog).books.composer.els.nodeView c n := fun n => (rowView c).settled_of_drained rfl
  refine ⟨⟨fun _ _ he => absurd he List.not_mem_nil, fun _ _ => rfl⟩, ?_⟩
  rw [htrail]
  refine ⟨fun _ _ he => absurd he List.not_mem_nil, fun _ => ⟨rfl, rfl, rfl, rfl⟩, fun n f => ?_, fun slot =>
    ?_, fun slot => ?_⟩
  · have hzero : (nodeSum c n fun slot => (accounts c rates [] slot).figures f) = 0 :=
      Finset.sum_eq_zero fun _ _ => ite_self 0
    rw [hzero, hsettled]
    cases f <;> rfl
  all_goals
    rw [hsettled]
    exact if_pos rfl

/-- In the appending mode, in every run of turns the walk rebuilds: once everything waiting is booked and as
    long as no
    row was dropped, a walk of the log from zeroed rows that saturates nothing puts on every node's row the realized
    profit, fees, open notional, entries, exits, wins and losses that the composer booked. -/
theorem rows_rebuilt (c : OmsConfig) (hmode : c.eventLogMode = appendMode) (hwired : c.aggWired = true)
    (rates : NodeIdx → Money) (balance : Money) (tradeLog : Option (List (EmitRecord × Money))) (as : List Act)
    {s : OrderManagerState} (hrun : run (step c) (init balance tradeLog) as = s)
    (hsteps : Steps (step c) (Rebuildable c rates) (init balance tradeLog) as)
    (hroom : s.books.composer.eventLog.logFullDrops = 0) (hfills : s.books.composer.pendingFills = [])
    (hevents : s.books.composer.pendingEvents = [])
    (hwalk : (reconstructPerCoreFromEventLog c rates s.books.composer.eventLog.entries fun _ => .zero).Clean) :
    RowsAgree (reconstructPerCoreFromEventLog c rates s.books.composer.eventLog.entries fun _ => .zero).val
      s.books.composer.els.nodes := by
  intro n f
  have hstep : ∀ (s : OrderManagerState) (a : Act), RowsMirrored c rates s.books → Rebuildable c rates s a →
      RowsMirrored c rates (s.step c a).books := fun s a h hok => rowsMirrored_act hmode hwired h hok
  have hmirrored : RowsMirrored c rates s.books := by
    rw [← hrun]
    exact run_inv_of_steps hstep as (rowsMirrored_init c rates balance tradeLog) hsteps
  obtain ⟨-, hlive⟩ := hmirrored hroom
  have haccounts : accounts c rates s.books.composer.trail = accounts c rates s.books.composer.eventLog.entries := by
    rw [trail, hevents, List.append_nil]
    exact foldOn_map _ _ _ OrderEvent.booking_unstamped (fun _ _ => rfl) _
  have hfigures := hlive.figures n f
  rw [haccounts, (rowView c).settled_of_drained (fillRings_eq_empty_of_pendingFills hfills n)] at hfigures
  rw [figure_reconstruct hwalk, ← hfigures]
  cases f <;> exact zero_add _

/-- Into the log, one slot a node or two. -/
def sampleLogged (pairs : Bool) : OmsConfig := { samplePaper with partialExitEnabled := pairs, aggWired := true }

/-- Ten units bought, four and then six of them sold. -/
def sampleTwoLegs : List Act :=
  [.submit (sampleTrade firstIdx .marketBuy 10), .popResult, .submit (sampleTrade firstIdx .marketSell 4), .popResult,
    .submit (sampleTrade firstIdx .marketSell 6), .popResult, .fillRingsApply]

/-- Both slots of a node bought, and both sold. -/
def samplePair : List Act :=
  [.submit (sampleTrade firstIdx .marketBuy 10), .popResult, .submit (sampleTrade nextIdx .marketBuy 10), .popResult,
    .submit (sampleTrade firstIdx .marketSell 10), .popResult, .submit (sampleTrade nextIdx .marketSell 10),
      .popResult,
    .fillRingsApply]

/-- A hundredth of a millionth, and twice that: their mean rounds up. -/
def sampleMean : List Act :=
  [.submit { sampleOrder firstIdx .marketBuy 1 with eventPrice := moneyFromDoublePayload 0.00000001 }, .popResult,
    .submit { sampleOrder firstIdx .marketBuy 1 with eventPrice := moneyFromDoublePayload 0.00000002 }, .popResult,
    .submit (sampleOrder firstIdx .marketSell 2), .popResult, .fillRingsApply]

/-- Where a sample run ends, and what the walk makes of its log. -/
def sampleBooked (pairs : Bool) (as : List Act) : OrderManagerState :=
  run (step (sampleLogged pairs)) (init (Money.fromInt 1000).val none) as

def sampleWalk (pairs : Bool) (as : List Act) : Flagged 64 (NodeIdx → NodeContext) :=
  reconstructPerCoreFromEventLog (sampleLogged pairs) (fun _ => sampleRate)
    (sampleBooked pairs as).books.composer.eventLog.entries
    fun _ => .zero

theorem rows_rebuilt_two_legs :
    RowsAgree (sampleWalk false sampleTwoLegs).val (sampleBooked false sampleTwoLegs).books.composer.els.nodes :=
  rows_rebuilt (sampleLogged false) rfl rfl (fun _ => sampleRate) (Money.fromInt 1000).val none sampleTwoLegs rfl
    (by decide +kernel) (by decide +kernel) (List.isEmpty_iff.1 (by decide +kernel))
      (List.isEmpty_iff.1 (by decide +kernel))
    (by decide +kernel)

example : ((sampleWalk false sampleMean).val firstIdx).figure .openNotional = -1 ∧
    ((sampleBooked false sampleMean).books.composer.els.nodes firstIdx).figure .openNotional = 0 := by decide +kernel

/-- Two slots of a node are one trade to the composer and two to the walk. -/
theorem pair_rebuilt_twice :
    (sampleBooked true samplePair).moneyOpFlags = 0 ∧
      (sampleBooked true samplePair).books.composer.eventLog.logFullDrops = 0 ∧
      (sampleBooked true samplePair).books.composer.pendingFills.isEmpty = true ∧ (sampleWalk true samplePair).Clean ∧
      ¬RowsAgree (sampleWalk true samplePair).val (sampleBooked true samplePair).books.composer.els.nodes := by
  refine ⟨by decide +kernel, by decide +kernel, by decide +kernel, by decide +kernel, fun h => ?_⟩
  have hlive : ((sampleBooked true samplePair).books.composer.els.nodes firstIdx).figure .losses = 1 := by
    decide +kernel
  have hwalk : ((sampleWalk true samplePair).val firstIdx).figure .losses = 2 := by decide +kernel
  have hagree := h firstIdx .losses
  omega

end OrderManagerState

end FoxTrader
