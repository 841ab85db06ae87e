import Mathlib.Algebra.Group.Pi.Basic
import FoxTrader.LedgerReplay

/-! # Rebuilding the node rows from the log

    `ReconstructPerCoreFromEventLog` walks the log and books what it finds on the rows of the nodes: a second
    accounting, written apart from the composer's. Slot by slot it is a `SlotAccount` of the slot's rows: its
    book, and the figures its legs put on the row of its node. -/

namespace FoxTrader

open Lib Function

/-! ### The walk -/

/-- A `SlotEntry` of the walk: what is open in a slot, and what its closed legs have netted. -/
structure SlotEntry where
  entryPrice : Money
  qty : Money
  entryFee : Money
  pendingNet : Money
  valid : Bool

def SlotEntry.zero : SlotEntry :=
  { entryPrice := .zero, qty := .zero, entryFee := .zero, pendingNet := .zero, valid := false }

/-- The slot trackers of the walk, and the rows it writes. -/
structure RowWalk where
  slots : SlotIdx → SlotEntry
  nodes : NodeIdx → NodeContext

/-- A leg opens its slot, or is averaged into it. -/
def SlotEntry.enter (s : SlotEntry) (price qty notional legFee : Money) : Flagged 64 SlotEntry :=
  if s.valid then do
    let oldNotional ← s.entryPrice.mul s.qty
    let newQty ← s.qty.add qty
    let entryPrice ← (← oldNotional.add notional).div newQty
    let entryFee ← s.entryFee.add legFee
    return { s with entryPrice, qty := newQty, entryFee }
  else pure { s with entryPrice := price, qty := qty, entryFee := legFee, valid := true }

namespace RowWalk

def put (w : RowWalk) (slot : SlotIdx) (node : NodeIdx) (entry : SlotEntry) (row : NodeContext) : RowWalk where
  slots := update w.slots slot entry
  nodes := update w.nodes node row

variable (c : OmsConfig) (rates : NodeIdx → Money)

def buy (w : RowWalk) (slot : SlotIdx) (e : OrderEvent) : Flagged 64 RowWalk := do
  let node := c.slotNode slot
  let notional ← e.price.mul e.qty
  let legFee ← FoldResult.rowFee (rates node) e (pure notional)
  let entry ← (w.slots slot).enter e.price e.qty notional legFee
  let nodeOpenNotional ← (w.nodes node).nodeOpenNotional.add notional
  return w.put slot node entry
    { w.nodes node with entriesProcessed := (w.nodes node).entriesProcessed + 1, nodeOpenNotional }

/-- A trade in the counts of its node. -/
def countTrade (ctx : NodeContext) (won : Bool) : NodeContext :=
  { ctx with nodeWins := ctx.nodeWins + won.toNat, nodeLosses := ctx.nodeLosses + (1 - won.toNat) }

/-- A sell leg of exactly `qLeg`. -/
def close (w : RowWalk) (slot : SlotIdx) (e : OrderEvent) (qLeg : Money) : Flagged 64 RowWalk := do
  let node := c.slotNode slot
  let s := w.slots slot
  let ctx := w.nodes node
  let entryFee ← consumeEntryFeeLeg s.entryFee qLeg s.qty
  let exitFee ← FoldResult.rowFee (rates node) e (e.price.mul qLeg)
  let totalFee ← entryFee.1.add exitFee
  let gross ← Money.fillGross s.entryPrice e.price qLeg
  let net ← gross.sub totalFee
  let nodeRealized ← ctx.nodeRealized.add net
  let nodeFees ← ctx.nodeFees.add totalFee
  let entryNotional ← s.entryPrice.mul qLeg
  let nodeOpenNotional ← ctx.nodeOpenNotional.sub entryNotional
  let qty ← s.qty.sub qLeg
  let tradeNet ← s.pendingNet.add net
  let row := { ctx with exitsProcessed := ctx.exitsProcessed + 1, nodeRealized, nodeFees, nodeOpenNotional }
  let entry := { s with entryFee := entryFee.2, qty }
  return if qLeg.eq s.qty then
      w.put slot node { entry with pendingNet := .zero, valid := false } (countTrade row (tradeNet.gt .zero))
    else w.put slot node { entry with pendingNet := tradeNet } row

def sell (w : RowWalk) (slot : SlotIdx) (e : OrderEvent) : Flagged 64 RowWalk :=
  if !(w.slots slot).valid then pure w
  else if (clampQty e.qty (w.slots slot).qty).isZero then pure w
  else w.close c rates slot e (clampQty e.qty (w.slots slot).qty)

/-- One row of the log; only market orders' rows are walked. -/
def event (w : RowWalk) (e : OrderEvent) : Flagged 64 RowWalk :=
  match e.booking with
  | none => pure w
  | some slot =>
    match e.orderType with
    | .marketBuy => w.buy c rates slot e
    | .marketSell => w.sell c rates slot e
    | _ => pure w

end RowWalk

/-- `EventLoopState_ReconstructPerCoreFromEventLog` on the log's entries, onto the rows `nodes`; `rates` are
    the taker rates of the nodes, zero where it is called without a configuration. -/
def reconstructPerCoreFromEventLog (c : OmsConfig) (rates : NodeIdx → Money) (entries : List OrderEvent)
    (nodes : NodeIdx → NodeContext) : Flagged 64 (NodeIdx → NodeContext) := do
  let w ← entries.foldlM (RowWalk.event c rates) { slots := fun _ => .zero, nodes }
  return w.nodes

/-! ### Figures -/

/-- The figures of a row that the walk rebuilds. -/
inductive RowFigure where
  | realized | fees | openNotional | entries | exits | wins | losses
  deriving DecidableEq

def NodeContext.figure (ctx : NodeContext) : RowFigure → ℤ
  | .realized => ctx.nodeRealized.v
  | .fees => ctx.nodeFees.v
  | .openNotional => ctx.nodeOpenNotional.v
  | .entries => ctx.entriesProcessed
  | .exits => ctx.exitsProcessed
  | .wins => ctx.nodeWins
  | .losses => ctx.nodeLosses

/-- The figures of all rows are the same. -/
def RowsAgree (nodes nodes' : NodeIdx → NodeContext) : Prop := ∀ n f, (nodes n).figure f = (nodes' n).figure f

/-- What a buy leg puts on its row. -/
def buyFigures (notional : ℤ) : RowFigure → ℤ
  | .openNotional => notional
  | .entries => 1
  | _ => 0

/-- What a sell leg puts on its row. -/
def sellFigures (net fees relief : ℤ) : RowFigure → ℤ
  | .realized => net
  | .fees => fees
  | .openNotional => -relief
  | .exits => 1
  | _ => 0

/-- What a trade puts on its row. -/
def tradeFigures (won : Bool) : RowFigure → ℤ
  | .wins => won.toNat
  | .losses => 1 - won.toNat
  | _ => 0

/-- What the slots of a node come to. -/
def nodeSum (c : OmsConfig) (n : NodeIdx) (f : SlotIdx → ℤ) : ℤ := ∑ slot, if c.slotNode slot = n then f slot else 0

theorem nodeSum_update (c : OmsConfig) (n : NodeIdx) (f : SlotIdx → ℤ) (slot : SlotIdx) (x : ℤ) :
    nodeSum c n (update f slot x) = nodeSum c n f + if n = c.slotNode slot then x - f slot else 0 := by
  have hrow : (fun i => if c.slotNode i = n then update f slot x i else 0) =
      update (fun i => if c.slotNode i = n then f i else 0) slot (if c.slotNode slot = n then x else 0) := by
    funext i
    rcases eq_or_ne i slot with rfl | hne
    · rw [update_self, update_self]
    · rw [update_of_ne hne, update_of_ne hne]
  rw [nodeSum, hrow, sum_update, ← nodeSum]
  by_cases hn : c.slotNode slot = n
  · rw [if_pos hn, if_pos hn, if_pos hn.symm]
  · rw [if_neg hn, if_neg hn, if_neg (Ne.symm hn), sub_zero]

theorem figure_countTrade (ctx : NodeContext) (won : Bool) (f : RowFigure) :
    (RowWalk.countTrade ctx won).figure f = ctx.figure f + tradeFigures won f := by
  cases f
  case wins => exact Int.natCast_add ..
  case losses => cases won <;> exact Int.natCast_add ..
  all_goals exact (add_zero _).symm

/-! ### One slot's account -/

/-- A slot's book, what its open trade has netted, and the figures its legs have put on the row. -/
structure SlotAccount where
  book : SlotBook
  pendingNet : ℤ
  figures : RowFigure → ℤ

namespace SlotAccount

def zero : SlotAccount := { book := .closed, pendingNet := 0, figures := 0 }

def buy (a : SlotAccount) (price qty fee : Money) : SlotAccount :=
  { a with book := a.book.buy price qty fee, figures := a.figures + buyFigures (price.mul qty).val.v }

/-- The fees of a sell leg: its share of the entry fee and its own. -/
def legFees (b : SlotBook) (qLeg fee : Money) : ℤ := (consumeEntryFeeLeg b.entryFee qLeg b.quantity).val.1.v + fee.v

/-- A sell leg of exactly `qLeg`; the one that leaves nothing ends the trade. -/
def close (a : SlotAccount) (price qLeg fee : Money) : SlotAccount :=
  let net := (a.book.net price qLeg fee).v
  let moved := a.figures + sellFigures net (legFees a.book qLeg fee) (a.book.entryPrice.mul qLeg).val.v
  if qLeg.eq a.book.quantity then
    { book := a.book.close price qLeg fee, pendingNet := 0, figures := moved + tradeFigures (0 < a.pendingNet + net) }
  else { book := a.book.close price qLeg fee, pendingNet := a.pendingNet + net, figures := moved }

def sell (a : SlotAccount) (price qty : Money) (fee : Money → Money) : SlotAccount :=
  if !a.book.active then a
  else
    let qLeg := clampQty qty a.book.quantity
    if qLeg.isZero then a else a.close price qLeg (fee qLeg)

/-- One row of the slot. -/
def post (rate : Money) (a : SlotAccount) (e : OrderEvent) : SlotAccount :=
  match e.orderType with
  | .marketBuy => a.buy e.price e.qty (SlotBook.replayFee rate e e.qty)
  | .marketSell => a.sell e.price e.qty (SlotBook.replayFee rate e)
  | _ => a

/-- The rate of the node a row books on. -/
def rowRate (c : OmsConfig) (rates : NodeIdx → Money) (e : OrderEvent) : Money :=
  (e.booking.map fun slot => rates (c.slotNode slot)).getD .zero

end SlotAccount

/-- What each slot makes of its own rows. -/
def accounts (c : OmsConfig) (rates : NodeIdx → Money) (rows : List OrderEvent) : SlotIdx → SlotAccount :=
  foldOn OrderEvent.booking (fun a e => a.post (SlotAccount.rowRate c rates e) e) SlotAccount.zero rows

theorem accounts_snoc {c : OmsConfig} {rates : NodeIdx → Money} {e : OrderEvent} {slot : SlotIdx}
    (hkey : e.booking = some slot) (rows : List OrderEvent) :
    accounts c rates (rows ++ [e]) =
      update (accounts c rates rows) slot ((accounts c rates rows slot).post (rates (c.slotNode slot)) e) := by
  have hrate : SlotAccount.rowRate c rates e = rates (c.slotNode slot) := by
    rw [SlotAccount.rowRate, hkey]
    rfl
  rw [accounts, foldOn_snoc_some _ _ _ hkey, hrate]
  rfl

/-! ### What the walk rebuilds -/

/-- The tracker of a slot is what the slot's account has open. -/
structure SlotAccount.Tracks (a : SlotAccount) (s : SlotEntry) : Prop where
  valid : s.valid = a.book.active
  qty : s.qty = a.book.quantity
  entryPrice : s.entryPrice = a.book.entryPrice
  entryFee : s.entryFee = a.book.entryFee
  pendingNet : s.pendingNet.v = a.pendingNet

/-- The walk has come to the accounts of the rows so far. -/
structure Walked (c : OmsConfig) (rates : NodeIdx → Money) (nodes : NodeIdx → NodeContext) (rows : List OrderEvent)
    (w : RowWalk) : Prop where
  slots : ∀ slot, (accounts c rates rows slot).Tracks (w.slots slot)
  figures : ∀ n f, (w.nodes n).figure f =
    (nodes n).figure f + nodeSum c n fun slot => (accounts c rates rows slot).figures f

namespace Walked

variable {c : OmsConfig} {rates : NodeIdx → Money} {nodes : NodeIdx → NodeContext} {rows : List OrderEvent}
    {w : RowWalk}
  {e : OrderEvent} {slot : SlotIdx}

/-- A row that leaves its slot's account alone. -/
theorem skip (h : Walked c rates nodes rows w) (hkey : e.booking = some slot)
    (hsame : (accounts c rates rows slot).post (rates (c.slotNode slot)) e = accounts c rates rows slot) :
    Walked c rates nodes (rows ++ [e]) w := by
  refine ⟨?_, ?_⟩ <;> rw [accounts_snoc hkey, hsame, update_eq_self]
  · exact h.slots
  · exact h.figures

/-- The tracker of a slot written, and its node's row moved by what the slot's account is. -/
theorem put {entry : SlotEntry} {row : NodeContext} (h : Walked c rates nodes rows w) (hkey : e.booking = some slot)
    (htracks : ((accounts c rates rows slot).post (rates (c.slotNode slot)) e).Tracks entry)
    (hrow : ∀ f, row.figure f = (w.nodes (c.slotNode slot)).figure f +
      (((accounts c rates rows slot).post (rates (c.slotNode slot)) e).figures f - (accounts c rates rows slot).figures f)) :
    Walked c rates nodes (rows ++ [e]) (w.put slot (c.slotNode slot) entry row) := by
  have hfigures : ∀ f, (fun i => (accounts c rates (rows ++ [e]) i).figures f) =
      update (fun i => (accounts c rates rows i).figures f) slot
        (((accounts c rates rows slot).post (rates (c.slotNode slot)) e).figures f) := by
    intro f
    rw [accounts_snoc hkey]
    funext i
    exact apply_update (fun _ (a : SlotAccount) => a.figures f) ..
  refine ⟨fun i => ?_, fun n f => ?_⟩
  · rw [accounts_snoc hkey]
    simp only [RowWalk.put]
    rcases eq_or_ne i slot with rfl | hne
    · rw [update_self, update_self]
      exact htracks
    · rw [update_of_ne hne, update_of_ne hne]
      exact h.slots i
  · rw [hfigures f, nodeSum_update, ← add_assoc, ← h.figures n f]
    simp only [RowWalk.put]
    rcases eq_or_ne n (c.slotNode slot) with rfl | hne
    · rw [update_self, if_pos rfl, hrow f]
    · rw [update_of_ne hne, if_neg hne, add_zero]

theorem tracks_enter {a : SlotAccount} {s : SlotEntry} {price qty fee : Money} (h : a.Tracks s) :
    (a.buy price qty fee).Tracks (s.enter price qty (price.mul qty).val fee).val := by
  unfold SlotEntry.enter SlotAccount.buy SlotBook.buy
  rw [← h.valid, ← h.qty, ← h.entryPrice, ← h.entryFee]
  rcases hvalid : s.valid with _ | _
  · simp only [Bool.false_eq_true, if_false, Flagged.pure_val]
    exact ⟨rfl, rfl, rfl, rfl, h.pendingNet⟩
  · simp only [if_true, Flagged.bind_val, Flagged.pure_val]
    exact ⟨rfl, rfl, rfl, rfl, h.pendingNet⟩

theorem buy (h : Walked c rates nodes rows w) (hkey : e.booking = some slot) (hbuy : e.orderType = .marketBuy)
    (hc : (w.buy c rates slot e).Clean) : Walked c rates nodes (rows ++ [e]) (w.buy c rates slot e).val := by
  have hfee : (FoldResult.rowFee (rates (c.slotNode slot)) e (pure (e.price.mul e.qty).val)).val =
      SlotBook.replayFee (rates (c.slotNode slot)) e e.qty := FoldResult.rowFee_pure_val _ e (e.price.mul e.qty)
  have hpost : (accounts c rates rows slot).post (rates (c.slotNode slot)) e =
      (accounts c rates rows slot).buy e.price e.qty (SlotBook.replayFee (rates (c.slotNode slot)) e e.qty) := by
    rw [SlotAccount.post, hbuy]
  simp only [RowWalk.buy, Flagged.clean_bind, Flagged.clean_pure, and_true] at hc
  simp only [RowWalk.buy, Flagged.bind_val, Flagged.pure_val, hfee]
  refine h.put hkey ?_ fun f => ?_
  · rw [hpost]
    exact tracks_enter (h.slots slot)
  · simp only [hpost, SlotAccount.buy, Pi.add_apply, add_sub_cancel_left]
    cases f
    case openNotional => exact Money.add_v hc.2.2.2
    case entries => exact Int.natCast_succ _
    all_goals exact (add_zero _).symm

/-- After the last leg of a trade nothing is tracked. -/
theorem tracks_close_last {a : SlotAccount} {s : SlotEntry} {price qLeg fee : Money} (h : a.Tracks s)
    (hlast : qLeg.eq s.qty = true) :
    (a.close price qLeg fee).Tracks
      { s with entryFee := (consumeEntryFeeLeg s.entryFee qLeg s.qty).val.2, qty := (s.qty.sub qLeg).val
               pendingNet := .zero, valid := false } := by
  have hgone : (s.qty.sub qLeg).val.isZero = true := Money.sub_isZero_iff.2 (Money.eq_iff.1 hlast).symm
  unfold SlotAccount.close
  rw [← h.qty]
  simp only [hlast, if_true]
  refine ⟨?_, ?_, h.entryPrice, ?_, rfl⟩ <;> simp only [SlotBook.close, ← h.qty, ← h.entryFee, hgone, Bool.not_true]

/-- After any other leg of it the rest is. -/
theorem tracks_close_leg {a : SlotAccount} {s : SlotEntry} {price qLeg fee : Money} (h : a.Tracks s)
    (hvalid : s.valid = true)
    (hleg : qLeg.eq s.qty = false) (hpending : (s.pendingNet.add (a.book.net price qLeg fee)).Clean) :
    (a.close price qLeg fee).Tracks
      { s with entryFee := (consumeEntryFeeLeg s.entryFee qLeg s.qty).val.2, qty := (s.qty.sub qLeg).val
               pendingNet := (s.pendingNet.add (a.book.net price qLeg fee)).val } := by
  have hleft : (s.qty.sub qLeg).val.isZero = false := by
    rw [← Bool.not_eq_true, Money.sub_isZero_iff]
    exact fun heq => ne_true_of_eq_false hleg (Money.eq_iff.2 heq.symm)
  unfold SlotAccount.close
  rw [← h.qty]
  simp only [hleg, if_false, Bool.false_eq_true]
  refine ⟨?_, ?_, h.entryPrice, ?_, ?_⟩ <;> simp only [SlotBook.close, ← h.qty, ← h.entryFee, hleft, Bool.not_false]
  · exact hvalid
  · rw [Money.add_v hpending, h.pendingNet]

theorem close {qLeg : Money} (h : Walked c rates nodes rows w) (hkey : e.booking = some slot)
    (hvalid : (w.slots slot).valid = true)
    (hpost : (accounts c rates rows slot).post (rates (c.slotNode slot)) e =
      (accounts c rates rows slot).close e.price qLeg (SlotBook.replayFee (rates (c.slotNode slot)) e qLeg))
    (hc : (w.close c rates slot e qLeg).Clean) :
    Walked c rates nodes (rows ++ [e]) (w.close c rates slot e qLeg).val := by
  have htracks := h.slots slot
  have hfee : (FoldResult.rowFee (rates (c.slotNode slot)) e (e.price.mul qLeg)).val =
      SlotBook.replayFee (rates (c.slotNode slot)) e qLeg := rfl
  simp only [RowWalk.close, Flagged.clean_bind, Flagged.clean_pure, and_true, hfee] at hc
  simp only [RowWalk.close, Flagged.bind_val, Flagged.pure_val, hfee]
  generalize SlotBook.replayFee (rates (c.slotNode slot)) e qLeg = fee at hpost hc ⊢
  obtain ⟨-, -, htotal, -, -, hrealized, hfees, -, hopen, -, hpending⟩ := hc
  have hnet : ((Money.fillGross (w.slots slot).entryPrice e.price qLeg).val.sub
      ((consumeEntryFeeLeg (w.slots slot).entryFee qLeg (w.slots slot).qty).val.1.add fee).val).val =
        (accounts c rates rows slot).book.net e.price qLeg fee := by
    rw [SlotBook.net, htracks.entryPrice, htracks.entryFee, htracks.qty]
  have hlegFees : ((consumeEntryFeeLeg (w.slots slot).entryFee qLeg (w.slots slot).qty).val.1.add fee).val.v =
      SlotAccount.legFees (accounts c rates rows slot).book qLeg fee := by
    rw [Money.add_v htotal, SlotAccount.legFees, htracks.entryFee, htracks.qty]
  have hrelief : (w.slots slot).entryPrice.mul qLeg = (accounts c rates rows slot).book.entryPrice.mul qLeg := by
    rw [htracks.entryPrice]
  rw [hnet] at hrealized hpending ⊢
  have hrow : ∀ f, NodeContext.figure
      { w.nodes (c.slotNode slot) with
        exitsProcessed := (w.nodes (c.slotNode slot)).exitsProcessed + 1
        nodeRealized := ((w.nodes (c.slotNode slot)).nodeRealized.add ((accounts c rates rows slot).book.net e.price qLeg fee)).val
        nodeFees := ((w.nodes (c.slotNode slot)).nodeFees.add
          ((consumeEntryFeeLeg (w.slots slot).entryFee qLeg (w.slots slot).qty).val.1.add fee).val).val
        nodeOpenNotional := ((w.nodes (c.slotNode slot)).nodeOpenNotional.sub ((w.slots slot).entryPrice.mul qLeg).val).val } f =
      (w.nodes (c.slotNode slot)).figure f + sellFigures ((accounts c rates rows slot).book.net e.price qLeg fee).v
        (SlotAccount.legFees (accounts c rates rows slot).book qLeg fee)
        ((accounts c rates rows slot).book.entryPrice.mul qLeg).val.v f := by
    intro f
    cases f
    case realized => exact Money.add_v hrealized
    case fees => exact (Money.add_v hfees).trans (congrArg _ hlegFees)
    case openNotional => exact (Money.sub_v hopen).trans (by rw [hrelief]; rfl)
    case exits => exact Int.natCast_succ _
    all_goals exact (add_zero _).symm
  split
  next hlast =>
    refine h.put hkey ?_ fun f => ?_
    · rw [hpost]
      exact tracks_close_last htracks hlast
    · have hwon : Money.gt ((w.slots slot).pendingNet.add ((accounts c rates rows slot).book.net e.price qLeg fee)).val .zero =
          decide (0 < (accounts c rates rows slot).pendingNet + ((accounts c rates rows slot).book.net e.price qLeg fee).v) := by
        rw [← htracks.pendingNet, ← Money.add_v hpending]
        rfl
      rw [hpost, figure_countTrade, hrow f, hwon]
      rw [htracks.qty] at hlast
      simp only [SlotAccount.close, hlast, if_true, Pi.add_apply]
      ring
  next hleg =>
    refine h.put hkey ?_ fun f => ?_
    · rw [hpost]
      exact tracks_close_leg htracks hvalid (eq_false_of_ne_true hleg) hpending
    · rw [htracks.qty] at hleg
      simp only [hpost, hrow f, SlotAccount.close, if_neg hleg, Pi.add_apply, add_sub_cancel_left]

theorem sell (h : Walked c rates nodes rows w) (hkey : e.booking = some slot) (hsell : e.orderType = .marketSell)
    (hc : (w.sell c rates slot e).Clean) : Walked c rates nodes (rows ++ [e]) (w.sell c rates slot e).val := by
  have hpost : (accounts c rates rows slot).post (rates (c.slotNode slot)) e =
      (accounts c rates rows slot).sell e.price e.qty (SlotBook.replayFee (rates (c.slotNode slot)) e) := by
    rw [SlotAccount.post, hsell]
  have htracks := h.slots slot
  unfold RowWalk.sell at hc ⊢
  rcases hvalid : (w.slots slot).valid with _ | _
  · simp only [Bool.not_false, if_true, Flagged.pure_val]
    exact h.skip hkey (by rw [hpost, SlotAccount.sell, ← htracks.valid, hvalid]; rfl)
  simp only [hvalid, Bool.not_true, Bool.false_eq_true, if_false] at hc ⊢
  split
  next hnone =>
    exact h.skip hkey (by rw [hpost]; simp [SlotAccount.sell, ← htracks.valid, ← htracks.qty, hvalid, hnone])
  next hsome =>
    rw [if_neg hsome] at hc
    refine h.close hkey hvalid ?_ hc
    rw [hpost]
    simp [SlotAccount.sell, ← htracks.valid, ← htracks.qty, hvalid, hsome]

theorem event (h : Walked c rates nodes rows w) (hc : (w.event c rates e).Clean) :
    Walked c rates nodes (rows ++ [e]) (w.event c rates e).val := by
  unfold RowWalk.event at hc ⊢
  rcases hkey : e.booking with _ | slot
  · simp only [Flagged.pure_val]
    have hsame : accounts c rates (rows ++ [e]) = accounts c rates rows := foldOn_snoc_none _ _ _ hkey rows
    refine ⟨?_, ?_⟩ <;> rw [hsame]
    · exact h.slots
    · exact h.figures
  simp only [hkey] at hc ⊢
  rcases htype : e.orderType with _ | _ | _ | _
  all_goals simp only [htype] at hc ⊢
  · exact h.buy hkey htype hc
  · exact h.sell hkey htype hc
  · exact h.skip hkey (by rw [SlotAccount.post, htype])
  · exact h.skip hkey (by rw [SlotAccount.post, htype])

end Walked

/-- A walk that does not saturate puts on the rows what the slots' accounts of the log come to. -/
theorem figure_reconstruct {c : OmsConfig} {rates : NodeIdx → Money} {entries : List OrderEvent}
    {nodes : NodeIdx → NodeContext} (hc : (reconstructPerCoreFromEventLog c rates entries nodes).Clean) (n : NodeIdx)
    (f : RowFigure) :
    ((reconstructPerCoreFromEventLog c rates entries nodes).val n).figure f =
      (nodes n).figure f + nodeSum c n fun slot => (accounts c rates entries slot).figures f := by
  rw [reconstructPerCoreFromEventLog, Flagged.clean_bind] at hc
  have hstart : Walked c rates nodes [] { slots := fun _ => .zero, nodes } := by
    refine ⟨fun _ => ⟨rfl, rfl, rfl, rfl, rfl⟩, fun n f => ?_⟩
    have hzero : (nodeSum c n fun slot => (accounts c rates [] slot).figures f) = 0 :=
      Finset.sum_eq_zero fun _ _ => ite_self 0
    rw [hzero, add_zero]
  have hwalk := Flagged.foldlM_inv (f := RowWalk.event c rates)
    (fun w rest => ∃ rows, entries = rows ++ rest ∧ Walked c rates nodes rows w)
    (by
      rintro w e rest ⟨rows, hrows, h⟩ hclean
      exact ⟨rows ++ [e], by rw [hrows, List.append_assoc]; rfl, h.event hclean⟩)
    entries ⟨[], rfl, hstart⟩ hc.1
  obtain ⟨rows, hrows, h⟩ := hwalk
  rw [List.append_nil] at hrows
  rw [hrows]
  rw [hrows] at h
  exact h.figures n f

end FoxTrader
