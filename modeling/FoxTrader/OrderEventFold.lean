import FoxTrader.Lib.Lanes
import FoxTrader.Portfolio
import FoxTrader.OrderEventLog

/-! # The portfolio fold over the event log

    `Portfolio_FromEventLog` rebuilds balance, realized profit and positions from the fill rows of
    the log. A row's own fee is preferred and a zero one is taken for missing and recomputed from the
    rate. Each row touches the slot it is filed under and no other, so the fold is, slot by slot,
    the fold of a `SlotBook` over the slot's own rows, and balance and profit are the sum of what
    the slots have earned. -/

namespace FoxTrader

open Lib Function

/-! ### The fold -/

structure FoldResult where
  balance : Money
  realizedPnl : Money
  portfolio : Portfolio
  fillsProcessed : Nat

def OrderEvent.isFill (e : OrderEvent) : Bool := e.type = .fullFill || e.type = .partialFill

theorem toNat_lt_slots {n : Int} (h : 0 ≤ n ∧ n < 16) : n.toNat < 16 := by omega

/-- The slot a row is filed under, if it is one. -/
def slotOfNode (n : Int) : Option SlotIdx := if h : 0 ≤ n ∧ n < 16 then some ⟨n.toNat, toNat_lt_slots h⟩ else none

namespace FoldResult

variable (rate : Money) (nowUs : Nat)

/-- A row's own fee, or the fee of `notional` if it has none. -/
def rowFee (e : OrderEvent) (notional : Flagged 64 Money) : Flagged 64 Money :=
  if !e.fee.isZero then pure e.fee else do (← notional).mul rate

/-- The first leg opens the slot, a later one is averaged in. -/
def placeLeg (r : FoldResult) (slot : SlotIdx) (e : OrderEvent) (legFee : Money) : Flagged 64 Portfolio :=
  if r.portfolio.active slot then r.portfolio.accumulateSlotLeg slot e.price e.qty legFee
  else pure (r.portfolio.openSlot slot
    { entryPrice := e.price, quantity := e.qty, takeProfitPrice := e.tp, stopLossPrice := e.sl
      entryFee := legFee, entryTimestampUs := e.timestampUs } nowUs)

def foldBuy (r : FoldResult) (slot : SlotIdx) (e : OrderEvent) : Flagged 64 FoldResult := do
  let notional ← e.price.mul e.qty
  let legFee ← rowFee rate e (pure notional)
  let portfolio ← placeLeg nowUs r slot e legFee
  return { r with portfolio, fillsProcessed := r.fillsProcessed + 1 }

/-- A sell leg, clamped to `qLeg`. -/
def foldClose (r : FoldResult) (slot : SlotIdx) (e : OrderEvent) (qLeg : Money) : Flagged 64 FoldResult := do
  let leg ← r.portfolio.takeLeg slot e.price qLeg
  let exitFee ← rowFee rate e (e.price.mul qLeg)
  let totalFee ← leg.entryFee.add exitFee
  let net ← leg.gross.sub totalFee
  let balance ← r.balance.add net
  let realizedPnl ← r.realizedPnl.add net
  return { balance, realizedPnl, portfolio := leg.portfolio, fillsProcessed := r.fillsProcessed + 1 }

def foldSell (r : FoldResult) (slot : SlotIdx) (e : OrderEvent) : Flagged 64 FoldResult :=
  if !r.portfolio.active slot then pure r
  else if (clampQty e.qty (r.portfolio.positions slot).quantity).isZero then pure r
  else r.foldClose rate slot e (clampQty e.qty (r.portfolio.positions slot).quantity)

/-- One turn of the loop. A limit order's row only counts. -/
def foldEvent (r : FoldResult) (e : OrderEvent) : Flagged 64 FoldResult :=
  if !e.isFill then pure r
  else
    match slotOfNode e.nodeId with
    | none => pure r
    | some slot =>
      match e.orderType with
      | .marketBuy => foldBuy rate nowUs r slot e
      | .marketSell => foldSell rate r slot e
      | _ => pure { r with fillsProcessed := r.fillsProcessed + 1 }

end FoldResult

/-- `Portfolio_FromEventLog` on the log's entries; `nowUs` stands in for a zero row timestamp. -/
def portfolioFromEventLog (entries : List OrderEvent) (startingBalance rate : Money) (nowUs : Nat) :
    Flagged 64 FoldResult :=
  entries.foldlM (FoldResult.foldEvent rate nowUs)
    { balance := startingBalance, realizedPnl := .zero, portfolio := .init, fillsProcessed := 0 }

/-! ### One slot's book -/

/-- What one slot holds, and what its legs have earned. -/
structure SlotBook where
  active : Bool
  quantity : Money
  entryPrice : Money
  entryFee : Money
  earned : ℤ

namespace SlotBook

def closed : SlotBook := { active := false, quantity := .zero, entryPrice := .zero, entryFee := .zero, earned := 0 }

def buy (b : SlotBook) (price qty fee : Money) : SlotBook :=
  if b.active then
    let quantity := (b.quantity.add qty).val
    let notional := ((b.entryPrice.mul b.quantity).val.add (price.mul qty).val).val
    { b with quantity, entryPrice := (notional.div quantity).val, entryFee := (b.entryFee.add fee).val }
  else { active := true, quantity := qty, entryPrice := price, entryFee := fee, earned := b.earned }

/-- The net of a sell leg of `qLeg`: its gross less its share of the entry fee and its own fee. -/
def net (b : SlotBook) (price qLeg fee : Money) : Money :=
  ((Money.fillGross b.entryPrice price qLeg).val.sub
    ((consumeEntryFeeLeg b.entryFee qLeg b.quantity).val.1.add fee).val).val

/-- A sell leg of exactly `qLeg`. -/
def close (b : SlotBook) (price qLeg fee : Money) : SlotBook where
  active := !(b.quantity.sub qLeg).val.isZero
  quantity := (b.quantity.sub qLeg).val
  entryPrice := b.entryPrice
  entryFee := (consumeEntryFeeLeg b.entryFee qLeg b.quantity).val.2
  earned := b.earned + (b.net price qLeg fee).v

/-- A sell takes at most what is held, and nothing from a slot that holds nothing. -/
def sell (b : SlotBook) (price qty : Money) (fee : Money → Money) : SlotBook :=
  if !b.active then b
  else
    let qLeg := clampQty qty b.quantity
    if qLeg.isZero then b else b.close price qLeg (fee qLeg)

/-- The fee a row books for a leg of `qty`. -/
def replayFee (rate : Money) (e : OrderEvent) (qty : Money) : Money :=
  (FoldResult.rowFee rate e (e.price.mul qty)).val

/-- One row of the slot. -/
def post (rate : Money) (b : SlotBook) (e : OrderEvent) : SlotBook :=
  match e.orderType with
  | .marketBuy => b.buy e.price e.qty (replayFee rate e e.qty)
  | .marketSell => b.sell e.price e.qty (replayFee rate e)
  | _ => b

/-- The book is what the portfolio has in the slot. -/
structure Shows (b : SlotBook) (p : Portfolio) (slot : SlotIdx) : Prop where
  active : p.active slot = b.active
  quantity : (p.positions slot).quantity = b.quantity
  entryPrice : (p.positions slot).entryPrice = b.entryPrice
  entryFee : (p.positions slot).entryFee = b.entryFee

variable {b : SlotBook} {p : Portfolio} {slot : SlotIdx} {price qty qLeg fee : Money}

theorem Shows.congr {p' : Portfolio} (h : b.Shows p slot) (hactive : p'.active slot = p.active slot)
    (hquantity : (p'.positions slot).quantity = (p.positions slot).quantity)
    (hprice : (p'.positions slot).entryPrice = (p.positions slot).entryPrice)
    (hfee : (p'.positions slot).entryFee = (p.positions slot).entryFee) : b.Shows p' slot :=
  ⟨hactive.trans h.active, hquantity.trans h.quantity, hprice.trans h.entryPrice, hfee.trans h.entryFee⟩

theorem Shows.of_positions_eq {p' : Portfolio} (h : b.Shows p slot) (hactive : p'.active slot = p.active slot)
    (hpos : p'.positions slot = p.positions slot) : b.Shows p' slot := by
  refine h.congr hactive ?_ ?_ ?_ <;> rw [hpos]

theorem Shows.accumulate (h : b.Shows p slot) (hactive : p.active slot = true) :
    (b.buy price qty fee).Shows (p.accumulateSlotLeg slot price qty fee).val slot := by
  rw [buy, if_pos (h.active.symm.trans hactive)]
  constructor
  · exact h.active
  all_goals
    simp only [Portfolio.accumulateSlotLeg, Flagged.bind_val, Flagged.pure_val, update_self, h.quantity, h.entryPrice,
      h.entryFee]

theorem Shows.open {args : PositionEntryArgs} {nowUs : Nat} (h : b.Shows p slot) (hactive : p.active slot = false)
    (hprice : args.entryPrice = price) (hqty : args.quantity = qty) (hfee : args.entryFee = fee) :
    (b.buy price qty fee).Shows (p.openSlot slot args nowUs) slot := by
  subst hprice hqty hfee
  rw [buy, if_neg (ne_true_of_eq_false (h.active.symm.trans hactive))]
  constructor <;> simp only [Portfolio.openSlot, update_self]

theorem Shows.takeLeg (h : b.Shows p slot) (hactive : p.active slot = true) (price qLeg fee : Money) :
    (b.close price qLeg fee).Shows (p.takeLeg slot price qLeg).val.portfolio slot := by
  constructor
  · rw [Portfolio.takeLeg_active hactive, h.quantity]
    rfl
  · rw [Portfolio.takeLeg_quantity, h.quantity]
    rfl
  · simp only [Portfolio.takeLeg, Portfolio.closeSlotLeg, Portfolio.setEntryFee, Flagged.bind_val, Flagged.pure_val,
      update_self]
    exact h.entryPrice
  · rw [Portfolio.takeLeg_entryFee, h.quantity, h.entryFee]
    rfl

/-- The net of a leg, from what the portfolio's own operations return. -/
theorem Shows.net (h : b.Shows p slot) (price qLeg fee : Money) :
    ((p.takeLeg slot price qLeg).val.gross.sub ((p.takeLeg slot price qLeg).val.entryFee.add fee).val).val =
      b.net price qLeg fee := by
  simp only [Portfolio.takeLeg, Portfolio.closeSlotLeg, Portfolio.setEntryFee, Flagged.bind_val, Flagged.pure_val,
    update_self, h.quantity, h.entryFee, h.entryPrice]
  rfl

end SlotBook

/-! ### The books of all slots -/

/-- The slot a row books on. -/
def OrderEvent.booking (e : OrderEvent) : Option SlotIdx := if e.isFill then slotOfNode e.nodeId else none

/-- What each slot makes of its own rows. -/
def shelf (rate : Money) (rows : List OrderEvent) : SlotIdx → SlotBook :=
  foldOn OrderEvent.booking (SlotBook.post rate) SlotBook.closed rows

/-- The books account for a portfolio, and what they earned for a balance and a profit. -/
structure Accounts (books : SlotIdx → SlotBook) (p : Portfolio) (start balance realized : ℤ) : Prop where
  shows : ∀ slot, (books slot).Shows p slot
  balance : balance = start + ∑ slot, (books slot).earned
  realized : realized = ∑ slot, (books slot).earned

namespace Accounts

variable {books : SlotIdx → SlotBook} {p p' : Portfolio} {start balance realized : ℤ} {slot : SlotIdx}
    {book : SlotBook}

theorem closed (start : ℤ) : Accounts (fun _ => .closed) .init start start 0 := by
  have hzero : ∑ _slot : SlotIdx, (0 : ℤ) = 0 := Finset.sum_const_zero
  refine ⟨fun _ => ⟨rfl, rfl, rfl, rfl⟩, ?_, hzero.symm⟩
  exact (add_zero start).symm.trans (congrArg (start + ·) hzero.symm)

/-- One slot's book written, and balance and profit moved by what it earned meanwhile. -/
theorem update (h : Accounts books p start balance realized)
    (hothers : ∀ i, i ≠ slot → p'.active i = p.active i ∧ p'.positions i = p.positions i)
    (hshows : book.Shows p' slot) :
    Accounts (Function.update books slot book) p' start (balance + (book.earned - (books slot).earned))
      (realized + (book.earned - (books slot).earned)) := by
  have hsum : ∑ i, (Function.update books slot book i).earned =
      ∑ i, (books i).earned + (book.earned - (books slot).earned) := sum_update_field books slot book SlotBook.earned
  refine ⟨fun i => ?_, ?_, ?_⟩
  · rcases eq_or_ne i slot with rfl | hne
    · rw [update_self]
      exact hshows
    · rw [update_of_ne hne]
      exact (h.shows i).of_positions_eq (hothers i hne).1 (hothers i hne).2
  · rw [hsum, h.balance, add_assoc]
  · rw [hsum, h.realized]

/-- The same books account for one balance, one profit and one set of held positions only. -/
theorem unique {balance' realized' : ℤ} (h : Accounts books p start balance realized)
    (h' : Accounts books p' start balance' realized') :
    balance = balance' ∧ realized = realized' ∧ p.active = p'.active ∧
      ∀ slot, (p.positions slot).quantity = (p'.positions slot).quantity ∧
        (p.positions slot).entryPrice = (p'.positions slot).entryPrice ∧
        (p.positions slot).entryFee = (p'.positions slot).entryFee := by
  refine ⟨h.balance.trans h'.balance.symm, h.realized.trans h'.realized.symm,
    funext fun slot => (h.shows slot).active.trans (h'.shows slot).active.symm, fun slot => ⟨?_, ?_, ?_⟩⟩
  · exact (h.shows slot).quantity.trans (h'.shows slot).quantity.symm
  · exact (h.shows slot).entryPrice.trans (h'.shows slot).entryPrice.symm
  · exact (h.shows slot).entryFee.trans (h'.shows slot).entryFee.symm

end Accounts

/-! ### What the fold computes -/

namespace FoldResult

variable {rate : Money} {nowUs : Nat} {start : ℤ} {rows : List OrderEvent} {r : FoldResult} {e : OrderEvent}
  {slot : SlotIdx}

/-- The books of the rows so far account for the result so far. -/
def Replays (rate : Money) (start : ℤ) (rows : List OrderEvent) (r : FoldResult) : Prop :=
  Accounts (shelf rate rows) r.portfolio start r.balance.v r.realizedPnl.v

theorem Replays.skip (h : Replays rate start rows r) (hkey : e.booking = none) :
    Replays rate start (rows ++ [e]) r := by
  rw [Replays, shelf, foldOn_snoc_none _ _ _ hkey]
  exact h

/-- A row that books on `slot` is accounted for by that slot's book with the row posted. -/
theorem Replays.post {r' : FoldResult} (h : Replays rate start rows r) (hkey : e.booking = some slot)
    (hothers : ∀ i, i ≠ slot → r'.portfolio.active i = r.portfolio.active i ∧
      r'.portfolio.positions i = r.portfolio.positions i)
    (hshows : ((shelf rate rows slot).post rate e).Shows r'.portfolio slot)
    (hbalance : r'.balance.v = r.balance.v + (((shelf rate rows slot).post rate e).earned - (shelf rate rows slot).earned))
    (hrealized : r'.realizedPnl.v =
      r.realizedPnl.v + (((shelf rate rows slot).post rate e).earned - (shelf rate rows slot).earned)) :
    Replays rate start (rows ++ [e]) r' := by
  rw [Replays, shelf, foldOn_snoc_some _ _ _ hkey, hbalance, hrealized]
  exact Accounts.update h hothers hshows

theorem rowFee_pure_val (rate : Money) (e : OrderEvent) (m : Flagged 64 Money) :
    (rowFee rate e (pure m.val)).val = (rowFee rate e m).val := by
  unfold rowFee
  split <;> rfl

theorem Replays.foldBuy (h : Replays rate start rows r) (hkey : e.booking = some slot)
    (hbuy : e.orderType = .marketBuy) :
    Replays rate start (rows ++ [e]) (foldBuy rate nowUs r slot e).val := by
  have hfee : (rowFee rate e (pure (e.price.mul e.qty).val)).val = SlotBook.replayFee rate e e.qty :=
    rowFee_pure_val rate e (e.price.mul e.qty)
  have hpost : (shelf rate rows slot).post rate e =
      (shelf rate rows slot).buy e.price e.qty (SlotBook.replayFee rate e e.qty) := by
    rw [SlotBook.post, hbuy]
  have hearned : ((shelf rate rows slot).post rate e).earned = (shelf rate rows slot).earned := by
    rw [hpost, SlotBook.buy]
    split <;> rfl
  simp only [FoldResult.foldBuy, Flagged.bind_val, Flagged.pure_val, hfee]
  refine h.post hkey ?_ ?_ (by rw [hearned, sub_self, add_zero]) (by rw [hearned, sub_self, add_zero])
  · intro i hne
    unfold placeLeg
    split
    · exact ⟨rfl, update_of_ne hne ..⟩
    · exact ⟨update_of_ne hne .., update_of_ne hne ..⟩
  · rw [hpost]
    rcases hactive : r.portfolio.active slot with _ | _
    · simp only [placeLeg, hactive, Bool.false_eq_true, if_false, Flagged.pure_val]
      exact (h.shows slot).open hactive rfl rfl rfl
    · simp only [placeLeg, hactive, if_true]
      exact (h.shows slot).accumulate hactive

theorem Replays.foldSell (h : Replays rate start rows r) (hkey : e.booking = some slot)
    (hsell : e.orderType = .marketSell) (hc : (foldSell rate r slot e).Clean) :
    Replays rate start (rows ++ [e]) (foldSell rate r slot e).val := by
  have hpost : (shelf rate rows slot).post rate e =
      (shelf rate rows slot).sell e.price e.qty (SlotBook.replayFee rate e) := by
    rw [SlotBook.post, hsell]
  -- a row that takes nothing is posted without effect
  have hskip : (shelf rate rows slot).sell e.price e.qty (SlotBook.replayFee rate e) = shelf rate rows slot →
      Replays rate start (rows ++ [e]) r := by
    intro hsame
    refine h.post hkey (fun _ _ => ⟨rfl, rfl⟩) ?_ ?_ ?_ <;> rw [hpost, hsame]
    · exact h.shows slot
    · rw [sub_self, add_zero]
    · rw [sub_self, add_zero]
  have hshows := h.shows slot
  unfold FoldResult.foldSell at hc ⊢
  rcases hactive : r.portfolio.active slot with _ | _
  · simp only [Bool.not_false, if_true, Flagged.pure_val]
    exact hskip (by rw [SlotBook.sell, ← hshows.active, hactive]; rfl)
  simp only [hactive, Bool.not_true, Bool.false_eq_true, if_false] at hc ⊢
  split
  next hnone => exact hskip (by simp [SlotBook.sell, ← hshows.active, ← hshows.quantity, hactive, hnone])
  next hsome =>
    rw [if_neg hsome] at hc
    have hclose : (shelf rate rows slot).post rate e =
        (shelf rate rows slot).close e.price (clampQty e.qty (r.portfolio.positions slot).quantity)
          (SlotBook.replayFee rate e (clampQty e.qty (r.portfolio.positions slot).quantity)) := by
      rw [hpost, SlotBook.sell, ← hshows.active, hactive]
      simp only [Bool.not_true, Bool.false_eq_true, if_false, ← hshows.quantity, if_neg hsome]
    generalize clampQty e.qty (r.portfolio.positions slot).quantity = qLeg at hc hclose ⊢
    have hnet := hshows.net e.price qLeg (SlotBook.replayFee rate e qLeg)
    simp only [foldClose, Flagged.clean_bind, Flagged.clean_pure, and_true] at hc
    obtain ⟨-, -, -, -, hbalance, hrealized⟩ := hc
    refine h.post hkey (fun i hne => Portfolio.takeLeg_of_ne hne e.price _) ?_ ?_ ?_ <;> rw [hclose]
    · exact hshows.takeLeg hactive ..
    · refine (Money.add_v hbalance).trans ?_
      rw [SlotBook.close, ← hnet, add_sub_cancel_left]
      rfl
    · refine (Money.add_v hrealized).trans ?_
      rw [SlotBook.close, ← hnet, add_sub_cancel_left]
      rfl

theorem Replays.foldEvent (h : Replays rate start rows r) (hc : (foldEvent rate nowUs r e).Clean) :
    Replays rate start (rows ++ [e]) (foldEvent rate nowUs r e).val := by
  unfold FoldResult.foldEvent at hc ⊢
  rcases hfill : e.isFill with _ | _
  · exact h.skip (by rw [OrderEvent.booking, hfill]; rfl)
  simp only [hfill, Bool.not_true, Bool.false_eq_true, if_false] at hc ⊢
  rcases hslot : slotOfNode e.nodeId with _ | slot
  · exact h.skip (by rw [OrderEvent.booking, hfill, hslot]; rfl)
  have hkey : e.booking = some slot := by rw [OrderEvent.booking, hfill, hslot]; rfl
  simp only [hslot] at hc ⊢
  rcases htype : e.orderType with _ | _ | _ | _
  all_goals simp only [htype] at hc ⊢
  · exact h.foldBuy hkey htype
  · exact h.foldSell hkey htype hc
  all_goals
    have hsame : (shelf rate rows slot).post rate e = shelf rate rows slot := by rw [SlotBook.post, htype]
    refine h.post hkey (fun _ _ => ⟨rfl, rfl⟩) ?_ ?_ ?_ <;> rw [hsame]
  · exact h.shows slot
  · exact (add_sub_cancel_right r.balance.v _).symm.trans (add_sub_assoc ..)
  · exact (add_sub_cancel_right r.realizedPnl.v _).symm.trans (add_sub_assoc ..)
  · exact h.shows slot
  · exact (add_sub_cancel_right r.balance.v _).symm.trans (add_sub_assoc ..)
  · exact (add_sub_cancel_right r.realizedPnl.v _).symm.trans (add_sub_assoc ..)

end FoldResult

/-- A fold that does not saturate is accounted for by the books of the rows it folded. -/
theorem accounts_portfolioFromEventLog {entries : List OrderEvent} {startingBalance rate : Money} {nowUs : Nat}
    (hc : (portfolioFromEventLog entries startingBalance rate nowUs).Clean) :
    let r := (portfolioFromEventLog entries startingBalance rate nowUs).val
    Accounts (shelf rate entries) r.portfolio startingBalance.v r.balance.v r.realizedPnl.v := by
  have hfold := Flagged.foldlM_inv (f := FoldResult.foldEvent rate nowUs)
    (fun r rest => ∃ rows, entries = rows ++ rest ∧ r.Replays rate startingBalance.v rows)
    (by
      rintro r e rest ⟨rows, hrows, h⟩ hclean
      exact ⟨rows ++ [e], by rw [hrows, List.append_assoc]; rfl, h.foldEvent hclean⟩)
    entries (s := ⟨startingBalance, .zero, .init, 0⟩) ⟨[], rfl, Accounts.closed startingBalance.v⟩ hc
  obtain ⟨rows, hrows, h⟩ := hfold
  rw [List.append_nil] at hrows
  rw [hrows]
  rw [hrows] at h
  exact h

/-! ### Reordered logs -/

/-- The same balances, and the same positions as far as money goes. -/
structure FoldResult.Agrees (r r' : FoldResult) : Prop where
  balance : r.balance = r'.balance
  realizedPnl : r.realizedPnl = r'.realizedPnl
  active : r.portfolio.active = r'.portfolio.active
  quantity : ∀ slot, (r.portfolio.positions slot).quantity = (r'.portfolio.positions slot).quantity
  entryPrice : ∀ slot, (r.portfolio.positions slot).entryPrice = (r'.portfolio.positions slot).entryPrice
  entryFee : ∀ slot, (r.portfolio.positions slot).entryFee = (r'.portfolio.positions slot).entryFee

theorem slotOfNode_eq_some {n : Int} {slot : SlotIdx} (h : slotOfNode n = some slot) : n = slot.val := by
  unfold slotOfNode at h
  split at h
  · obtain rfl := Option.some_inj.1 h
    exact (Int.toNat_of_nonneg (by omega)).symm
  · exact absurd h.symm (Option.some_ne_none slot)

/-- The rows a slot books are rows of its node id. -/
theorem OrderEvent.nodeId_of_booking {e : OrderEvent} {slot : SlotIdx} (h : e.booking = some slot) :
    e.nodeId = slot.val := by
  unfold booking at h
  split at h
  · exact slotOfNode_eq_some h
  · exact absurd h.symm (Option.some_ne_none slot)

/-- Of two logs with the rows of each node id in the same order, the slots keep the same books. -/
theorem shelf_reordered {xs ys : List OrderEvent} (rate : Money)
    (h : ∀ n, xs.filter (fun e => e.nodeId = n) = ys.filter fun e => e.nodeId = n) :
    shelf rate xs = shelf rate ys := by
  have hnarrow : ∀ (rows : List OrderEvent) (slot : SlotIdx), rows.filter (fun e => e.booking = some slot) =
      (rows.filter fun e => e.nodeId = (slot.val : Int)).filter fun e => e.booking = some slot := by
    intro rows slot
    rw [List.filter_filter]
    refine List.filter_congr fun e _ => ?_
    by_cases hbooking : e.booking = some slot
    · simp [hbooking, OrderEvent.nodeId_of_booking hbooking]
    · simp [hbooking]
  refine foldOn_congr _ _ _ fun slot => ?_
  rw [hnarrow xs, hnarrow ys, h]

/-- The fold does not depend on how the rows of different slots are interleaved, as long as it does
    not saturate. -/
theorem fold_reordered (xs ys : List OrderEvent) (startingBalance rate : Money) (nowUs nowUs' : Nat)
    (h : ∀ n, xs.filter (fun e => e.nodeId = n) = ys.filter fun e => e.nodeId = n)
    (hc : (portfolioFromEventLog xs startingBalance rate nowUs).Clean)
    (hc' : (portfolioFromEventLog ys startingBalance rate nowUs').Clean) :
    (portfolioFromEventLog xs startingBalance rate nowUs).val.Agrees
      (portfolioFromEventLog ys startingBalance rate nowUs').val := by
  have haccounts := accounts_portfolioFromEventLog hc
  have haccounts' := accounts_portfolioFromEventLog hc'
  rw [← shelf_reordered rate h] at haccounts'
  obtain ⟨hbalance, hrealized, hactive, hslots⟩ := haccounts.unique haccounts'
  exact ⟨Money.ext hbalance, Money.ext hrealized, hactive, fun slot => (hslots slot).1, fun slot => (hslots slot).2.1,
    fun slot => (hslots slot).2.2⟩

/-- A fill row of `qty` units at 100, with a fee of one. -/
def sampleRow (slot : SlotIdx) (type : OrderType) (qty : Int) : OrderEvent :=
  { eventId := 0, orderId := 1, timestampUs := 1, type := .fullFill, orderType := type, nodeId := slot.val
    price := (Money.fromInt 100).val, qty := (Money.fromInt qty).val, tp := .zero, sl := .zero
    fee := (Money.fromInt 1).val, reason := "" }

/-- A round trip of slot 0 around a buy of slot 1, before it or after it. -/
theorem fold_reordered_interleaved :
    let buy := sampleRow 0 .marketBuy 4
    let sell := sampleRow 0 .marketSell 3
    let other := sampleRow 1 .marketBuy 7
    (portfolioFromEventLog [buy, other, sell] (Money.fromInt 1000).val .zero 0).val.Agrees
      (portfolioFromEventLog [other, buy, sell] (Money.fromInt 1000).val .zero 5).val := by
  refine fold_reordered _ _ _ _ _ _ (fun n => ?_) (by decide +kernel) (by decide +kernel)
  rcases eq_or_ne n 0 with rfl | hne
  · rfl
  · have hother : ∀ type qty, decide ((sampleRow 0 type qty).nodeId = n) = false :=
      fun _ _ => decide_eq_false hne.symm
    simp only [List.filter_cons, hother, Bool.false_eq_true, if_false]

end FoxTrader
