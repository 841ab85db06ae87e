import FoxTrader.ComposerTotals
import FoxTrader.OrderOutcomes

/-! # The books do not depend on the schedule

    What the handlers make of a leg depends on its slot, and the number of its event on its node; the
    rows the composer books for a node depend on the events of that node, which its ring keeps in
    order. So a `NodeDesk` that sees the legs of its node alone already knows the positions, the
    events and the rows of the node, and what is global are sums. Two runs that book the same legs
    node by node end in the same books, however the nodes are interleaved, the rings applied and the
    results drained. -/

namespace FoxTrader

open Lib Function

/-! ### Legs -/

/-- What the handlers read of a leg: its fill, the fee settled for it and the exits an entry asks for. -/
structure BookedLeg where
  slot : SlotIdx
  isSell : Bool
  orderComplete : Bool
  isMaker : Bool
  price : Money
  qty : Money
  fee : Money
  takeProfitPrice : Money
  stopLossPrice : Money
deriving DecidableEq

/-- The leg `HandleFill` books for its arguments. -/
def Order.bookedLeg (o : Order) (price qty : Money) (commission : Float) (commissionAsset : String) : BookedLeg where
  slot := o.portfolioSlot
  isSell := o.type.isSell
  orderComplete := o.state = .filled
  isMaker := o.isMaker
  price := price
  qty := qty
  fee := Books.bookedFee (Books.computedFee o price qty).val commission commissionAsset
  takeProfitPrice := if o.type.isSell then .zero else (perFillTp o price).val
  stopLossPrice := if o.type.isSell then .zero else o.intendedSl

namespace OrderManagerState

/-- The legs a turn books: one at most. -/
def legsOf (s : OrderManagerState) (a : Act) : List BookedLeg :=
  match s.executed a with
  | none => []
  | some (cmd, i) =>
    let o := (legOrder (s.priced i cmd.result) cmd.result).val
    if cmd.result.fillQty > 0.0 then
      [o.bookedLeg o.avgFillPrice (moneyFromDoublePayload cmd.result.fillQty) cmd.result.commission
        cmd.result.commissionAsset]
    else []

/-- The legs booked in a run, in their order. -/
def legs (c : OmsConfig) (s : OrderManagerState) (as : List Act) : List BookedLeg := outputs (step c) legsOf s as

end OrderManagerState

/-! ### One node on its own -/

/-- The positions of a node's slots, and the events it has emitted. -/
structure NodeDesk where
  portfolio : Portfolio
  seq : Nat
  events : List FillEvent

namespace NodeDesk

def init : NodeDesk := { portfolio := .init, seq := 0, events := [] }

/-- A desk that finds the positions `p` and has emitted nothing. -/
def beside (p : Portfolio) : NodeDesk := { portfolio := p, seq := 0, events := [] }

/-- The event of a leg that took `qty`. -/
def fill (c : OmsConfig) (d : NodeDesk) (l : BookedLeg) (slotFlat : Bool) (qty net notional entryFeeLeg : Money) :
    FillEvent :=
  { slot := l.slot, node := c.slotNode l.slot, isSell := l.isSell, orderComplete := l.orderComplete
    isMaker := l.isMaker, slotFlat, seq := d.seq + 1, qty, price := l.price, fee := l.fee, net, notional,
      entryFeeLeg }

/-- An event emitted, and the positions it leaves. -/
def post (d : NodeDesk) (fe : FillEvent) (portfolio : Portfolio) : NodeDesk :=
  { portfolio, seq := d.seq + 1, events := d.events ++ [fe] }

/-- The positions after an entry leg: its slot opened, or the leg averaged into it. -/
def entered (d : NodeDesk) (l : BookedLeg) : Portfolio :=
  if d.portfolio.active l.slot then (d.portfolio.accumulateSlotLeg l.slot l.price l.qty l.fee).val
  else d.portfolio.openSlot l.slot
    { entryPrice := l.price, quantity := l.qty, takeProfitPrice := l.takeProfitPrice, stopLossPrice := l.stopLossPrice
      entryFee := l.fee } 0

def buy (c : OmsConfig) (d : NodeDesk) (l : BookedLeg) : NodeDesk :=
  d.post (d.fill c l false l.qty .zero (l.price.mul l.qty).val .zero) (d.entered l)

/-- A sell leg of exactly `qLeg`. -/
def close (c : OmsConfig) (d : NodeDesk) (l : BookedLeg) (qLeg : Money) : NodeDesk :=
  let pos := d.portfolio.positions l.slot
  let closed := (d.portfolio.takeLeg l.slot l.price qLeg).val
  d.post
    (d.fill c l (qLeg.eq pos.quantity) qLeg (closed.gross.sub (closed.entryFee.add l.fee).val).val
      (pos.entryPrice.mul qLeg).val closed.entryFee)
    closed.portfolio

def sell (c : OmsConfig) (d : NodeDesk) (l : BookedLeg) : NodeDesk :=
  let qLeg := clampQty l.qty (d.portfolio.positions l.slot).quantity
  if !d.portfolio.active l.slot || qLeg.isZero then d else d.close c l qLeg

def leg (c : OmsConfig) (d : NodeDesk) (l : BookedLeg) : NodeDesk := if l.isSell then d.sell c l else d.buy c l

variable {c : OmsConfig} {d : NodeDesk} {l : BookedLeg} {fe : FillEvent} {q : Portfolio}

/-- The event a leg emits at its desk, and the positions it leaves: of an entry leg, or of an exit leg of a slot
    that is held. -/
inductive LegEvent (d : NodeDesk) (l : BookedLeg) (fe : FillEvent) (q : Portfolio) : Prop
  | entry (hentry : l.isSell = false) (hbuy : fe.isSell = false) (hnotional : fe.notional = (l.price.mul l.qty).val)
      (hleft : q = d.entered l)
  | exit (hexit : l.isSell = true) (hsell : fe.isSell = true) (hactive : d.portfolio.active l.slot = true)
      (hflat : fe.slotFlat = (clampQty l.qty (d.portfolio.positions l.slot).quantity).eq (d.portfolio.positions l.slot).quantity)
      (hnotional : fe.notional = ((d.portfolio.positions l.slot).entryPrice.mul
        (clampQty l.qty (d.portfolio.positions l.slot).quantity)).val)
      (hleft : q = (d.portfolio.takeLeg l.slot l.price (clampQty l.qty (d.portfolio.positions l.slot).quantity)).val.portfolio)

theorem post_inj {fe' : FillEvent} {q' : Portfolio} (h : d.post fe q = d.post fe' q') : fe = fe' ∧ q = q' := by
  have hevents := congrArg NodeDesk.events h
  exact ⟨List.singleton_inj.1 (List.append_cancel_left hevents), congrArg NodeDesk.portfolio h⟩

theorem post_ne (d : NodeDesk) (fe : FillEvent) (q : Portfolio) : d ≠ d.post fe q := by
  intro h
  have hseq : d.seq = d.seq + 1 := congrArg NodeDesk.seq h
  omega

theorem leg_event (h : d.leg c l = d.post fe q) : LegEvent d l fe q := by
  unfold leg at h
  rcases hside : l.isSell with _ | _
  · simp only [hside, Bool.false_eq_true, if_false] at h
    obtain ⟨rfl, rfl⟩ := post_inj h
    exact .entry hside hside rfl rfl
  simp only [hside, if_true, sell] at h
  split at h
  · exact absurd h (post_ne d _ _)
  next hheld =>
    rw [Bool.or_eq_true, not_or, Bool.not_eq_true', Bool.not_eq_false] at hheld
    obtain ⟨rfl, rfl⟩ := post_inj h
    exact .exit hside hside hheld.1 rfl rfl rfl

end NodeDesk

/-- The node a leg is booked on. -/
def BookedLeg.node (c : OmsConfig) (l : BookedLeg) : Option NodeIdx := some (c.slotNode l.slot)

/-- What each node makes of its own legs. -/
def desks (c : OmsConfig) (ls : List BookedLeg) : NodeIdx → NodeDesk :=
  foldOn (BookedLeg.node c) (NodeDesk.leg c) NodeDesk.init ls

theorem desks_snoc (c : OmsConfig) (ls : List BookedLeg) (l : BookedLeg) :
    desks c (ls ++ [l]) = update (desks c ls) (c.slotNode l.slot) ((desks c ls (c.slotNode l.slot)).leg c l) :=
  foldOn_snoc_some (BookedLeg.node c) (NodeDesk.leg c) NodeDesk.init rfl ls

/-! ### Positions -/

/-- The exits of a position, where they stand and where they stood at entry, and the leg it pairs with. -/
def Position.exits (pos : Position) : Money × Money × Money × Money × Int :=
  (pos.takeProfitPrice, pos.stopLossPrice, pos.originalTp, pos.originalSl, pos.pairIndex)

/-- A slot is the same in both portfolios but for the moment of its entry, and its exits if `exits`
    does not hold. -/
structure SameSlot (exits : Prop) (p p' : Portfolio) (slot : SlotIdx) : Prop where
  active : p.active slot = p'.active slot
  quantity : (p.positions slot).quantity = (p'.positions slot).quantity
  entryPrice : (p.positions slot).entryPrice = (p'.positions slot).entryPrice
  entryFee : (p.positions slot).entryFee = (p'.positions slot).entryFee
  exits : exits → (p.positions slot).exits = (p'.positions slot).exits

namespace SameSlot

variable {exits : Prop} {p p' q : Portfolio} {slot : SlotIdx} {price qty fee : Money}

theorem trans (h : SameSlot exits p p' slot) (h' : SameSlot exits p' q slot) : SameSlot exits p q slot :=
  ⟨h.active.trans h'.active, h.quantity.trans h'.quantity, h.entryPrice.trans h'.entryPrice, h.entryFee.trans h'.entryFee,
    fun he => (h.exits he).trans (h'.exits he)⟩

theorem symm (h : SameSlot exits p p' slot) : SameSlot exits p' p slot :=
  ⟨h.active.symm, h.quantity.symm, h.entryPrice.symm, h.entryFee.symm, fun he => (h.exits he).symm⟩

theorem of_eq (hactive : p.active slot = p'.active slot) (hpos : p.positions slot = p'.positions slot) :
    SameSlot exits p p' slot := by
  refine ⟨hactive, ?_, ?_, ?_, fun _ => ?_⟩ <;> rw [hpos]

theorem accumulateSlotLeg (h : SameSlot exits p p' slot) :
    SameSlot exits (p.accumulateSlotLeg slot price qty fee).val
      (p'.accumulateSlotLeg slot price qty fee).val slot := by
  simp only [Portfolio.accumulateSlotLeg, Flagged.bind_val, Flagged.pure_val]
  constructor
  · exact h.active
  · simp only [update_self, h.quantity]
  · simp only [update_self, h.quantity, h.entryPrice]
  · simp only [update_self, h.entryFee]
  · intro he
    simp only [update_self]
    exact h.exits he

theorem openSlot (p p' : Portfolio) (args : PositionEntryArgs) (nowUs nowUs' : Nat) :
    SameSlot exits (p.openSlot slot args nowUs) (p'.openSlot slot args nowUs') slot := by
  simp only [Portfolio.openSlot]
  constructor <;> simp only [update_self, Position.exits, implies_true]

theorem takeLeg (h : SameSlot exits p p' slot) :
    SameSlot exits (p.takeLeg slot price qty).val.portfolio (p'.takeLeg slot price qty).val.portfolio slot := by
  simp only [Portfolio.takeLeg, Portfolio.closeSlotLeg, Portfolio.setEntryFee, Flagged.bind_val, Flagged.pure_val,
    update_self, h.quantity, h.entryFee]
  constructor
  · dsimp only
    split
    · rw [update_self, update_self]
    · exact h.active
  · simp only [update_self]
  · simpa only [update_self] using h.entryPrice
  · simp only [update_self]
  · intro he
    simp only [update_self]
    exact h.exits he

/-- What a leg takes depends on its slot alone. -/
theorem takeLeg_earns (h : SameSlot exits p p' slot) (price qty : Money) :
    (p.takeLeg slot price qty).val.gross = (p'.takeLeg slot price qty).val.gross ∧
      (p.takeLeg slot price qty).val.entryFee = (p'.takeLeg slot price qty).val.entryFee := by
  simp only [Portfolio.takeLeg, Portfolio.closeSlotLeg, Portfolio.setEntryFee, Flagged.bind_val, Flagged.pure_val,
    update_self, h.quantity, h.entryFee, h.entryPrice, and_self]

end SameSlot

/-! ### Rows -/

/-- The rows of `n`, and what is kept for its slots, are the same in both. -/
structure SameRow (c : OmsConfig) (n : NodeIdx) (st st' : EventLoopState) : Prop where
  node : st.nodes n = st'.nodes n
  pending : st.partnerPendingBitmap n = st'.partnerPendingBitmap n
  notional : ∀ slot, c.slotNode slot = n → st.agg.slotNotional slot = st'.agg.slotNotional slot
  tradeNet : ∀ slot, c.slotNode slot = n → st.agg.pendingTradeNet slot = st'.agg.pendingTradeNet slot

theorem update_congr_at {ι α : Type} [DecidableEq ι] {f g : ι → α} {i j : ι} (x : α) (h : f j = g j) :
    update f i x j = update g i x j := by
  rcases eq_or_ne j i with rfl | hne
  · rw [update_self, update_self]
  · rw [update_of_ne hne, update_of_ne hne, h]

namespace SameRow

variable {c : OmsConfig} {n : NodeIdx} {st st' st'' : EventLoopState} {fe : FillEvent} {slot : SlotIdx}

theorem refl (c : OmsConfig) (n : NodeIdx) (st : EventLoopState) : SameRow c n st st :=
  ⟨rfl, rfl, fun _ _ => rfl, fun _ _ => rfl⟩

theorem trans (h : SameRow c n st st') (h' : SameRow c n st' st'') : SameRow c n st st'' :=
  ⟨h.node.trans h'.node, h.pending.trans h'.pending, fun slot hn => (h.notional slot hn).trans (h'.notional slot hn),
    fun slot hn => (h.tradeNet slot hn).trans (h'.tradeNet slot hn)⟩

theorem symm (h : SameRow c n st st') : SameRow c n st' st :=
  ⟨h.node.symm, h.pending.symm, fun slot hn => (h.notional slot hn).symm, fun slot hn => (h.tradeNet slot hn).symm⟩

theorem bookBuy (h : SameRow c n st st') (hown : c.slotNode fe.slot = n) (hn : fe.node = n) :
    SameRow c n (st.bookBuy fe).val (st'.bookBuy fe).val := by
  subst hn
  simp only [EventLoopState.bookBuy, Flagged.bind_val, Flagged.pure_val, h.node, h.notional fe.slot hown]
  exact ⟨by simp only [update_self], h.pending, fun i hi => update_congr_at _ (h.notional i hi), h.tradeNet⟩

theorem bookSell (h : SameRow c n st st') (hown : c.slotNode fe.slot = n) (hn : fe.node = n) :
    SameRow c n (st.bookSell fe).val (st'.bookSell fe).val := by
  subst hn
  simp only [EventLoopState.bookSell, Flagged.bind_val, Flagged.pure_val, h.node, h.notional fe.slot hown,
    h.tradeNet fe.slot hown]
  exact ⟨by simp only [update_self], h.pending, fun i hi => update_congr_at _ (h.notional i hi),
    fun i hi => update_congr_at _ (h.tradeNet i hi)⟩

theorem concludeTrade (h : SameRow c n st st') (partialOn : Bool) (hown : c.slotNode slot = n) :
    SameRow c n (st.concludeTrade partialOn slot n).val (st'.concludeTrade partialOn slot n).val := by
  unfold EventLoopState.concludeTrade
  simp only [h.node, h.pending, h.tradeNet slot hown]
  have hclear : ∀ i, c.slotNode i = n →
    (st.clearTradeNet slot).agg.pendingTradeNet i = (st'.clearTradeNet slot).agg.pendingTradeNet i :=
    fun i hi => update_congr_at _ (h.tradeNet i hi)
  split
  · simp only [Flagged.bind_val, Flagged.pure_val]
    exact ⟨by simp only [update_self], h.pending, h.notional, hclear⟩
  split
  · simp only [Flagged.bind_val, Flagged.pure_val]
    exact ⟨by simp only [update_self], by simp only [update_self], h.notional, hclear⟩
  · exact ⟨by simp only [Flagged.pure_val, update_self], by simp only [Flagged.pure_val, update_self],
      h.notional, hclear⟩

/-- An event does to the rows of its node what these tell. -/
theorem nodeRowsBook (h : SameRow c n st st') (partialOn : Bool) (hown : c.slotNode fe.slot = n) (hn : fe.node = n) :
    SameRow c n (st.nodeRowsBook partialOn fe).val (st'.nodeRowsBook partialOn fe).val := by
  unfold EventLoopState.nodeRowsBook
  split
  · exact h.bookBuy hown hn
  · rw [Flagged.bind_val, Flagged.bind_val]
    have hsold := h.bookSell hown hn
    split
    · rw [hn]
      exact hsold.concludeTrade partialOn hown
    · exact hsold

/-- An event leaves the rows of the other nodes alone. -/
theorem nodeRowsBook_of_ne (st : EventLoopState) (partialOn : Bool) (hown : c.slotNode fe.slot = fe.node)
    (hne : fe.node ≠ n) : SameRow c n (st.nodeRowsBook partialOn fe).val st := by
  have hslot : ∀ i, c.slotNode i = n → i ≠ fe.slot := by
    rintro i hi rfl
    exact hne (hown.symm.trans hi)
  have hrow : ∀ {α : Type} (f : NodeIdx → α) (x : α), update f fe.node x n = f n :=
    fun f x => update_of_ne hne.symm x f
  have hlane : ∀ (f : SlotIdx → Money) (x : Money) (i : SlotIdx), c.slotNode i = n → update f fe.slot x i = f i :=
    fun f x i hi => update_of_ne (hslot i hi) x f
  have hsold : SameRow c n (st.bookSell fe).val st := ⟨hrow .., rfl, hlane _ _, hlane _ _⟩
  unfold EventLoopState.nodeRowsBook
  split
  · exact ⟨hrow .., rfl, hlane _ _, fun _ _ => rfl⟩
  rw [Flagged.bind_val]
  split
  swap
  · exact hsold
  refine SameRow.trans ?_ hsold
  generalize (st.bookSell fe).val = st'
  unfold EventLoopState.concludeTrade
  split
  · exact ⟨hrow .., rfl, fun _ _ => rfl, hlane _ _⟩
  split
  · exact ⟨hrow .., hrow .., fun _ _ => rfl, hlane _ _⟩
  · exact ⟨hrow .., hrow .., fun _ _ => rfl, hlane _ _⟩

end SameRow

/-! ### What is emitted and what is booked -/

namespace Composer

variable {c : OmsConfig} {k₀ k k' : Composer} {sent : NodeIdx → List FillEvent} {fe : FillEvent}

/-- `k'` has the ledger, the rows and the fill rings of `k`. -/
structure SameFills (k k' : Composer) : Prop where
  ledger : k'.ledger = k.ledger
  fillRings : k'.els.agg.fillRings = k.els.agg.fillRings
  nodes : k'.els.nodes = k.els.nodes
  pending : k'.els.partnerPendingBitmap = k.els.partnerPendingBitmap
  notional : k'.els.agg.slotNotional = k.els.agg.slotNotional
  tradeNet : k'.els.agg.pendingTradeNet = k.els.agg.pendingTradeNet

theorem sameFills_emitRecord (c : OmsConfig) (k : Composer) (record : EmitRecord) :
    k.SameFills (k.emitRecord c record) := by
  unfold emitRecord
  split
  · exact ⟨rfl, rfl, rfl, rfl, rfl, rfl⟩
  split <;> exact ⟨rfl, rfl, rfl, rfl, rfl, rfl⟩

theorem sameFills_eventFunnelPush (c : OmsConfig) (k : Composer) (ev : OrderEvent) (slot : Option SlotIdx) :
    k.SameFills (k.eventFunnelPush c ev slot) := by
  unfold eventFunnelPush
  split
  · exact ⟨rfl, rfl, rfl, rfl, rfl, rfl⟩
  dsimp only
  split <;> exact ⟨rfl, rfl, rfl, rfl, rfl, rfl⟩

theorem sameFills_fatalMarker (c : OmsConfig) (k : Composer) (site : String) :
    k.SameFills (k.fatalMarker c site).val := by
  unfold fatalMarker
  split <;> exact ⟨rfl, rfl, rfl, rfl, rfl, rfl⟩

/-- The rows after events booked one after another. -/
def bookedRows (c : OmsConfig) (st : EventLoopState) (fes : List FillEvent) : EventLoopState :=
  fes.foldl (fun st fe => (st.nodeRowsBook c.partialExitEnabled fe).val) st

theorem bookedRows_snoc (c : OmsConfig) (st : EventLoopState) (fes : List FillEvent) (fe : FillEvent) :
    bookedRows c st (fes ++ [fe]) = ((bookedRows c st fes).nodeRowsBook c.partialExitEnabled fe).val :=
  List.foldl_concat ..

/-- Of the events sent by each node, those that are not in `rest` any more are booked on its rows. -/
def Rows (c : OmsConfig) (st₀ : EventLoopState) (sent rest : NodeIdx → List FillEvent) (st : EventLoopState) : Prop :=
  ∀ n, ∃ applied, sent n = applied ++ rest n ∧ SameRow c n (bookedRows c st₀ applied) st

theorem Rows.congr {st₀ st st' : EventLoopState} {rest : NodeIdx → List FillEvent} (h : Rows c st₀ sent rest st)
    (hrow : ∀ n, SameRow c n st st') : Rows c st₀ sent rest st' := by
  intro n
  obtain ⟨applied, hsent, hbooked⟩ := h n
  exact ⟨applied, hsent, hbooked.trans (hrow n)⟩

/-- One turn of the composer's loop does to the rows what its event does. -/
theorem sameRow_applyFill (c : OmsConfig) (k : Composer) (fe : FillEvent) (n : NodeIdx) :
    SameRow c n (k.els.nodeRowsBook c.partialExitEnabled fe).val (k.applyFill c fe).val.els := by
  simp only [applyFill, Flagged.bind_val, Flagged.pure_val]
  unfold emitTradeRow
  dsimp only
  split
  · exact ⟨rfl, rfl, fun _ _ => rfl, fun _ _ => rfl⟩
  split <;> exact ⟨rfl, rfl, fun _ _ => rfl, fun _ _ => rfl⟩

/-- The next event booked on the rows of its node; the others wait for theirs. -/
theorem Rows.applyFill {st₀ : EventLoopState} {fes : List FillEvent} (hown : c.slotNode fe.slot = fe.node)
    (h : Rows c st₀ sent (fun n => (fe :: fes).filter fun fe => fe.node = n) k.els) :
    Rows c st₀ sent (fun n => fes.filter fun fe => fe.node = n) (k.applyFill c fe).val.els := by
  intro n
  obtain ⟨applied, hsent, hbooked⟩ := h n
  by_cases hn : fe.node = n
  · refine ⟨applied ++ [fe], ?_, ?_⟩
    · dsimp only at hsent ⊢
      rw [hsent, List.filter_cons_of_pos (by simpa using hn), List.append_assoc, List.singleton_append]
    · rw [bookedRows_snoc]
      exact (hbooked.nodeRowsBook _ (hown.trans hn) hn).trans (sameRow_applyFill c k fe n)
  · refine ⟨applied, ?_, ?_⟩
    · dsimp only at hsent ⊢
      rw [hsent, List.filter_cons_of_neg (by simpa using hn)]
    · exact (hbooked.trans (SameRow.nodeRowsBook_of_ne k.els _ hown hn).symm).trans (sameRow_applyFill c k fe n)

theorem Rows.foldlM_applyFill {st₀ : EventLoopState} : ∀ (fes : List FillEvent) {k : Composer},
    (∀ fe ∈ fes, c.slotNode fe.slot = fe.node) →
      Rows c st₀ sent (fun n => fes.filter fun fe => fe.node = n) k.els →
        Rows c st₀ sent (fun _ => []) (fes.foldlM (Composer.applyFill c) k).val.els
  | [], _, _, h => h
  | fe :: fes, k, hown, h => by
    rw [List.foldlM_cons, Flagged.bind_val]
    exact foldlM_applyFill fes (fun e he => hown e (List.mem_cons_of_mem fe he))
      (h.applyFill (hown fe List.mem_cons_self))

/-- What `k` has become of `k₀` by the events sent: the rows are booked but for what waits in the rings,
    and every figure has settled what was sent. -/
structure Sent (c : OmsConfig) (k₀ : Composer) (sent : NodeIdx → List FillEvent) (k : Composer) : Prop where
  own : ∀ n, ∀ fe ∈ sent n, fe.node = n ∧ c.slotNode fe.slot = n
  rows : Rows c k₀.els sent (fun n => (k.els.agg.fillRings n).items) k.els
  totals : ∀ T : Total, T.settled k = T.settled k₀ + ∑ n, ((sent n).map T.weight).sum

namespace Sent

/-- What is in a ring was sent by its node. -/
theorem waiting (h : Sent c k₀ sent k) {n : NodeIdx} (hfe : fe ∈ (k.els.agg.fillRings n).items) :
    fe.node = n ∧ c.slotNode fe.slot = n := by
  obtain ⟨applied, hsent, -⟩ := h.rows n
  refine h.own n fe ?_
  rw [hsent]
  exact List.mem_append_right _ hfe

/-- The rows are booked but for the waiting events, in the order they will be applied. -/
theorem rows_pending (h : Sent c k₀ sent k) :
    Rows c k₀.els sent (fun n => k.pendingFills.filter fun fe => fe.node = n) k.els := by
  intro n
  have hlane : k.pendingFills.filter (fun fe => fe.node = n) = (k.els.agg.fillRings n).items :=
    filter_lanes_own (fun i fe hfe => (h.waiting hfe).1) n
  dsimp only
  rw [hlane]
  exact h.rows n

theorem congr (h : Sent c k₀ sent k) (hsame : k.SameFills k') : Sent c k₀ sent k' := by
  refine ⟨h.own, ?_, fun T => ?_⟩
  · rw [hsame.fillRings]
    exact h.rows.congr fun n => ⟨congrFun hsame.nodes.symm n, congrFun hsame.pending.symm n,
      fun slot _ => congrFun hsame.notional.symm slot, fun slot _ => congrFun hsame.tradeNet.symm slot⟩
  · rw [T.settled_congr hsame.ledger hsame.nodes hsame.fillRings, h.totals T]

/-- A pass of the composer books everything that was sent. -/
theorem fillRingsApply (h : Sent c k₀ sent k) (hc : (k.fillRingsApply c).Clean) :
    Sent c k₀ sent (k.fillRingsApply c).val := by
  have hown : ∀ fe ∈ k.pendingFills, c.slotNode fe.slot = fe.node := by
    intro fe hfe
    obtain ⟨n, hfe⟩ := mem_lanes.1 hfe
    exact (h.waiting hfe).2.trans (h.waiting hfe).1.symm
  have hcleared : Rows c k₀.els sent (fun n => k.pendingFills.filter fun fe => fe.node = n) k.clearFillRings.els :=
    h.rows_pending.congr fun _ => ⟨rfl, rfl, fun _ _ => rfl, fun _ _ => rfl⟩
  refine ⟨h.own, fun n => ?_, fun T => ?_⟩
  · dsimp only
    rw [fillRings_eq_empty_of_pendingFills (pendingFills_fillRingsApply c k)]
    exact hcleared.foldlM_applyFill k.pendingFills hown n
  · rw [T.settled_fillRingsApply hc, h.totals T]

/-- An event sent by its node, onto a ring with room. -/
theorem setFillRing (h : Sent c k₀ sent k) {ring : Fifo FillEvent fillEventRingSize}
    (hown : c.slotNode fe.slot = fe.node)
    (hring : ring.items = (k.els.agg.fillRings fe.node).items ++ [fe]) :
    Sent c k₀ (update sent fe.node (sent fe.node ++ [fe])) (k.setFillRing fe.node ring) := by
  refine ⟨fun n e he => ?_, fun n => ?_, fun T => ?_⟩
  · rcases eq_or_ne n fe.node with rfl | hne
    · rw [update_self] at he
      rcases List.mem_append.1 he with hold | hnew
      · exact h.own _ e hold
      · rw [List.mem_singleton.1 hnew]
        exact ⟨rfl, hown⟩
    · rw [update_of_ne hne] at he
      exact h.own n e he
  · obtain ⟨applied, hsent, hbooked⟩ := h.rows n
    refine ⟨applied, ?_, hbooked.trans ⟨rfl, rfl, fun _ _ => rfl, fun _ _ => rfl⟩⟩
    rcases eq_or_ne n fe.node with rfl | hne
    · simp only [Composer.setFillRing, update_self, hsent, hring, List.append_assoc]
    · simp only [Composer.setFillRing, update_of_ne hne, hsent]
  · have hweights : (fun n => ((update sent fe.node (sent fe.node ++ [fe]) n).map T.weight).sum) =
        update (fun n => ((sent n).map T.weight).sum) fe.node (((sent fe.node).map T.weight).sum + T.weight fe) := by
      funext n
      rcases eq_or_ne n fe.node with rfl | hne
      · rw [update_self, update_self, List.map_append, List.sum_append, List.map_singleton, List.sum_singleton]
      · rw [update_of_ne hne, update_of_ne hne]
    rw [T.settled_setFillRing hring, h.totals T, hweights, sum_update]
    ring

/-- An event emitted, through a full ring or not. -/
theorem fillEmit (hwired : c.aggWired = true) (h : Sent c k₀ sent k) (hown : c.slotNode fe.slot = fe.node)
    (hc : (k.fillEmit c fe).Clean) :
    Sent c k₀ (update sent fe.node (sent fe.node ++ [fe])) (k.fillEmit c fe).val := by
  rcases fillEmit_cases hwired k fe with ⟨ring, hring, heq⟩ | ⟨ring, hring, hclean, heq⟩
  · rw [heq]
    exact h.setFillRing hown hring
  · have hcounted : Sent c k₀ sent k.countFillRingFull := h.congr ⟨rfl, rfl, rfl, rfl, rfl, rfl⟩
    rw [heq]
    exact (hcounted.fillRingsApply (hclean hc)).setFillRing hown hring

end Sent

end Composer

/-! ### What a leg does to the books -/

namespace Books

variable {c : OmsConfig} {exits : Prop} {l : BookedLeg} {b b' : Books} {d : NodeDesk} {o : Order} {nowUs : Nat}
  {price qty : Money} {commission : Float} {asset : String}

/-- A leg booked on `b`, beside a desk `d` that has its slot: both make nothing of it, or both emit the
    event `fe`, each under its own number, and are left with the same slot. -/
inductive Booked (c : OmsConfig) (exits : Prop) (l : BookedLeg) (b : Books) (d : NodeDesk) : Books → Prop
  | skipped (hdesk : d.leg c l = d) : Booked c exits l b d b
  | posted {b' : Books} (fe : FillEvent) (record : EmitRecord) (q : Portfolio) (hslot : fe.slot = l.slot)
      (hnode : fe.node = c.slotNode l.slot) (hnumber : fe.seq = b.nextSeq c l.slot)
      (hdesk : d.leg c l = d.post { fe with seq := d.seq + 1 } q)
      (hcomposer : b'.composer = ((b.composer.fillEmit c fe).val).emitRecord c record)
      (hclean : (b.composer.fillEmit c fe).Clean)
      (hseq : b'.fillEmitSeq = update b.fillEmitSeq (c.slotNode l.slot) (b.nextSeq c l.slot))
      (hsame : SameSlot exits b'.portfolio q l.slot)
      (hothers : ∀ i, i ≠ l.slot → b'.portfolio.active i = b.portfolio.active i ∧
        b'.portfolio.positions i = b.portfolio.positions i)
      (hothers' : ∀ i, i ≠ l.slot → q.active i = d.portfolio.active i ∧ q.positions i = d.portfolio.positions i) :
      Booked c exits l b d b'

variable (nowUs) in
/-- A buy leg leaves in its slot what the desk has there, and the other slots alone. -/
theorem entered_sameSlot {p : Portfolio} (hl : o.bookedLeg price qty commission asset = l)
    (hbuy : o.type.isSell = false)
    (h : SameSlot exits p d.portfolio o.portfolioSlot) :
    SameSlot exits (openOrAccumulate p o price qty l.fee (perFillTp o price).val nowUs).val (d.entered l)
      o.portfolioSlot := by
  subst hl
  unfold openOrAccumulate NodeDesk.entered
  simp only [Order.bookedLeg, hbuy, h.active, Bool.false_eq_true, if_false]
  split
  · exact h.accumulateSlotLeg
  · exact .openSlot ..

theorem entered_of_ne {i : SlotIdx} (hne : i ≠ l.slot) :
    (d.entered l).active i = d.portfolio.active i ∧ (d.entered l).positions i = d.portfolio.positions i := by
  unfold NodeDesk.entered
  split
  · exact ⟨rfl, update_of_ne hne ..⟩
  · exact ⟨update_of_ne hne .., update_of_ne hne ..⟩

theorem handleBuyFill_booked (hl : o.bookedLeg price qty commission asset = l) (hbuy : o.type.isSell = false)
    (h : SameSlot exits b.portfolio d.portfolio o.portfolioSlot)
    (hc : (b.handleBuyFill c nowUs o price qty l.fee).Clean) :
    Booked c exits l b d (b.handleBuyFill c nowUs o price qty l.fee).val := by
  simp only [handleBuyFill, Flagged.clean_bind, Flagged.clean_pure, and_true] at hc
  have hsame := entered_sameSlot nowUs hl hbuy h
  subst hl
  refine .posted _ _ _ rfl rfl rfl ?_ rfl hc.2.1 rfl hsame (fun i hne => openOrAccumulate_of_ne hne)
    fun i hne => entered_of_ne hne
  refine (if_neg (ne_true_of_eq_false hbuy)).trans ?_
  simp only [NodeDesk.buy, NodeDesk.fill, buyFill, Order.bookedLeg, hbuy]

theorem closeLeg_booked {qLeg : Money} (hl : o.bookedLeg price qty commission asset = l)
    (hsell : o.type.isSell = true)
    (h : SameSlot exits b.portfolio d.portfolio o.portfolioSlot) (hclose : d.leg c l = d.close c l qLeg)
    (hc : (b.closeLeg c o price qLeg l.fee).Clean) :
    Booked c exits l b d (b.closeLeg c o price qLeg l.fee).val := by
  subst hl
  simp only [closeLeg, Flagged.clean_bind, Flagged.clean_pure, and_true] at hc
  obtain ⟨hgross, hfee⟩ := h.takeLeg_earns price qLeg
  rw [NodeDesk.close] at hclose
  refine .posted _ _ _ rfl rfl rfl (hclose.trans ?_) rfl hc.2.2.2.2 rfl h.takeLeg
    (fun i hne => Portfolio.takeLeg_of_ne hne price _) (fun i hne => Portfolio.takeLeg_of_ne hne price _)
  simp only [NodeDesk.fill, sellFill, Order.bookedLeg, hsell, hgross, hfee, h.quantity, h.entryPrice]

theorem handleSellFill_booked (hl : o.bookedLeg price qty commission asset = l) (hsell : o.type.isSell = true)
    (h : SameSlot exits b.portfolio d.portfolio o.portfolioSlot)
    (hc : (b.handleSellFill c o price qty l.fee).Clean) :
    Booked c exits l b d (b.handleSellFill c o price qty l.fee).val := by
  have hleg : d.leg c l =
      if !b.portfolio.active o.portfolioSlot || (b.sellQty o.portfolioSlot qty).isZero then d
      else d.close c l (b.sellQty o.portfolioSlot qty) := by
    subst hl
    rw [sellQty, h.active, h.quantity]
    exact if_pos hsell
  unfold handleSellFill at hc ⊢
  rcases hactive : b.portfolio.active o.portfolioSlot with _ | _
  · rw [hactive] at hleg
    exact .skipped hleg
  simp only [hactive, Bool.not_true, Bool.false_eq_true, if_false, Bool.false_or] at hc hleg ⊢
  split
  next hnone =>
    rw [if_pos hnone] at hleg
    exact .skipped hleg
  next hsome =>
    rw [if_neg hsome] at hc hleg
    exact closeLeg_booked hl hsell h hleg hc

/-- `HandleFill` files its audit row and books its leg, beside any desk that has the slot. -/
theorem handleFill_booked (hc : (b.handleFill c nowUs o price qty commission asset).Clean) :
    ∃ b₁ : Books, b.composer.SameFills b₁.composer ∧ b₁.portfolio = b.portfolio ∧ b₁.fillEmitSeq = b.fillEmitSeq ∧
      ∀ exits d, SameSlot exits b₁.portfolio d.portfolio o.portfolioSlot →
        Booked c exits (o.bookedLeg price qty commission asset) b₁ d
          (b.handleFill c nowUs o price qty commission asset).val := by
  refine ⟨b.auditAppend c (.makeFill o price qty (o.bookedLeg price qty commission asset).fee) (some o.portfolioSlot),
    ?_, ?_, ?_, fun exits d hsame => ?_⟩
  · unfold auditAppend
    split
    · exact Composer.sameFills_eventFunnelPush ..
    · exact ⟨rfl, rfl, rfl, rfl, rfl, rfl⟩
  · unfold auditAppend
    split <;> rfl
  · unfold auditAppend
    split <;> rfl
  simp only [handleFill, Flagged.clean_bind] at hc
  simp only [handleFill, Flagged.bind_val]
  rcases htype : o.type with _ | _ | _ | _
  all_goals simp only [htype] at hc ⊢
  · exact handleBuyFill_booked rfl (by rw [htype]; rfl) hsame hc.2
  · exact handleSellFill_booked rfl (by rw [htype]; rfl) hsame hc.2
  · exact handleBuyFill_booked rfl (by rw [htype]; rfl) hsame hc.2
  · exact handleSellFill_booked rfl (by rw [htype]; rfl) hsame hc.2

end Books

namespace OrderManagerState

variable {c : OmsConfig} {s : OrderManagerState}

/-- The books after a turn, for what depends on the fills, the event numbers and the positions: a turn books one
    leg at most, and beside that applies the rings and drags exits. -/
theorem books_act_booked (P P' : Books → Prop) {a : Act} (hidle : s.legsOf a = [] → P s.books → P' s.books)
    (hcongr : ∀ b', s.books.composer.SameFills b'.composer → b'.portfolio = s.books.portfolio →
      b'.fillEmitSeq = s.books.fillEmitSeq → P s.books → P b')
    (hbooked : ∀ l, s.legsOf a = [l] → ∀ b b', b.portfolio = s.books.portfolio →
      s.books.composer.SameFills b.composer →
      P b → (∀ exits d, SameSlot exits b.portfolio d.portfolio l.slot → Books.Booked c exits l b d b') → P' b')
    (hcongr' : ∀ b b', b.composer.SameFills b'.composer → b'.portfolio = b.portfolio →
      b'.fillEmitSeq = b.fillEmitSeq →
      P' b → P' b')
    (happly : c.aggWired = true → ∀ b, P' b → (b.composer.fillRingsApply c).Clean →
      P' { b with composer := (b.composer.fillRingsApply c).val })
    (hdrag : ∀ b, ∀ dc ∈ a.drags, P' b → P' { b with portfolio := applyDrag b.portfolio dc })
    (h : P s.books) (hc : (s.act c a).Clean) : P' (s.act c a).val.books := by
  refine books_act_leg P P' ?_ ?_ ?_ happly ?_ hdrag h hc
  · intro hexec hb
    exact hidle (by rw [legsOf, hexec]) hb
  · intro cmd i hcmd hexec us hb hleg
    have hlegs : s.executed a = some (cmd, i) := by
      simp [executed, hcmd, hexec]
    unfold bookLeg at hleg ⊢
    split
    next hqty =>
      rw [if_pos hqty] at hleg
      obtain ⟨b, hfills, hportfolio, hseq, hbook⟩ := Books.handleFill_booked hleg
      exact hbooked _ (by rw [legsOf, hlegs]; exact if_pos hqty) b _ hportfolio hfills
        (hcongr b hfills hportfolio hseq hb) hbook
    next hqty => exact hidle (by simp only [legsOf, hlegs, if_neg hqty]) hb
  · intro b ev slot _ hb
    unfold Books.auditAppend
    split
    · exact hcongr' _ _ (Composer.sameFills_eventFunnelPush ..) rfl rfl hb
    · exact hb
  · intro b site hb _
    exact hcongr' b _ (Composer.sameFills_fatalMarker ..) rfl rfl hb

theorem applyDrag_sameSlot (p : Portfolio) (dc : DragCmd) (slot : SlotIdx) :
    SameSlot False (applyDrag p dc) p slot := by
  obtain ⟨hactive, hquantity, hentryPrice, hentryFee⟩ := applyDrag_keeps p dc slot
  exact ⟨hactive, hquantity, hentryPrice, hentryFee, False.elim⟩

end OrderManagerState

/-! ### What the desks know -/

/-- The live books are what the desks have, from the composer `k₀` on: the positions (their exits as far
    as `exits` says), the event numbers, and by the events of the desks all that the composer has booked. -/
structure AtDesks (c : OmsConfig) (k₀ : Composer) (exits : Prop) (ds : NodeIdx → NodeDesk) (b : Books) : Prop where
  slots : ∀ slot, SameSlot exits b.portfolio (ds (c.slotNode slot)).portfolio slot
  seq : ∀ n, b.fillEmitSeq n = (ds n).seq
  sent : Composer.Sent c k₀ (fun n => (ds n).events) b.composer

/-- The desks after legs, each booked at the desk of its node. -/
def deskLegs (c : OmsConfig) (ds : NodeIdx → NodeDesk) (ls : List BookedLeg) : NodeIdx → NodeDesk :=
  ls.foldl (fun ds l => update ds (c.slotNode l.slot) ((ds (c.slotNode l.slot)).leg c l)) ds

namespace AtDesks

open Composer

variable {c : OmsConfig} {k₀ : Composer} {exits : Prop} {ds : NodeIdx → NodeDesk} {l : BookedLeg} {b b' : Books}
    {o : Order}
  {nowUs : Nat} {price qty : Money}

theorem congr (h : AtDesks c k₀ exits ds b) (hslots : ∀ slot, SameSlot exits b'.portfolio b.portfolio slot)
    (hseq : b'.fillEmitSeq = b.fillEmitSeq) (hfills : b.composer.SameFills b'.composer) :
    AtDesks c k₀ exits ds b' := by
  refine ⟨fun slot => (hslots slot).trans (h.slots slot), ?_, h.sent.congr hfills⟩
  rw [hseq]
  exact h.seq

/-- A leg whose event the desk emits too. -/
theorem post {fe : FillEvent} {record : EmitRecord} {q : Portfolio} (hwired : c.aggWired = true)
    (h : AtDesks c k₀ exits ds b) (hslot : fe.slot = l.slot) (hnode : fe.node = c.slotNode l.slot)
    (hcomposer : b'.composer = ((b.composer.fillEmit c fe).val).emitRecord c record)
    (hc : (b.composer.fillEmit c fe).Clean)
    (hseq : b'.fillEmitSeq = update b.fillEmitSeq (c.slotNode l.slot) (b.fillEmitSeq (c.slotNode l.slot) + 1))
    (hsame : SameSlot exits b'.portfolio q l.slot)
    (hothers : ∀ i, i ≠ l.slot → b'.portfolio.active i = b.portfolio.active i ∧
      b'.portfolio.positions i = b.portfolio.positions i)
    (hothers' : ∀ i, i ≠ l.slot → q.active i = (ds (c.slotNode l.slot)).portfolio.active i ∧
      q.positions i = (ds (c.slotNode l.slot)).portfolio.positions i) :
    AtDesks c k₀ exits (update ds (c.slotNode l.slot) ((ds (c.slotNode l.slot)).post fe q)) b' := by
  refine ⟨fun i => ?_, fun n => ?_, ?_⟩
  · rcases eq_or_ne i l.slot with rfl | hne
    · rw [update_self]
      exact hsame
    · refine (SameSlot.of_eq (hothers i hne).1 (hothers i hne).2).trans ((h.slots i).trans ?_)
      rcases eq_or_ne (c.slotNode i) (c.slotNode l.slot) with hn | hn
      · rw [hn, update_self]
        exact .of_eq (hothers' i hne).1.symm (hothers' i hne).2.symm
      · rw [update_of_ne hn]
        exact .of_eq rfl rfl
  · rw [hseq]
    rcases eq_or_ne n (c.slotNode l.slot) with rfl | hne
    · rw [update_self, update_self, h.seq]
      rfl
    · rw [update_of_ne hne, update_of_ne hne, h.seq]
  · have hevents : (fun n => ((update ds (c.slotNode l.slot) ((ds (c.slotNode l.slot)).post fe q)) n).events) =
        update (fun n => (ds n).events) fe.node ((ds fe.node).events ++ [fe]) := by
      funext n
      rw [hnode]
      exact apply_update (fun _ => NodeDesk.events) ds (c.slotNode l.slot) _ n
    rw [hevents, hcomposer]
    have hown : c.slotNode fe.slot = fe.node := by rw [hslot, hnode]
    exact (h.sent.fillEmit hwired hown hc).congr (sameFills_emitRecord ..)

theorem booked (hwired : c.aggWired = true) (h : AtDesks c k₀ exits ds b)
    (hleg : Books.Booked c exits l b (ds (c.slotNode l.slot)) b') : AtDesks c k₀ exits (deskLegs c ds [l]) b' := by
  show AtDesks c k₀ exits (update ds (c.slotNode l.slot) ((ds (c.slotNode l.slot)).leg c l)) b'
  rcases hleg with hdesk | ⟨fe, record, q, hslot, hnode, hnumber, hdesk, hcomposer, hclean, hseq, hsame,
    hothers, hothers'⟩
  · rw [hdesk, update_eq_self]
    exact h
  · have hown : { fe with seq := (ds (c.slotNode l.slot)).seq + 1 } = fe := by
      rw [← h.seq, ← Books.nextSeq, ← hnumber]
    rw [hdesk, hown]
    exact h.post hwired hslot hnode hcomposer hclean hseq hsame hothers hothers'

/-- Desks that have the positions and the next event numbers of the books, from their composer on. -/
theorem start (c : OmsConfig) (exits : Prop) (b : Books) (hrings : ∀ n, (b.composer.els.agg.fillRings n).items = []) :
    AtDesks c b.composer exits (fun n => { portfolio := b.portfolio, seq := b.fillEmitSeq n, events := [] }) b := by
  refine ⟨fun _ => .of_eq rfl rfl, fun _ =>
    rfl, ⟨fun _ _ hfe => absurd hfe List.not_mem_nil, fun n => ?_, fun T => ?_⟩⟩
  · exact ⟨[], (hrings n).symm, .refl ..⟩
  · have hzero : ∑ _n : NodeIdx, ([].map T.weight).sum = 0 := Finset.sum_const_zero
    exact ((congrArg _ hzero).trans (add_zero _)).symm

open OrderManagerState in
/-- A turn's legs are booked at their desks, and nothing else it does matters to the books. -/
theorem act {s : OrderManagerState} (hwired : c.aggWired = true) {a : Act} (h : AtDesks c k₀ exits ds s.books)
    (hdrags : exits → a.drags = []) (hc : (s.act c a).Clean) :
    AtDesks c k₀ exits (deskLegs c ds (s.legsOf a)) (s.act c a).val.books := by
  refine books_act_booked (AtDesks c k₀ exits ds)
    (AtDesks c k₀ exits (deskLegs c ds (s.legsOf a))) ?_ ?_ ?_ ?_ ?_ ?_ h hc
  · intro hidle hb
    rwa [hidle]
  · intro b' hfills hportfolio hseq hb
    exact hb.congr (fun _ => .of_eq (by rw [hportfolio]) (by rw [hportfolio])) hseq hfills
  · intro l hl b b' _ _ hb hbook
    rw [hl]
    exact hb.booked hwired (hbook exits _ (hb.slots l.slot))
  · intro b b' hfills hportfolio hseq hb
    exact hb.congr (fun _ => .of_eq (by rw [hportfolio]) (by rw [hportfolio])) hseq hfills
  · intro _ b hb hclean
    exact ⟨hb.slots, hb.seq, hb.sent.fillRingsApply hclean⟩
  · intro b dc hdc hb
    refine hb.congr (fun slot => ?_) rfl ⟨rfl, rfl, rfl, rfl, rfl, rfl⟩
    obtain ⟨hactive, hquantity, hentryPrice, hentryFee, -⟩ := applyDrag_sameSlot b.portfolio dc slot
    refine ⟨hactive, hquantity, hentryPrice, hentryFee, fun he => ?_⟩
    rw [hdrags he] at hdc
    exact absurd hdc List.not_mem_nil

end AtDesks

/-- The live books are what the desks make of the legs, from the composer `k₀` on: the positions (their
    exits as far as `exits` says), the event numbers, and by the events of the desks all that the
    composer has booked. -/
structure Reflects (c : OmsConfig) (k₀ : Composer) (exits : Prop) (ls : List BookedLeg) (b : Books) : Prop where
  slots : ∀ slot, SameSlot exits b.portfolio (desks c ls (c.slotNode slot)).portfolio slot
  seq : ∀ n, b.fillEmitSeq n = (desks c ls n).seq
  sent : Composer.Sent c k₀ (fun n => (desks c ls n).events) b.composer

namespace Reflects

variable {c : OmsConfig} {k₀ : Composer} {exits : Prop} {ls ls' : List BookedLeg} {b : Books}

theorem iff_atDesks : Reflects c k₀ exits ls b ↔ AtDesks c k₀ exits (desks c ls) b :=
  ⟨fun h => ⟨h.slots, h.seq, h.sent⟩, fun h => ⟨h.slots, h.seq, h.sent⟩⟩

/-- Only what the desks make of the legs matters. -/
theorem of_desks (h : Reflects c k₀ exits ls b) (hdesks : desks c ls' = desks c ls) : Reflects c k₀ exits ls' b := by
  rw [iff_atDesks, hdesks]
  exact iff_atDesks.1 h

end Reflects

theorem desks_append (c : OmsConfig) (ls ls' : List BookedLeg) :
    desks c (ls ++ ls') = deskLegs c (desks c ls) ls' := by
  induction ls' generalizing ls with
  | nil => rw [List.append_nil, deskLegs, List.foldl_nil]
  | cons l ls' ih =>
    rw [← List.singleton_append, ← List.append_assoc, ih, desks_snoc]
    rfl

namespace OrderManagerState

variable {c : OmsConfig} {k₀ : Composer} {exits : Prop} {ls : List BookedLeg} {s : OrderManagerState}

/-- A turn's leg is one more leg, and nothing else it does matters to the books. -/
theorem reflects_act (hwired : c.aggWired = true) {a : Act} (h : Reflects c k₀ exits ls s.books)
    (hdrags : exits → a.drags = []) (hc : (s.act c a).Clean) :
    Reflects c k₀ exits (ls ++ s.legsOf a) (s.act c a).val.books := by
  rw [Reflects.iff_atDesks, desks_append]
  exact (Reflects.iff_atDesks.1 h).act hwired hdrags hc

theorem reflects_init (c : OmsConfig) (exits : Prop) (balance : Money)
    (tradeLog : Option (List (EmitRecord × Money))) :
    Reflects c (init balance tradeLog).books.composer exits [] (init balance tradeLog).books :=
  Reflects.iff_atDesks.2 (.start c exits (init balance tradeLog).books fun _ => rfl)

/-- The books after a run are what the desks make of its legs. -/
theorem reflects_run (hwired : c.aggWired = true) (balance : Money) (tradeLog : Option (List (EmitRecord × Money)))
    (as : List Act) (hdrags : exits → ∀ a ∈ as, a.drags = [])
    (hclean : (run (step c) (init balance tradeLog) as).moneyOpFlags = 0) :
    Reflects c (init balance tradeLog).books.composer exits (legs c (init balance tradeLog) as)
      (run (step c) (init balance tradeLog) as).books := by
  have hstep : ∀ (s : OrderManagerState) (a : Act) (ls : List BookedLeg),
      (s.moneyOpFlags = 0 → Reflects c (init balance tradeLog).books.composer exits ls s.books) →
        (exits → a.drags = []) →
          ((s.step c a).moneyOpFlags = 0 →
            Reflects c (init balance tradeLog).books.composer exits (ls ++ s.legsOf a) (s.step c a).books) := by
    intro s a ls h hnodrag hflags
    obtain ⟨hbefore, hact⟩ := Flagged.or_eq_zero.1 hflags
    exact reflects_act hwired (h hbefore) hnodrag hact
  have hsteps : Steps (step c) (fun _ a => exits → a.drags = []) (init balance tradeLog) as :=
    steps_of_forall fun a ha he => hdrags he a ha
  exact run_outputs hstep as [] (fun _ => reflects_init ..) hsteps hclean

/-- The accounts in both books are the same: what is global, the positions but for the moments of their
    entries (and their exits only if no drag moved one), and the rows of all nodes. -/
structure SameAccounts (undragged : Prop) (b b' : Books) : Prop where
  balance : b.composer.ledger.balance = b'.composer.ledger.balance
  realizedPnl : b.composer.ledger.realizedPnl = b'.composer.ledger.realizedPnl
  totalFees : b.composer.ledger.totalFees = b'.composer.ledger.totalFees
  positions : ∀ slot, SameSlot undragged b.portfolio b'.portfolio slot
  nodes : b.composer.els.nodes = b'.composer.els.nodes

end OrderManagerState

end FoxTrader
