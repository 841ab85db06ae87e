import FoxTrader.OpenNotional

/-! # Pairing the legs of a trade

    With partial exits a node trades on two slots, and what it wins or loses is counted once for both:
    the first slot that is emptied parks its net in the node's row and sets the pairing bit, the second
    one adds its own, is counted and clears the bit. A trade of a node, from the leg that opens the
    first of its slots to the one that leaves it flat, is `NodeTrades`.

    The bit is a toggle and knows nothing of the slots. It counts right as long as every trade opens both
    slots before it empties one and opens none again before both are empty; an entry whose second leg
    was refused leaves the bit set on a flat node, and every count after it is one slot off. -/

namespace FoxTrader

open Lib Function

/-! ### The legs of a node -/

theorem legSlot_slotLeg (slot : SlotIdx) : legSlot true (slotNode true slot) (slotLeg true slot) = some slot :=
  legSlot_eq_some.2 ⟨rfl, rfl⟩

/-- What changes in one slot only, seen from the legs of a node. -/
theorem legs_update {β : Type} {f g : Option SlotIdx → β} {slot : SlotIdx} (h : ∀ i, i ≠ some slot → g i = f i)
    (n : NodeIdx) :
    (fun leg => g (legSlot true n leg)) =
      if n = slotNode true slot then
        update (fun leg => f (legSlot true n leg)) (slotLeg true slot) (g (some slot))
      else fun leg => f (legSlot true n leg) := by
  by_cases hn : n = slotNode true slot
  · subst hn
    rw [if_pos rfl]
    funext leg
    rcases eq_or_ne leg (slotLeg true slot) with rfl | hne
    · rw [update_self, legSlot_slotLeg]
    · rw [update_of_ne hne, h _ fun hslot => hne (legSlot_eq_some.1 hslot).2.symm]
  · rw [if_neg hn]
    funext leg
    rw [h _ fun hslot => hn (legSlot_eq_some.1 hslot).1.symm]

/-- Neither slot of a node is held. -/
def Portfolio.nodeFlat (p : Portfolio) (n : NodeIdx) : Bool :=
  !ShardedSnapshot.legHeld p n .a && !ShardedSnapshot.legHeld p n .b

namespace Portfolio

variable {p p' : Portfolio} {n : NodeIdx} {slot : SlotIdx}

theorem nodeFlat_iff : p.nodeFlat n = true ↔ ∀ leg, ShardedSnapshot.legHeld p n leg = false := by
  rw [nodeFlat, Bool.and_eq_true, Bool.not_eq_true', Bool.not_eq_true']
  refine ⟨fun hboth leg => ?_, fun hall => ⟨hall .a, hall .b⟩⟩
  cases leg
  · exact hboth.1
  · exact hboth.2

theorem nodeFlat_false {leg : Leg} (h : ShardedSnapshot.legHeld p n leg = true) : p.nodeFlat n = false := by
  rw [← Bool.not_eq_true, nodeFlat_iff, not_forall]
  exact ⟨leg, by rw [h]; exact Bool.false_ne_true.symm⟩

theorem legHeld_congr (h : p'.active = p.active) : ShardedSnapshot.legHeld p' = ShardedSnapshot.legHeld p := by
  funext n leg
  rw [ShardedSnapshot.legHeld, ShardedSnapshot.legHeld, h]

theorem nodeFlat_congr (h : p'.active = p.active) : p'.nodeFlat = p.nodeFlat := by
  funext n
  rw [nodeFlat, nodeFlat, legHeld_congr h]

theorem legHeld_update (h : ∀ i, i ≠ slot → p'.active i = p.active i) (n : NodeIdx) :
    ShardedSnapshot.legHeld p' n =
      if n = slotNode true slot then update (ShardedSnapshot.legHeld p n) (slotLeg true slot) (p'.active slot)
      else ShardedSnapshot.legHeld p n := by
  refine legs_update (f := fun i => i.any p.active) (g := fun i => i.any p'.active) (fun i hi => ?_) n
  rcases i with _ | i
  · rfl
  · exact h i fun heq => hi (congrArg some heq)

/-- Both legs of a node are held if all of its slots are. -/
theorem legHeld_of_slots {c : OmsConfig} (hpairs : c.partialExitEnabled = true)
    (h : ∀ i, c.slotNode i = c.slotNode slot → p.active i = true) (leg : Leg) :
    ShardedSnapshot.legHeld p (c.slotNode slot) leg = true := by
  have hsome : ∃ i, legSlot true (FoxTrader.slotNode true slot) leg = some i := by
    clear h
    cases leg <;> revert slot <;> decide
  simp only [OmsConfig.slotNode, hpairs] at h ⊢
  obtain ⟨i, hi⟩ := hsome
  rw [ShardedSnapshot.legHeld, hi, Option.any_some]
  exact h i (legSlot_eq_some.1 hi).1

end Portfolio

/-! ### What the rows make of the events -/

/-- What the composer keeps of a node's trade in progress and of those it has counted. -/
structure PairRow where
  pending : Bool
  pnl : ℤ
  net : Leg → ℤ
  wins : Nat
  losses : Nat

namespace PairRow

def zero : PairRow := { pending := false, pnl := 0, net := fun _ => 0, wins := 0, losses := 0 }

def classify (r : PairRow) (net : ℤ) : PairRow :=
  if 0 < net then { r with wins := r.wins + 1 } else { r with losses := r.losses + 1 }

/-- A slot is emptied: the second one concludes the trade, the first one parks its net. -/
def conclude (r : PairRow) (leg : Leg) : PairRow :=
  let flat := { r with pending := !r.pending, pnl := if r.pending then 0 else r.net leg, net := update r.net leg 0 }
  if r.pending then flat.classify (r.pnl + r.net leg) else flat

/-- The rows of a node after an event of the node. -/
def book (r : PairRow) (fe : FillEvent) : PairRow :=
  if fe.isSell then
    let leg := slotLeg true fe.slot
    let sold := { r with net := update r.net leg (r.net leg + fe.net.v) }
    if fe.slotFlat then sold.conclude leg else sold
  else r

end PairRow

/-- The pairing as the composer has it. -/
def EventLoopState.pairRow (st : EventLoopState) (n : NodeIdx) : PairRow :=
  { pending := st.partnerPendingBitmap n, pnl := (st.nodes n).partnerPendingPnl.v
    net := fun leg => ((legSlot true n leg).elim .zero st.agg.pendingTradeNet).v
    wins := (st.nodes n).nodeWins, losses := (st.nodes n).nodeLosses }

namespace EventLoopState

variable {st st' : EventLoopState} {fe : FillEvent} {n : NodeIdx}

theorem pairRow_congr (h : st.SameRows st') : st'.pairRow = st.pairRow := by
  funext n
  simp only [pairRow, h.nodes, h.pending, h.tradeNet]

/-- A write to the tracker of a slot. -/
theorem net_update (f : SlotIdx → Money) (slot : SlotIdx) (x : Money) (n : NodeIdx) :
    (fun leg => ((legSlot true n leg).elim .zero (update f slot x)).v) =
      if n = slotNode true slot then
        update (fun leg => ((legSlot true n leg).elim .zero f).v) (slotLeg true slot) x.v
      else fun leg => ((legSlot true n leg).elim .zero f).v := by
  have hwritten : x.v = ((some slot).elim .zero (update f slot x)).v := by rw [Option.elim_some, update_self]
  rw [hwritten]
  refine legs_update (f := fun i => (i.elim .zero f).v) (g := fun i => (i.elim .zero (update f slot x)).v)
    (fun i hi => ?_) n
  rcases i with _ | i
  · rfl
  · exact congrArg Money.v (update_of_ne (fun heq => hi (congrArg some heq)) ..)

theorem bookBuy_pairRow (st : EventLoopState) (fe : FillEvent) (n : NodeIdx) :
    (st.bookBuy fe).val.pairRow n = st.pairRow n := by
  simp only [bookBuy, Flagged.bind_val, Flagged.pure_val, pairRow]
  rcases eq_or_ne n fe.node with rfl | hne
  · rw [update_self]
  · rw [update_of_ne hne]

theorem bookSell_pairRow (hown : slotNode true fe.slot = fe.node) (hc : (st.bookSell fe).Clean) (n : NodeIdx) :
    (st.bookSell fe).val.pairRow n =
      if n = fe.node then
        { st.pairRow n with
          net := update (st.pairRow n).net (slotLeg true fe.slot) ((st.pairRow n).net (slotLeg true fe.slot) + fe.net.v) }
      else st.pairRow n := by
  simp only [bookSell, Flagged.clean_bind, Flagged.clean_pure, and_true] at hc
  obtain ⟨-, -, -, -, -, hnet⟩ := hc
  simp only [bookSell, Flagged.bind_val, Flagged.pure_val, pairRow, net_update, hown, Money.add_v hnet]
  rcases eq_or_ne n fe.node with rfl | hne
  · rw [if_pos rfl, if_pos rfl, update_self, ← hown, legSlot_slotLeg, Option.elim_some]
  · rw [if_neg hne, if_neg hne, update_of_ne hne]

theorem classify_row (ctx : NodeContext) (net : Money) :
    (ctx.classify net).val.partnerPendingPnl = ctx.partnerPendingPnl ∧
      (ctx.classify net).val.nodeWins = (if 0 < net.v then ctx.nodeWins + 1 else ctx.nodeWins) ∧
        (ctx.classify net).val.nodeLosses = if 0 < net.v then ctx.nodeLosses else ctx.nodeLosses + 1 := by
  have hgt : net.gt .zero = decide (0 < net.v) := rfl
  unfold NodeContext.classify
  rw [hgt]
  split
  next hwin =>
    rw [if_pos (of_decide_eq_true hwin), if_pos (of_decide_eq_true hwin)]
    exact ⟨rfl, rfl, rfl⟩
  next hloss =>
    rw [if_neg (of_decide_eq_false (eq_false_of_ne_true hloss)),
      if_neg (of_decide_eq_false (eq_false_of_ne_true hloss))]
    exact ⟨rfl, rfl, rfl⟩

theorem concludeTrade_pairRow {slot : SlotIdx} {node : NodeIdx} (hown : slotNode true slot = node)
    (hc : (st.concludeTrade true slot node).Clean) (n : NodeIdx) :
    (st.concludeTrade true slot node).val.pairRow n =
      if n = node then (st.pairRow n).conclude (slotLeg true slot) else st.pairRow n := by
  have hself : ((legSlot true node (slotLeg true slot)).elim .zero st.agg.pendingTradeNet) =
    st.agg.pendingTradeNet slot := by
    rw [← hown, legSlot_slotLeg, Option.elim_some]
  unfold concludeTrade at hc ⊢
  simp only [Bool.not_true, Bool.false_eq_true, if_false] at hc ⊢
  split at hc
  next hpending =>
    rw [if_pos hpending]
    rw [Flagged.clean_bind] at hc
    obtain ⟨hpnl, hwins, hlosses⟩ := classify_row (st.nodes node)
      ((st.nodes node).partnerPendingPnl.add (st.agg.pendingTradeNet slot)).val
    simp only [Flagged.bind_val, Flagged.pure_val, pairRow, clearTradeNet, net_update, hown, PairRow.conclude]
    rcases eq_or_ne n node with rfl | hne
    · simp only [if_true, update_self, hpending, hwins, hlosses, Money.add_v hc.1, hself, Bool.not_true,
        PairRow.classify]
      split <;> rfl
    · simp only [if_neg hne, update_of_ne hne]
  next hpending =>
    rw [if_neg hpending]
    simp only [Flagged.pure_val, pairRow, clearTradeNet, net_update, hown, PairRow.conclude]
    rcases eq_or_ne n node with rfl | hne
    · simp only [if_true, update_self, eq_false_of_ne_true hpending, hself, Bool.not_false, Bool.false_eq_true,
        if_false]
      rfl
    · simp only [if_neg hne, update_of_ne hne]

/-- A booked event does to the pairing of its node what the event says, and nothing to the others. -/
theorem pairRow_nodeRowsBook (hown : slotNode true fe.slot = fe.node) (hc : (st.nodeRowsBook true fe).Clean)
    (n : NodeIdx) :
    (st.nodeRowsBook true fe).val.pairRow n = if n = fe.node then (st.pairRow n).book fe else st.pairRow n := by
  unfold nodeRowsBook at hc ⊢
  rcases hside : fe.isSell with _ | _
  · simp only [hside, Bool.not_false, if_true, PairRow.book, Bool.false_eq_true, if_false, bookBuy_pairRow, ite_self]
  simp only [hside, Bool.not_true, Bool.false_eq_true, if_false, Flagged.clean_bind] at hc ⊢
  rw [Flagged.bind_val]
  have hsold := bookSell_pairRow hown hc.1
  rcases hflat : fe.slotFlat with _ | _
  · simp only [Bool.false_eq_true, if_false, Flagged.pure_val, hsold n, PairRow.book, hside, hflat, if_true]
  · simp only [hflat, if_true] at hc ⊢
    rw [concludeTrade_pairRow hown hc.2 n, hsold n]
    rcases eq_or_ne n fe.node with rfl | hne
    · simp only [if_true, PairRow.book, hside, hflat]
    · simp only [if_neg hne]

end EventLoopState

theorem pairRow_booked {c : OmsConfig} (hpairs : c.partialExitEnabled = true) (st : EventLoopState) (fe : FillEvent)
    (n : NodeIdx) (hown : c.slotNode fe.slot = fe.node) (hc : (st.nodeRowsBook c.partialExitEnabled fe).Clean) :
    (st.nodeRowsBook c.partialExitEnabled fe).val.pairRow n =
      if n = fe.node then (st.pairRow n).book fe else st.pairRow n := by
  rw [OmsConfig.slotNode, hpairs] at hown
  rw [hpairs] at hc ⊢
  exact EventLoopState.pairRow_nodeRowsBook hown hc n

/-- The pairing, as a view of the rows. -/
def pairView {c : OmsConfig} (hpairs : c.partialExitEnabled = true) : RowView c PairRow where
  view := EventLoopState.pairRow
  next := PairRow.book
  congr := EventLoopState.pairRow_congr
  booked := pairRow_booked hpairs

/-- The pairing of a node once everything waiting is booked. -/
def Composer.settledPairing (k : Composer) (n : NodeIdx) : PairRow :=
  (k.els.agg.fillRings n).items.foldl PairRow.book (k.els.pairRow n)

/-! ### The trades of a node -/

/-- What the trades of a node are told: an exit leg with its net, and whether it left the node flat, or that the
    rows start over. -/
inductive TradeNote where
  | exit (net : ℤ) (flat : Bool)
  | reset

/-- The trade a node is in, by what its legs have netted, and the nets of those that are completed. -/
structure NodeTrades where
  net : ℤ
  completed : List ℤ

namespace NodeTrades

def init : NodeTrades := { net := 0, completed := [] }

/-- The leg that leaves the node flat completes its trade. -/
def note (t : NodeTrades) : TradeNote → NodeTrades
  | .exit net true => { net := 0, completed := t.completed ++ [t.net + net] }
  | .exit net false => { t with net := t.net + net }
  | .reset => init

def wins (t : NodeTrades) : Nat := t.completed.countP (0 < ·)

def losses (t : NodeTrades) : Nat := t.completed.countP (· ≤ 0)

theorem wins_add_losses (t : NodeTrades) : t.wins + t.losses = t.completed.length := by
  have hnot : (fun net : ℤ => decide ¬decide (0 < net) = true) = fun net => decide (net ≤ 0) := by
    funext net
    simp
  rw [List.length_eq_countP_add_countP (fun net => decide (0 < net)), hnot, wins, losses]

/-- One more completed trade, counted by its net. -/
theorem counts_snoc (t : NodeTrades) (net : ℤ) :
    (t.note (.exit net true)).wins = (if 0 < t.net + net then t.wins + 1 else t.wins) ∧
      (t.note (.exit net true)).losses = if 0 < t.net + net then t.losses else t.losses + 1 := by
  simp only [note, wins, losses, List.countP_append, List.countP_singleton, decide_eq_true_eq]
  split <;> split <;> omega

end NodeTrades

/-- The pairing agrees with the trades of a node whose held slots are `held`: the bit is set while one slot of two is
    left, and what is parked and what the slots have netted is the trade's net. -/
structure PairRow.Agrees (r : PairRow) (held : Leg → Bool) (t : NodeTrades) : Prop where
  half : r.pending = true → held .a ≠ held .b
  parked : r.pending = false → r.pnl = 0
  flat : ∀ leg, held leg = false → r.net leg = 0
  net : t.net = r.pnl + (r.net .a + r.net .b)
  wins : r.wins = t.wins
  losses : r.losses = t.losses

namespace PairRow.Agrees

variable {r : PairRow} {held : Leg → Bool} {t : NodeTrades} {leg : Leg} {net : ℤ}

theorem zero (held : Leg → Bool) : PairRow.zero.Agrees held .init :=
  ⟨fun hset => absurd hset Bool.false_ne_true, fun _ => rfl, fun _ _ => rfl, rfl, rfl, rfl⟩

/-- The net of both slots, with one of them moved. -/
theorem sum_update (f : Leg → ℤ) (leg : Leg) (x : ℤ) :
    update f leg x .a + update f leg x .b = f .a + f .b - f leg + x := by
  cases leg
  · rw [update_self, update_of_ne (by decide)]
    omega
  · rw [update_self, update_of_ne (by decide)]
    omega

/-- A leg bought: into a slot that is held, or one opened before any was emptied. -/
theorem enter (h : r.Agrees held t) (hok : held leg = false → r.pending = false) :
    r.Agrees (update held leg true) t := by
  refine ⟨fun hpending => ?_, h.parked, fun i hi => ?_, h.net, h.wins, h.losses⟩
  · rcases hheld : held leg with _ | _
    · exact absurd (hok hheld) (ne_false_of_eq_true hpending)
    · rw [← hheld, update_eq_self]
      exact h.half hpending
  · rcases eq_or_ne i leg with rfl | hne
    · rw [update_self] at hi
      exact absurd hi Bool.false_ne_true.symm
    · rw [update_of_ne hne] at hi
      exact h.flat i hi

/-- A leg sold off a slot that keeps something. -/
theorem reduce (h : r.Agrees held t) (hheld : held leg = true) :
    { r with net := update r.net leg (r.net leg + net) : PairRow }.Agrees held (t.note (.exit net false)) := by
  refine ⟨h.half, h.parked, fun i hi => ?_, ?_, h.wins, h.losses⟩
  · rcases eq_or_ne i leg with rfl | hne
    · exact absurd (hheld.symm.trans hi) Bool.false_ne_true.symm
    · exact (update_of_ne hne ..).trans (h.flat i hi)
  · have hnet := h.net
    simp only [NodeTrades.note, sum_update]
    omega

/-- The second slot emptied: the trade is completed. -/
theorem empty_second (h : r.Agrees held t) (hheld : held leg = true) (hpending : r.pending = true) (net : ℤ) :
    ({ r with net := update r.net leg (r.net leg + net) : PairRow }.conclude leg).Agrees (update held leg false)
      (t.note (.exit net true)) ∧ ∀ i, update held leg false i = false := by
  have hother : ∀ i, i ≠ leg → held i = false := by
    intro i hne
    have hhalf := h.half hpending
    cases leg <;> cases i <;> simp_all
  have hflat : ∀ i, update held leg false i = false := by
    intro i
    rcases eq_or_ne i leg with rfl | hne
    · rw [update_self]
    · rw [update_of_ne hne, hother i hne]
  have hnone : ∀ i, update (update r.net leg (r.net leg + net)) leg 0 i = 0 := by
    intro i
    rcases eq_or_ne i leg with rfl | hne
    · rw [update_self]
    · rw [update_of_ne hne, update_of_ne hne, h.flat i (hother i hne)]
  -- what the other slot has netted is parked already
  have htotal : r.pnl + (r.net leg + net) = t.net + net := by
    have hnet := h.net
    cases leg
    · have hb := h.flat .b (hother .b (by decide))
      omega
    · have ha := h.flat .a (hother .a (by decide))
      omega
  obtain ⟨hwins, hlosses⟩ := t.counts_snoc net
  refine ⟨?_, hflat⟩
  simp only [conclude, hpending, if_true, update_self, htotal, Bool.not_true, classify]
  split
  next hwin =>
    rw [if_pos hwin] at hwins hlosses
    refine ⟨fun hset => absurd hset Bool.false_ne_true, fun _ => rfl, fun i _ => hnone i, ?_, ?_, ?_⟩
    · simp only [hnone]
      rfl
    · rw [hwins, h.wins]
    · rw [hlosses, h.losses]
  next hloss =>
    rw [if_neg hloss] at hwins hlosses
    refine ⟨fun hset => absurd hset Bool.false_ne_true, fun _ => rfl, fun i _ => hnone i, ?_, ?_, ?_⟩
    · simp only [hnone]
      rfl
    · rw [hwins, h.wins]
    · rw [hlosses, h.losses]

/-- The first slot emptied, with the other one held: its net is parked. -/
theorem empty_first (h : r.Agrees held t) (hboth : ∀ i, held i = true) (hpending : r.pending = false) (leg : Leg)
    (net : ℤ) :
    ({ r with net := update r.net leg (r.net leg + net) : PairRow }.conclude leg).Agrees (update held leg false)
      (t.note (.exit net false)) ∧ ∃ i, update held leg false i = true := by
  have hother : ∃ i, i ≠ leg := by
    cases leg
    · exact ⟨.b, by decide⟩
    · exact ⟨.a, by decide⟩
  obtain ⟨i, hi⟩ := hother
  refine ⟨?_, i, by rw [update_of_ne hi, hboth i]⟩
  simp only [conclude, hpending, Bool.false_eq_true, if_false, update_self, Bool.not_false]
  refine ⟨fun _ => ?_, fun hset => absurd hset Bool.false_ne_true.symm, fun i hflat => ?_, ?_, h.wins, h.losses⟩
  · cases leg <;> simp [hboth]
  · rcases eq_or_ne i leg with rfl | hne
    · exact update_self ..
    · rw [update_of_ne hne, hboth i] at hflat
      exact absurd hflat Bool.false_ne_true.symm
  · have hnet := h.net
    have hparked := h.parked hpending
    simp only [NodeTrades.note, sum_update, update_self]
    omega

end PairRow.Agrees

/-! ### The books -/

/-- What the legs of a turn tell the trades of a node, from the positions `before` to the positions `after`. -/
def legNotes (c : OmsConfig) (n : NodeIdx) (before after : Portfolio) (ls : List BookedLeg) : List TradeNote :=
  (ls.filter fun l => c.slotNode l.slot = n).flatMap fun l =>
    ((NodeDesk.leg c (.beside before) l).events.filter (·.isSell)).map fun fe => .exit fe.net.v (after.nodeFlat n)

theorem legNotes_own (c : OmsConfig) (before after : Portfolio) (l : BookedLeg) :
    legNotes c (c.slotNode l.slot) before after [l] =
      ((NodeDesk.leg c (.beside before) l).events.filter (·.isSell)).map fun fe =>
        .exit fe.net.v (after.nodeFlat (c.slotNode l.slot)) := by
  simp [legNotes]

theorem legNotes_other {c : OmsConfig} {n : NodeIdx} {l : BookedLeg} (h : c.slotNode l.slot ≠ n)
    (before after : Portfolio) :
    legNotes c n before after [l] = [] := by
  simp [legNotes, h]

/-- The pairing of a node is that of its trades `t`, once everything waiting is booked. -/
structure Paired (c : OmsConfig) (n : NodeIdx) (t : NodeTrades) (b : Books) : Prop where
  rings : b.composer.OwnRings c
  agrees : (b.composer.settledPairing n).Agrees (ShardedSnapshot.legHeld b.portfolio n) t

/-- A leg that keeps to its turn: an entry that opens a slot only while the pairing bit is clear, an exit that empties
    one only if the bit is set or both slots are held. The bit is as it will be once everything waiting is booked. -/
abbrev InTurn (c : OmsConfig) (b : Books) (l : BookedLeg) : Prop :=
  if l.isSell then
    b.portfolio.active l.slot = true → clampQty l.qty (b.portfolio.positions l.slot).quantity =
      (b.portfolio.positions l.slot).quantity →
      (b.composer.settledPairing (c.slotNode l.slot)).pending = false →
        ∀ slot, c.slotNode slot = c.slotNode l.slot → b.portfolio.active slot = true
  else b.portfolio.active l.slot = false → (b.composer.settledPairing (c.slotNode l.slot)).pending = false

namespace Paired

variable {c : OmsConfig} {n : NodeIdx} {t : NodeTrades} {b b' : Books} {l : BookedLeg} {exits : Prop}

theorem congr (h : Paired c n t b) (hfills : b.composer.SameFills b'.composer)
    (hactive : b'.portfolio.active = b.portfolio.active) :
    Paired c n t b' := by
  have hpairing : b'.composer.settledPairing n = b.composer.settledPairing n := by
    have hrows : b.composer.els.SameRows b'.composer.els :=
      ⟨hfills.nodes, hfills.pending, hfills.notional, hfills.tradeNet⟩
    rw [Composer.settledPairing, Composer.settledPairing, hfills.fillRings, EventLoopState.pairRow_congr hrows]
  refine ⟨?_, ?_⟩
  · rw [Composer.OwnRings, hfills.fillRings]
    exact h.rings
  · rw [hpairing, Portfolio.legHeld_congr hactive]
    exact h.agrees

theorem fillRingsApply (hpairs : c.partialExitEnabled = true) (h : Paired c n t b)
    (hc : (b.composer.fillRingsApply c).Clean) :
    Paired c n t { b with composer := (b.composer.fillRingsApply c).val } := by
  refine ⟨Composer.ownRings_fillRingsApply c b.composer, ?_⟩
  have hsettled := congrFun ((pairView hpairs).settled_fillRingsApply h.rings hc) n
  exact (congrArg (PairRow.Agrees · (ShardedSnapshot.legHeld b.portfolio n) t) hsettled).mpr h.agrees

/-- An event of the node: the pairing and what is held after it, for the trades that are told of it. -/
theorem book_agrees {d : NodeDesk} (fe : FillEvent) {q p' : Portfolio} (hpairs : c.partialExitEnabled = true)
    (h : Paired c (c.slotNode l.slot) t b) (hd : d.portfolio = b.portfolio) (hslot : fe.slot = l.slot)
    (hevent : d.LegEvent l fe q) (hok : InTurn c b l) (hsame : p'.active l.slot = q.active l.slot)
    (hothers : ∀ i, i ≠ l.slot → p'.active i = b.portfolio.active i) :
    ((b.composer.settledPairing (c.slotNode l.slot)).book fe).Agrees (ShardedSnapshot.legHeld p' (c.slotNode l.slot))
      ((([fe].filter (·.isSell)).map fun fe => TradeNote.exit fe.net.v (p'.nodeFlat (c.slotNode l.slot))).foldl NodeTrades.note t) := by
  have hnode : c.slotNode l.slot = slotNode true l.slot := by rw [OmsConfig.slotNode, hpairs]
  have hheld := Portfolio.legHeld_update hothers (c.slotNode l.slot)
  rw [if_pos hnode, hsame] at hheld
  have hleg : ShardedSnapshot.legHeld b.portfolio (c.slotNode l.slot) (slotLeg true l.slot) =
    b.portfolio.active l.slot := by
    rw [ShardedSnapshot.legHeld, hnode, legSlot_slotLeg, Option.any_some]
  rcases hevent with ⟨hentry, hbuy, -, rfl⟩ | ⟨hexit, hsell, hactive, hflat, -, rfl⟩
  · have hopened : (d.entered l).active l.slot = true := by
      unfold NodeDesk.entered
      split
      next hactive => exact hactive
      next => exact update_self ..
    rw [InTurn, if_neg (ne_true_of_eq_false hentry)] at hok
    rw [hheld, hopened, PairRow.book, if_neg (ne_true_of_eq_false hbuy),
      List.filter_cons_of_neg (ne_true_of_eq_false hbuy)]
    exact h.agrees.enter fun hclosed => hok (hleg.symm.trans hclosed)
  · rw [Portfolio.takeLeg_active hactive] at hheld
    rw [InTurn, if_pos hexit] at hok
    rw [hd] at hactive hflat hheld
    have hlast : ((b.portfolio.positions l.slot).quantity.sub (clampQty l.qty (b.portfolio.positions l.slot).quantity)).val.isZero =
        fe.slotFlat := by
      rw [hflat]
      exact Bool.eq_iff_iff.2 (Money.sub_isZero_iff.trans (eq_comm.trans Money.eq_iff.symm))
    rw [hlast] at hheld
    simp only [List.filter_cons_of_pos hsell, List.filter_nil, List.map_cons, List.map_nil, List.foldl_cons,
      List.foldl_nil]
    rw [PairRow.book, if_pos hsell, hslot]
    rcases hlastleg : fe.slotFlat with _ | _
    · -- the slot keeps something, so the node is not flat
      rw [hlastleg, Bool.not_false] at hheld
      replace hheld := hheld.trans (update_eq_self_iff.2 (hleg.trans hactive).symm)
      have hkept : p'.nodeFlat (c.slotNode l.slot) = false :=
        Portfolio.nodeFlat_false (by rw [hheld, hleg, hactive])
      rw [hheld, hkept]
      exact h.agrees.reduce (hleg.trans hactive)
    · rw [hlastleg, Bool.not_true] at hheld
      rw [hlastleg] at hflat
      by_cases hset : (b.composer.settledPairing (c.slotNode l.slot)).pending = true
      · obtain ⟨hagrees, hnone⟩ := h.agrees.empty_second (hleg.trans hactive) hset fe.net.v
        rw [← hheld] at hnone
        rw [Portfolio.nodeFlat_iff.2 hnone, hheld]
        exact hagrees
      · have hclear := eq_false_of_ne_true hset
        have hboth := Portfolio.legHeld_of_slots hpairs (hok hactive (Money.eq_iff.1 hflat.symm) hclear)
        obtain ⟨hagrees, i, hi⟩ := h.agrees.empty_first hboth hclear (slotLeg true l.slot) fe.net.v
        rw [← hheld] at hi
        rw [Portfolio.nodeFlat_false hi, hheld]
        exact hagrees

theorem booked (hwired : c.aggWired = true) (hpairs : c.partialExitEnabled = true) (h : Paired c n t b)
    (hleg : Books.Booked c exits l b (.beside b.portfolio) b') (hok : InTurn c b l) :
    Paired c n ((legNotes c n b.portfolio b'.portfolio [l]).foldl NodeTrades.note t) b' := by
  rcases hleg with hdesk | ⟨fe, record, q, hslot, hnode, -, hdesk, hcomposer, hclean, -, hsame, hothers, -⟩
  · have hnone : legNotes c n b.portfolio b.portfolio [l] = [] := by
      unfold legNotes
      refine List.flatMap_eq_nil_iff.2 fun e he => ?_
      rw [List.mem_singleton.1 (List.mem_of_mem_filter he), hdesk]
      rfl
    rw [hnone]
    exact h
  have hown : c.slotNode fe.slot = fe.node := by rw [hslot, hnode]
  have hkept : ∀ i, i ≠ l.slot → b'.portfolio.active i = b.portfolio.active i := fun i hne => (hothers i hne).1
  have hfills := Composer.sameFills_emitRecord c (b.composer.fillEmit c fe).val record
  rw [← hcomposer] at hfills
  refine ⟨?_, ?_⟩
  · rw [Composer.OwnRings, hfills.fillRings]
    exact Composer.ownRings_fillEmit hwired hown h.rings
  have hsettled : b'.composer.settledPairing n =
      update b.composer.settledPairing fe.node ((b.composer.settledPairing fe.node).book fe) n := by
    have hrows : (b.composer.fillEmit c fe).val.els.SameRows b'.composer.els :=
      ⟨hfills.nodes, hfills.pending, hfills.notional, hfills.tradeNet⟩
    exact (congrFun ((pairView hpairs).settled_congr hfills.fillRings hrows) n).trans
      (congrFun ((pairView hpairs).settled_fillEmit hwired h.rings hclean) n)
  rw [hsettled, hnode]
  rcases eq_or_ne n (c.slotNode l.slot) with rfl | hne
  · have hevents : (NodeDesk.leg c (.beside b.portfolio) l).events = [{ fe with seq := 1 }] := by
      rw [hdesk]
      rfl
    rw [update_self, legNotes_own, hevents]
    exact h.book_agrees { fe with seq := 1 } hpairs rfl hslot (NodeDesk.leg_event hdesk) hok hsame.active hkept
  · have hheld := Portfolio.legHeld_update hkept n
    rw [if_neg (by simpa [OmsConfig.slotNode, hpairs] using hne)] at hheld
    rw [update_of_ne hne, hheld, legNotes_other (Ne.symm hne)]
    exact h.agrees

open OrderManagerState in
/-- A turn of the order manager whose leg keeps to its turn. -/
theorem act (hwired : c.aggWired = true) (hpairs : c.partialExitEnabled = true) {s : OrderManagerState} {a : Act}
    (h : Paired c n t s.books) (hok : ∀ l ∈ s.legsOf a, InTurn c s.books l) (hc : (s.act c a).Clean) :
    Paired c n ((legNotes c n s.books.portfolio (s.act c a).val.books.portfolio (s.legsOf a)).foldl NodeTrades.note t)
      (s.act c a).val.books := by
  have hnotes : ∀ {p p' : Portfolio}, p'.active = p.active →
      legNotes c n s.books.portfolio p' (s.legsOf a) = legNotes c n s.books.portfolio p (s.legsOf a) := by
    intro p p' hactive
    rw [legNotes, legNotes, Portfolio.nodeFlat_congr hactive]
  refine books_act_booked (Paired c n t)
    (fun b => Paired c n ((legNotes c n s.books.portfolio b.portfolio (s.legsOf a)).foldl NodeTrades.note t) b)
    ?_ ?_ ?_ ?_ ?_ ?_ h hc
  · intro hidle hb
    rw [hidle]
    exact hb
  · intro b' hfills hportfolio _ hb
    exact hb.congr hfills (by rw [hportfolio])
  · intro l hl b b' hportfolio hfills hb hbook
    have hinturn := hok l (by rw [hl]; exact List.mem_singleton_self l)
    have hpairing : b.composer.settledPairing = s.books.composer.settledPairing :=
      (pairView hpairs).settled_congr hfills.fillRings ⟨hfills.nodes, hfills.pending, hfills.notional,
        hfills.tradeNet⟩
    rw [hl, ← hportfolio]
    refine hb.booked hwired hpairs (hbook False (.beside b.portfolio) (.of_eq rfl rfl)) ?_
    simpa only [InTurn, hportfolio, hpairing] using hinturn
  · intro b b' hfills hportfolio _ hb
    rw [hportfolio]
    exact hb.congr hfills (by rw [hportfolio])
  · exact fun _ b hb hclean => hb.fillRingsApply hpairs hclean
  · intro b dc _ hb
    have hactive : (applyDrag b.portfolio dc).active = b.portfolio.active :=
      funext fun slot => (applyDrag_sameSlot b.portfolio dc slot).active
    rw [hnotes hactive]
    exact hb.congr ⟨rfl, rfl, rfl, rfl, rfl, rfl⟩ hactive

end Paired

/-! ### Sessions -/

namespace SessionConfig

open OrderManagerState

variable {sc : SessionConfig} {s : OrderManagerState} {n : NodeIdx} {t : NodeTrades}

/-- What a turn of a session tells the trades of a node. -/
def tradeNotes (sc : SessionConfig) (n : NodeIdx) (s : OrderManagerState) : SessionAct → List TradeNote
  | .own a => legNotes sc.oms n s.books.portfolio (s.act sc.oms a).val.books.portfolio (s.legsOf a)
  | .restart => []
  | .paperReset => [.reset]

/-- The trades of a node over the turns `as`, from the state `s` on. -/
def trades (sc : SessionConfig) (n : NodeIdx) (s : OrderManagerState) (as : List SessionAct) : NodeTrades :=
  (outputs sc.step (sc.tradeNotes n) s as).foldl NodeTrades.note .init

/-- No slot of a registered node is sold in part as the session stops. -/
def NoneInPart (sc : SessionConfig) (s : OrderManagerState) : Prop :=
  ∀ slot, sc.registered (sc.oms.slotNode slot) = true →
    (s.fillRingsApply sc.oms).val.books.composer.els.agg.pendingTradeNet slot = .zero

/-- A turn that saturates nothing and keeps the pairing: its leg keeps to its turn, and a restart finds no slot sold
    in part. -/
def PairingKept (sc : SessionConfig) (s : OrderManagerState) (a : SessionAct) : Prop :=
  (sc.act s a).Clean ∧
    match a with
    | .own a => ∀ l ∈ s.legsOf a, InTurn sc.oms s.books l
    | .restart => sc.NoneInPart s
    | .paperReset => True

instance (sc : SessionConfig) (s : OrderManagerState) : Decidable (sc.NoneInPart s) :=
  inferInstanceAs (Decidable (∀ slot, sc.registered (sc.oms.slotNode slot) = true →
    (s.fillRingsApply sc.oms).val.books.composer.els.agg.pendingTradeNet slot = .zero))

instance (sc : SessionConfig) (s : OrderManagerState) (a : SessionAct) : Decidable (sc.PairingKept s a) :=
  match a with
  | .own a => inferInstanceAs (Decidable ((s.act sc.oms a).Clean ∧ ∀ l ∈ s.legsOf a, InTurn sc.oms s.books l))
  | .restart => inferInstanceAs (Decidable ((sc.restart s).Clean ∧ sc.NoneInPart s))
  | .paperReset => inferInstanceAs (Decidable ((sc.paperReset s).Clean ∧ True))

/-- With nothing sold in part, the bit may be read off the slots that are held. -/
theorem PairRow.Agrees.of_parity {r : PairRow} {held : Leg → Bool} (h : r.Agrees held t)
    (hnet : ∀ leg, r.net leg = 0) :
    { r with pending := xor (held .a) (held .b), net := fun _ => 0 : PairRow }.Agrees held t := by
  refine ⟨fun hxor => ?_, fun hxor => ?_, fun _ _ => rfl, ?_, h.wins, h.losses⟩
  · exact Bool.xor_iff_ne.1 hxor
  · refine h.parked (Bool.eq_false_iff.2 fun hset => h.half hset ?_)
    exact not_ne_iff.1 fun hne => absurd (Bool.xor_iff_ne.2 hne) (ne_true_of_eq_false hxor)
  · have htotal := h.net
    rw [hnet, hnet] at htotal
    exact htotal

/-- Trackers that are all zero, by slot or by leg. -/
theorem netless (i : Option SlotIdx) : (i.elim Money.zero fun _ => .zero).v = 0 := by
  rcases i with _ | i <;> rfl

/-- Seeding leaves no slot sold in part. -/
theorem paired_seed {b : Books} (hrings : ∀ n, (b.composer.els.agg.fillRings n).items = [])
    (h : { b.composer.els.pairRow n with net := fun _ => 0 : PairRow }.Agrees (ShardedSnapshot.legHeld b.portfolio n) t) :
    Paired sc.oms n t b.seed.val := by
  have hseeded := Books.seed_seeded b
  generalize b.seed.val = b' at hseeded ⊢
  have hempty : ∀ n, (b'.composer.els.agg.fillRings n).items = [] := by
    rw [hseeded.fillRings]
    exact hrings
  refine ⟨fun n fe hfe => ?_, ?_⟩
  · rw [hempty] at hfe
    exact absurd hfe List.not_mem_nil
  · rw [Composer.settledPairing, hempty, List.foldl_nil, hseeded.portfolio]
    simp only [EventLoopState.pairRow, hseeded.nodes, hseeded.partnerPendingBitmap, hseeded.pendingTradeNet, netless]
    exact h

theorem paired_restart (hwired : sc.oms.aggWired = true) (hpairs : sc.oms.partialExitEnabled = true)
    (hn : sc.registered n = true) (h : Paired sc.oms n t s.books) (hnone : sc.NoneInPart s)
    (hc : (sc.restart s).Clean) :
    Paired sc.oms n t (sc.restart s).val.books := by
  have hpass : (s.books.composer.fillRingsApply sc.oms).Clean := by
    rw [restart, Flagged.clean_bind, fillRingsApply, if_pos hwired, Flagged.clean_bind] at hc
    exact hc.1.1
  have hstopped : Paired sc.oms n t (s.fillRingsApply sc.oms).val.books := by
    rw [fillRingsApply, if_pos hwired]
    exact h.fillRingsApply hpairs hpass
  have hempty : ((s.fillRingsApply sc.oms).val.books.composer.els.agg.fillRings n).items = [] := by
    rw [fillRingsApply, if_pos hwired]
    exact Composer.fillRings_eq_empty_of_pendingFills (Composer.pendingFills_fillRingsApply sc.oms s.books.composer) n
  have hnet : ∀ leg, (((s.fillRingsApply sc.oms).val.books.composer).settledPairing n).net leg = 0 := by
    intro leg
    rw [Composer.settledPairing, hempty]
    show ((legSlot true n leg).elim .zero _ : Money).v = 0
    rcases hslot : legSlot true n leg with _ | slot
    · rfl
    · have hnode : sc.oms.slotNode slot = n := by
        rw [OmsConfig.slotNode, hpairs, (legSlot_eq_some.1 hslot).1]
      rw [Option.elim_some, hnone slot (by rw [hnode, hn])]
      rfl
  have hagrees := PairRow.Agrees.of_parity hstopped.agrees hnet
  simp only [restart, Flagged.bind_val, Flagged.pure_val]
  generalize (s.fillRingsApply sc.oms).val = s' at hempty hagrees ⊢
  refine paired_seed ?_ ?_
  all_goals simp only [ShardedSnapshot.load, ShardedSnapshot.accepts_save, Bool.not_true, Bool.false_eq_true,
    if_false]
  · exact fun _ => rfl
  · simp only [EventLoopState.pairRow, ShardedSnapshot.legParity, hpairs, hn, Bool.true_and]
    rw [Composer.settledPairing, hempty] at hagrees
    exact hagrees

theorem paired_paperReset (hwired : sc.oms.aggWired = true) (hn : sc.registered n = true) (s : OrderManagerState) :
    Paired sc.oms n .init (sc.paperReset s).val.books := by
  have hrings : ∀ n, ((s.fillRingsApply sc.oms).val.books.composer.els.agg.fillRings n).items = [] := by
    intro n
    rw [fillRingsApply, if_pos hwired]
    exact Composer.fillRings_eq_empty_of_pendingFills (Composer.pendingFills_fillRingsApply sc.oms s.books.composer) n
  rw [paperReset, Flagged.bind_val]
  generalize (s.fillRingsApply sc.oms).val = s' at hrings ⊢
  simp only [executePaperReset, Flagged.bind_val, Flagged.pure_val]
  have hseeded : Paired sc.oms n .init (sc.wipe s'.books).seed.val := by
    refine paired_seed hrings ?_
    simp only [wipe, resetRows, EventLoopState.pairRow, if_pos hn]
    exact .zero _
  exact hseeded.congr ⟨rfl, rfl, rfl, rfl, rfl, rfl⟩ rfl

theorem paired_init (sc : SessionConfig) (n : NodeIdx) (tradeLog : Option (List (EmitRecord × Money))) :
    Paired sc.oms n .init (init sc.startingBalance tradeLog).books := by
  refine ⟨fun _ _ hfe => absurd hfe List.not_mem_nil, ?_⟩
  have hrow : (init sc.startingBalance tradeLog).books.composer.settledPairing n = .zero := by
    show PairRow.mk false 0 (fun leg => ((legSlot true n leg).elim Money.zero fun _ => .zero).v) 0 0 = _
    simp only [netless]
    rfl
  rw [hrow]
  exact .zero _

theorem paired_step (hwired : sc.oms.aggWired = true) (hpairs : sc.oms.partialExitEnabled = true)
    (hn : sc.registered n = true) {notes : List TradeNote} {a : SessionAct}
    (h : Paired sc.oms n (notes.foldl NodeTrades.note .init) s.books) (hok : sc.PairingKept s a) :
    Paired sc.oms n ((notes ++ sc.tradeNotes n s a).foldl NodeTrades.note .init) (sc.step s a).books := by
  obtain ⟨hc, hkept⟩ := hok
  rw [List.foldl_append]
  cases a with
  | own a => exact h.act hwired hpairs hkept hc
  | restart => exact paired_restart hwired hpairs hn h hkept hc
  | paperReset => exact paired_paperReset hwired hn s

/-- The pairing of a flat node with nothing waiting is in order: the bit is clear, nothing is parked, and the wins and
    losses are the completed trades, each by the sum of its legs' nets. -/
structure PairingRight (s : OrderManagerState) (n : NodeIdx) (t : NodeTrades) : Prop where
  pending : s.books.composer.els.partnerPendingBitmap n = false
  pnl : (s.books.composer.els.nodes n).partnerPendingPnl = .zero
  wins : (s.books.composer.els.nodes n).nodeWins = t.completed.countP (0 < ·)
  losses : (s.books.composer.els.nodes n).nodeLosses = t.completed.countP (· ≤ 0)
  all : (s.books.composer.els.nodes n).nodeWins + (s.books.composer.els.nodes n).nodeLosses = t.completed.length

/-- In a session with partial exits, of any turns, restarts and resets that each saturate nothing and keep the
    pairing,
    whenever a registered node is flat and its ring is empty its pairing is in order. -/
theorem node_pairing_right (sc : SessionConfig) (hwired : sc.oms.aggWired = true)
    (hpairs : sc.oms.partialExitEnabled = true) (tradeLog : Option (List (EmitRecord × Money))) (as : List SessionAct)
    {s : OrderManagerState} (hrun : run sc.step (init sc.startingBalance tradeLog) as = s)
    (hkept : Steps sc.step sc.PairingKept (init sc.startingBalance tradeLog) as) (n : NodeIdx)
    (hn : sc.registered n = true) (hflat : ∀ slot, sc.oms.slotNode slot = n → s.books.portfolio.active slot = false)
    (hempty : (s.books.composer.els.agg.fillRings n).items = []) :
    PairingRight s n (sc.trades n (init sc.startingBalance tradeLog) as) := by
  have hstep : ∀ (s : OrderManagerState) (a : SessionAct) (notes : List TradeNote),
      Paired sc.oms n (notes.foldl NodeTrades.note .init) s.books → sc.PairingKept s a →
        Paired sc.oms n ((notes ++ sc.tradeNotes n s a).foldl NodeTrades.note .init) (sc.step s a).books :=
    fun s a notes => paired_step hwired hpairs hn
  have h : Paired sc.oms n (sc.trades n (init sc.startingBalance tradeLog) as) s.books := by
    rw [← hrun]
    exact run_outputs hstep as [] (paired_init sc n tradeLog) hkept
  obtain ⟨-, hagrees⟩ := h
  rw [Composer.settledPairing, hempty, List.foldl_nil] at hagrees
  have hnone : ∀ leg, ShardedSnapshot.legHeld s.books.portfolio n leg = false := by
    intro leg
    rw [ShardedSnapshot.legHeld]
    rcases hslot : legSlot true n leg with _ | slot
    · rfl
    · exact hflat slot (by rw [OmsConfig.slotNode, hpairs, (legSlot_eq_some.1 hslot).1])
  have hclear : s.books.composer.els.partnerPendingBitmap n = false :=
    Bool.eq_false_iff.2 fun hset => hagrees.half hset ((hnone .a).trans (hnone .b).symm)
  refine ⟨hclear, Money.ext (hagrees.parked hclear), hagrees.wins, hagrees.losses, ?_⟩
  exact (congrArg₂ (· + ·) hagrees.wins hagrees.losses).trans (NodeTrades.wins_add_losses _)

/-- Live with partial exits, one node on two slots. -/
def samplePairs : SessionConfig :=
  { oms := { sampleLive [1, 2, 3, 4] with partialExitEnabled := true, aggWired := true }, registeredCount := 1
    startingBalance := (Money.fromInt 1000).val }

/-- Both slots bought, a restart, the first slot sold in two legs and the second one in one. -/
def samplePairTrade : List SessionAct :=
  [.own (.submit (sampleOrder firstIdx .marketBuy 3)), .own (.submit (sampleOrder nextIdx .marketBuy 2)),
    .own (.processFill (sampleLegAt 1 100 3 true)),
    .own (.processFill (sampleLegAt (encodeOrderId nextIdx firstIdx 2) 100 2 true)), .restart,
    .own (.submit (sampleOrder firstIdx .marketSell 3)), .own (.submit (sampleOrder nextIdx .marketSell 2)),
    .own (.processFill (sampleLegAt 1 101 1 false)), .own (.processFill (sampleLegAt 1 102 2 true)),
      .own .fillRingsApply,
    .own (.processFill (sampleLegAt (encodeOrderId nextIdx firstIdx 2) 99 2 true)), .own .fillRingsApply]

theorem node_pairing_right_pair_trade :
    PairingRight (run samplePairs.step (init samplePairs.startingBalance none) samplePairTrade) firstIdx
      (samplePairs.trades firstIdx (init samplePairs.startingBalance none) samplePairTrade) :=
  node_pairing_right samplePairs rfl rfl none samplePairTrade rfl (by decide +kernel) firstIdx rfl (by decide +kernel)
    (by decide +kernel)

/-- One slot bought and sold: the leg for the other slot was never submitted. -/
def sampleOrphanLeg : List SessionAct :=
  [.own (.submit (sampleOrder firstIdx .marketBuy 3)), .own (.processFill (sampleLegAt 1 100 3 true)),
    .own (.submit (sampleOrder firstIdx .marketSell 3)), .own (.processFill (sampleLegAt 2 101 3 true)),
    .own .fillRingsApply]

/-- The trade of an orphan leg is completed and not counted, and the bit stays set on a flat node. -/
theorem node_pairing_orphan_leg :
    (∀ slot, samplePairs.oms.slotNode slot = firstIdx →
      (run samplePairs.step (init samplePairs.startingBalance none) sampleOrphanLeg).books.portfolio.active slot = false) ∧
    ((run samplePairs.step (init samplePairs.startingBalance none) sampleOrphanLeg).books.composer.els.agg.fillRings
      firstIdx).items = [] ∧
    ¬PairingRight (run samplePairs.step (init samplePairs.startingBalance none) sampleOrphanLeg) firstIdx
      (samplePairs.trades firstIdx (init samplePairs.startingBalance none) sampleOrphanLeg) := by
  refine ⟨by decide +kernel, by decide +kernel, fun h => ?_⟩
  have hset : (run samplePairs.step (init samplePairs.startingBalance none)
      sampleOrphanLeg).books.composer.els.partnerPendingBitmap firstIdx = true := by decide +kernel
  exact absurd (hset.symm.trans h.pending) Bool.false_ne_true.symm

end SessionConfig

end FoxTrader
