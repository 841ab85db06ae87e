import Mathlib.Algebra.Order.BigOperators.Group.Finset
import FoxTrader.ScheduleIndependence
import FoxTrader.Holdings
import FoxTrader.ShardedSnapshot

/-! # The open notional of a node

    The composer keeps the notional a node has open twice, in the node's row and slot by slot. A buy
    adds its notional to both, a sell takes its own off both, and the sell that empties a slot takes
    whatever is still tracked there, so the two agree and an empty slot tracks nothing. What an event
    makes of its slot's tracker is `trackStep`, and `settledNotional` is the tracker once everything
    waiting is booked.

    Nothing keeps the tracker from going below zero: a sell is relieved at the average entry price
    times its quantity, rounded twice, and that can be more than the buys have added. And a restart
    seeds the trackers anew from the positions, while the row is read from the file. -/

namespace FoxTrader

open Lib Function

/-! ### One slot -/

/-- A slot's tracked notional after an event of the slot. -/
def trackStep (tracked : ℤ) (fe : FillEvent) : ℤ :=
  if fe.isSell then if fe.slotFlat then 0 else tracked - fe.notional.v else tracked + fe.notional.v

def track (tracked : ℤ) (fes : List FillEvent) : ℤ := fes.foldl trackStep tracked

theorem track_snoc (tracked : ℤ) (fes : List FillEvent) (fe : FillEvent) :
    track tracked (fes ++ [fe]) = trackStep (track tracked fes) fe :=
  List.foldl_concat ..

/-- What waits in the ring of a slot's node for the slot. -/
def Composer.waiting (c : OmsConfig) (k : Composer) (slot : SlotIdx) : List FillEvent :=
  (k.els.agg.fillRings (c.slotNode slot)).items.filter fun fe => fe.slot = slot

/-- The tracked notional of a slot once everything waiting is booked. -/
def Composer.settledNotional (c : OmsConfig) (k : Composer) (slot : SlotIdx) : ℤ :=
  track (k.els.agg.slotNotional slot).v (k.waiting c slot)

theorem Composer.waiting_congr {c : OmsConfig} {k k' : Composer} (h : k.SameFills k') :
    k'.waiting c = k.waiting c := by
  funext slot
  rw [waiting, waiting, h.fillRings]

theorem Composer.settledNotional_congr {c : OmsConfig} {k k' : Composer} (h : k.SameFills k') :
    k'.settledNotional c = k.settledNotional c := by
  funext slot
  rw [settledNotional, settledNotional, h.notional, waiting_congr h]

/-! ### One event -/

/-- The sum of what is tracked over the slots of a node. -/
def slotNotionalSum (c : OmsConfig) (slotNotional : SlotIdx → Money) (n : NodeIdx) : ℤ :=
  ∑ slot, if c.slotNode slot = n then (slotNotional slot).v else 0

theorem slotNotionalSum_update (c : OmsConfig) (f : SlotIdx → Money) (slot : SlotIdx) (x : Money) (n : NodeIdx) :
    slotNotionalSum c (update f slot x) n =
      slotNotionalSum c f n + if n = c.slotNode slot then x.v - (f slot).v else 0 := by
  have hrow : (fun i => if c.slotNode i = n then (update f slot x i).v else 0) =
      update (fun i => if c.slotNode i = n then (f i).v else 0) slot (if c.slotNode slot = n then x.v else 0) := by
    funext i
    rcases eq_or_ne i slot with rfl | hne
    · rw [update_self, update_self]
    · rw [update_of_ne hne, update_of_ne hne]
  rw [slotNotionalSum, hrow, sum_update, ← slotNotionalSum]
  by_cases hn : c.slotNode slot = n
  · simp only [hn, if_true]
  · rw [if_neg hn, if_neg hn, if_neg (Ne.symm hn), sub_zero]

namespace EventLoopState

variable {st : EventLoopState} {fe : FillEvent} {partialOn : Bool}

theorem classify_nodeOpenNotional (ctx : NodeContext) (net : Money) :
    (ctx.classify net).val.nodeOpenNotional = ctx.nodeOpenNotional := by
  unfold NodeContext.classify
  split <;> rfl

/-- The end of a trade moves no notional. -/
theorem concludeTrade_notional (partialOn : Bool) (st : EventLoopState) (slot : SlotIdx) (node n : NodeIdx) :
    (st.concludeTrade partialOn slot node).val.agg.slotNotional = st.agg.slotNotional ∧
      ((st.concludeTrade partialOn slot node).val.nodes n).nodeOpenNotional = (st.nodes n).nodeOpenNotional := by
  have hrow : ∀ ctx : NodeContext, ctx.nodeOpenNotional = (st.nodes node).nodeOpenNotional →
      (update st.nodes node ctx n).nodeOpenNotional = (st.nodes n).nodeOpenNotional := by
    intro ctx hctx
    rcases eq_or_ne n node with rfl | hne
    · rw [update_self, hctx]
    · rw [update_of_ne hne]
  unfold concludeTrade
  split
  · exact ⟨rfl, hrow _ (classify_nodeOpenNotional ..)⟩
  split
  · exact ⟨rfl, hrow _ (classify_nodeOpenNotional ..)⟩
  · exact ⟨rfl, hrow _ rfl⟩

/-- What a booked event does to the notional: its slot's tracker takes a step, and the row of its node moves
    by as much. -/
structure NotionalMoved (st : EventLoopState) (fe : FillEvent) (st' : EventLoopState) : Prop where
  tracked : ∃ x : Money, st'.agg.slotNotional = update st.agg.slotNotional fe.slot x ∧
    x.v = trackStep (st.agg.slotNotional fe.slot).v fe
  row : ∀ n, (st'.nodes n).nodeOpenNotional.v = (st.nodes n).nodeOpenNotional.v +
    if n = fe.node then trackStep (st.agg.slotNotional fe.slot).v fe - (st.agg.slotNotional fe.slot).v else 0

theorem bookBuy_notional (hbuy : fe.isSell = false) (hc : (st.bookBuy fe).Clean) :
    NotionalMoved st fe (st.bookBuy fe).val := by
  simp only [bookBuy, Flagged.clean_bind, Flagged.clean_pure, and_true] at hc
  obtain ⟨hslot, hnode⟩ := hc
  simp only [bookBuy, Flagged.bind_val, Flagged.pure_val]
  have hstep : trackStep (st.agg.slotNotional fe.slot).v fe = (st.agg.slotNotional fe.slot).v + fe.notional.v :=
    if_neg (ne_true_of_eq_false hbuy)
  refine ⟨⟨_, rfl, ?_⟩, fun n => ?_⟩
  · rw [hstep, Money.add_v hslot]
  · rcases eq_or_ne n fe.node with rfl | hne
    · simp only [update_self, if_true, Money.add_v hnode, hstep, add_sub_cancel_left]
    · simp only [update_of_ne hne, if_neg hne, add_zero]

theorem bookSell_notional (hsell : fe.isSell = true) (hc : (st.bookSell fe).Clean) :
    NotionalMoved st fe (st.bookSell fe).val := by
  simp only [bookSell, Flagged.clean_bind, Flagged.clean_pure, and_true] at hc
  obtain ⟨-, -, -, hnode, hslot, -⟩ := hc
  simp only [bookSell, Flagged.bind_val, Flagged.pure_val]
  -- a sell that leaves something takes its own notional, the last one what is tracked
  have hrelief : trackStep (st.agg.slotNotional fe.slot).v fe = (st.agg.slotNotional fe.slot).v -
      (if fe.slotFlat then st.agg.slotNotional fe.slot else fe.notional).v := by
    unfold trackStep
    rw [if_pos hsell]
    split
    · rw [sub_self]
    · rfl
  refine ⟨⟨_, rfl, ?_⟩, fun n => ?_⟩
  · rw [hrelief, Money.sub_v hslot]
  · rcases eq_or_ne n fe.node with rfl | hne
    · simp only [update_self, if_true, Money.sub_v hnode, hrelief]
      ring
    · simp only [update_of_ne hne, if_neg hne, add_zero]

theorem nodeRowsBook_notional (hc : (st.nodeRowsBook partialOn fe).Clean) :
    NotionalMoved st fe (st.nodeRowsBook partialOn fe).val := by
  unfold nodeRowsBook at hc ⊢
  rcases hside : fe.isSell with _ | _
  · simp only [hside, Bool.not_false, if_true] at hc ⊢
    exact bookBuy_notional hside hc
  simp only [hside, Bool.not_true, Bool.false_eq_true, if_false, Flagged.clean_bind] at hc ⊢
  have hsold := bookSell_notional hside hc.1
  rw [Flagged.bind_val]
  split
  · have hends := concludeTrade_notional partialOn (st.bookSell fe).val fe.slot fe.node
    refine ⟨?_, fun n => ?_⟩
    · rw [(hends firstIdx).1]
      exact hsold.tracked
    · rw [(hends n).2]
      exact hsold.row n
  · exact hsold

end EventLoopState

/-! ### The composer -/

/-- In a node's row and over its slots the notional agrees, no slot's tracker is below zero while the events
    `waiting` for it are booked, and it ends at `settled`. -/
structure TracksNotional (c : OmsConfig) (n : NodeIdx) (settled : SlotIdx → ℤ) (waiting : SlotIdx → List FillEvent)
    (st : EventLoopState) : Prop where
  sum : (st.nodes n).nodeOpenNotional.v = slotNotionalSum c st.agg.slotNotional n
  settles : ∀ slot, c.slotNode slot = n → track (st.agg.slotNotional slot).v (waiting slot) = settled slot
  nonneg : ∀ slot, c.slotNode slot = n → ∀ now later, waiting slot = now ++ later →
    0 ≤ track (st.agg.slotNotional slot).v now

namespace TracksNotional

variable {c : OmsConfig} {n : NodeIdx} {settled : SlotIdx → ℤ} {waiting : SlotIdx → List FillEvent}
  {st st' : EventLoopState} {fe : FillEvent}

theorem congr (h : TracksNotional c n settled waiting st) (hnodes : st'.nodes = st.nodes)
    (hslots : st'.agg.slotNotional = st.agg.slotNotional) : TracksNotional c n settled waiting st' := by
  refine ⟨?_, ?_, ?_⟩
  · rw [hnodes, hslots]
    exact h.sum
  · rw [hslots]
    exact h.settles
  · rw [hslots]
    exact h.nonneg

theorem slot_nonneg (h : TracksNotional c n settled waiting st) {slot : SlotIdx} (hn : c.slotNode slot = n) :
    0 ≤ (st.agg.slotNotional slot).v := h.nonneg slot hn [] _ rfl

theorem row_nonneg (h : TracksNotional c n settled waiting st) : 0 ≤ (st.nodes n).nodeOpenNotional.v := by
  rw [h.sum]
  refine Finset.sum_nonneg fun slot _ => ?_
  split
  next hn => exact h.slot_nonneg hn
  next => exact Int.le_refl 0

/-- The next event is booked; it is the first that waited for its slot. -/
theorem moved {rest : List FillEvent} (hown : c.slotNode fe.slot = fe.node)
    (h : TracksNotional c n settled (fun slot => (fe :: rest).filter fun fe => fe.slot = slot) st)
    (hmoved : EventLoopState.NotionalMoved st fe st') :
    TracksNotional c n settled (fun slot => rest.filter fun fe => fe.slot = slot) st' := by
  obtain ⟨⟨x, hslots, hx⟩, hrow⟩ := hmoved
  have hfirst : (fe :: rest).filter (fun e => e.slot = fe.slot) = fe :: rest.filter fun e => e.slot = fe.slot :=
    List.filter_cons_of_pos (decide_eq_true rfl)
  have hother : ∀ {slot}, slot ≠ fe.slot → (fe :: rest).filter (fun e => e.slot = slot) = rest.filter fun e =>
    e.slot = slot :=
    fun hne => List.filter_cons_of_neg (by simpa using Ne.symm hne)
  refine ⟨?_, fun slot hn => ?_, fun slot hn now later hsplit => ?_⟩
  · rw [hrow n, h.sum, hslots, slotNotionalSum_update, hown, hx]
  · have hsettles := h.settles slot hn
    rw [hslots]
    rcases eq_or_ne slot fe.slot with rfl | hne
    · rw [hfirst] at hsettles
      rw [update_self, hx]
      exact hsettles
    · rw [hother hne] at hsettles
      rwa [update_of_ne hne]
  · rw [hslots]
    rcases eq_or_ne slot fe.slot with rfl | hne
    · rw [update_self, hx]
      exact h.nonneg fe.slot hn (fe :: now) later (by rw [hfirst, hsplit, List.cons_append])
    · rw [update_of_ne hne]
      exact h.nonneg slot hn now later (by rw [hother hne, hsplit])

/-- An event behind those that wait for its slot. -/
theorem push (waiting' : SlotIdx → List FillEvent) (h : TracksNotional c n settled waiting st)
    (hself : waiting' fe.slot = waiting fe.slot ++ [fe])
    (hothers : ∀ slot, slot ≠ fe.slot → waiting' slot = waiting slot)
    (hnonneg : c.slotNode fe.slot = n → 0 ≤ trackStep (settled fe.slot) fe) :
    TracksNotional c n (update settled fe.slot (trackStep (settled fe.slot) fe)) waiting' st := by
  refine ⟨h.sum, fun slot hn => ?_, fun slot hn now later hsplit => ?_⟩
  · rcases eq_or_ne slot fe.slot with rfl | hne
    · rw [hself, track_snoc, h.settles fe.slot hn, update_self]
    · rw [hothers slot hne, update_of_ne hne, h.settles slot hn]
  · rcases eq_or_ne slot fe.slot with rfl | hne
    · rw [hself] at hsplit
      rcases List.eq_nil_or_concat later with rfl | ⟨front, last, rfl⟩
      · rw [List.append_nil] at hsplit
        rw [← hsplit, track_snoc, h.settles fe.slot hn]
        exact hnonneg hn
      · rw [List.concat_eq_append, ← List.append_assoc] at hsplit
        exact h.nonneg fe.slot hn now front (List.append_inj_left' hsplit rfl)
    · exact h.nonneg slot hn now later (by rw [← hothers slot hne, hsplit])

end TracksNotional

namespace Composer

variable {c : OmsConfig} {k k' : Composer} {n : NodeIdx} {settled : SlotIdx → ℤ} {fe : FillEvent}

/-- What waits for a slot, read off the order in which the rings are applied. -/
theorem filter_pendingFills (hown : k.OwnRings c) (slot : SlotIdx) :
    k.pendingFills.filter (fun fe => fe.slot = slot) = k.waiting c slot := by
  have hnode : k.pendingFills.filter (fun fe => fe.node = c.slotNode slot) =
    (k.els.agg.fillRings (c.slotNode slot)).items :=
    filter_lanes_own (fun i fe hfe => (hown i fe hfe).1) _
  rw [waiting, ← hnode, List.filter_filter]
  refine List.filter_congr fun fe hfe => ?_
  obtain ⟨m, hm⟩ := mem_lanes.1 hfe
  by_cases hslot : fe.slot = slot
  · have hfenode : fe.node = c.slotNode slot := by rw [← hslot, (hown m fe hm).1, (hown m fe hm).2]
    simp [hslot, hfenode]
  · simp [hslot]

theorem waiting_fillRingsApply (c : OmsConfig) (k : Composer) (slot : SlotIdx) :
    (k.fillRingsApply c).val.waiting c slot = [] := by
  rw [waiting, fillRings_eq_empty_of_pendingFills (pendingFills_fillRingsApply c k), List.filter_nil]

theorem applyFill_els_notional (c : OmsConfig) (k : Composer) (fe : FillEvent) :
    (k.applyFill c fe).val.els.agg.slotNotional =
      (k.els.nodeRowsBook c.partialExitEnabled fe).val.agg.slotNotional := by
  simp only [applyFill, Flagged.bind_val, Flagged.pure_val]
  unfold emitTradeRow
  dsimp only
  split
  · rfl
  split <;> rfl

/-- A clean pass of the composer books everything that waited. -/
theorem tracksNotional_fillRingsApply (hown : k.OwnRings c) (h : TracksNotional c n settled (k.waiting c) k.els)
    (hc : (k.fillRingsApply c).Clean) : TracksNotional c n settled (fun _ => []) (k.fillRingsApply c).val.els := by
  rw [fillRingsApply, Flagged.clean_bind] at hc
  have hstart : (∀ fe ∈ k.pendingFills, c.slotNode fe.slot = fe.node) ∧
      TracksNotional c n settled (fun slot => k.pendingFills.filter fun fe =>
        fe.slot = slot) k.clearFillRings.els := by
    refine ⟨fun fe hfe => ?_, ?_⟩
    · obtain ⟨m, hm⟩ := mem_lanes.1 hfe
      rw [(hown m fe hm).1, (hown m fe hm).2]
    · simp only [filter_pendingFills hown]
      exact h.congr rfl rfl
  have hfold := Flagged.foldlM_inv (f := applyFill c)
    (fun k' rest => (∀ fe ∈ rest, c.slotNode fe.slot = fe.node) ∧
      TracksNotional c n settled (fun slot => rest.filter fun fe => fe.slot = slot) k'.els)
    (fun k' fe rest hbefore hclean => by
      obtain ⟨howns, htracks⟩ := hbefore
      refine ⟨fun e he => howns e (List.mem_cons_of_mem fe he), ?_⟩
      rw [applyFill, Flagged.clean_bind, Flagged.clean_bind] at hclean
      have hmoved := EventLoopState.nodeRowsBook_notional hclean.2.1
      exact (htracks.moved (howns fe List.mem_cons_self) hmoved).congr (applyFill_nodes c k' fe)
        (applyFill_els_notional c k' fe))
    k.pendingFills hstart hc.1
  exact hfold.2.congr rfl rfl

/-- An event sent onto a ring with room. -/
theorem tracksNotional_setFillRing (hown : c.slotNode fe.slot = fe.node)
    (h : TracksNotional c n settled (k.waiting c) k.els) {ring : Fifo FillEvent fillEventRingSize}
    (hring : ring.items = (k.els.agg.fillRings fe.node).items ++ [fe])
    (hnonneg : c.slotNode fe.slot = n → 0 ≤ trackStep (settled fe.slot) fe) :
    TracksNotional c n (update settled fe.slot (trackStep (settled fe.slot) fe))
      ((k.setFillRing fe.node ring).waiting c) (k.setFillRing fe.node ring).els := by
  refine (h.push ((k.setFillRing fe.node ring).waiting c) ?_ (fun slot hne => ?_) hnonneg).congr rfl rfl
  · simp only [waiting, setFillRing, hown, update_self, hring, List.filter_append]
    rw [List.filter_singleton]
    simp
  · simp only [waiting, setFillRing]
    rcases eq_or_ne (c.slotNode slot) fe.node with hn | hn
    · rw [hn, update_self, hring, List.filter_append, List.filter_singleton]
      simp [Ne.symm hne]
    · rw [update_of_ne hn]

/-- An event emitted, through a full ring or not. -/
theorem tracksNotional_fillEmit (hwired : c.aggWired = true) (hown : c.slotNode fe.slot = fe.node)
    (hrings : k.OwnRings c)
    (h : TracksNotional c n settled (k.waiting c) k.els) (hc : (k.fillEmit c fe).Clean)
    (hnonneg : c.slotNode fe.slot = n → 0 ≤ trackStep (settled fe.slot) fe) :
    TracksNotional c n (update settled fe.slot (trackStep (settled fe.slot) fe)) ((k.fillEmit c fe).val.waiting c)
      (k.fillEmit c fe).val.els := by
  rcases fillEmit_cases hwired k fe with ⟨ring, hring, heq⟩ | ⟨ring, hring, hclean, heq⟩
  · rw [heq]
    exact tracksNotional_setFillRing hown h hring hnonneg
  · have happlied := tracksNotional_fillRingsApply (k := k.countFillRingFull) hrings (h.congr rfl rfl) (hclean hc)
    rw [← funext (waiting_fillRingsApply c k.countFillRingFull)] at happlied
    rw [heq]
    exact tracksNotional_setFillRing hown happlied hring hnonneg

end Composer

/-! ### The books -/

/-- What a position cost is not negative, whatever its slot is. -/
def Portfolio.CostNonneg (p : Portfolio) (slot : SlotIdx) : Prop :=
  0 ≤ (p.positions slot).entryPrice.v ∧ 0 ≤ (p.positions slot).quantity.v

/-- The open notional of the nodes for which `known` holds is in order, and an empty slot settles at nothing. -/
structure OpenNotional (c : OmsConfig) (known : NodeIdx → Bool) (b : Books) : Prop where
  rings : b.composer.OwnRings c
  tracks : ∀ n, known n = true →
    TracksNotional c n (b.composer.settledNotional c) (b.composer.waiting c) b.composer.els
  flat : ∀ slot, known (c.slotNode slot) = true → b.portfolio.active slot = false →
    b.composer.settledNotional c slot = 0
  cost : ∀ slot, b.portfolio.CostNonneg slot

/-- A leg that leaves no tracker below zero: an entry at no negative price, an exit that leaves something in its
    slot relieved at no more than is tracked there once everything waiting is booked. -/
abbrev Relievable (c : OmsConfig) (b : Books) (l : BookedLeg) : Prop :=
  if l.isSell then
    b.portfolio.active l.slot = true → clampQty l.qty (b.portfolio.positions l.slot).quantity ≠
      (b.portfolio.positions l.slot).quantity →
      ((b.portfolio.positions l.slot).entryPrice.mul (clampQty l.qty (b.portfolio.positions l.slot).quantity)).val.v ≤
        b.composer.settledNotional c l.slot
  else 0 ≤ l.price.v ∧ 0 ≤ l.qty.v

/-! ### One leg -/

namespace NodeDesk

variable {d : NodeDesk} {l : BookedLeg}

/-- An entry leg leaves its slot held, at no negative cost if it has none. -/
theorem entered_held (hcost : d.portfolio.CostNonneg l.slot) (hprice : 0 ≤ l.price.v) (hqty : 0 ≤ l.qty.v) :
    (d.entered l).active l.slot = true ∧ (d.entered l).CostNonneg l.slot := by
  unfold entered
  split
  next hactive =>
    refine ⟨hactive, ?_⟩
    have hold := Money.mul_nonneg hcost.1 hcost.2
    have hleg := Money.mul_nonneg hprice hqty
    have hquantity : 0 ≤ ((d.portfolio.positions l.slot).quantity.add l.qty).val.v :=
      hcost.2.trans (Money.add_ge hcost.2 hqty).1
    simp only [Portfolio.CostNonneg, Portfolio.accumulateSlotLeg, Flagged.bind_val, Flagged.pure_val, update_self]
    exact ⟨Money.div_nonneg (hold.trans (Money.add_ge hold hleg).1) hquantity, hquantity⟩
  next =>
    simp only [Portfolio.CostNonneg, Portfolio.openSlot, update_self]
    exact ⟨trivial, hprice, hqty⟩

end NodeDesk

/-- What a sell leg leaves has cost no less than nothing. -/
theorem Portfolio.CostNonneg.takeLeg {p : Portfolio} {slot : SlotIdx} (h : p.CostNonneg slot) (price qty : Money) :
    (p.takeLeg slot price (clampQty qty (p.positions slot).quantity)).val.portfolio.CostNonneg slot := by
  have hclamp := clampQty_v qty (p.positions slot).quantity
  refine ⟨?_, ?_⟩
  · simp only [Portfolio.takeLeg, closeSlotLeg, setEntryFee, Flagged.bind_val, Flagged.pure_val, update_self]
    exact h.1
  · rw [takeLeg_quantity]
    refine Money.saturate_nonneg ?_
    show 0 ≤ (p.positions slot).quantity.v + -(clampQty qty (p.positions slot).quantity).v
    rw [hclamp]
    split <;> omega

namespace OpenNotional

variable {c : OmsConfig} {known : NodeIdx → Bool} {b b' : Books} {l : BookedLeg} {exits : Prop} {d : NodeDesk}

theorem congr (h : OpenNotional c known b) (hfills : b.composer.SameFills b'.composer)
    (hslots : ∀ slot, SameSlot False b'.portfolio b.portfolio slot) : OpenNotional c known b' := by
  refine ⟨?_, fun n hn => ?_, fun slot hn hflat => ?_, fun slot => ?_⟩
  · rw [Composer.OwnRings, hfills.fillRings]
    exact h.rings
  · rw [Composer.waiting_congr hfills, Composer.settledNotional_congr hfills]
    exact (h.tracks n hn).congr hfills.nodes hfills.notional
  · rw [Composer.settledNotional_congr hfills]
    exact h.flat slot hn ((hslots slot).active.symm.trans hflat)
  · have hcost := h.cost slot
    rwa [Portfolio.CostNonneg, ← (hslots slot).entryPrice, ← (hslots slot).quantity] at hcost

/-- A slot settles at no less than nothing. -/
theorem settled_nonneg (h : OpenNotional c known b) {slot : SlotIdx} (hn : known (c.slotNode slot) = true) :
    0 ≤ b.composer.settledNotional c slot :=
  (h.tracks _ hn).nonneg slot rfl _ [] (List.append_nil _).symm

/-- A pass of the composer. -/
theorem fillRingsApply (h : OpenNotional c known b) (hc : (b.composer.fillRingsApply c).Clean) :
    OpenNotional c known { b with composer := (b.composer.fillRingsApply c).val } := by
  have htracks : ∀ n, known n = true → TracksNotional c n (b.composer.settledNotional c)
      ((b.composer.fillRingsApply c).val.waiting c) (b.composer.fillRingsApply c).val.els := by
    intro n hn
    rw [funext (Composer.waiting_fillRingsApply c b.composer)]
    exact Composer.tracksNotional_fillRingsApply h.rings (h.tracks n hn) hc
  refine ⟨Composer.ownRings_fillRingsApply c b.composer, fun n hn => ?_, fun slot hn hflat => ?_, h.cost⟩
  · exact ⟨(htracks n hn).sum, fun _ _ => rfl, (htracks n hn).nonneg⟩
  · exact ((htracks _ hn).settles slot rfl).trans (h.flat slot hn hflat)

/-- The step a relievable leg's event makes of its slot's tracker. -/
theorem trackStep_nonneg (h : OpenNotional c known b) (hd : d.portfolio = b.portfolio) {fe : FillEvent}
    {q : Portfolio}
    (hevent : d.LegEvent l fe q) (hok : Relievable c b l) (hn : known (c.slotNode l.slot) = true) :
    0 ≤ trackStep (b.composer.settledNotional c l.slot) fe := by
  have hsettled := h.settled_nonneg hn
  unfold trackStep
  rcases hevent with ⟨hentry, hbuy, hnotional, -⟩ | ⟨hexit, hsell, hactive, hflat, hnotional, -⟩
  · rw [Relievable, if_neg (ne_true_of_eq_false hentry)] at hok
    have hadds := Money.mul_nonneg hok.1 hok.2
    rw [if_neg (ne_true_of_eq_false hbuy), hnotional]
    omega
  · rw [Relievable, if_pos hexit] at hok
    rw [hd] at hactive hflat hnotional
    rw [if_pos hsell]
    split
    · exact Int.le_refl 0
    next hrest =>
      have hfits := hok hactive (fun heq => hrest (hflat.trans (Money.eq_iff.2 heq)))
      rw [hnotional]
      omega

/-- An exit that empties its slot leaves nothing tracked there. -/
theorem trackStep_of_flat {fe : FillEvent} {q : Portfolio} (hevent : d.LegEvent l fe q)
    (hcost : d.portfolio.CostNonneg l.slot)
    (hok : l.isSell = false → 0 ≤ l.price.v ∧ 0 ≤ l.qty.v) (hflat : q.active l.slot = false) (x : ℤ) :
    trackStep x fe = 0 := by
  rcases hevent with ⟨hentry, -, -, rfl⟩ | ⟨-, hsell, hactive, hlast, -, rfl⟩
  · have hheld := (NodeDesk.entered_held hcost (hok hentry).1 (hok hentry).2).1
    exact absurd (hheld.symm.trans hflat) Bool.false_ne_true.symm
  · rw [Portfolio.takeLeg_active hactive, Bool.not_eq_false', Money.sub_isZero_iff] at hflat
    rw [← hflat, Money.eq_iff.2 rfl] at hlast
    rw [trackStep, if_pos hsell, if_pos hlast]

/-- A leg leaves what its slot cost at no less than nothing. -/
theorem cost_of_event {fe : FillEvent} {q : Portfolio} (hevent : d.LegEvent l fe q)
    (hcost : d.portfolio.CostNonneg l.slot)
    (hok : l.isSell = false → 0 ≤ l.price.v ∧ 0 ≤ l.qty.v) : q.CostNonneg l.slot := by
  rcases hevent with ⟨hentry, -, -, rfl⟩ | ⟨-, -, -, -, -, rfl⟩
  · exact (NodeDesk.entered_held hcost (hok hentry).1 (hok hentry).2).2
  · exact hcost.takeLeg l.price l.qty

theorem booked (hwired : c.aggWired = true) (h : OpenNotional c known b) (hd : d.portfolio = b.portfolio)
    (hleg : Books.Booked c exits l b d b') (hok : Relievable c b l) : OpenNotional c known b' := by
  rcases hleg with - | ⟨fe, record, q, hslot, hnode, -, hdesk, hcomposer, hclean, -, hsame, hothers, -⟩
  · exact h
  have hevent : d.LegEvent l fe q := by
    rcases NodeDesk.leg_event hdesk with ⟨hentry, hbuy, hnotional, hleft⟩ |
      ⟨hexit, hsell, hactive, hflat, hnotional, hleft⟩
    · exact .entry hentry hbuy hnotional hleft
    · exact .exit hexit hsell hactive hflat hnotional hleft
  have hentry : l.isSell = false → 0 ≤ l.price.v ∧ 0 ≤ l.qty.v := by
    intro hbuy
    rwa [Relievable, if_neg (ne_true_of_eq_false hbuy)] at hok
  have hcost : d.portfolio.CostNonneg l.slot := hd ▸ h.cost l.slot
  have hown : c.slotNode fe.slot = fe.node := by rw [hslot, hnode]
  have htracks : ∀ n, known n = true →
      TracksNotional c n (update (b.composer.settledNotional c) fe.slot (trackStep (b.composer.settledNotional c fe.slot) fe))
        ((b.composer.fillEmit c fe).val.waiting c) (b.composer.fillEmit c fe).val.els := by
    intro n hn
    refine Composer.tracksNotional_fillEmit hwired hown h.rings (h.tracks n hn) hclean fun hfe => ?_
    rw [hslot] at hfe ⊢
    exact h.trackStep_nonneg hd hevent hok (by rw [hfe, hn])
  have hemitted : OpenNotional c known { b' with composer := (b.composer.fillEmit c fe).val } := by
    refine ⟨Composer.ownRings_fillEmit hwired hown h.rings, fun n hn => ?_, fun slot hn hflat => ?_, fun slot => ?_⟩
    · exact ⟨(htracks n hn).sum, fun _ _ => rfl, (htracks n hn).nonneg⟩
    · have hsettled := (htracks _ hn).settles slot rfl
      refine hsettled.trans ?_
      rcases eq_or_ne slot l.slot with rfl | hne
      · rw [hslot, update_self]
        exact trackStep_of_flat hevent hcost hentry (hsame.active.symm.trans hflat) _
      · rw [hslot, update_of_ne hne]
        exact h.flat slot hn ((hothers slot hne).1.symm.trans hflat)
    · rcases eq_or_ne slot l.slot with rfl | hne
      · have hq := cost_of_event hevent hcost hentry
        rw [Portfolio.CostNonneg, ← hsame.entryPrice, ← hsame.quantity] at hq
        exact hq
      · have hold := h.cost slot
        rwa [Portfolio.CostNonneg, ← (hothers slot hne).2] at hold
  refine hemitted.congr ?_ fun _ => .of_eq rfl rfl
  rw [hcomposer]
  exact Composer.sameFills_emitRecord ..

open OrderManagerState in
/-- A turn of the order manager whose leg is relievable. -/
theorem act (hwired : c.aggWired = true) {s : OrderManagerState} {a : Act} (h : OpenNotional c known s.books)
    (hok : ∀ l ∈ s.legsOf a, Relievable c s.books l) (hc : (s.act c a).Clean) :
    OpenNotional c known (s.act c a).val.books := by
  have hkeeps : ∀ b b' : Books, b.composer.SameFills b'.composer → b'.portfolio = b.portfolio →
      b'.fillEmitSeq = b.fillEmitSeq → OpenNotional c known b → OpenNotional c known b' :=
    fun b b' hfills hportfolio _ hb => hb.congr hfills fun _ => .of_eq (by rw [hportfolio]) (by rw [hportfolio])
  refine books_act_booked (OpenNotional c known) (OpenNotional c known) (fun _ => id)
    (hkeeps s.books) ?_ hkeeps ?_ ?_ h hc
  · intro l hl b b' hportfolio hfills hb hbook
    have hrelievable := hok l (by rw [hl]; exact List.mem_singleton_self l)
    refine hb.booked hwired rfl (hbook False (.beside b.portfolio) (.of_eq rfl rfl)) ?_
    simpa only [Relievable, hportfolio, Composer.settledNotional_congr hfills] using hrelievable
  · exact fun _ b hb hclean => hb.fillRingsApply hclean
  · exact fun b dc _ hb => hb.congr ⟨rfl, rfl, rfl, rfl, rfl, rfl⟩ (applyDrag_sameSlot b.portfolio dc)

end OpenNotional

/-! ### Sessions -/

namespace SessionConfig

open OrderManagerState

variable {sc : SessionConfig} {s : OrderManagerState}

/-- What the trackers of a node are seeded with. -/
def seedSum (sc : SessionConfig) (p : Portfolio) (n : NodeIdx) : ℤ :=
  slotNotionalSum sc.oms (fun slot => (p.seedNotional slot).val) n

/-- The rows the file restores are the sums of what is seeded. -/
def SeedsAgree (sc : SessionConfig) (s : OrderManagerState) : Prop :=
  ∀ n, sc.registered n = true →
    ((s.fillRingsApply sc.oms).val.books.composer.els.nodes n).nodeOpenNotional.v = sc.seedSum s.books.portfolio n

/-- A turn that saturates nothing and leaves no tracker below zero or apart from its row: its leg is relievable,
    the rows agree with the seeds of a restart. -/
def NotionalKept (sc : SessionConfig) (s : OrderManagerState) (a : SessionAct) : Prop :=
  (sc.act s a).Clean ∧
    match a with
    | .own a => ∀ l ∈ s.legsOf a, Relievable sc.oms s.books l
    | .restart => sc.SeedsAgree s
    | .paperReset => True

instance (sc : SessionConfig) (s : OrderManagerState) : Decidable (sc.SeedsAgree s) :=
  inferInstanceAs (Decidable (∀ n, sc.registered n = true →
    ((s.fillRingsApply sc.oms).val.books.composer.els.nodes n).nodeOpenNotional.v = sc.seedSum s.books.portfolio n))

instance (sc : SessionConfig) (s : OrderManagerState) (a : SessionAct) : Decidable (sc.NotionalKept s a) :=
  match a with
  | .own a =>
    inferInstanceAs (Decidable ((s.act sc.oms a).Clean ∧ ∀ l ∈ s.legsOf a, Relievable sc.oms s.books l))
  | .restart => inferInstanceAs (Decidable ((sc.restart s).Clean ∧ sc.SeedsAgree s))
  | .paperReset => inferInstanceAs (Decidable ((sc.paperReset s).Clean ∧ True))

/-- Seeded trackers under rows that agree with them. -/
theorem openNotional_seed {b : Books} (hrings : ∀ n, (b.composer.els.agg.fillRings n).items = [])
    (hcost : ∀ slot, b.portfolio.CostNonneg slot)
    (hrows : ∀ n, sc.registered n = true →
      (b.composer.els.nodes n).nodeOpenNotional.v = sc.seedSum b.portfolio n) :
    OpenNotional sc.oms sc.registered b.seed.val := by
  have hseeded := Books.seed_seeded b
  generalize b.seed.val = b' at hseeded ⊢
  have hempty : ∀ n, (b'.composer.els.agg.fillRings n).items = [] := by
    rw [hseeded.fillRings]
    exact hrings
  have hnone : ∀ slot, b'.composer.waiting sc.oms slot = [] := by
    intro slot
    rw [Composer.waiting, hempty, List.filter_nil]
  refine ⟨fun n fe hfe => ?_, fun n hn => ⟨?_, fun _ _ => rfl, fun slot hslot now later hsplit => ?_⟩,
    fun slot hn hflat => ?_, ?_⟩
  · rw [hempty] at hfe
    exact absurd hfe List.not_mem_nil
  · rw [hseeded.nodes, hseeded.slotNotional]
    exact hrows n hn
  · rw [hnone] at hsplit
    rw [(List.append_eq_nil_iff.1 hsplit.symm).1, hseeded.slotNotional]
    show 0 ≤ (b.portfolio.seedNotional slot).val.v
    unfold Portfolio.seedNotional
    split
    · exact Money.mul_nonneg (hcost slot).1 (hcost slot).2
    · exact Int.le_refl 0
  · rw [hseeded.portfolio] at hflat
    rw [Composer.settledNotional, hnone, hseeded.slotNotional]
    show (b.portfolio.seedNotional slot).val.v = 0
    rw [Portfolio.seedNotional_of_flat hflat]
    rfl
  · rw [hseeded.portfolio]
    exact hcost

theorem openNotional_restart (h : OpenNotional sc.oms sc.registered s.books) (hagree : sc.SeedsAgree s) :
    OpenNotional sc.oms sc.registered (sc.restart s).val.books := by
  have hportfolio := fillRingsApply_portfolio sc.oms s
  simp only [restart, Flagged.bind_val, Flagged.pure_val]
  refine openNotional_seed ?_ ?_ ?_
  all_goals simp only [ShardedSnapshot.load, ShardedSnapshot.accepts_save, Bool.not_true, Bool.false_eq_true,
    if_false]
  · exact fun _ => rfl
  · exact fun slot => (congrArg (·.CostNonneg slot) hportfolio).mpr (h.cost slot)
  · intro n hn
    rw [if_pos hn]
    exact (hagree n hn).trans (congrArg (sc.seedSum · n) hportfolio).symm

/-- Nothing is seeded for slots that are not held. -/
theorem seedSum_of_flat {p : Portfolio} (h : ∀ slot, p.active slot = false) (n : NodeIdx) : sc.seedSum p n = 0 := by
  unfold seedSum slotNotionalSum
  refine Finset.sum_eq_zero fun slot _ => ?_
  simp only [Portfolio.seedNotional_of_flat (h slot)]
  split <;> rfl

theorem openNotional_paperReset (hwired : sc.oms.aggWired = true) (s : OrderManagerState) :
    OpenNotional sc.oms sc.registered (sc.paperReset s).val.books := by
  have hrings : ∀ n, ((s.fillRingsApply sc.oms).val.books.composer.els.agg.fillRings n).items = [] := by
    intro n
    rw [fillRingsApply, if_pos hwired]
    exact Composer.fillRings_eq_empty_of_pendingFills (Composer.pendingFills_fillRingsApply sc.oms s.books.composer) n
  rw [paperReset, Flagged.bind_val]
  generalize (s.fillRingsApply sc.oms).val = s' at hrings ⊢
  simp only [executePaperReset, Flagged.bind_val, Flagged.pure_val]
  have hcost : ∀ slot, (sc.wipe s'.books).portfolio.CostNonneg slot := fun _ => ⟨Int.le_refl 0, Int.le_refl 0⟩
  have hseeded : OpenNotional sc.oms sc.registered (sc.wipe s'.books).seed.val := by
    refine openNotional_seed hrings hcost fun n hn => ?_
    rw [seedSum_of_flat fun _ => rfl]
    simp only [wipe, resetRows, if_pos hn]
    rfl
  generalize (sc.wipe s'.books).seed.val = b at hseeded ⊢
  exact hseeded.congr ⟨rfl, rfl, rfl, rfl, rfl, rfl⟩ fun _ => .of_eq rfl rfl

theorem openNotional_init (sc : SessionConfig) (tradeLog : Option (List (EmitRecord × Money))) :
    OpenNotional sc.oms sc.registered (init sc.startingBalance tradeLog).books := by
  have hzero : ∀ n, slotNotionalSum sc.oms (fun _ => .zero) n = 0 := by
    intro n
    refine Finset.sum_eq_zero fun slot _ => ?_
    split <;> rfl
  refine ⟨fun _ _ hfe => absurd hfe List.not_mem_nil, fun n _ => ⟨(hzero n).symm, fun _ _ => rfl, ?_⟩,
    fun _ _ _ => rfl,
    fun _ => ⟨Int.le_refl 0, Int.le_refl 0⟩⟩
  intro slot _ now later hsplit
  rw [(List.append_eq_nil_iff.1 (show [] = now ++ later from hsplit).symm).1]
  exact Int.le_refl 0

theorem openNotional_step (hwired : sc.oms.aggWired = true) {a : SessionAct}
    (h : OpenNotional sc.oms sc.registered s.books)
    (hok : sc.NotionalKept s a) : OpenNotional sc.oms sc.registered (sc.step s a).books := by
  obtain ⟨hc, hkept⟩ := hok
  cases a with
  | own a => exact h.act hwired hkept hc
  | restart => exact openNotional_restart h hkept
  | paperReset => exact openNotional_paperReset hwired s

/-- The open notional of a node is in order: the row is the sum over the slots, not negative, and zero once the
    slots are given up and their events booked. -/
structure NotionalRight (sc : SessionConfig) (s : OrderManagerState) (n : NodeIdx) : Prop where
  sum : (s.books.composer.els.nodes n).nodeOpenNotional.v =
    slotNotionalSum sc.oms s.books.composer.els.agg.slotNotional n
  flat : (∀ slot, sc.oms.slotNode slot = n → s.books.portfolio.active slot = false) →
    (s.books.composer.els.agg.fillRings n).items = [] → (s.books.composer.els.nodes n).nodeOpenNotional = .zero
  nonneg : 0 ≤ (s.books.composer.els.nodes n).nodeOpenNotional.v

/-- Live, one node, two orders. -/
def sampleLegs : SessionConfig :=
  { oms := { sampleLive [1, 2] with aggWired := true }, registeredCount := 1, startingBalance := (Money.fromInt 1000).val }

/-- The venue's report of `qty` executed at `price`. -/
def sampleLegAt (id : Nat) (price qty : Float) (complete : Bool) : Command :=
  { sampleLeg id qty complete with result := { (sampleLeg id qty complete).result with avgFillPrice := price } }

/-- Bought at two prices and sold in two legs, with a restart in between and a reset behind. -/
def sampleRoundTrip : List SessionAct :=
  [.own (.submit (sampleOrder firstIdx .marketBuy 3)), .own (.processFill (sampleLegAt 1 100 1 false)),
    .own (.processFill (sampleLegAt 1 103 2 true)), .restart, .own (.submit (sampleOrder firstIdx .marketSell 3)),
    .own (.processFill (sampleLegAt 1 101 1 false)), .own (.processFill (sampleLegAt 1 101 2 true)),
      .own .fillRingsApply,
    .paperReset]

/-- 10001 units bought at 0.00001 and 0.00001001, 10000 of them sold in one leg: what the average price relieves
    is more than what the buys cost. -/
def sampleThinPrice : List SessionAct :=
  [.own (.submit (sampleOrder firstIdx .marketBuy 10001)), .own (.processFill (sampleLegAt 1 0.00001 5000 false)),
    .own (.processFill (sampleLegAt 1 0.00001001 5001 true)), .own (.submit (sampleOrder firstIdx .marketSell 10001)),
    .own (.processFill (sampleLegAt 2 0.00001 10000 false)), .own .fillRingsApply]

end SessionConfig

end FoxTrader
