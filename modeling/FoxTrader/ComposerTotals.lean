import FoxTrader.FillHandlers

/-! # Totals the composer settles

    A fill event is booked when the composer applies it, and until then it waits in its ring. A
    `Total` is a figure of the composer that each applied event moves by a weight of its own; with
    the weights of the waiting events added it is `settled`. Applying the rings moves what is
    waiting into the figure and changes nothing settled; emitting an event adds its weight, through
    a full ring or not. The ledger's figures and the sums over the node rows are such totals. Where an
    event does more to the row of its node than add to it, a `RowView` settles node by node. -/

namespace FoxTrader

open Lib Function

/-! ### One applied fill -/

/-- `k'` has the rings and the log of `k`. -/
structure Composer.SameQueues (k k' : Composer) : Prop where
  fillRings : k'.els.agg.fillRings = k.els.agg.fillRings
  eventLog : k'.eventLog = k.eventLog
  oeRings : k'.oeRings = k.oeRings

theorem EventLoopState.concludeTrade_fillRings (partialOn : Bool) (st : EventLoopState) (slot : SlotIdx)
    (node : NodeIdx) :
    (st.concludeTrade partialOn slot node).val.agg.fillRings = st.agg.fillRings := by
  unfold concludeTrade
  split
  · rfl
  split <;> rfl

theorem EventLoopState.nodeRowsBook_fillRings (partialOn : Bool) (st : EventLoopState) (fe : FillEvent) :
    (st.nodeRowsBook partialOn fe).val.agg.fillRings = st.agg.fillRings := by
  unfold nodeRowsBook
  split
  · rfl
  rw [Flagged.bind_val]
  split
  · exact concludeTrade_fillRings ..
  · rfl

namespace Composer

variable {c : OmsConfig} {k : Composer} {fe : FillEvent}

theorem emitTradeRow_sameQueues (k : Composer) (node : NodeIdx) : k.SameQueues (k.emitTradeRow node) := by
  unfold emitTradeRow
  split
  · exact ⟨rfl, rfl, rfl⟩
  split <;> exact ⟨rfl, rfl, rfl⟩

theorem emitTradeRow_ledger (k : Composer) (node : NodeIdx) : (k.emitTradeRow node).ledger = k.ledger := by
  unfold emitTradeRow
  split
  · rfl
  split <;> rfl

theorem emitTradeRow_nodes (k : Composer) (node : NodeIdx) : (k.emitTradeRow node).els.nodes = k.els.nodes := by
  unfold emitTradeRow
  split
  · rfl
  split <;> rfl

theorem applyFill_sameQueues (c : OmsConfig) (k : Composer) (fe : FillEvent) :
    k.SameQueues (k.applyFill c fe).val := by
  simp only [applyFill, Flagged.bind_val, Flagged.pure_val]
  have hrow := emitTradeRow_sameQueues
    { k with
      ledger := (k.ledger.applyFill fe).val
      els := { (k.els.nodeRowsBook c.partialExitEnabled fe).val with
        agg := { (k.els.nodeRowsBook c.partialExitEnabled fe).val.agg with
          appliedSeq := update (k.els.nodeRowsBook c.partialExitEnabled fe).val.agg.appliedSeq fe.node fe.seq } } }
    fe.node
  exact ⟨hrow.fillRings.trans (EventLoopState.nodeRowsBook_fillRings ..), hrow.eventLog, hrow.oeRings⟩

theorem applyFill_ledger (c : OmsConfig) (k : Composer) (fe : FillEvent) :
    (k.applyFill c fe).val.ledger = (k.ledger.applyFill fe).val := by
  simp only [applyFill, Flagged.bind_val, Flagged.pure_val, emitTradeRow_ledger]

theorem applyFill_nodes (c : OmsConfig) (k : Composer) (fe : FillEvent) :
    (k.applyFill c fe).val.els.nodes = (k.els.nodeRowsBook c.partialExitEnabled fe).val.nodes := by
  simp only [applyFill, Flagged.bind_val, Flagged.pure_val, emitTradeRow_nodes]

/-! ### The waiting fills -/

theorem pendingFills_congr {k k' : Composer} (h : k'.els.agg.fillRings = k.els.agg.fillRings) :
    k'.pendingFills = k.pendingFills := by
  rw [pendingFills, pendingFills, h]

theorem pendingFills_clearFillRings (k : Composer) : k.clearFillRings.pendingFills = [] := lanes_eq_nil fun _ => rfl

/-- Pushing a fill adds it to what is waiting. -/
theorem pendingFills_setFillRing (k : Composer) (n : NodeIdx) {ring : Fifo FillEvent fillEventRingSize}
    (hring : ring.items = (k.els.agg.fillRings n).items ++ [fe]) :
    (k.setFillRing n ring).pendingFills.Perm (fe :: k.pendingFills) := by
  have hlanes : (fun m => ((update k.els.agg.fillRings n ring) m).items) =
      update (fun m => (k.els.agg.fillRings m).items) n ((k.els.agg.fillRings n).items ++ [fe]) := by
    funext m
    rw [← hring]
    exact apply_update (fun _ => Fifo.items) k.els.agg.fillRings n ring m
  rw [pendingFills, setFillRing, hlanes]
  exact perm_lanes_push ..

theorem fillRings_eq_empty_of_pendingFills {k : Composer} (h : k.pendingFills = []) (n : NodeIdx) :
    (k.els.agg.fillRings n).items = [] := by
  rw [List.eq_nil_iff_forall_not_mem]
  intro fe hfe
  have hmem : fe ∈ k.pendingFills := mem_lanes.2 ⟨n, hfe⟩
  rw [h] at hmem
  exact List.not_mem_nil hmem

/-- A push onto an empty ring goes in. -/
theorem tryPush_empty {ring : Fifo FillEvent fillEventRingSize} (h : ring.items = []) (fe : FillEvent) :
    (ring.tryPush fe).2.items = [fe] := by
  rw [Fifo.tryPush_items, Fifo.isFull, h]
  rfl

theorem pendingFills_fillRingsApply (c : OmsConfig) (k : Composer) : (k.fillRingsApply c).val.pendingFills = [] := by
  have hkeeps : (k.pendingFills.foldlM (applyFill c) k.clearFillRings).val.pendingFills = [] := by
    refine Flagged.foldlM_keeps (fun k' : Composer => k'.pendingFills = []) ?_ _ k.pendingFills_clearFillRings
    intro k' fe h
    rw [pendingFills_congr (applyFill_sameQueues c k' fe).fillRings]
    exact h
  exact hkeeps

/-! ### A push -/

/-- What is in a ring is for a slot of the ring's node. -/
def OwnRings (c : OmsConfig) (k : Composer) : Prop :=
  ∀ n, ∀ fe ∈ (k.els.agg.fillRings n).items, fe.node = n ∧ c.slotNode fe.slot = n

theorem ownRings_fillRingsApply (c : OmsConfig) (k : Composer) : (k.fillRingsApply c).val.OwnRings c := by
  intro n fe hfe
  rw [fillRings_eq_empty_of_pendingFills (pendingFills_fillRingsApply c k)] at hfe
  exact absurd hfe List.not_mem_nil

theorem ownRings_setFillRing (hown : c.slotNode fe.slot = fe.node) (hrings : k.OwnRings c)
    {ring : Fifo FillEvent fillEventRingSize} (hring : ring.items = (k.els.agg.fillRings fe.node).items ++ [fe]) :
    (k.setFillRing fe.node ring).OwnRings c := by
  intro m e he
  simp only [setFillRing] at he
  rcases eq_or_ne m fe.node with rfl | hne
  · rw [update_self, hring] at he
    rcases List.mem_append.1 he with hold | hnew
    · exact hrings _ e hold
    · rw [List.mem_singleton.1 hnew]
      exact ⟨rfl, hown⟩
  · rw [update_of_ne hne] at he
    exact hrings m e he

/-- A push, through a full ring or not, is onto a ring with room: of the composer itself, or of the composer
    after a pass. -/
theorem fillEmit_cases (hwired : c.aggWired = true) (k : Composer) (fe : FillEvent) :
    (∃ ring, ring.items = (k.els.agg.fillRings fe.node).items ++ [fe] ∧
      k.fillEmit c fe = pure (k.setFillRing fe.node ring)) ∨
    ∃ ring, ring.items = ((k.countFillRingFull.fillRingsApply c).val.els.agg.fillRings fe.node).items ++ [fe] ∧
      ((k.fillEmit c fe).Clean → (k.countFillRingFull.fillRingsApply c).Clean) ∧
        (k.fillEmit c fe).val = (k.countFillRingFull.fillRingsApply c).val.setFillRing fe.node ring := by
  unfold fillEmit
  simp only [hwired, Bool.not_true, Bool.false_eq_true, if_false]
  rcases hpush : (k.els.agg.fillRings fe.node).tryPush fe with ⟨_ | _, ring⟩
  · have hempty := fillRings_eq_empty_of_pendingFills (pendingFills_fillRingsApply c k.countFillRingFull) fe.node
    refine .inr ⟨_, ?_, ?_, rfl⟩
    · rw [tryPush_empty hempty, hempty, List.nil_append]
    · rw [Flagged.clean_bind]
      exact And.left
  · refine .inl ⟨ring, ?_, rfl⟩
    have hitems := Fifo.tryPush_items_of_ok (congrArg Prod.fst hpush)
    rwa [hpush] at hitems

theorem ownRings_fillEmit (hwired : c.aggWired = true) (hown : c.slotNode fe.slot = fe.node) (hrings : k.OwnRings c) :
    (k.fillEmit c fe).val.OwnRings c := by
  rcases fillEmit_cases hwired k fe with ⟨ring, hring, heq⟩ | ⟨ring, hring, -, heq⟩
  · rw [heq]
    exact ownRings_setFillRing hown hrings hring
  · rw [heq]
    exact ownRings_setFillRing hown (ownRings_fillRingsApply c _) hring

/-! ### Totals -/

/-- A figure and what each applied fill adds to it. -/
structure Total where
  figure : Ledger → (NodeIdx → NodeContext) → ℤ
  weight : FillEvent → ℤ
  applied : ∀ (c : OmsConfig) (k : Composer) (fe : FillEvent), (k.applyFill c fe).Clean →
    figure (k.applyFill c fe).val.ledger (k.applyFill c fe).val.els.nodes =
      figure k.ledger k.els.nodes + weight fe

namespace Total

variable (T : Total)

/-- The figure once everything waiting is applied. -/
def settled (k : Composer) : ℤ := T.figure k.ledger k.els.nodes + (k.pendingFills.map T.weight).sum

theorem settled_of_drained {k : Composer} (h : k.pendingFills = []) :
    T.settled k = T.figure k.ledger k.els.nodes := by
  rw [settled, h, List.map_nil, List.sum_nil, add_zero]

/-- Applying the rings settles nothing new. -/
theorem settled_fillRingsApply (hc : (k.fillRingsApply c).Clean) :
    T.settled (k.fillRingsApply c).val = T.settled k := by
  rw [settled_of_drained _ (pendingFills_fillRingsApply c k)]
  simp only [fillRingsApply, Flagged.clean_bind, Flagged.clean_pure, and_true] at hc
  have hfold := Flagged.foldlM_inv
    (fun (k' : Composer) fills => T.figure k'.ledger k'.els.nodes + (fills.map T.weight).sum = T.settled k)
    (fun k' fe fills h hclean => by
      rw [T.applied c k' fe hclean, add_assoc, ← List.sum_cons, ← List.map_cons]
      exact h) k.pendingFills (s := k.clearFillRings) rfl hc
  rw [List.map_nil, List.sum_nil, add_zero] at hfold
  exact hfold

theorem settled_setFillRing {n : NodeIdx} {ring : Fifo FillEvent fillEventRingSize}
    (hring : ring.items = (k.els.agg.fillRings n).items ++ [fe]) :
    T.settled (k.setFillRing n ring) = T.settled k + T.weight fe := by
  have hsum : ((k.setFillRing n ring).pendingFills.map T.weight).sum =
    T.weight fe + (k.pendingFills.map T.weight).sum := by
    rw [((pendingFills_setFillRing k n hring).map T.weight).sum_eq, List.map_cons, List.sum_cons]
  rw [settled, settled, hsum]
  show T.figure k.ledger k.els.nodes + _ = _
  ring

/-- Emitting a fill settles its weight, whether it waits in its ring or the rings are applied first. -/
theorem settled_fillEmit (hwired : c.aggWired = true) (hc : (k.fillEmit c fe).Clean) :
    T.settled (k.fillEmit c fe).val = T.settled k + T.weight fe := by
  rcases fillEmit_cases hwired k fe with ⟨ring, hring, heq⟩ | ⟨ring, hring, hclean, heq⟩
  · rw [heq]
    exact T.settled_setFillRing hring
  · rw [heq, T.settled_setFillRing hring, T.settled_fillRingsApply (hclean hc)]
    rfl

/-- What leaves the figures and the fill rings alone settles nothing. -/
theorem settled_congr {k k' : Composer} (hledger : k'.ledger = k.ledger) (hnodes : k'.els.nodes = k.els.nodes)
    (hfills : k'.els.agg.fillRings = k.els.agg.fillRings) : T.settled k' = T.settled k := by
  rw [settled, settled, hledger, hnodes, pendingFills_congr hfills]

theorem settled_eventFunnelPush (c : OmsConfig) (k : Composer) (ev : OrderEvent) (slot : Option SlotIdx) :
    T.settled (k.eventFunnelPush c ev slot) = T.settled k := by
  unfold eventFunnelPush
  split
  · rfl
  dsimp only
  split <;> rfl

theorem settled_emitRecord (c : OmsConfig) (k : Composer) (rec : EmitRecord) :
    T.settled (k.emitRecord c rec) = T.settled k := by
  unfold emitRecord
  split
  · rfl
  split <;> rfl

theorem settled_fatalMarker (c : OmsConfig) (k : Composer) (site : String) :
    T.settled (k.fatalMarker c site).val = T.settled k := by
  unfold fatalMarker
  split <;> rfl

end Total

/-! ### The ledger's figures -/

theorem applyFill_ledger_clean (hc : (k.applyFill c fe).Clean) : (k.ledger.applyFill fe).Clean := by
  rw [applyFill, Flagged.clean_bind] at hc
  exact hc.1

/-- A figure of the ledger that every fill moves by its weight. -/
def Total.ofLedger (figure : Ledger → ℤ) (weight : FillEvent → ℤ)
    (applied : ∀ l fe, (Ledger.applyFill l fe).Clean → figure (l.applyFill fe).val = figure l + weight fe) :
    Total where
  figure l _ := figure l
  weight := weight
  applied c k fe hc := by
    rw [applyFill_ledger]
    exact applied _ _ (applyFill_ledger_clean hc)

/-- Emitting a fill settles its weight on the ledger with or without an aggregator. -/
theorem Total.settled_fillEmit_ofLedger {figure : Ledger → ℤ} {weight : FillEvent → ℤ}
    {applied : ∀ l fe, (Ledger.applyFill l fe).Clean → figure (l.applyFill fe).val = figure l + weight fe}
    (hc : (k.fillEmit c fe).Clean) :
    (Total.ofLedger figure weight applied).settled (k.fillEmit c fe).val =
      (Total.ofLedger figure weight applied).settled k + weight fe := by
  rcases hwired : c.aggWired with _ | _
  · simp only [fillEmit, hwired, Bool.not_false, if_true, Flagged.clean_bind, Flagged.clean_pure, and_true] at hc
    simp only [fillEmit, hwired, Bool.not_false, if_true, Flagged.bind_val, Flagged.pure_val]
    refine (congrArg (· + (k.pendingFills.map weight).sum) (applied k.ledger fe hc)).trans ?_
    show _ = figure k.ledger + (k.pendingFills.map weight).sum + weight fe
    ring
  · exact settled_fillEmit _ hwired hc

end Composer

/-- What a fill does to the ledger, figure by figure. -/
theorem Ledger.applyFill_v {l : Ledger} {fe : FillEvent} (hc : (l.applyFill fe).Clean) :
    (l.applyFill fe).val.balance.v = l.balance.v + fe.net.v ∧
      (l.applyFill fe).val.realizedPnl.v = l.realizedPnl.v + fe.net.v ∧
      (l.applyFill fe).val.totalFees.v = l.totalFees.v + fe.fee.v := by
  simp only [applyFill, accountMakerTakerFee, Flagged.clean_bind, Flagged.clean_pure, Flagged.bind_val,
    Flagged.pure_val, and_true] at hc ⊢
  obtain ⟨⟨hfees, -⟩, hbalance, hrealized⟩ := hc
  exact ⟨Money.add_v hbalance, Money.add_v hrealized, Money.add_v hfees⟩

namespace Composer

def balanceTotal : Total := .ofLedger (·.balance.v) (·.net.v) fun _ _ hc => (Ledger.applyFill_v hc).1

def realizedTotal : Total := .ofLedger (·.realizedPnl.v) (·.net.v) fun _ _ hc => (Ledger.applyFill_v hc).2.1

def feesTotal : Total := .ofLedger (·.totalFees.v) (·.fee.v) fun _ _ hc => (Ledger.applyFill_v hc).2.2

end Composer

/-! ### Node by node -/

/-- `st'` has the rows and the trackers of `st`. -/
structure EventLoopState.SameRows (st st' : EventLoopState) : Prop where
  nodes : st'.nodes = st.nodes
  pending : st'.partnerPendingBitmap = st.partnerPendingBitmap
  notional : st'.agg.slotNotional = st.agg.slotNotional
  tradeNet : st'.agg.pendingTradeNet = st.agg.pendingTradeNet

/-- What the rows of a node come to, and how an event of the node moves it. -/
structure RowView (c : OmsConfig) (α : Type) where
  view : EventLoopState → NodeIdx → α
  next : α → FillEvent → α
  congr : ∀ {st st' : EventLoopState}, st.SameRows st' → view st' = view st
  booked : ∀ (st : EventLoopState) (fe : FillEvent) (n : NodeIdx), c.slotNode fe.slot = fe.node →
    (st.nodeRowsBook c.partialExitEnabled fe).Clean →
      view (st.nodeRowsBook c.partialExitEnabled fe).val n = if n = fe.node then next (view st n) fe else view st n

theorem Composer.applyFill_sameRows (c : OmsConfig) (k : Composer) (fe : FillEvent) :
    (k.els.nodeRowsBook c.partialExitEnabled fe).val.SameRows (k.applyFill c fe).val.els := by
  simp only [applyFill, Flagged.bind_val, Flagged.pure_val]
  unfold emitTradeRow
  dsimp only
  split
  · exact ⟨rfl, rfl, rfl, rfl⟩
  split <;> exact ⟨rfl, rfl, rfl, rfl⟩

namespace RowView

open Composer

variable {c : OmsConfig} {k : Composer} {fe : FillEvent} {α : Type} (V : RowView c α)

/-- What the rows of a node come to once everything waiting is booked. -/
def settled (k : Composer) (n : NodeIdx) : α := (k.els.agg.fillRings n).items.foldl V.next (V.view k.els n)

theorem settled_congr {k k' : Composer} (hrings : k'.els.agg.fillRings = k.els.agg.fillRings)
    (hrows : k.els.SameRows k'.els) : V.settled k' = V.settled k := by
  funext n
  rw [settled, settled, hrings, V.congr hrows]

/-- With nothing waiting the rows are settled. -/
theorem settled_of_drained {n : NodeIdx} (h : (k.els.agg.fillRings n).items = []) :
    V.settled k n = V.view k.els n := by
  rw [settled, h, List.foldl_nil]

/-- A clean pass settles nothing new. -/
theorem settled_fillRingsApply (hown : k.OwnRings c) (hc : (k.fillRingsApply c).Clean) :
    V.settled (k.fillRingsApply c).val = V.settled k := by
  rw [fillRingsApply, Flagged.clean_bind] at hc
  have hnode : ∀ n, k.pendingFills.filter (fun fe => fe.node = n) = (k.els.agg.fillRings n).items :=
    filter_lanes_own fun i fe hfe => (hown i fe hfe).1
  have hstart : (∀ fe ∈ k.pendingFills, c.slotNode fe.slot = fe.node) ∧
      ∀ n, (k.pendingFills.filter fun fe => fe.node = n).foldl V.next (V.view k.clearFillRings.els n) =
        V.settled k n := by
    refine ⟨fun fe hfe => ?_, fun n => ?_⟩
    · obtain ⟨m, hm⟩ := mem_lanes.1 hfe
      rw [(hown m fe hm).1, (hown m fe hm).2]
    · have hrows : k.els.SameRows k.clearFillRings.els := ⟨rfl, rfl, rfl, rfl⟩
      rw [hnode n, V.congr hrows, settled]
  have hfold := Flagged.foldlM_inv (f := applyFill c)
    (fun k' rest => (∀ fe ∈ rest, c.slotNode fe.slot = fe.node) ∧
      ∀ n, (rest.filter fun fe => fe.node = n).foldl V.next (V.view k'.els n) = V.settled k n)
    (fun k' fe rest hbefore hclean => by
      obtain ⟨howns, hsettles⟩ := hbefore
      refine ⟨fun e he => howns e (List.mem_cons_of_mem fe he), fun n => ?_⟩
      rw [applyFill, Flagged.clean_bind, Flagged.clean_bind] at hclean
      rw [← hsettles n, V.congr (applyFill_sameRows c k' fe),
        V.booked k'.els fe n (howns fe List.mem_cons_self) hclean.2.1]
      by_cases hn : fe.node = n
      · simp only [List.filter_cons, hn, decide_true, if_true, List.foldl_cons]
      · simp only [if_neg (Ne.symm hn), List.filter_cons, hn, decide_false, Bool.false_eq_true, if_false])
    k.pendingFills hstart hc.1
  funext n
  rw [V.settled_of_drained (fillRings_eq_empty_of_pendingFills (pendingFills_fillRingsApply c k) n)]
  exact hfold.2 n

theorem settled_setFillRing {ring : Fifo FillEvent fillEventRingSize}
    (hring : ring.items = (k.els.agg.fillRings fe.node).items ++ [fe]) :
    V.settled (k.setFillRing fe.node ring) = update (V.settled k) fe.node (V.next (V.settled k fe.node) fe) := by
  have hrows : k.els.SameRows (k.setFillRing fe.node ring).els := ⟨rfl, rfl, rfl, rfl⟩
  funext n
  rw [settled, V.congr hrows]
  rcases eq_or_ne n fe.node with rfl | hne
  · simp only [setFillRing, update_self, hring, List.foldl_append, List.foldl_cons, List.foldl_nil, settled]
  · simp only [setFillRing, update_of_ne hne, settled]

/-- An event emitted moves what its node settles at, through a full ring or not. -/
theorem settled_fillEmit (hwired : c.aggWired = true) (hown : k.OwnRings c) (hc : (k.fillEmit c fe).Clean) :
    V.settled (k.fillEmit c fe).val = update (V.settled k) fe.node (V.next (V.settled k fe.node) fe) := by
  rcases fillEmit_cases hwired k fe with ⟨ring, hring, heq⟩ | ⟨ring, hring, hclean, heq⟩
  · rw [heq]
    exact V.settled_setFillRing hring
  · have hcounted : V.settled k.countFillRingFull = V.settled k := V.settled_congr rfl ⟨rfl, rfl, rfl, rfl⟩
    have happlied : V.settled (k.countFillRingFull.fillRingsApply c).val = V.settled k.countFillRingFull :=
      V.settled_fillRingsApply hown (hclean hc)
    rw [heq, V.settled_setFillRing hring, happlied, hcounted]

end RowView

end FoxTrader
