import FoxTrader.OrderOutcomes

/-! # Every order is where its id says

    The order table under every interleaving of submissions and results. An occupied slot holds an
    order filed under its own slot and node, and a working one: a terminal state is only ever set on
    the way to freeing the slot, which `WorkingBut` tracks through the middle of a command. Ids
    repeat only if their counters do, so as long as the counter has not wrapped no id is issued
    twice. A result whose id is not that of the occupant finds no order and changes nothing. -/

namespace FoxTrader.OrderManagerState

open Lib Function

variable {c : OmsConfig} {s : OrderManagerState} {orders : OrderSlot → Order} {bitmap : OrderSlot → Bool}

/-! ### Filing -/

/-- The id of an occupied slot's order names the slot and the order's node. -/
structure Filed (c : OmsConfig) (orders : OrderSlot → Order) (bitmap : OrderSlot → Bool) : Prop where
  slot : ∀ i, bitmap i = true → orderIdSlot (orders i).id = i
  node : ∀ i, bitmap i = true → orderIdNode (orders i).id = c.slotNode (orders i).portfolioSlot

/-- An occupied slot's order has not ended. -/
def Working (orders : OrderSlot → Order) (bitmap : OrderSlot → Bool) : Prop :=
  ∀ i, bitmap i = true → (orders i).state.isTerminal = false

/-- The same of every slot but `i`. -/
def WorkingBut (i : OrderSlot) (orders : OrderSlot → Order) (bitmap : OrderSlot → Bool) : Prop :=
  ∀ j, j ≠ i → bitmap j = true → (orders j).state.isTerminal = false

theorem of_update_false {i j : OrderSlot} (h : update bitmap i false j = true) : j ≠ i ∧ bitmap j = true := by
  rcases eq_or_ne j i with rfl | hne
  · rw [update_self] at h
    exact absurd h Bool.false_ne_true
  · rw [update_of_ne hne] at h
    exact ⟨hne, h⟩

theorem Filed.update_order (h : Filed c orders bitmap) {i : OrderSlot} {o : Order}
    (hid : o.id = (orders i).id) (hslot : o.portfolioSlot = (orders i).portfolioSlot) :
    Filed c (update orders i o) bitmap := by
  constructor
  all_goals
    intro j hj
    rcases eq_or_ne j i with rfl | hne
  · rw [update_self, hid]
    exact h.slot j hj
  · rw [update_of_ne hne]
    exact h.slot j hj
  · rw [update_self, hid, hslot]
    exact h.node j hj
  · rw [update_of_ne hne]
    exact h.node j hj

theorem Filed.free (h : Filed c orders bitmap) (i : OrderSlot) : Filed c orders (update bitmap i false) :=
  ⟨fun j hj => h.slot j (of_update_false hj).2, fun j hj => h.node j (of_update_false hj).2⟩

theorem Working.update_order (h : Working orders bitmap) {i : OrderSlot} {o : Order}
    (ho : bitmap i = true → o.state.isTerminal = false) : Working (update orders i o) bitmap := by
  intro j hj
  rcases eq_or_ne j i with rfl | hne
  · rw [update_self]
    exact ho hj
  · rw [update_of_ne hne]
    exact h j hj

theorem Working.but_update (h : Working orders bitmap) (i : OrderSlot) (o : Order) :
    WorkingBut i (update orders i o) bitmap := by
  intro j hne hj
  rw [update_of_ne hne]
  exact h j hj

theorem WorkingBut.free {i : OrderSlot} (h : WorkingBut i orders bitmap) :
    Working orders (update bitmap i false) :=
  fun j hj => h j (of_update_false hj).1 (of_update_false hj).2

theorem Working.free (h : Working orders bitmap) (i : OrderSlot) : Working orders (update bitmap i false) :=
  fun j hj => h j (of_update_false hj).2

/-- What ends in a free slot if terminal, or goes on if not, leaves only working orders. -/
theorem freeIfTerminal_working {i : OrderSlot} (h : WorkingBut i s.orders s.orderBitmap) :
    Working (s.freeIfTerminal i).orders (s.freeIfTerminal i).orderBitmap := by
  unfold freeIfTerminal
  split
  · exact h.free
  next hgoes =>
    intro j hj
    rcases eq_or_ne j i with rfl | hne
    · simpa using hgoes
    · exact h j hne hj

theorem freeIfTerminal_filed {i : OrderSlot} (h : Filed c s.orders s.orderBitmap) :
    Filed c (s.freeIfTerminal i).orders (s.freeIfTerminal i).orderBitmap := by
  unfold freeIfTerminal
  split
  · exact h.free i
  · exact h

/-! ### Ids -/

/-- While the counter has not wrapped, every id is older than it and none occurs twice. -/
def IdsFresh (nextOrderId : Nat) (issued : List Nat) : Prop :=
  nextOrderId ≤ orderIdCounterSize →
    (∀ id ∈ issued, id % orderIdCounterSize < nextOrderId) ∧ issued.Nodup

theorem IdsFresh.skip {n : Nat} {issued : List Nat} (h : IdsFresh n issued) : IdsFresh (n + 1) issued := by
  intro hle
  obtain ⟨hold, hnodup⟩ := h (by omega)
  exact ⟨fun id hid => Nat.lt_succ_of_lt (hold id hid), hnodup⟩

theorem IdsFresh.issue {n : Nat} {issued : List Nat} (h : IdsFresh n issued) (slot : OrderSlot) (node : NodeIdx) :
    IdsFresh (n + 1) (encodeOrderId slot node n :: issued) := by
  intro hle
  obtain ⟨hold, hnodup⟩ := h (by omega)
  have hmod : encodeOrderId slot node n % orderIdCounterSize = n := by
    rw [encode_mod, Nat.mod_eq_of_lt (by omega)]
  refine ⟨fun id hid => ?_, List.nodup_cons.2 ⟨fun hmem => ?_, hnodup⟩⟩
  · rcases List.mem_cons.1 hid with rfl | hmem
    · rw [hmod]
      exact Nat.lt_succ_self n
    · exact Nat.lt_succ_of_lt (hold id hmem)
  · have := hold _ hmem
    rw [hmod] at this
    exact Nat.lt_irrefl n this

/-! ### The invariant -/

structure TableInv (c : OmsConfig) (s : OrderManagerState) : Prop where
  filed : Filed c s.orders s.orderBitmap
  working : Working s.orders s.orderBitmap
  fresh : IdsFresh s.nextOrderId s.issued

/-- Admitting an order files it and keeps the ids fresh. -/
theorem TableInv.place (h : TableInv c s) (cmd : SubmitCommand) (i : OrderSlot) : TableInv c (s.place c cmd i) := by
  refine ⟨⟨fun j hj => ?_, fun j hj => ?_⟩, fun j hj => ?_, h.fresh.issue i _⟩
  all_goals
    simp only [OrderManagerState.place] at hj ⊢
    rcases eq_or_ne j i with rfl | hne
  · rw [update_self]
    exact orderIdSlot_encode ..
  · rw [update_of_ne hne] at hj ⊢
    exact h.filed.slot j hj
  · rw [update_self]
    exact orderIdNode_encode ..
  · rw [update_of_ne hne] at hj ⊢
    exact h.filed.node j hj
  · rw [update_self]
    rfl
  · rw [update_of_ne hne] at hj ⊢
    exact h.working j hj

theorem TableInv.submit (h : TableInv c s) (cmd : SubmitCommand) : TableInv c (s.submit c cmd).val.1 := by
  have hout := submit_outcome c s cmd
  generalize s.submit c cmd = m at hout ⊢
  rcases hout with hfull | ⟨i, hfree, -⟩ | ⟨i, hfree, -, -⟩ | ⟨i, hfree, -, -⟩
  · exact ⟨h.filed, h.working, h.fresh.skip⟩
  · have hplace := h.place cmd i
    exact ⟨hplace.filed, hplace.working, hplace.fresh⟩
  · exact h.place cmd i
  · -- the refused order is terminal, and its slot free again
    have hplace := h.place cmd i
    exact ⟨(hplace.filed.update_order (o := { (s.place c cmd i).orders i with state := .rejected }) rfl rfl).free i,
      (hplace.working.but_update i _).free, hplace.fresh⟩

/-- A command between its two ends: everything but the state of the order in `i` is in order. -/
structure TableInvBut (c : OmsConfig) (i : OrderSlot) (s : OrderManagerState) : Prop where
  filed : Filed c s.orders s.orderBitmap
  working : WorkingBut i s.orders s.orderBitmap
  fresh : IdsFresh s.nextOrderId s.issued

theorem TableInv.but (h : TableInv c s) (i : OrderSlot) : TableInvBut c i s :=
  ⟨h.filed, fun j _ hj => h.working j hj, h.fresh⟩

theorem TableInvBut.freeIfTerminal {i : OrderSlot} (h : TableInvBut c i s) : TableInv c (s.freeIfTerminal i) := by
  refine ⟨freeIfTerminal_filed h.filed, freeIfTerminal_working h.working, ?_⟩
  unfold OrderManagerState.freeIfTerminal
  split <;> exact h.fresh

theorem TableInv.bookExecution (h : TableInv c s) (i : OrderSlot) (r : OrderResult) :
    TableInvBut c i (s.bookExecution c i (s.priced i r) r).val :=
  ⟨h.filed.update_order rfl rfl, h.working.but_update i _, h.fresh⟩

theorem TableInvBut.cancel {i : OrderSlot} (h : TableInvBut c i s) : TableInv c (s.cancel c i) := by
  refine ⟨(h.filed.update_order (o := s.deadOrder i) rfl rfl).free i, fun j hj => ?_, h.fresh⟩
  obtain ⟨hne, hocc⟩ := of_update_false hj
  simp only [OrderManagerState.cancel, update_of_ne hne]
  exact h.working j hne hocc

theorem TableInv.resubmit (h : TableInv c s) (dead : Order) (rest : Money) :
    TableInv c (s.resubmit c dead rest).val := by
  have hsub := h.submit (resubmission dead rest)
  exact ⟨hsub.filed.update_order rfl rfl, hsub.working.update_order fun hocc => hsub.working _ hocc, hsub.fresh⟩

theorem TableInvBut.endIncomplete {i : OrderSlot} (h : TableInvBut c i s) : TableInv c (s.endIncomplete c i).val := by
  unfold OrderManagerState.endIncomplete
  split
  · exact h.cancel.resubmit _ _
  · exact h.cancel

theorem acknowledge_working {o : Order} (h : o.state.isTerminal = false) :
    (acknowledge o).state.isTerminal = false := by
  unfold acknowledge
  split
  · exact h
  · rfl

theorem acknowledge_id (o : Order) : (acknowledge o).id = o.id := by
  unfold acknowledge
  split <;> rfl

theorem acknowledge_slot (o : Order) : (acknowledge o).portfolioSlot = o.portfolioSlot := by
  unfold acknowledge
  split <;> rfl

theorem TableInv.processFillCommand (h : TableInv c s) (cmd : Command) :
    TableInv c (s.processFillCommand c cmd).val.1 := by
  have hout := processFillCommand_outcome c s cmd
  generalize s.processFillCommand c cmd = m at hout ⊢
  rcases hout with
    _ | ⟨i, -, -⟩ | ⟨i, -, -⟩ | ⟨i, -, -, -⟩ | ⟨i, -, -, -, -⟩ | ⟨i, -, -, -⟩
  · exact h
  · exact ⟨h.filed.update_order (acknowledge_id _) (acknowledge_slot _),
      h.working.update_order fun hocc => acknowledge_working (h.working i hocc), h.fresh⟩
  · exact ⟨h.filed.update_order rfl rfl, h.working.update_order fun hocc => h.working i hocc, h.fresh⟩
  · exact (h.bookExecution i cmd.result).freeIfTerminal
  · exact ((h.bookExecution i cmd.result).endIncomplete.but i).freeIfTerminal
  · have hreject : TableInvBut c i (s.reject c i cmd.result) :=
      ⟨h.filed.update_order rfl rfl, h.working.but_update i _, h.fresh⟩
    exact hreject.freeIfTerminal

/-! ### Turns -/

theorem TableInv.staleSweep (h : TableInv c s) : TableInv c (s.staleSweep c) := by
  unfold OrderManagerState.staleSweep
  split
  · refine ⟨⟨fun i hi => ?_, fun i hi => ?_⟩, fun i hi => ?_, h.fresh⟩
    all_goals
      dsimp only
      split
    · exact h.filed.slot i hi
    · exact h.filed.slot i hi
    · exact h.filed.node i hi
    · exact h.filed.node i hi
    · exact h.working i hi
    · exact h.working i hi
  · exact h

theorem TableInv.fillRingsApply (h : TableInv c s) : TableInv c (s.fillRingsApply c).val := by
  unfold OrderManagerState.fillRingsApply
  split
  · exact ⟨h.filed, h.working, h.fresh⟩
  · exact h

theorem TableInv.compose (h : TableInv c s) (fatalSites : List String) (drags : List DragCmd) :
    TableInv c (s.compose c fatalSites drags).val :=
  ⟨h.fillRingsApply.filed, h.fillRingsApply.working, h.fillRingsApply.fresh⟩

theorem TableInv.act (h : TableInv c s) (a : Act) : TableInv c (s.act c a).val := by
  have hout := act_outcome c s a
  generalize s.act c a = m at hout ⊢
  have hqueues : ∀ rings ws reconcile submits us, TableInv c (s.requeue rings ws reconcile submits us) :=
    fun _ _ _ _ _ => ⟨h.filed, h.working, h.fresh⟩
  rcases hout with _ | ⟨rings, ws, reconcile, submits, us, cmd, -, -⟩ | ⟨rings, ws, reconcile, submits, us, cmd, -⟩ |
    _ | _ | _ | ⟨fatalSites, drags⟩
  · exact hqueues ..
  · exact (hqueues rings ws reconcile submits us).submit cmd
  · exact (hqueues rings ws reconcile submits us).processFillCommand cmd
  · exact ⟨h.filed, h.working, h.fresh⟩
  · exact h.staleSweep
  · exact h.fillRingsApply
  · exact h.compose fatalSites drags

theorem TableInv.step (h : TableInv c s) (a : Act) : TableInv c (s.step c a) :=
  ⟨(h.act a).filed, (h.act a).working, (h.act a).fresh⟩

theorem TableInv.init (c : OmsConfig) (balance : Money) (tradeLog : Option (List (EmitRecord × Money))) :
    TableInv c (init balance tradeLog) :=
  ⟨⟨fun _ hi => absurd hi Bool.false_ne_true, fun _ hi => absurd hi Bool.false_ne_true⟩,
    fun _ hi => absurd hi Bool.false_ne_true, fun _ => ⟨fun _ hid => absurd hid List.not_mem_nil, List.nodup_nil⟩⟩

theorem TableInv.of_run (balance : Money) (tradeLog : Option (List (EmitRecord × Money))) (as : List Act) :
    TableInv c (run (OrderManagerState.step c) (OrderManagerState.init balance tradeLog) as) :=
  run_inv (fun _ a h => h.step a) as (.init c balance tradeLog)

/-! ### The order table of every run -/

/-- Whatever the interleaving: an occupied slot holds a working order filed under it and under its
    node, no id is issued twice while the counter (one up for every submission, from 1) has not
    wrapped, and a result for anything but the occupant of its slot changes nothing. -/
theorem order_table (c : OmsConfig) (balance : Money) (tradeLog : Option (List (EmitRecord × Money)))
    (as : List Act) {s : OrderManagerState} (hrun : run (OrderManagerState.step c) (init balance tradeLog) as = s)
    (hfew : s.nextOrderId ≤ orderIdCounterSize) :
    (∀ i, s.orderBitmap i = true →
      orderIdSlot (s.orders i).id = i ∧ orderIdNode (s.orders i).id = c.slotNode (s.orders i).portfolioSlot ∧
        (s.orders i).state.isTerminal = false) ∧
      s.issued.Nodup ∧
      ∀ cmd : Command,
        ¬(s.orderBitmap (orderIdSlot cmd.orderId) = true ∧ (s.orders (orderIdSlot cmd.orderId)).id = cmd.orderId) →
          s.processFillCommand c cmd = pure (s, false) := by
  obtain rfl := hrun
  have hinv : TableInv c _ := .of_run balance tradeLog as
  refine ⟨fun i hi => ⟨hinv.filed.slot i hi, hinv.filed.node i hi, hinv.working i hi⟩, (hinv.fresh hfew).2,
    fun cmd hstale => processFillCommand_of_stale ?_⟩
  rw [occupant, if_neg hstale]

/-- A slot filled, freed and taken again: the first order's fill comes a second time and finds nobody. -/
theorem order_table_reused :
    let order := sampleOrder 3 .marketBuy 1
    let s := run (OrderManagerState.step samplePaper) (init .zero none) [.submit order, .popResult, .submit order]
    let late := paperResult (encodeOrderId 0 3 1) order.eventPrice order.qty
    s.orderBitmap 0 = true ∧ s.books.portfolio.active 3 = true ∧
      s.processFillCommand samplePaper late = pure (s, false) := by
  have htable := order_table samplePaper .zero none
    [.submit (sampleOrder 3 .marketBuy 1), .popResult, .submit (sampleOrder 3 .marketBuy 1)] rfl (by decide +kernel)
  exact ⟨by decide +kernel, by decide +kernel, htable.2.2 _ (by decide +kernel)⟩

end FoxTrader.OrderManagerState
