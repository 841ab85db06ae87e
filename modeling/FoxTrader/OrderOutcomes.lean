import FoxTrader.OrderManager

/-! # What submitting, processing and a turn can do

    One inversion lemma for each of the two calls that write the order table: `Submit` finds the
    table full, leaves a live order behind or refuses it, and `ProcessFillCommand` skips a command,
    acknowledges, refuses a leg, books one, ends the order short, or fails it. A turn moves queues
    and makes at most one of these calls. Every later invariant is a case analysis over these
    outcomes. -/

namespace FoxTrader.OrderManagerState

open Lib Function

variable {c : OmsConfig} {s : OrderManagerState}

/-! ### Submit -/

/-- The slot handed out is the lowest free one. -/
theorem freeSlot_some {bitmap : OrderSlot → Bool} {i : OrderSlot} (h : freeSlot bitmap = some i) :
    bitmap i = false := by
  have := List.find?_some h
  simpa using this

theorem freeSlot_none {bitmap : OrderSlot → Bool} (h : freeSlot bitmap = none) (i : OrderSlot) :
    bitmap i = true := by
  have := List.find?_eq_none.1 h i (List.mem_finRange i)
  simpa using this

theorem submittedOrder_working (old : Order) (id : Nat) (cmd : SubmitCommand) (nowUs : Nat) :
    (submittedOrder old id cmd nowUs).state.isTerminal = false := rfl

/-- The computations `Submit` can be. -/
inductive SubmitOutcome (c : OmsConfig) (s : OrderManagerState) (cmd : SubmitCommand) :
    Flagged 64 (OrderManagerState × Nat) → Prop
  | full (hfull : freeSlot s.orderBitmap = none) : SubmitOutcome c s cmd (pure (s.countSubmission, 0))
  | paper (i : OrderSlot) (hfree : freeSlot s.orderBitmap = some i) (hpaper : c.liveTrading = false) :
      SubmitOutcome c s cmd do
        let price ← paperFillPrice cmd.orderType cmd.eventPrice
          ((s.place c cmd i).orders i).preResolved.slippagePct
        return ((s.place c cmd i).resultPush (paperResult (s.nextId c cmd i) price cmd.qty), s.nextId c cmd i)
  | taken (i : OrderSlot) (hfree : freeSlot s.orderBitmap = some i) (hlive : c.liveTrading = true)
      (htakes : adapterTakes c cmd.orderType (s.nextId c cmd i) cmd.qty = true) :
      SubmitOutcome c s cmd (pure (s.place c cmd i, s.nextId c cmd i))
  | refused (i : OrderSlot) (hfree : freeSlot s.orderBitmap = some i) (hlive : c.liveTrading = true)
      (htakes : adapterTakes c cmd.orderType (s.nextId c cmd i) cmd.qty = false) :
      SubmitOutcome c s cmd (pure ((s.place c cmd i).refuseSubmit i, 0))

theorem submit_outcome (c : OmsConfig) (s : OrderManagerState) (cmd : SubmitCommand) :
    SubmitOutcome c s cmd (s.submit c cmd) := by
  unfold submit
  rcases hfree : freeSlot s.orderBitmap with _ | i
  · exact .full hfree
  simp only
  rcases hlive : c.liveTrading with _ | _
  · exact .paper i hfree hlive
  rcases htakes : adapterTakes c cmd.orderType (s.nextId c cmd i) cmd.qty with _ | _
  · exact .refused i hfree hlive htakes
  · exact .taken i hfree hlive htakes

/-- Admitting an order leaves every occupied slot and its order alone. -/
theorem place_keeps {i j : OrderSlot} (hfree : freeSlot s.orderBitmap = some i) (hj : s.orderBitmap j = true)
    (cmd : SubmitCommand) :
    j ≠ i ∧ (s.place c cmd i).orderBitmap j = true ∧ (s.place c cmd i).orders j = s.orders j := by
  have hne : j ≠ i := by
    rintro rfl
    exact Bool.false_ne_true ((freeSlot_some hfree).symm.trans hj)
  exact ⟨hne, (update_of_ne hne ..).trans hj, update_of_ne hne ..⟩

/-- `Submit` leaves every occupied slot and its order alone. -/
theorem submit_keeps {j : OrderSlot} (hj : s.orderBitmap j = true) (cmd : SubmitCommand) :
    (s.submit c cmd).val.1.orderBitmap j = true ∧ (s.submit c cmd).val.1.orders j = s.orders j := by
  have hout := submit_outcome c s cmd
  generalize s.submit c cmd = m at hout ⊢
  rcases hout with hfull | ⟨i, hfree, -⟩ | ⟨i, hfree, -, -⟩ | ⟨i, hfree, -, -⟩
  · exact ⟨hj, rfl⟩
  · exact (place_keeps hfree hj cmd).2
  · exact (place_keeps hfree hj cmd).2
  · obtain ⟨hne, hocc, horder⟩ := place_keeps (c := c) hfree hj cmd
    exact ⟨(update_of_ne hne ..).trans hocc, (update_of_ne hne ..).trans horder⟩

/-! ### ProcessFillCommand -/

theorem occupant_eq_some {id : Nat} {i : OrderSlot} :
    s.occupant id = some i ↔ i = orderIdSlot id ∧ s.orderBitmap i = true ∧ (s.orders i).id = id := by
  unfold occupant
  simp only [Option.ite_none_right_eq_some, Option.some_inj]
  constructor
  · rintro ⟨h, rfl⟩
    exact ⟨rfl, h⟩
  · rintro ⟨rfl, h⟩
    exact ⟨h, rfl⟩

/-- The slot whose order takes the command's execution. -/
def executing (s : OrderManagerState) (cmd : Command) : Option OrderSlot :=
  if cmd.orderId = 0 ∧ cmd.type = .wsFill then none
  else
    (s.occupant cmd.orderId).filter fun i =>
      decide ((s.orders i).state ≠ .filled) && cmd.result.success && !isAck cmd.result &&
        !restAfterLegs cmd (s.priced i cmd.result)

/-- The computations `ProcessFillCommand` can be. -/
inductive FillOutcome (c : OmsConfig) (s : OrderManagerState) (cmd : Command) :
    Flagged 64 (OrderManagerState × Bool) → Prop
  | skipped (hexec : s.executing cmd = none) : FillOutcome c s cmd (pure (s, false))
  | acked (i : OrderSlot) (hocc : s.occupant cmd.orderId = some i) (hexec : s.executing cmd = none) :
      FillOutcome c s cmd (pure (s.setOrder i (acknowledge (s.named i cmd.result)), true))
  | tripped (i : OrderSlot) (hocc : s.occupant cmd.orderId = some i) (hexec : s.executing cmd = none) :
      FillOutcome c s cmd (pure (s.setOrder i (s.priced i cmd.result), false))
  | leg (i : OrderSlot) (hocc : s.occupant cmd.orderId = some i) (hexec : s.executing cmd = some i)
      (hgoes : cmd.result.venueTerminal = true → cmd.result.orderComplete = true) :
      FillOutcome c s cmd do
        let s ← s.bookExecution c i (s.priced i cmd.result) cmd.result
        return (s.freeIfTerminal i, true)
  | endedShort (i : OrderSlot) (hocc : s.occupant cmd.orderId = some i) (hexec : s.executing cmd = some i)
      (hterminal : cmd.result.venueTerminal = true) (hshort : cmd.result.orderComplete = false) :
      FillOutcome c s cmd do
        let s ← s.bookExecution c i (s.priced i cmd.result) cmd.result
        let s ← s.endIncomplete c i
        return (s.freeIfTerminal i, true)
  | failed (i : OrderSlot) (hocc : s.occupant cmd.orderId = some i) (hexec : s.executing cmd = none)
      (hfail : cmd.result.success = false) :
      FillOutcome c s cmd (pure (s.processFailure c i cmd.result, true))

theorem processFillCommand_outcome (c : OmsConfig) (s : OrderManagerState) (cmd : Command) :
    FillOutcome c s cmd (s.processFillCommand c cmd) := by
  unfold processFillCommand
  split
  next hstray => exact .skipped (if_pos hstray)
  next hnamed =>
    have hexec : s.executing cmd = (s.occupant cmd.orderId).filter _ := if_neg hnamed
    rcases hocc : s.occupant cmd.orderId with _ | i
    · exact .skipped (by rw [hexec, hocc, Option.filter_none])
    rw [hocc, Option.filter_some] at hexec
    simp only
    split
    next hfilled => exact .skipped (by simp [hexec, hfilled])
    next hopen =>
      rcases hsuccess : cmd.result.success with _ | _
      · exact .failed i hocc (by simp [hexec, hsuccess]) hsuccess
      simp only [if_true, processExecution]
      split
      next hack => exact .acked i hocc (by simp [hexec, hack])
      next hack =>
        split
        next htrip => exact .tripped i hocc (by simp [hexec, htrip])
        next htrip =>
          replace hexec : s.executing cmd = some i := by simp [hexec, hopen, hsuccess, hack, htrip]
          rcases hterminal : cmd.result.venueTerminal with _ | _
          · simp only [Bool.false_eq_true, false_and, if_false, pure_bind]
            exact .leg i hocc hexec fun h => absurd (hterminal.symm.trans h) Bool.false_ne_true
          rcases hshort : cmd.result.orderComplete with _ | _
          · exact .endedShort i hocc hexec hterminal hshort
          · simp only [Bool.not_true, Bool.false_eq_true, and_false, if_false, pure_bind]
            exact .leg i hocc hexec fun _ => hshort

/-- The same order, whatever became of its binding and its warning flag. -/
structure Kept (o o' : Order) : Prop where
  id : o'.id = o.id
  type : o'.type = o.type
  portfolioSlot : o'.portfolioSlot = o.portfolioSlot
  state : o'.state = o.state
  filledQty : o'.filledQty = o.filledQty

theorem Kept.refl (o : Order) : Kept o o := ⟨rfl, rfl, rfl, rfl, rfl⟩

/-- Slot `j` stays occupied by the order it holds. -/
structure Stays (j : OrderSlot) (s s' : OrderManagerState) : Prop where
  occupied : s'.orderBitmap j = true
  order : Kept (s.orders j) (s'.orders j)

theorem Stays.occupant {j : OrderSlot} {s' : OrderManagerState} {id : Nat} (h : Stays j s s')
    (hocc : s.occupant id = some j) : s'.occupant id = some j := by
  obtain ⟨hslot, -, hid⟩ := occupant_eq_some.1 hocc
  exact occupant_eq_some.2 ⟨hslot, h.occupied, h.order.id.trans hid⟩

theorem Stays.of_order_eq {j : OrderSlot} {s' : OrderManagerState} (hocc : s'.orderBitmap j = true)
    (horder : s'.orders j = s.orders j) : Stays j s s' := by
  refine ⟨hocc, ?_⟩
  rw [horder]
  exact .refl _

theorem Stays.trans {j : OrderSlot} {s₁ s₂ s₃ : OrderManagerState} (h : Stays j s₁ s₂) (h' : Stays j s₂ s₃) :
    Stays j s₁ s₃ :=
  ⟨h'.occupied, h'.order.id.trans h.order.id, h'.order.type.trans h.order.type,
    h'.order.portfolioSlot.trans h.order.portfolioSlot, h'.order.state.trans h.order.state,
    h'.order.filledQty.trans h.order.filledQty⟩

theorem stays_setOrder {i j : OrderSlot} {o : Order} (hj : s.orderBitmap j = true) (hne : j ≠ i) :
    Stays j s (s.setOrder i o) := .of_order_eq hj (update_of_ne hne ..)

theorem stays_freeIfTerminal {i j : OrderSlot} (hj : s.orderBitmap j = true) (hne : j ≠ i) :
    Stays j s (s.freeIfTerminal i) := by
  unfold freeIfTerminal
  split
  · exact .of_order_eq ((update_of_ne hne ..).trans hj) rfl
  · exact .of_order_eq hj rfl

/-- Selling a remainder again rebinds the order the id decodes to and changes nothing else. -/
theorem stays_resubmit {j : OrderSlot} (hj : s.orderBitmap j = true) (dead : Order) (rest : Money) :
    Stays j s (s.resubmit c dead rest).val := by
  obtain ⟨hocc, horder⟩ := submit_keeps (c := c) hj (resubmission dead rest)
  refine Stays.trans (.of_order_eq hocc horder) ⟨hocc, ?_⟩
  simp only [resubmit, Flagged.bind_val, Flagged.pure_val, setOrder]
  rcases eq_or_ne j (orderIdSlot (s.submit c (resubmission dead rest)).val.2) with heq | hne
  · rw [← heq, update_self]
    exact ⟨rfl, rfl, rfl, rfl, rfl⟩
  · rw [update_of_ne hne]
    exact .refl _

theorem stays_endIncomplete {i j : OrderSlot} (hj : s.orderBitmap j = true) (hne : j ≠ i) :
    Stays j s (s.endIncomplete c i).val := by
  have hcancel : Stays j s (s.cancel c i) := .of_order_eq ((update_of_ne hne ..).trans hj) (update_of_ne hne ..)
  unfold endIncomplete
  split
  · exact hcancel.trans (stays_resubmit hcancel.occupied _ _)
  · exact hcancel

theorem stays_bookExecution {i j : OrderSlot} {o : Order} {r : OrderResult} (hj : s.orderBitmap j = true)
    (hne : j ≠ i) : Stays j s (s.bookExecution c i o r).val := .of_order_eq hj (update_of_ne hne ..)

/-- A command leaves the orders it does not name in place. -/
theorem stays_processFillCommand {j : OrderSlot} {cmd : Command} (hj : s.orderBitmap j = true)
    (hother : s.occupant cmd.orderId ≠ some j) : Stays j s (s.processFillCommand c cmd).val.1 := by
  have hout := processFillCommand_outcome c s cmd
  generalize s.processFillCommand c cmd = m at hout ⊢
  have hne : ∀ {i}, s.occupant cmd.orderId = some i → j ≠ i := by
    rintro i hocc rfl
    exact hother hocc
  rcases hout with
    _ | ⟨i, hocc, -⟩ | ⟨i, hocc, -⟩ | ⟨i, hocc, -, -⟩ | ⟨i, hocc, -, -, -⟩ | ⟨i, hocc, -, -⟩
  · exact .of_order_eq hj rfl
  · exact stays_setOrder hj (hne hocc)
  · exact stays_setOrder hj (hne hocc)
  · have hbook := stays_bookExecution (c := c) (o := s.priced i cmd.result) (r := cmd.result) hj (hne hocc)
    exact hbook.trans (stays_freeIfTerminal hbook.occupied (hne hocc))
  · have hbook := stays_bookExecution (c := c) (o := s.priced i cmd.result) (r := cmd.result) hj (hne hocc)
    have hend := hbook.trans (stays_endIncomplete (c := c) hbook.occupied (hne hocc))
    exact hend.trans (stays_freeIfTerminal hend.occupied (hne hocc))
  · have hreject : Stays j s (s.reject c i cmd.result) := .of_order_eq hj (update_of_ne (hne hocc) ..)
    exact hreject.trans (stays_freeIfTerminal hreject.occupied (hne hocc))

/-- A command whose id is not that of its slot's occupant does nothing at all. -/
theorem processFillCommand_of_stale {cmd : Command} (h : s.occupant cmd.orderId = none) :
    s.processFillCommand c cmd = pure (s, false) := by
  unfold processFillCommand
  rw [h]
  split <;> rfl

/-! ### Turns -/

/-- The state with other queues and another clock. -/
def requeue (s : OrderManagerState) (rings : NodeIdx → Fifo Command omsResultRingPerNode)
    (ws : Fifo Command omsResultQueueSize) (reconcile : Fifo Command omsReconcileQueueSize)
    (submits : SlotIdx → Fifo SubmitCommand omsSubmitQueueSize) (us : Nat) : OrderManagerState :=
  { s with
    resultRings := rings, wsResultQueue := ws, reconcileQueue := reconcile, submitQueues := submits, nowUs := us }

/-- The command a turn hands to `ProcessFillCommand`. -/
def dispatched (s : OrderManagerState) : Act → Option Command
  | .processFill cmd => some cmd
  | .popResult => (s.resultPop.map Prod.fst).filter fun cmd => cmd.type = .fillResult
  | .popWs => s.wsResultQueue.tryPop.1.filter fun cmd => cmd.type = .wsFill
  | _ => none

/-- The command a turn hands to `Submit`. -/
def submitting (s : OrderManagerState) : Act → Option SubmitCommand
  | .submit cmd => some cmd
  | .popSubmit slot => (s.submitQueues slot).tryPop.1
  | _ => none

/-- The computations a turn can be. -/
inductive ActOutcome (c : OmsConfig) (s : OrderManagerState) : Act → Flagged 64 OrderManagerState → Prop
  | queued {a : Act} (rings ws reconcile submits us) (hidle : s.dispatched a = none) :
      ActOutcome c s a (pure (s.requeue rings ws reconcile submits us))
  | submitted {a : Act} (rings ws reconcile submits us cmd) (hidle : s.dispatched a = none)
      (hcmd : s.submitting a = some cmd) :
      ActOutcome c s a do return (← (s.requeue rings ws reconcile submits us).submit c cmd).1
  | processed {a : Act} (rings ws reconcile submits us cmd) (hcmd : s.dispatched a = some cmd) :
      ActOutcome c s a do return (← (s.requeue rings ws reconcile submits us).processFillCommand c cmd).1
  | reconciled {a : Act} (rings ws reconcile submits us cmd) (hidle : s.dispatched a = none) :
      ActOutcome c s a (pure ((s.requeue rings ws reconcile submits us).processReconcile c cmd))
  | swept : ActOutcome c s .staleSweep (pure (s.staleSweep c))
  | applied : ActOutcome c s .fillRingsApply (s.fillRingsApply c)
  | composed (fatalSites drags) : ActOutcome c s (.compose fatalSites drags) (s.compose c fatalSites drags)

theorem fillRingsApply_orders (c : OmsConfig) (s : OrderManagerState) :
    (s.fillRingsApply c).val.orders = s.orders ∧ (s.fillRingsApply c).val.orderBitmap = s.orderBitmap := by
  unfold fillRingsApply
  split <;> exact ⟨rfl, rfl⟩

theorem stays_staleSweep {j : OrderSlot} (hj : s.orderBitmap j = true) : Stays j s (s.staleSweep c) := by
  unfold staleSweep
  split
  · refine ⟨hj, ?_⟩
    dsimp only
    split
    · exact ⟨rfl, rfl, rfl, rfl, rfl⟩
    · exact .refl _
  · exact .of_order_eq hj rfl

/-- What a popped command leads to, if it is dispatched only when it is of the kind its queue carries. -/
theorem ActOutcome.of_processIf {a : Act} {kind : CommandType} {cmd : Command} (rings ws reconcile submits us)
    (hcmd : s.dispatched a = if cmd.type = kind ∧ kind ≠ .reconcile then some cmd else none) :
    ActOutcome c s a ((s.requeue rings ws reconcile submits us).processIf c kind cmd) := by
  unfold processIf
  split
  next hkind => exact .queued _ _ _ _ _ (hcmd.trans (if_neg fun h => hkind h.1))
  next hkind =>
    split
    next hrec => exact .reconciled _ _ _ _ _ _ (hcmd.trans (if_neg fun h => h.2 hrec))
    next hrec => exact .processed rings ws reconcile submits us cmd (hcmd.trans (if_pos ⟨not_not.1 hkind, hrec⟩))

theorem act_outcome (c : OmsConfig) (s : OrderManagerState) (a : Act) : ActOutcome c s a (s.act c a) := by
  cases a with
  | clock us => exact .queued _ _ _ _ _ rfl
  | submit cmd => exact .submitted s.resultRings s.wsResultQueue s.reconcileQueue s.submitQueues s.nowUs cmd rfl rfl
  | pushSubmit cmd => exact .queued _ _ _ _ _ rfl
  | popSubmit slot =>
    rcases hpop : (s.submitQueues slot).tryPop with ⟨_ | cmd, q⟩
    · simp only [act, hpop]
      exact .queued s.resultRings s.wsResultQueue s.reconcileQueue s.submitQueues s.nowUs rfl
    · simp only [act, hpop]
      exact .submitted s.resultRings s.wsResultQueue s.reconcileQueue _ s.nowUs cmd rfl (by rw [submitting, hpop])
  | fillResult clientId result => exact .queued _ _ _ _ _ rfl
  | pushWs cmd => exact .queued _ _ _ _ _ rfl
  | pushReconcile cmd => exact .queued _ _ _ _ _ rfl
  | processFill cmd => exact .processed s.resultRings s.wsResultQueue s.reconcileQueue s.submitQueues s.nowUs cmd rfl
  | processReconcile cmd =>
    exact .reconciled s.resultRings s.wsResultQueue s.reconcileQueue s.submitQueues s.nowUs cmd rfl
  | popResult =>
    rcases hpop : s.resultPop with _ | ⟨cmd, s'⟩
    · simp only [act, hpop]
      exact .queued s.resultRings s.wsResultQueue s.reconcileQueue s.submitQueues s.nowUs (by simp [dispatched, hpop])
    · simp only [act, hpop]
      have hcmd : s.dispatched .popResult = if cmd.type = .fillResult ∧ True then some cmd else none := by
        simp [dispatched, hpop, Option.filter]
      simp only [resultPop, Option.bind_eq_bind, Option.bind_eq_some_iff, Option.pure_def, Option.some_inj,
        Prod.mk.injEq] at hpop
      obtain ⟨n, -, front, -, -, rfl⟩ := hpop
      exact .of_processIf _ s.wsResultQueue s.reconcileQueue s.submitQueues s.nowUs (by simpa using hcmd)
  | popWs =>
    rcases hpop : s.wsResultQueue.tryPop with ⟨_ | cmd, q⟩
    · simp only [act, hpop]
      exact .queued s.resultRings s.wsResultQueue s.reconcileQueue s.submitQueues s.nowUs (by simp [dispatched, hpop])
    · simp only [act, hpop]
      exact .of_processIf s.resultRings _ s.reconcileQueue s.submitQueues s.nowUs
        (by simp [dispatched, hpop, Option.filter])
  | popReconcile =>
    rcases hpop : s.reconcileQueue.tryPop with ⟨_ | cmd, q⟩
    · simp only [act, hpop]
      exact .queued s.resultRings s.wsResultQueue s.reconcileQueue s.submitQueues s.nowUs rfl
    · simp only [act, hpop]
      exact .of_processIf s.resultRings s.wsResultQueue _ s.submitQueues s.nowUs
        (by simp [dispatched])
  | staleSweep => exact .swept
  | fillRingsApply => exact .applied
  | compose fatalSites drags => exact .composed ..

/-- A turn that dispatches a command processes it, up to the queues it may have popped. -/
theorem act_of_dispatched {a : Act} {cmd : Command} (hcmd : s.dispatched a = some cmd) :
    ∃ rings ws reconcile submits us,
      s.act c a = do return (← (s.requeue rings ws reconcile submits us).processFillCommand c cmd).1 := by
  have hout := act_outcome c s a
  generalize s.act c a = m at hout ⊢
  rcases hout with ⟨_, _, _, _, _, hidle⟩ | ⟨_, _, _, _, _, _, hidle, -⟩ |
    ⟨rings, ws, reconcile, submits, us, _, hcmd'⟩ |
    ⟨_, _, _, _, _, _, hidle⟩ | _ | _ | _
  · exact absurd (hidle.symm.trans hcmd) (Option.some_ne_none _).symm
  · exact absurd (hidle.symm.trans hcmd) (Option.some_ne_none _).symm
  · obtain rfl := Option.some_inj.1 (hcmd'.symm.trans hcmd)
    exact ⟨rings, ws, reconcile, submits, us, rfl⟩
  · exact absurd (hidle.symm.trans hcmd) (Option.some_ne_none _).symm
  · exact absurd hcmd (Option.some_ne_none _).symm
  · exact absurd hcmd (Option.some_ne_none _).symm
  · exact absurd hcmd (Option.some_ne_none _).symm

/-- A turn leaves every order in place but the one it hands a command to. -/
theorem stays_act {j : OrderSlot} {a : Act} (hj : s.orderBitmap j = true)
    (hother : ∀ cmd, s.dispatched a = some cmd → s.occupant cmd.orderId ≠ some j) : Stays j s (s.act c a).val := by
  have hout := act_outcome c s a
  generalize s.act c a = m at hout ⊢
  have hframe : ∀ {s' : OrderManagerState}, s'.orders = s.orders ∧ s'.orderBitmap = s.orderBitmap → Stays j s s' :=
    fun h => .of_order_eq (h.2 ▸ hj) (congrFun h.1 j)
  rcases hout with _ | ⟨rings, ws, reconcile, submits, us, cmd, -, -⟩ |
    ⟨rings, ws, reconcile, submits, us, cmd, hcmd⟩ |
    _ | _ | _ | ⟨fatalSites, drags⟩
  · exact hframe ⟨rfl, rfl⟩
  · obtain ⟨hocc, horder⟩ := submit_keeps (c := c) (s := s.requeue rings ws reconcile submits us) hj cmd
    exact .of_order_eq hocc horder
  · have hstays :=
      stays_processFillCommand (c := c) (s := s.requeue rings ws reconcile submits us) hj (hother cmd hcmd)
    exact ⟨hstays.occupied, hstays.order⟩
  · exact hframe ⟨rfl, rfl⟩
  · exact stays_staleSweep hj
  · exact hframe (fillRingsApply_orders c s)
  · exact hframe (fillRingsApply_orders c s)

/-! ### The books -/

/-- A row of the audit trail that books nothing, filed under its slot if it has one. -/
structure IsAudit (ev : OrderEvent) (slot : Option SlotIdx) : Prop where
  full : ev.type ≠ .fullFill
  partialFill : ev.type ≠ .partialFill
  filed : ∀ i, slot = some i → ev.nodeId = i.val
  unfiled : slot = none → ev.nodeId = -1

theorem isAudit_of_slot {ev : OrderEvent} {i : SlotIdx} (hfull : ev.type ≠ .fullFill)
    (hpart : ev.type ≠ .partialFill) (hnode : ev.nodeId = i.val) : IsAudit ev (some i) :=
  ⟨hfull, hpart, fun _ heq => Option.some_inj.1 heq ▸ hnode, fun hnone => absurd hnone (Option.some_ne_none i)⟩

theorem submit_books (c : OmsConfig) (s : OrderManagerState) (cmd : SubmitCommand) :
    (s.submit c cmd).val.1.books = s.books := by
  have hout := submit_outcome c s cmd
  generalize s.submit c cmd = m at hout ⊢
  rcases hout with _ | _ | _ | _ <;> rfl

theorem freeIfTerminal_books (s : OrderManagerState) (i : OrderSlot) : (s.freeIfTerminal i).books = s.books := by
  unfold freeIfTerminal
  split <;> rfl

theorem endIncomplete_books (c : OmsConfig) (s : OrderManagerState) (i : OrderSlot) :
    (s.endIncomplete c i).val.books = s.books.auditAppend c (terminalIncompleteEvent (s.deadOrder i) (s.leftover i))
      (some (s.orders i).portfolioSlot) := by
  unfold endIncomplete
  split
  · exact submit_books ..
  · rfl

/-- The leg a command books on the order in `i`. -/
def legOf (c : OmsConfig) (s : OrderManagerState) (i : OrderSlot) (r : OrderResult) : Flagged 64 Books :=
  bookLeg c s.nowUs s.books (legOrder (s.priced i r) r).val r

theorem bookExecution_clean {i : OrderSlot} {r : OrderResult} (hc : (s.bookExecution c i (s.priced i r) r).Clean) :
    (s.legOf c i r).Clean := by
  rw [bookExecution, Flagged.clean_bind, Flagged.clean_bind] at hc
  exact hc.2.1

/-- What a leg brings about and every audit row keeps is brought about by the command, if it books
    a leg or there is nothing to bring about. With `κ` true the legs are known to be clean. -/
theorem books_processFillCommand {κ : Prop} (P P' : Books → Prop) {cmd : Command}
    (hidle : s.executing cmd = none → P s.books → P' s.books)
    (hleg : ∀ i, s.executing cmd = some i → P s.books → (κ → (s.legOf c i cmd.result).Clean) →
      P' (s.legOf c i cmd.result).val)
    (haudit : ∀ b ev slot, IsAudit ev slot → P' b → P' (b.auditAppend c ev slot)) (h : P s.books)
    (hc : κ → (s.processFillCommand c cmd).Clean) : P' (s.processFillCommand c cmd).val.1.books := by
  have hout := processFillCommand_outcome c s cmd
  generalize s.processFillCommand c cmd = m at hout hc ⊢
  rcases hout with hexec | ⟨i, -, hexec⟩ | ⟨i, -, hexec⟩ | ⟨i, -, hexec, -⟩ | ⟨i, -, hexec, -, -⟩ | ⟨i, -, hexec, -⟩
  · exact hidle hexec h
  · exact hidle hexec h
  · exact hidle hexec h
  · rw [Flagged.clean_bind] at hc
    simp only [Flagged.bind_val, Flagged.pure_val, freeIfTerminal_books]
    exact hleg i hexec h fun hκ => bookExecution_clean (hc hκ).1
  · rw [Flagged.clean_bind] at hc
    simp only [Flagged.bind_val, Flagged.pure_val, freeIfTerminal_books, endIncomplete_books]
    refine haudit _ _ _ (isAudit_of_slot ?_ ?_ rfl) (hleg i hexec h fun hκ => bookExecution_clean (hc hκ).1) <;> nofun
  · simp only [Flagged.pure_val, processFailure, freeIfTerminal_books]
    refine haudit _ _ _ (isAudit_of_slot ?_ ?_ rfl) (hidle hexec h) <;> nofun

/-- A drag moves a position's exits and nothing that is booked. -/
theorem applyDrag_keeps (p : Portfolio) (dc : DragCmd) (i : SlotIdx) :
    (applyDrag p dc).active i = p.active i ∧
      ((applyDrag p dc).positions i).quantity = (p.positions i).quantity ∧
      ((applyDrag p dc).positions i).entryPrice = (p.positions i).entryPrice ∧
      ((applyDrag p dc).positions i).entryFee = (p.positions i).entryFee := by
  unfold applyDrag
  split
  · exact ⟨rfl, rfl, rfl, rfl⟩
  dsimp only
  rcases eq_or_ne i dc.slot with rfl | hne
  · rw [update_self]
    split <;> exact ⟨rfl, rfl, rfl, rfl⟩
  · rw [update_of_ne hne]
    exact ⟨rfl, rfl, rfl, rfl⟩

/-- The command of a turn whose execution is booked, and the order it is booked on. -/
def executed (s : OrderManagerState) (a : Act) : Option (Command × OrderSlot) := do
  let cmd ← s.dispatched a
  let i ← s.executing cmd
  return (cmd, i)

/-- The drags a turn hands to the positions. -/
def Act.drags : Act → List DragCmd
  | .compose _ drags => drags
  | _ => []

/-- What a leg brings about and audit rows, the composer's passes and the turn's drags keep is
    brought about by the turn, if it books a leg or there is nothing to bring about. With `κ` true
    what the turn does is known to be clean. -/
theorem books_act_of {κ : Prop} (P P' : Books → Prop) {a : Act} (hidle : s.executed a = none → P s.books → P' s.books)
    (hleg : ∀ cmd i, s.dispatched a = some cmd → s.executing cmd = some i →
      ∀ us, P s.books →
        (κ → (bookLeg c us s.books (legOrder (s.priced i cmd.result) cmd.result).val cmd.result).Clean) →
        P' (bookLeg c us s.books (legOrder (s.priced i cmd.result) cmd.result).val cmd.result).val)
    (haudit : ∀ b ev slot, IsAudit ev slot → P' b → P' (b.auditAppend c ev slot))
    (happly : c.aggWired = true → ∀ b, P' b → (κ → (b.composer.fillRingsApply c).Clean) →
      P' { b with composer := (b.composer.fillRingsApply c).val })
    (hmarker : ∀ b site, P' b → (κ → (b.composer.fatalMarker c site).Clean) →
      P' { b with composer := (b.composer.fatalMarker c site).val })
    (hdrag : ∀ b, ∀ dc ∈ a.drags, P' b → P' { b with portfolio := applyDrag b.portfolio dc })
    (h : P s.books) (hc : κ → (s.act c a).Clean) : P' (s.act c a).val.books := by
  have hundispatched : s.dispatched a = none → P' s.books := by
    intro hnone
    refine hidle ?_ h
    rw [executed, hnone]
    rfl
  have happlied : P' s.books → (κ → (s.fillRingsApply c).Clean) → P' (s.fillRingsApply c).val.books := by
    intro h'
    unfold fillRingsApply
    split
    next hwired =>
      rw [Flagged.clean_bind]
      exact fun hc => happly hwired _ h' fun hκ => (hc hκ).1
    next => exact fun _ => h'
  have hout := act_outcome c s a
  generalize s.act c a = m at hout hc ⊢
  rcases hout with ⟨_, _, _, _, _, hnone⟩ | ⟨_, _, _, _, _, cmd, hnone, -⟩ |
    ⟨rings, ws, reconcile, submits, us, cmd, hcmd⟩ |
    ⟨_, _, _, _, _, cmd, hnone⟩ | _ | _ | ⟨fatalSites, drags⟩
  · exact hundispatched hnone
  · simp only [Flagged.bind_val, Flagged.pure_val, submit_books]
    exact hundispatched hnone
  · rw [Flagged.clean_bind] at hc
    refine books_processFillCommand (s := s.requeue rings ws reconcile submits us) P P' (fun hexec => hidle ?_)
      (fun i hexec => hleg cmd i hcmd hexec us) haudit h fun hκ => (hc hκ).1
    have hnone : s.executing cmd = none := hexec
    simp [executed, hcmd, hnone]
  · refine haudit _ _ none ⟨?_, ?_, ?_, fun _ => rfl⟩ (hundispatched hnone) <;> nofun
  · unfold staleSweep
    simp only [Flagged.pure_val]
    split <;> exact hundispatched rfl
  · exact happlied (hundispatched rfl) hc
  · simp only [compose, Flagged.clean_bind, Flagged.clean_pure, and_true] at hc
    simp only [compose, Flagged.bind_val, Flagged.pure_val]
    have hmarked := Flagged.foldlM_inv_of (f := Composer.fatalMarker c)
      (fun k _ => P' { (s.fillRingsApply c).val.books with composer := k })
      (fun k site _ hk hclean => hmarker { (s.fillRingsApply c).val.books with composer := k } site hk hclean)
      fatalSites (happlied (hundispatched rfl) fun hκ => (hc hκ).1) fun hκ => (hc hκ).2
    have hdrags : ∀ ds : List DragCmd, (∀ dc ∈ ds, dc ∈ drags) → ∀ b : Books, P' b →
        P' { b with portfolio := ds.foldl applyDrag b.portfolio } := by
      intro ds hmem
      induction ds with
      | nil => exact fun b hb => hb
      | cons dc ds ih =>
        exact fun b hb =>
          ih (fun d hd => hmem d (List.mem_cons_of_mem dc hd)) _ (hdrag b dc (hmem dc List.mem_cons_self) hb)
    exact hdrags drags (fun _ => id) _ hmarked

/-- The rule for clean turns. -/
theorem books_act_leg (P P' : Books → Prop) {a : Act} (hidle : s.executed a = none → P s.books → P' s.books)
    (hleg : ∀ cmd i, s.dispatched a = some cmd → s.executing cmd = some i →
      ∀ us, P s.books → (bookLeg c us s.books (legOrder (s.priced i cmd.result) cmd.result).val cmd.result).Clean →
        P' (bookLeg c us s.books (legOrder (s.priced i cmd.result) cmd.result).val cmd.result).val)
    (haudit : ∀ b ev slot, IsAudit ev slot → P' b → P' (b.auditAppend c ev slot))
    (happly : c.aggWired = true → ∀ b, P' b → (b.composer.fillRingsApply c).Clean →
      P' { b with composer := (b.composer.fillRingsApply c).val })
    (hmarker : ∀ b site, P' b → (b.composer.fatalMarker c site).Clean →
      P' { b with composer := (b.composer.fatalMarker c site).val })
    (hdrag : ∀ b, ∀ dc ∈ a.drags, P' b → P' { b with portfolio := applyDrag b.portfolio dc })
    (h : P s.books) (hc : (s.act c a).Clean) : P' (s.act c a).val.books :=
  books_act_of P P' hidle (fun cmd i hcmd hexec us hb hclean => hleg cmd i hcmd hexec us hb (hclean trivial)) haudit
    (fun hwired b hb hclean => happly hwired b hb (hclean trivial))
    (fun b site hb hclean => hmarker b site hb (hclean trivial)) hdrag h fun _ => hc

/-- A property of the books that legs, audit rows, the composer's passes and drags keep is kept by
    every turn. -/
theorem books_act (P : Books → Prop) {a : Act}
    (hleg : ∀ cmd i, s.dispatched a = some cmd → s.executing cmd = some i →
      ∀ us, P s.books → (bookLeg c us s.books (legOrder (s.priced i cmd.result) cmd.result).val cmd.result).Clean →
        P (bookLeg c us s.books (legOrder (s.priced i cmd.result) cmd.result).val cmd.result).val)
    (haudit : ∀ b ev slot, IsAudit ev slot → P b → P (b.auditAppend c ev slot))
    (happly : c.aggWired = true → ∀ b, P b → (b.composer.fillRingsApply c).Clean →
      P { b with composer := (b.composer.fillRingsApply c).val })
    (hmarker : ∀ b site, P b → (b.composer.fatalMarker c site).Clean →
      P { b with composer := (b.composer.fatalMarker c site).val })
    (hdrag : ∀ b dc, P b → P { b with portfolio := applyDrag b.portfolio dc })
    (h : P s.books) (hc : (s.act c a).Clean) : P (s.act c a).val.books :=
  books_act_leg P P (fun _ => id) hleg haudit happly hmarker (fun b dc _ => hdrag b dc) h hc

end FoxTrader.OrderManagerState
