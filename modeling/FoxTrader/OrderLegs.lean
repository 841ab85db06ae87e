import FoxTrader.OrderOutcomes

/-! # Orders between their legs

    Two streams report on one order, the venue's executions and the response to the submission, in
    any order. `LegHistory` is what an observer of the executions keeps: for each id whether a leg
    was booked, how much in all, and whether the venue has ended the order. An order with a booked
    leg that the venue has not ended waits in its slot for the next one; a failed response is the
    only thing that takes it out, since `ProcessFillCommand` rejects and frees whatever it finds. -/

namespace FoxTrader.OrderManagerState

open Lib Function

variable {c : OmsConfig} {s : OrderManagerState}

/-! ### The history of the executions -/

structure LegHistory where
  booked : Nat → Bool
  executed : Nat → Money
  ended : Nat → Bool

def LegHistory.empty : LegHistory :=
  { booked := fun _ => false, executed := fun _ => .zero, ended := fun _ => false }

/-- The execution `r` on the order `id`, which brings it to `total`. -/
def LegHistory.record (h : LegHistory) (id : Nat) (r : OrderResult) (total : Money) : LegHistory where
  booked := update h.booked id (h.booked id || decide (r.fillQty > 0.0))
  executed := update h.executed id total
  ended := update h.ended id (h.ended id || r.orderComplete || r.venueTerminal)

/-- What processing `cmd` adds to the history. -/
def LegHistory.observe (h : LegHistory) (s : OrderManagerState) (cmd : Command) : LegHistory :=
  match s.executing cmd with
  | none => h
  | some i => h.record cmd.orderId cmd.result (legOrder (s.orders i) cmd.result).val.filledQty

/-- The order manager and the history of its executions. -/
structure Traced where
  oms : OrderManagerState
  legs : LegHistory

def Traced.init (balance : Money) (tradeLog : Option (List (EmitRecord × Money))) : Traced :=
  { oms := .init balance tradeLog, legs := .empty }

def Traced.step (c : OmsConfig) (t : Traced) (a : Act) : Traced where
  oms := t.oms.step c a
  legs :=
    match t.oms.dispatched a with
    | none => t.legs
    | some cmd => t.legs.observe t.oms cmd

/-- An order with a booked leg that is short of what the venue executes on it, and that the venue
    has not ended, is in its slot with all its legs counted. -/
def LegsKept (venueQty : Nat → Money) (t : Traced) : Prop :=
  ∀ id, t.legs.booked id = true → t.legs.ended id = false → (t.legs.executed id).lt (venueQty id) = true →
    ∃ i, t.oms.occupant id = some i ∧ (t.oms.orders i).state = .partialFill ∧
      (t.oms.orders i).filledQty = t.legs.executed id

/-- The turn hands a failed result to an order with a booked leg that is short of what the venue
    executes on it and that the venue has not ended. -/
def failsShort (venueQty : Nat → Money) (t : Traced) (a : Act) : Bool :=
  match t.oms.dispatched a with
  | none => false
  | some cmd =>
    !cmd.result.success && t.legs.booked cmd.orderId && !t.legs.ended cmd.orderId &&
      (t.legs.executed cmd.orderId).lt (venueQty cmd.orderId)

/-! ### One command -/

/-- What does not execute on a partly filled order, short of failing it, leaves it in place. -/
theorem stays_of_not_executing {i : OrderSlot} {cmd : Command} (hocc : s.occupant cmd.orderId = some i)
    (hstate : (s.orders i).state = .partialFill) (hexec : s.executing cmd = none)
    (hsuccess : cmd.result.success = true) : Stays i s (s.processFillCommand c cmd).val.1 := by
  have hocc' := (occupant_eq_some.1 hocc).2.1
  have hsame : ∀ {j}, s.occupant cmd.orderId = some j → j = i :=
    fun h => Option.some_inj.1 (h.symm.trans hocc)
  have hout := processFillCommand_outcome c s cmd
  generalize s.processFillCommand c cmd = m at hout ⊢
  rcases hout with _ | ⟨j, hj, -⟩ | ⟨j, hj, -⟩ | ⟨j, -, hbooks, -⟩ | ⟨j, -, hbooks, -, -⟩ | ⟨j, -, -, hfail⟩
  · exact .of_order_eq hocc' rfl
  · obtain rfl := hsame hj
    refine ⟨hocc', ?_⟩
    have hack : acknowledge (s.named j cmd.result) = s.named j cmd.result := if_pos hstate
    simp only [Flagged.pure_val, setOrder, update_self, hack]
    exact ⟨rfl, rfl, rfl, rfl, rfl⟩
  · obtain rfl := hsame hj
    refine ⟨hocc', ?_⟩
    simp only [Flagged.pure_val, setOrder, update_self]
    exact ⟨rfl, rfl, rfl, rfl, rfl⟩
  · exact absurd (hbooks.symm.trans hexec) (Option.some_ne_none j)
  · exact absurd (hbooks.symm.trans hexec) (Option.some_ne_none j)
  · exact absurd (hfail.symm.trans hsuccess) Bool.false_ne_true

/-- A leg that neither completes nor ends its order leaves it in place, partly filled. -/
theorem goes_on {i : OrderSlot} {cmd : Command} (hexec : s.executing cmd = some i)
    (hcomplete : cmd.result.orderComplete = false) (hterminal : cmd.result.venueTerminal = false) :
    (s.processFillCommand c cmd).val.1.occupant cmd.orderId = some i ∧
      ((s.processFillCommand c cmd).val.1.orders i).state = .partialFill ∧
      ((s.processFillCommand c cmd).val.1.orders i).filledQty = (legOrder (s.orders i) cmd.result).val.filledQty := by
  have hout := processFillCommand_outcome c s cmd
  generalize s.processFillCommand c cmd = m at hout ⊢
  rcases hout with hno | ⟨j, -, hno⟩ | ⟨j, -, hno⟩ | ⟨j, hocc, hbooks, -⟩ | ⟨j, -, -, hend, -⟩ | ⟨j, -, hno, -⟩
  · exact absurd (hexec.symm.trans hno) (Option.some_ne_none i)
  · exact absurd (hexec.symm.trans hno) (Option.some_ne_none i)
  · exact absurd (hexec.symm.trans hno) (Option.some_ne_none i)
  · obtain rfl := Option.some_inj.1 (hbooks.symm.trans hexec)
    obtain ⟨hslot, hheld, hid⟩ := occupant_eq_some.1 hocc
    have horder : (s.bookExecution c j (s.priced j cmd.result) cmd.result).val.orders j =
        (legOrder (s.priced j cmd.result) cmd.result).val := update_self ..
    have hstate : (legOrder (s.priced j cmd.result) cmd.result).val.state = .partialFill := by
      simp [legOrder, hcomplete]
    have hstay : (s.bookExecution c j (s.priced j cmd.result) cmd.result).val.freeIfTerminal j =
        (s.bookExecution c j (s.priced j cmd.result) cmd.result).val := by
      refine if_neg ?_
      rw [horder, hstate]
      exact Bool.false_ne_true
    simp only [Flagged.bind_val, Flagged.pure_val, hstay, horder]
    refine ⟨occupant_eq_some.2 ⟨hslot, hheld, ?_⟩, hstate, rfl⟩
    rw [horder]
    exact hid
  · exact absurd (hend.symm.trans hterminal) Bool.false_ne_true.symm
  · exact absurd (hexec.symm.trans hno) (Option.some_ne_none i)

/-- A turn leaves a partly filled order in place unless it executes on it or fails it. -/
theorem stays_act_of_quiet {i : OrderSlot} {id : Nat} {a : Act} (hocc : s.occupant id = some i)
    (hstate : (s.orders i).state = .partialFill)
    (hquiet : ∀ cmd, s.dispatched a = some cmd → cmd.orderId = id →
      s.executing cmd = none ∧ cmd.result.success = true) : Stays i s (s.act c a).val := by
  obtain ⟨-, hheld, hid⟩ := occupant_eq_some.1 hocc
  rcases hcmd : s.dispatched a with _ | cmd
  · exact stays_act hheld fun _ hsome => absurd (hcmd.symm.trans hsome) (Option.some_ne_none _).symm
  rcases eq_or_ne cmd.orderId id with heq | hne
  · obtain ⟨hexec, hsuccess⟩ := hquiet cmd hcmd heq
    obtain ⟨rings, ws, reconcile, submits, us, hact⟩ := act_of_dispatched (c := c) hcmd
    have hstays := stays_of_not_executing (c := c) (s := s.requeue rings ws reconcile submits us)
      ((congrArg s.occupant heq).trans hocc) hstate hexec hsuccess
    rw [hact]
    exact ⟨hstays.occupied, hstays.order⟩
  · refine stays_act hheld fun cmd' hcmd' hocc' => hne ?_
    obtain rfl := Option.some_inj.1 (hcmd.symm.trans hcmd')
    exact (occupant_eq_some.1 hocc').2.2.symm.trans hid

/-! ### Every run -/

theorem LegHistory.observe_of_none {h : LegHistory} {cmd : Command} (hexec : s.executing cmd = none) :
    h.observe s cmd = h := by
  rw [LegHistory.observe, hexec]

theorem LegHistory.observe_of_some {h : LegHistory} {i : OrderSlot} {cmd : Command}
    (hexec : s.executing cmd = some i) :
    h.observe s cmd = h.record cmd.orderId cmd.result (legOrder (s.orders i) cmd.result).val.filledQty := by
  rw [LegHistory.observe, hexec]

/-- A turn that records nothing on `id` and does not fail it keeps what is known of it. -/
theorem LegsKept.of_quiet {venueQty : Nat → Money} {t : Traced} {a : Act} {id : Nat} (h : LegsKept venueQty t)
    (hbooked : t.legs.booked id = true) (hended : t.legs.ended id = false)
    (hshort : (t.legs.executed id).lt (venueQty id) = true)
    (hquiet : ∀ cmd, t.oms.dispatched a = some cmd → cmd.orderId = id →
      t.oms.executing cmd = none ∧ cmd.result.success = true) :
    ∃ i, (t.step c a).oms.occupant id = some i ∧ ((t.step c a).oms.orders i).state = .partialFill ∧
      ((t.step c a).oms.orders i).filledQty = t.legs.executed id := by
  obtain ⟨i, hocc, hstate, hqty⟩ := h id hbooked hended hshort
  have hstays := stays_act_of_quiet (c := c) hocc hstate hquiet
  exact ⟨i, hstays.occupant hocc, hstays.order.state.trans hstate, hstays.order.filledQty.trans hqty⟩

theorem LegsKept.step {venueQty : Nat → Money} {t : Traced} {a : Act} (h : LegsKept venueQty t)
    (hok : failsShort venueQty t a = false) : LegsKept venueQty (t.step c a) := by
  intro id hbooked hended hshort
  rcases hcmd : t.oms.dispatched a with _ | cmd
  · have hlegs : (t.step c a).legs = t.legs := by rw [Traced.step, hcmd]
    rw [hlegs] at hbooked hended hshort ⊢
    exact h.of_quiet hbooked hended hshort fun _ hsome => absurd (hcmd.symm.trans hsome) (Option.some_ne_none _).symm
  have hlegs : (t.step c a).legs = t.legs.observe t.oms cmd := by rw [Traced.step, hcmd]
  rw [hlegs] at hbooked hended hshort ⊢
  rcases hexec : t.oms.executing cmd with _ | i
  · -- the order may be the command's, which then neither executes nor fails
    rw [LegHistory.observe_of_none hexec] at hbooked hended hshort ⊢
    refine h.of_quiet hbooked hended hshort fun cmd' hcmd' heq => ?_
    obtain rfl := Option.some_inj.1 (hcmd.symm.trans hcmd')
    refine ⟨hexec, ?_⟩
    simpa [failsShort, hcmd, heq, hbooked, hended, hshort] using hok
  rw [LegHistory.observe_of_some hexec] at hbooked hended hshort ⊢
  rcases eq_or_ne id cmd.orderId with rfl | hne
  · -- a leg of the order itself, and not its last
    simp only [LegHistory.record, update_self, Bool.or_eq_false_iff] at hended ⊢
    obtain ⟨rings, ws, reconcile, submits, us, hact⟩ := act_of_dispatched (c := c) hcmd
    have hstep := goes_on (c := c) (s := t.oms.requeue rings ws reconcile submits us) hexec hended.1.2 hended.2
    rw [Traced.step, OrderManagerState.step, hact]
    exact ⟨i, hstep⟩
  · simp only [LegHistory.record, update_of_ne hne] at hbooked hended hshort ⊢
    refine h.of_quiet hbooked hended hshort fun cmd' hcmd' heq => ?_
    obtain rfl := Option.some_inj.1 (hcmd.symm.trans hcmd')
    exact absurd heq.symm hne

/-- As long as no failed result is processed for an order with a booked leg that is short of what
    the venue executes on it, every such order the venue has not ended is in its slot, partly filled
    and with all its legs counted, so that the next leg finds it. -/
theorem legs_kept (c : OmsConfig) (balance : Money) (tradeLog : Option (List (EmitRecord × Money)))
    (venueQty : Nat → Money) (as : List Act)
    (hok : Steps (Traced.step c) (fun t a => failsShort venueQty t a = false) (.init balance tradeLog) as) :
    LegsKept venueQty (run (Traced.step c) (.init balance tradeLog) as) :=
  run_inv_of_steps (fun _ _ h hstep => h.step hstep) as (fun _ hbooked => absurd hbooked Bool.false_ne_true) hok

/-- Four of ten units are booked, then three more, and the order waits for the rest. -/
theorem legs_kept_waiting :
    let t := run (Traced.step (sampleLive [1])) (.init .zero none)
      [.submit (sampleOrder 0 .marketBuy 10), .processFill (sampleLeg 1 4 false), .processFill (sampleLeg 1 3 false)]
    t.legs.booked 1 = true ∧ t.legs.ended 1 = false ∧ LegsKept (fun _ => (Money.fromInt 10).val) t := by
  refine ⟨by decide +kernel, by decide +kernel, legs_kept _ _ _ _ _ ⟨?_, ?_, ?_, trivial⟩⟩ <;> decide +kernel

/-- The submission's response fails after the venue has streamed a leg: the order is rejected and
    freed with four of ten units booked, and the other six find nobody. -/
theorem legs_lost :
    let t := run (Traced.step (sampleLive [1])) (.init .zero none)
      [.submit (sampleOrder 0 .marketBuy 10), .processFill (sampleLeg 1 4 false), .processFill (sampleFailure 1)]
    ¬LegsKept (fun _ => (Money.fromInt 10).val) t ∧ (t.oms.orders 0).state = .rejected ∧
      t.oms.orderBitmap 0 = false ∧
      t.oms.processFillCommand (sampleLive [1]) (sampleLeg 1 6 true) = pure (t.oms, false) := by
  refine ⟨fun h => ?_, by decide +kernel, by decide +kernel, processFillCommand_of_stale (by decide +kernel)⟩
  obtain ⟨i, hocc, -⟩ := h 1 (by decide +kernel) (by decide +kernel) (by decide +kernel)
  exact Option.some_ne_none i (hocc.symm.trans (by decide +kernel))

end FoxTrader.OrderManagerState
