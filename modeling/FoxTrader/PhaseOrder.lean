import FoxTrader.OrderRemainder
import FoxTrader.PhasedDrain
import FoxTrader.SlotTallies

/-! # Closes before opens

    The live composer does not book a drained batch in the order it came, as `OrderManager_Tick` does:
    it books the results of all sell orders first and those of the buy orders after them. What a command
    does to its own order depends on that order alone, so the phases book exactly the legs `Tick` books,
    the closing ones in front. That is a different order only for slots in which an entry leg comes
    before an exit leg; the sell then finds a slot the buy has not filled yet. Where no batch has such a
    slot the accounts are the same. -/

namespace FoxTrader

open Lib Function

/-! ### What a command does to the order it names -/

namespace Order

variable (cmd : Command) (o : Order)

/-- The order under the venue's name, at the leg's price. -/
def pricedBy : Order :=
  { o with exchangeId := cmd.result.exchangeId, avgFillPrice := moneyFromDoublePayload cmd.result.avgFillPrice }

/-- The order takes an execution from the command. -/
def takes : Bool :=
  !decide (cmd.orderId = 0 ∧ cmd.type = .wsFill) && decide (o.state ≠ .filled) && cmd.result.success &&
    !OrderManagerState.isAck cmd.result && !OrderManagerState.restAfterLegs cmd (o.pricedBy cmd)

/-- The order with the command's execution on it. -/
def executedBy : Order := (OrderManagerState.legOrder (o.pricedBy cmd) cmd.result).val

/-- The leg the command books on the order. -/
def legsFrom : List BookedLeg :=
  if o.takes cmd ∧ cmd.result.fillQty > 0.0 then
    [(o.executedBy cmd).bookedLeg (o.executedBy cmd).avgFillPrice (moneyFromDoublePayload cmd.result.fillQty)
      cmd.result.commission cmd.result.commissionAsset]
  else []

/-- What the table holds for the order's id after the command. -/
def after : Option Order :=
  if (cmd.orderId = 0 ∧ cmd.type = .wsFill) ∨ o.state = .filled then some o
  else if !cmd.result.success then none
  else if OrderManagerState.isAck cmd.result then
    some (OrderManagerState.acknowledge { o with exchangeId := cmd.result.exchangeId })
  else if OrderManagerState.restAfterLegs cmd (o.pricedBy cmd) then some (o.pricedBy cmd)
  else if cmd.result.venueTerminal ∨ cmd.result.orderComplete then none
  else some (o.executedBy cmd)

/-- A command never changes what an order is an order for. -/
theorem after_keeps {o' : Order} (h : o.after cmd = some o') :
    o'.type = o.type ∧ o'.portfolioSlot = o.portfolioSlot := by
  unfold after at h
  split at h
  · exact Option.some_inj.1 h ▸ ⟨rfl, rfl⟩
  split at h
  · exact absurd h.symm (Option.some_ne_none o')
  split at h
  · obtain rfl := Option.some_inj.1 h
    unfold OrderManagerState.acknowledge
    split <;> exact ⟨rfl, rfl⟩
  split at h
  · exact Option.some_inj.1 h ▸ ⟨rfl, rfl⟩
  split at h
  · exact absurd h.symm (Option.some_ne_none o')
  · exact Option.some_inj.1 h ▸ ⟨rfl, rfl⟩

/-- A leg is on the side and in the slot of its order, and the command brought a quantity. -/
theorem of_mem_legsFrom {l : BookedLeg} (h : l ∈ o.legsFrom cmd) :
    l.isSell = o.type.isSell ∧ l.slot = o.portfolioSlot ∧ cmd.result.success = true ∧ cmd.result.fillQty > 0.0 := by
  unfold legsFrom at h
  split at h
  next hqty =>
    obtain rfl := List.mem_singleton.1 h
    have htakes := hqty.1
    simp only [takes, Bool.and_eq_true] at htakes
    exact ⟨rfl, rfl, htakes.1.1.2, hqty.2⟩
  next => exact absurd h List.not_mem_nil

end Order

/-! ### The orders as their ids see them -/

namespace OrderManagerState

variable {c : OmsConfig} {s s' : OrderManagerState} {id : Nat} {cmd : Command} {i : OrderSlot}

/-- The order of that id, while it is in the table. -/
def view (s : OrderManagerState) (id : Nat) : Option Order := (s.occupant id).map s.orders

theorem view_eq_some {o : Order} :
    s.view id = some o ↔ s.orderBitmap (orderIdSlot id) = true ∧ o.id = id ∧ s.orders (orderIdSlot id) = o := by
  unfold view occupant
  simp only [Option.map_eq_some_iff, Option.ite_none_right_eq_some, Option.some_inj]
  constructor
  · rintro ⟨i, ⟨⟨hocc, hid⟩, rfl⟩, rfl⟩
    exact ⟨hocc, hid, rfl⟩
  · rintro ⟨hocc, hid, rfl⟩
    exact ⟨_, ⟨⟨hocc, hid⟩, rfl⟩, rfl⟩

theorem view_eq_none_iff :
    s.view id = none ↔ s.orderBitmap (orderIdSlot id) = true → (s.orders (orderIdSlot id)).id ≠ id := by
  unfold view occupant
  simp only [Option.map_eq_none_iff, ite_eq_right_iff, reduceCtorEq, imp_false, not_and]

theorem view_of_free (h : s.orderBitmap (orderIdSlot id) = false) : s.view id = none :=
  view_eq_none_iff.2 fun hocc => absurd (h.symm.trans hocc) Bool.false_ne_true

/-- What an id sees depends on its slot alone. -/
theorem view_congr (hocc : s'.orderBitmap (orderIdSlot id) = s.orderBitmap (orderIdSlot id))
    (horder : s'.orders (orderIdSlot id) = s.orders (orderIdSlot id)) : s'.view id = s.view id := by
  unfold view occupant
  simp only [hocc, horder]
  split
  · simp only [Option.map_some, horder]
  · rfl

/-- `s'` is `s` but for what the slot of the order `id` has: the order, changed, or nothing. -/
structure Rewritten (id : Nat) (i : OrderSlot) (s s' : OrderManagerState) : Prop where
  bitmap : ∀ j, j ≠ i → s'.orderBitmap j = s.orderBitmap j
  orders : ∀ j, j ≠ i → s'.orders j = s.orders j
  id : (s'.orders i).id = id

/-- The other ids see what they saw. -/
theorem Rewritten.view_of_ne {k : Nat} (h : Rewritten k i s s') (hocc : s.occupant k = some i) (hne : id ≠ k) :
    s'.view id = s.view id := by
  obtain ⟨-, -, hid⟩ := occupant_eq_some.1 hocc
  rcases eq_or_ne (orderIdSlot id) i with rfl | hslot
  · rw [view_eq_none_iff.2 fun _ heq => hne (heq.symm.trans h.id), view_eq_none_iff.2 fun _ heq =>
      hne (heq.symm.trans hid)]
  · exact view_congr (h.bitmap _ hslot) (h.orders _ hslot)

/-- The id itself sees what is in its slot now. -/
theorem Rewritten.view_self (h : Rewritten id i s s') (hslot : i = orderIdSlot id) :
    s'.view id = if s'.orderBitmap i then some (s'.orders i) else none := by
  subst hslot
  unfold view occupant
  simp only [h.id, and_true]
  split <;> rfl

theorem setOrder_orders_self (s : OrderManagerState) (i : OrderSlot) (o : Order) : (s.setOrder i o).orders i = o :=
  update_self ..

theorem rewritten_setOrder (s : OrderManagerState) {o : Order} (hid : o.id = id) :
    Rewritten id i s (s.setOrder i o) :=
  ⟨fun _ _ => rfl, fun _ hne => update_of_ne hne .., (congrArg Order.id (setOrder_orders_self ..)).trans hid⟩

theorem Rewritten.freeIfTerminal (h : Rewritten id i s s') : Rewritten id i s (s'.freeIfTerminal i) := by
  unfold OrderManagerState.freeIfTerminal
  split
  · exact ⟨fun j hne => (update_of_ne hne ..).trans (h.bitmap j hne), h.orders, h.id⟩
  · exact h

theorem freeIfTerminal_orderBitmap_self (s : OrderManagerState) (i : OrderSlot) :
    (s.freeIfTerminal i).orderBitmap i = (s.orderBitmap i && !(s.orders i).state.isTerminal) := by
  unfold freeIfTerminal
  split
  next hends => simp only [update_self, hends, Bool.not_true, Bool.and_false]
  next hworks => simp only [eq_false_of_ne_true hworks, Bool.not_false, Bool.and_true]

/-! ### Ids known before -/

/-- The counter of the id has been handed out, and the counters have not wrapped around. -/
structure Counted (s : OrderManagerState) (id : Nat) : Prop where
  issued : id % orderIdCounterSize < s.nextOrderId
  few : s.nextOrderId < orderIdCounterSize

theorem Counted.ne_nextId (h : s.Counted id) (cmd : SubmitCommand) (k : OrderSlot) : s.nextId c cmd k ≠ id := by
  intro heq
  have hlane := encode_mod k (c.slotNode cmd.portfolioSlot) s.nextOrderId
  rw [← nextId, heq, Nat.mod_eq_of_lt h.few] at hlane
  exact Nat.ne_of_lt h.issued hlane

/-- A remainder's new order hides nothing that was seen. -/
theorem view_resubmit {dead : Order} {rest : Money} {k : OrderSlot} (hknown : s.Counted id)
    (hfree : freeSlot s.orderBitmap = some k)
    (htakes : c.liveTrading = true → adapterTakes c .marketSell (s.nextId c (resubmission dead rest) k) rest = true) :
    (s.resubmit c dead rest).val.view id = s.view id := by
  obtain ⟨hbitmap, horders⟩ := resubmit_taken hfree htakes
  rcases eq_or_ne (orderIdSlot id) k with rfl | hslot
  · rw [view_of_free (freeSlot_some hfree)]
    refine view_eq_none_iff.2 fun _ heq => hknown.ne_nextId (c := c) (resubmission dead rest) (orderIdSlot id) ?_
    rw [horders, update_self] at heq
    exact heq
  · exact view_congr (by rw [hbitmap, update_of_ne hslot]) (by rw [horders, update_of_ne hslot])

theorem exists_freeSlot {bitmap : OrderSlot → Bool} (h : bitmap i = false) : ∃ k, freeSlot bitmap = some k := by
  rcases hfree : freeSlot bitmap with _ | k
  · exact absurd (h.symm.trans (freeSlot_none hfree i)) Bool.false_ne_true
  · exact ⟨k, rfl⟩

/-- A remainder the command leaves is taken when it is submitted again. -/
def remainderTaken (c : OmsConfig) (s : OrderManagerState) (cmd : Command) : Prop :=
  c.liveTrading = true → cmd.result.venueTerminal = true → cmd.result.orderComplete = false →
    (s.view cmd.orderId).any (fun o => o.type = .marketSell) = true →
      ∀ id qty, adapterTakes c .marketSell id qty = true

/-- An order the venue ends short is gone, and no other known id sees a difference. -/
theorem view_endIncomplete (hocc : s.occupant cmd.orderId = some i) (hknown : s.Counted id)
    (htakes : c.liveTrading = true → (s.orders i).type = .marketSell → ∀ id qty, adapterTakes c .marketSell id qty = true) :
    ((s.endIncomplete c i).val.freeIfTerminal i).view id = if id = cmd.orderId then none else s.view id := by
  obtain ⟨hi, -, hid⟩ := occupant_eq_some.1 hocc
  have hdead : Rewritten cmd.orderId i s (s.cancel c i) := by
    refine ⟨fun j hne => update_of_ne hne .., fun j hne => update_of_ne hne .., ?_⟩
    simp only [cancel, update_self]
    exact hid
  have hfreed : (s.cancel c i).orderBitmap i = false := update_self ..
  have hcancel : (s.cancel c i).view id = if id = cmd.orderId then none else s.view id := by
    split
    next heq =>
      subst heq
      rw [hdead.view_self hi, hfreed, if_neg Bool.false_ne_true]
    next hne => exact hdead.view_of_ne hocc hne
  have hend : (s.endIncomplete c i).val.view id = (s.cancel c i).view id := by
    unfold endIncomplete
    split
    next hsold =>
      obtain ⟨k, hfree⟩ := exists_freeSlot hfreed
      exact view_resubmit ⟨hknown.issued, hknown.few⟩ hfree fun hlive => htakes hlive hsold.1 _ _
    next => rfl
  rw [← hcancel, ← hend]
  unfold freeIfTerminal
  split
  swap
  · rfl
  rcases eq_or_ne (orderIdSlot id) i with rfl | hslot
  · rw [hend, view_of_free hfreed]
    exact view_of_free (update_self ..)
  · exact view_congr (update_of_ne hslot ..) rfl

/-- A command that rewrites its order in place leaves it as the order and the command make of each other. -/
theorem Rewritten.view_after (h : Rewritten cmd.orderId i s s') (hocc : s.occupant cmd.orderId = some i)
    (hself : (if s'.orderBitmap i then some (s'.orders i) else none) = (s.orders i).after cmd) :
    s'.view id = if id = cmd.orderId then (s.view id).bind (Order.after cmd) else s.view id := by
  split
  next heq =>
    subst heq
    rw [h.view_self (occupant_eq_some.1 hocc).1, hself, view, hocc, Option.map_some, Option.bind_some]
  next hne => exact h.view_of_ne hocc hne

theorem view_processFailure (hocc : s.occupant cmd.orderId = some i) (hafter : (s.orders i).after cmd = none) :
    (s.processFailure c i cmd.result).view id =
      if id = cmd.orderId then (s.view id).bind (Order.after cmd) else s.view id := by
  obtain ⟨-, -, hid⟩ := occupant_eq_some.1 hocc
  have hreject : Rewritten cmd.orderId i s (s.reject c i cmd.result) := by
    refine ⟨fun _ _ => rfl, fun _ hne => update_of_ne hne .., ?_⟩
    simp only [reject, update_self]
    exact hid
  refine hreject.freeIfTerminal.view_after hocc ?_
  rw [hafter, freeIfTerminal_orderBitmap_self]
  simp [reject, OrderState.isTerminal]

theorem view_bookExecution (hocc : s.occupant cmd.orderId = some i) (hknown : s.Counted id)
    (htaken : s.remainderTaken c cmd)
    (hafter : (s.orders i).after cmd =
      if cmd.result.venueTerminal ∨ cmd.result.orderComplete then none else some ((s.orders i).executedBy cmd)) :
    (((if cmd.result.venueTerminal ∧ !cmd.result.orderComplete then
          (s.bookExecution c i (s.priced i cmd.result) cmd.result).val.endIncomplete c i
        else pure (s.bookExecution c i (s.priced i cmd.result) cmd.result).val).val).freeIfTerminal i).view id =
      if id = cmd.orderId then (s.view id).bind (Order.after cmd) else s.view id := by
  obtain ⟨hi, hbusy, hid⟩ := occupant_eq_some.1 hocc
  have hview : s.view cmd.orderId = some (s.orders i) := by rw [view, hocc, Option.map_some]
  have horder : (s.bookExecution c i (s.priced i cmd.result) cmd.result).val.orders i = (s.orders i).executedBy cmd :=
    update_self ..
  have hbooked : Rewritten cmd.orderId i s (s.bookExecution c i (s.priced i cmd.result) cmd.result).val :=
    ⟨fun _ _ => rfl, fun _ hne => update_of_ne hne .., (congrArg Order.id horder).trans hid⟩
  have hstate : ((s.orders i).executedBy cmd).state = if cmd.result.orderComplete then .filled
    else .partialFill := rfl
  split
  next hends =>
    have hocc' : (s.bookExecution c i (s.priced i cmd.result) cmd.result).val.occupant cmd.orderId = some i :=
      occupant_eq_some.2 ⟨hi, hbusy, hbooked.id⟩
    have hsold : c.liveTrading = true →
        ((s.bookExecution c i (s.priced i cmd.result) cmd.result).val.orders i).type = .marketSell →
          ∀ id qty, adapterTakes c .marketSell id qty = true := by
      intro hlive hsells
      rw [horder] at hsells
      refine htaken hlive hends.1 (by simpa using hends.2) ?_
      rw [hview]
      exact decide_eq_true hsells
    rw [view_endIncomplete hocc' ⟨hknown.issued, hknown.few⟩ hsold]
    split
    next heq => rw [heq, hview, Option.bind_some, hafter, if_pos (.inl hends.1)]
    next hne => exact hbooked.view_of_ne hocc hne
  next hgoes =>
    refine hbooked.freeIfTerminal.view_after hocc ?_
    rw [hafter]
    simp only [freeIfTerminal_orderBitmap_self, freeIfTerminal_orders, horder, hstate]
    rcases hcomplete : cmd.result.orderComplete with _ | _
    · have hworks : cmd.result.venueTerminal = false := by simpa [hcomplete] using hgoes
      simp [bookExecution, hbusy, hworks, OrderState.isTerminal]
    · simp [OrderState.isTerminal]

/-- A command does to the order it names what the order and the command make of each other, and nothing
    to any other. -/
theorem view_processFillCommand (hknown : s.Counted id) (htaken : s.remainderTaken c cmd) :
    (s.processFillCommand c cmd).val.1.view id =
      if id = cmd.orderId then (s.view id).bind (Order.after cmd) else s.view id := by
  have hskip : ∀ o, s.view cmd.orderId = some o → o.after cmd = some o →
      s.view id = if id = cmd.orderId then (s.view id).bind (Order.after cmd) else s.view id := by
    intro o hview hafter
    split
    next heq => rw [heq, hview, Option.bind_some, hafter]
    next => rfl
  rcases hocc : s.occupant cmd.orderId with _ | i
  · have hnone : s.view cmd.orderId = none := by rw [view, hocc, Option.map_none]
    rw [processFillCommand_of_stale hocc, Flagged.pure_val]
    split
    next heq => rw [heq, hnone, Option.bind_none]
    next => rfl
  obtain ⟨hi, hbusy, hid⟩ := occupant_eq_some.1 hocc
  have hview : s.view cmd.orderId = some (s.orders i) := by rw [view, hocc, Option.map_some]
  unfold processFillCommand
  split
  next hstray => exact hskip _ hview (if_pos (.inl hstray))
  next hnamed =>
    rw [hocc]
    dsimp only
    split
    next hfilled => exact hskip _ hview (if_pos (.inr hfilled))
    next hopen =>
      have hafter : (s.orders i).after cmd = _ := if_neg fun h => h.elim hnamed hopen
      split
      swap
      next hfail => exact view_processFailure hocc (hafter.trans (if_pos (by simpa using hfail)))
      next hsuccess =>
        replace hafter := hafter.trans (if_neg (by simp [hsuccess]))
        unfold processExecution
        dsimp only
        split
        next hack =>
          have hwritten : Rewritten cmd.orderId i s (s.setOrder i (acknowledge (s.named i cmd.result))) := by
            refine rewritten_setOrder s ?_
            unfold acknowledge
            split <;> exact hid
          refine hwritten.view_after hocc ((if_pos hbusy).trans ?_)
          rw [hafter, if_pos hack, setOrder_orders_self]
          rfl
        next hack =>
          replace hafter := hafter.trans (if_neg hack)
          split
          next htrip =>
            have hwritten : Rewritten cmd.orderId i s (s.setOrder i (s.priced i cmd.result)) :=
              rewritten_setOrder s hid
            refine hwritten.view_after hocc ((if_pos hbusy).trans ?_)
            rw [hafter, if_pos (show restAfterLegs cmd ((s.orders i).pricedBy cmd) = true from htrip),
              setOrder_orders_self]
            rfl
          next htrip =>
            exact view_bookExecution hocc hknown htaken
              (hafter.trans (if_neg (show ¬restAfterLegs cmd ((s.orders i).pricedBy cmd) = true from htrip)))

theorem executing_eq : s.executing cmd = (s.occupant cmd.orderId).filter fun i => (s.orders i).takes cmd := by
  unfold executing
  split
  next hstray =>
    rcases s.occupant cmd.orderId with _ | i
    · rfl
    · simp [Order.takes, hstray]
  next hnamed =>
    refine congrArg (fun p => (s.occupant cmd.orderId).filter p) (funext fun i => ?_)
    simp only [Order.takes, hnamed, decide_false, Bool.not_false, Bool.true_and]
    rfl

/-! ### Turns of a pass -/

/-- The turns of `OrderManager_Tick` and of the buckets' phases, and what other threads do meanwhile. -/
def Act.pumps : Act → Bool
  | .clock _ | .fillResult .. | .pushWs _ | .pushReconcile _ | .processFill _ | .processReconcile _ | .popResult
  | .popWs | .popReconcile => true
  | _ => false

/-- The fill commands the turns process. -/
def fills (c : OmsConfig) (s : OrderManagerState) (as : List Act) : List Command :=
  outputs (step c) (fun s a => (s.dispatched a).toList) s as

/-- Every remainder left on the way is taken when it is submitted again. -/
def RemaindersTaken (c : OmsConfig) (s : OrderManagerState) (as : List Act) : Prop :=
  Steps (step c) (fun s a => ∀ cmd, s.dispatched a = some cmd → s.remainderTaken c cmd) s as

variable {a : Act}

theorem view_step (hpumps : a.pumps = true) (hknown : ∀ cmd, s.dispatched a = some cmd → s.Counted id)
    (htaken : ∀ cmd, s.dispatched a = some cmd → s.remainderTaken c cmd) :
    (s.step c a).view id =
      match s.dispatched a with
      | none => s.view id
      | some cmd => if id = cmd.orderId then (s.view id).bind (Order.after cmd) else s.view id := by
  have hout := act_outcome c s a
  show (s.act c a).val.view id = _
  generalize s.act c a = m at hout ⊢
  rcases hout with ⟨_, _, _, _, _, hidle⟩ | ⟨_, _, _, _, _, cmd, hidle, hcmd⟩ |
    ⟨rings, ws, reconcile, submits, us, cmd, hcmd⟩ |
    ⟨_, _, _, _, _, _, hidle⟩ | _ | _ | _
  · rw [hidle]
    rfl
  · cases a <;> first | exact absurd hpumps Bool.false_ne_true | exact absurd hcmd.symm (Option.some_ne_none cmd)
  · rw [hcmd]
    exact view_processFillCommand (s := s.requeue rings ws reconcile submits us)
      ⟨(hknown cmd hcmd).issued, (hknown cmd hcmd).few⟩ (htaken cmd hcmd)
  · rw [hidle]
    rfl
  · exact absurd hpumps Bool.false_ne_true
  · exact absurd hpumps Bool.false_ne_true
  · exact absurd hpumps Bool.false_ne_true

theorem legsOf_eq :
    s.legsOf a = ((s.dispatched a).bind fun cmd => (s.view cmd.orderId).map (Order.legsFrom cmd)).getD [] := by
  unfold legsOf executed
  rcases hcmd : s.dispatched a with _ | cmd
  · rfl
  simp only [Option.bind_eq_bind, Option.bind_some, executing_eq, view]
  rcases hocc : s.occupant cmd.orderId with _ | i
  · rfl
  simp only [Option.filter_some, Option.map_some, Option.getD_some, Order.legsFrom]
  rcases htakes : (s.orders i).takes cmd with _ | _
  · simp
  · simp only [if_true, Option.bind_some, Option.pure_def, true_and]
    rfl

theorem nextOrderId_submit (c : OmsConfig) (s : OrderManagerState) (cmd : SubmitCommand) :
    (s.submit c cmd).val.1.nextOrderId = s.nextOrderId + 1 := by
  have hout := submit_outcome c s cmd
  generalize s.submit c cmd = m at hout ⊢
  rcases hout with _ | _ | _ | _ <;> rfl

theorem nextOrderId_freeIfTerminal (s : OrderManagerState) (i : OrderSlot) :
    (s.freeIfTerminal i).nextOrderId = s.nextOrderId := by
  unfold freeIfTerminal
  split <;> rfl

theorem nextOrderId_processFillCommand (c : OmsConfig) (s : OrderManagerState) (cmd : Command) :
    (s.processFillCommand c cmd).val.1.nextOrderId = s.nextOrderId ∨
      (s.processFillCommand c cmd).val.1.nextOrderId = s.nextOrderId + 1 := by
  have hout := processFillCommand_outcome c s cmd
  generalize s.processFillCommand c cmd = m at hout ⊢
  rcases hout with _ | _ | _ | _ | _ | _
  · exact .inl rfl
  · exact .inl rfl
  · exact .inl rfl
  · exact .inl (nextOrderId_freeIfTerminal ..)
  · simp only [Flagged.bind_val, Flagged.pure_val, nextOrderId_freeIfTerminal]
    unfold endIncomplete
    split
    · exact .inr (nextOrderId_submit ..)
    · exact .inl rfl
  · exact .inl (nextOrderId_freeIfTerminal ..)

/-- A turn submits one order at most, and only for a command it processes. -/
theorem nextOrderId_step (c : OmsConfig) (s : OrderManagerState) (hpumps : a.pumps = true) :
    s.nextOrderId ≤ (s.step c a).nextOrderId ∧
      (s.step c a).nextOrderId ≤ s.nextOrderId + (s.dispatched a).toList.length := by
  have hout := act_outcome c s a
  show s.nextOrderId ≤ (s.act c a).val.nextOrderId ∧ (s.act c a).val.nextOrderId ≤ _
  generalize s.act c a = m at hout ⊢
  rcases hout with _ | ⟨_, _, _, _, _, cmd, hidle, hcmd⟩ |
    ⟨rings, ws, reconcile, submits, us, cmd, hcmd⟩ | _ | _ | _ | _
  · exact ⟨le_rfl, Nat.le_add_right ..⟩
  · cases a <;> first | exact absurd hpumps Bool.false_ne_true | exact absurd hcmd.symm (Option.some_ne_none cmd)
  · have hcount := nextOrderId_processFillCommand c (s.requeue rings ws reconcile submits us) cmd
    have hstart : (s.requeue rings ws reconcile submits us).nextOrderId = s.nextOrderId := rfl
    simp only [hcmd, Option.toList_some, List.length_singleton, Flagged.bind_val, Flagged.pure_val]
    omega
  · exact ⟨le_rfl, Nat.le_add_right ..⟩
  · exact absurd hpumps Bool.false_ne_true
  · exact absurd hpumps Bool.false_ne_true
  · exact absurd hpumps Bool.false_ne_true

/-! ### One side of a pass -/

/-- The side of the order in the id's slot, by which the buckets go. -/
def closes (s : OrderManagerState) (id : Nat) : Bool := (s.orders (orderIdSlot id)).type.isClose

/-- The commands of one side. -/
def ofSide (s : OrderManagerState) (b : Bool) (batch : List Command) : List Command :=
  batch.filter fun cmd => s.closes cmd.orderId = b

/-- The id's counter was handed out before `s`. -/
def knownId (s : OrderManagerState) (id : Nat) : Prop := id % orderIdCounterSize < s.nextOrderId

/-- Since `s₀` the ids known there have seen the orders they saw there, and `n` more orders can be
    submitted before the counters wrap around. -/
structure Since (s₀ : OrderManagerState) (n : Nat) (s : OrderManagerState) : Prop where
  issued : s₀.nextOrderId ≤ s.nextOrderId
  few : s.nextOrderId + n ≤ orderIdCounterSize
  orders : ∀ id, s₀.knownId id → ∀ o, s.view id = some o →
    ∃ o₀, s₀.view id = some o₀ ∧ o.type = o₀.type ∧ o.portfolioSlot = o₀.portfolioSlot

variable {s₀ : OrderManagerState} {n : Nat}

theorem Since.start (hfew : s.nextOrderId + n ≤ orderIdCounterSize) : Since s n s :=
  ⟨le_rfl, hfew, fun _ _ o hview => ⟨o, hview, rfl, rfl⟩⟩

theorem Since.mono {m : Nat} (h : Since s₀ n s) (hle : m ≤ n) : Since s₀ m s :=
  ⟨h.issued, by have := h.few; omega, h.orders⟩

theorem Since.congr (h : Since s₀ n s) (hnext : s'.nextOrderId = s.nextOrderId)
    (hview : ∀ id, s'.view id = s.view id) :
    Since s₀ n s' :=
  ⟨hnext ▸ h.issued, hnext ▸ h.few, fun id hid o ho => h.orders id hid o ((hview id).symm.trans ho)⟩

theorem Since.known (h : Since s₀ (n + (s.dispatched a).toList.length) s) (hid : s₀.knownId id) :
    ∀ cmd, s.dispatched a = some cmd → s.Counted id := by
  intro cmd hcmd
  have hfew := h.few
  rw [hcmd, Option.toList_some, List.length_singleton] at hfew
  exact ⟨Nat.lt_of_lt_of_le hid h.issued, by omega⟩

theorem Since.step (h : Since s₀ (n + (s.dispatched a).toList.length) s) (hpumps : a.pumps = true)
    (htaken : ∀ cmd, s.dispatched a = some cmd → s.remainderTaken c cmd) : Since s₀ n (s.step c a) := by
  have hnext := nextOrderId_step c s hpumps
  have hfew := h.few
  refine ⟨by have := h.issued; omega, by omega, fun id hid o hview => ?_⟩
  rw [view_step hpumps (h.known hid) htaken] at hview
  rcases hcmd : s.dispatched a with _ | cmd
  · simp only [hcmd] at hview
    exact h.orders id hid o hview
  simp only [hcmd] at hview
  split at hview
  · obtain ⟨o₁, hview₁, hafter⟩ := Option.bind_eq_some_iff.1 hview
    obtain ⟨o₀, hview₀, htype, hslot⟩ := h.orders id hid o₁ hview₁
    obtain ⟨htype₁, hslot₁⟩ := o₁.after_keeps cmd hafter
    exact ⟨o₀, hview₀, htype₁.trans htype, hslot₁.trans hslot⟩
  · exact h.orders id hid o hview

/-- The side and the slot of the legs a command can book, if it brings a quantity for an order. -/
def legSide (s : OrderManagerState) (cmd : Command) : Option (SlotIdx × Bool) :=
  if cmd.result.success ∧ cmd.result.fillQty > 0.0 then
    (s.view cmd.orderId).map fun o => (o.portfolioSlot, o.type.isSell)
  else none

theorem isClose_eq_isSell (t : OrderType) : t.isClose = t.isSell := by
  cases t <;> rfl

theorem closes_of_view {o : Order} (h : s.view id = some o) : s.closes id = o.type.isSell := by
  rw [closes, (view_eq_some.1 h).2.2, isClose_eq_isSell]

/-- A leg is on the side and in the slot its command has it on since the start. -/
theorem Since.legsOf (h : Since s₀ n s) (hcmd : s.dispatched a = some cmd) (hid : s₀.knownId cmd.orderId) :
    s.legsOf a = [] ∨
      ∃ l, s.legsOf a = [l] ∧ s₀.legSide cmd = some (l.slot, l.isSell) ∧ s₀.closes cmd.orderId = l.isSell := by
  rw [legsOf_eq, hcmd, Option.bind_some]
  rcases hview : s.view cmd.orderId with _ | o
  · exact .inl rfl
  rw [Option.map_some, Option.getD_some]
  rcases hlegs : o.legsFrom cmd with _ | ⟨l, ls⟩
  · exact .inl rfl
  have hone : ls = [] := by
    unfold Order.legsFrom at hlegs
    split at hlegs
    · exact (List.cons_eq_cons.1 hlegs).2.symm
    · exact absurd hlegs (List.cons_ne_nil l ls).symm
  obtain ⟨hsell, hslot, hsuccess, hqty⟩ := o.of_mem_legsFrom cmd (hlegs ▸ List.mem_cons_self)
  obtain ⟨o₀, hview₀, htype, hslot₀⟩ := h.orders cmd.orderId hid o hview
  refine .inr ⟨l, by rw [hone], ?_, ?_⟩
  · rw [legSide, if_pos ⟨hsuccess, hqty⟩, hview₀, Option.map_some, hslot, hsell, htype, hslot₀]
  · rw [closes_of_view hview₀, hsell, htype]

theorem remainderTaken_congr (h : s'.view cmd.orderId = s.view cmd.orderId) (htaken : s.remainderTaken c cmd) :
    s'.remainderTaken c cmd := by
  unfold remainderTaken at htaken ⊢
  rwa [h]

/-- The legs of one side a pass books are those the commands of that side book on their own, from any
    state in which its orders are the same. -/
theorem legs_filter (b : Bool) : ∀ (as : List Act) {s s' : OrderManagerState}, (∀ a ∈ as, a.pumps = true) →
    Since s₀ (fills c s as).length s → Since s₀ (s₀.ofSide b (fills c s as)).length s' → RemaindersTaken c s as →
      (∀ cmd ∈ fills c s as, s₀.knownId cmd.orderId) →
        (∀ id, s₀.knownId id → s₀.closes id = b → s'.view id = s.view id) →
          (legs c s as).filter (fun l => l.isSell = b) = legs c s' ((s₀.ofSide b (fills c s as)).map .processFill) ∧
            RemaindersTaken c s' ((s₀.ofSide b (fills c s as)).map .processFill)
  | [], _, _, _, _, _, _, _, _ => ⟨rfl, trivial⟩
  | a :: as, s, s', hpumps, hs, hs', htaken, hknown, halike => by
    obtain ⟨hpumps, hrest⟩ := List.forall_mem_cons.1 hpumps
    have hfills : fills c s (a :: as) = (s.dispatched a).toList ++ fills c (s.step c a) as := rfl
    have hlegs : legs c s (a :: as) = s.legsOf a ++ legs c (s.step c a) as := rfl
    rw [hfills, List.length_append, Nat.add_comm] at hs
    rw [hfills] at hknown hs' ⊢
    rw [hlegs, List.filter_append, ofSide, List.filter_append, List.map_append]
    rw [ofSide, List.filter_append, List.length_append, Nat.add_comm] at hs'
    have hs₁ := hs.step hpumps htaken.1
    have hknown₁ : ∀ cmd ∈ fills c (s.step c a) as, s₀.knownId cmd.orderId :=
      fun cmd hcmd => hknown cmd (List.mem_append_right _ hcmd)
    rcases hcmd : s.dispatched a with _ | cmd
    · have hnone : s.legsOf a = [] := by
        rw [legsOf_eq, hcmd]
        rfl
      rw [hnone]
      refine legs_filter b as hrest hs₁ (hs'.mono (Nat.le_add_right ..)) htaken.2 hknown₁ fun id hid hdir => ?_
      rw [halike id hid hdir, view_step hpumps (hs.known hid) htaken.1, hcmd]
    have hid : s₀.knownId cmd.orderId := hknown cmd (by rw [hcmd]; exact List.mem_cons_self)
    have hside : ∀ l ∈ s.legsOf a, l.isSell = s₀.closes cmd.orderId := by
      intro l hl
      rcases hs.legsOf hcmd hid with hnone | ⟨l', hone, -, hsell⟩
      · rw [hnone] at hl
        exact absurd hl List.not_mem_nil
      · rw [hone, List.mem_singleton] at hl
        rw [hl, hsell]
    by_cases hdir : s₀.closes cmd.orderId = b
    · have hkeep : (s.legsOf a).filter (fun l => l.isSell = b) = s.legsOf a :=
        List.filter_eq_self.2 fun l hl => decide_eq_true ((hside l hl).trans hdir)
      have hsame : s'.legsOf (.processFill cmd) = s.legsOf a := by
        rw [legsOf_eq, legsOf_eq, hcmd]
        show (((some cmd).bind fun cmd => (s'.view cmd.orderId).map (Order.legsFrom cmd)).getD []) = _
        rw [Option.bind_some, Option.bind_some, halike cmd.orderId hid hdir]
      have htaken' : ∀ cmd', s'.dispatched (.processFill cmd) = some cmd' → s'.remainderTaken c cmd' := by
        intro cmd' hcmd'
        obtain rfl := Option.some_inj.1 hcmd'
        exact remainderTaken_congr (halike cmd.orderId hid hdir) (htaken.1 cmd hcmd)
      have hone : [cmd].filter (fun cmd => s₀.closes cmd.orderId = b) = [cmd] :=
        List.filter_eq_self.2 fun x hx => decide_eq_true (List.mem_singleton.1 hx ▸ hdir)
      rw [hcmd, Option.toList_some, hone] at hs'
      obtain ⟨hlegs₁, htaken₁⟩ :=
        legs_filter b as hrest hs₁ (hs'.step (a := .processFill cmd) rfl htaken') htaken.2 hknown₁
        fun id hid' hdir' => by
          rw [view_step (a := .processFill cmd) rfl (hs'.known (a := .processFill cmd) hid') htaken',
            view_step hpumps (hs.known hid') htaken.1, hcmd, halike id hid' hdir']
          rfl
      rw [hkeep, ← hsame, Option.toList_some, hone, hlegs₁]
      exact ⟨rfl, htaken', htaken₁⟩
    · have hdrop : (s.legsOf a).filter (fun l => l.isSell = b) = [] :=
        List.filter_eq_nil_iff.2 fun l hl heq => hdir ((hside l hl).symm.trans (of_decide_eq_true heq))
      have hnone : [cmd].filter (fun cmd => s₀.closes cmd.orderId = b) = [] :=
        List.filter_eq_nil_iff.2 fun x hx heq => hdir (List.mem_singleton.1 hx ▸ of_decide_eq_true heq)
      rw [hdrop, Option.toList_some, hnone]
      refine legs_filter b as hrest hs₁ (hs'.mono (Nat.le_add_right ..)) htaken.2 hknown₁ fun id hid' hdir' => ?_
      rw [halike id hid' hdir', view_step hpumps (hs.known hid') htaken.1, hcmd]
      exact (if_neg fun heq : id = cmd.orderId => hdir (heq ▸ hdir')).symm

/-- The legs of a pass are on the sides and in the slots its commands have them on, in their order. -/
theorem legs_sublist : ∀ (as : List Act) {s : OrderManagerState}, (∀ a ∈ as, a.pumps = true) →
    Since s₀ (fills c s as).length s → RemaindersTaken c s as → (∀ cmd ∈ fills c s as, s₀.knownId cmd.orderId) →
      ((legs c s as).map fun l => (l.slot, l.isSell)).Sublist ((fills c s as).filterMap s₀.legSide)
  | [], _, _, _, _, _ => List.Sublist.refl _
  | a :: as, s, hpumps, hs, htaken, hknown => by
    obtain ⟨hpumps, hrest⟩ := List.forall_mem_cons.1 hpumps
    have hfills : fills c s (a :: as) = (s.dispatched a).toList ++ fills c (s.step c a) as := rfl
    have hlegs : legs c s (a :: as) = s.legsOf a ++ legs c (s.step c a) as := rfl
    rw [hfills, List.length_append, Nat.add_comm] at hs
    rw [hfills] at hknown ⊢
    rw [hlegs, List.map_append, List.filterMap_append]
    refine List.Sublist.append ?_ (legs_sublist as hrest (hs.step hpumps htaken.1) htaken.2
      fun cmd hcmd => hknown cmd (List.mem_append_right _ hcmd))
    rcases hcmd : s.dispatched a with _ | cmd
    · rw [legsOf_eq, hcmd]
      exact List.Sublist.refl _
    · have hid : s₀.knownId cmd.orderId := hknown cmd (by rw [hcmd]; exact List.mem_cons_self)
      rcases hs.legsOf hcmd hid with hnone | ⟨l, hone, hside, -⟩
      · rw [hnone]
        exact List.nil_sublist _
      · rw [hone, Option.toList_some, List.filterMap_cons_some hside]
        exact List.Sublist.refl _

/-- The commands of one side leave the orders of the other alone. -/
theorem view_run_ofSide {b : Bool} : ∀ (batch : List Command) {s : OrderManagerState},
    Since s₀ (n + batch.length) s → RemaindersTaken c s (batch.map .processFill) →
      (∀ cmd ∈ batch, s₀.closes cmd.orderId = b) →
        Since s₀ n (run (step c) s (batch.map .processFill)) ∧
          ∀ id, s₀.knownId id → s₀.closes id ≠ b → (run (step c) s (batch.map .processFill)).view id = s.view id
  | [], _, hs, _, _ => ⟨hs, fun _ _ _ => rfl⟩
  | cmd :: batch, s, hs, htaken, hside => by
    obtain ⟨hdir, hrest⟩ := List.forall_mem_cons.1 hside
    have hs' : Since s₀ (n + batch.length + (s.dispatched (.processFill cmd)).toList.length) s := hs
    obtain ⟨hsince, hviews⟩ := view_run_ofSide batch (hs'.step (a := .processFill cmd) rfl htaken.1) htaken.2 hrest
    refine ⟨hsince, fun id hid hne => (hviews id hid hne).trans ?_⟩
    rw [view_step (a := .processFill cmd) rfl (hs'.known hid) htaken.1]
    exact if_neg fun heq : id = cmd.orderId => hne (heq ▸ hdir)

/-- The phases book the legs of the pass, those of sells first. -/
theorem legs_phases {as : List Act} (hpumps : ∀ a ∈ as, a.pumps = true)
    (hfew : s.nextOrderId + (fills c s as).length ≤ orderIdCounterSize) (htaken : RemaindersTaken c s as)
    (hknown : ∀ cmd ∈ fills c s as, s.knownId cmd.orderId) (hnext : s'.nextOrderId = s.nextOrderId)
    (halike : ∀ id, s'.view id = s.view id) :
    legs c s' ((s.ofSide true (fills c s as) ++ s.ofSide false (fills c s as)).map .processFill) =
      (legs c s as).filter (fun l => l.isSell) ++ (legs c s as).filter fun l => !l.isSell := by
  have hs := Since.start hfew
  have hs' := hs.congr hnext halike
  have hcount : (s.ofSide false (fills c s as)).length + (s.ofSide true (fills c s as)).length =
    (fills c s as).length := by
    have hsplit := List.length_eq_length_filter_add (l := fills c s as) fun cmd => s.closes cmd.orderId
    simp only [ofSide, Bool.decide_eq_true, Bool.decide_eq_false]
    omega
  obtain ⟨hcloses, htaken'⟩ := legs_filter true as hpumps hs (hs'.mono (by omega)) htaken hknown fun id _ _ =>
    halike id
  rw [← hcount] at hs'
  obtain ⟨hsince, hviews⟩ := view_run_ofSide _ hs' htaken' fun cmd hcmd =>
    of_decide_eq_true (List.mem_filter.1 hcmd).2
  obtain ⟨hopens, -⟩ := legs_filter false as hpumps hs hsince htaken hknown
    fun id hid hdir => (hviews id hid (ne_true_of_eq_false hdir)).trans (halike id)
  simp only [Bool.decide_eq_true, Bool.decide_eq_false] at hcloses hopens
  rw [List.map_append, legs, outputs_append, hcloses, hopens]
  rfl

/-! ### The whole pass -/

/-- A drain only empties queues. -/
theorem drain_requeue (s : OrderManagerState) (ds : List DrainAct) :
    ∃ rings ws reconcile, (run DrainState.step (.start s) ds).oms =
      s.requeue rings ws reconcile s.submitQueues s.nowUs := by
  have hstep : ∀ (d : DrainState) (a : DrainAct),
      (∃ rings ws reconcile, d.oms = s.requeue rings ws reconcile s.submitQueues s.nowUs) →
        ∃ rings ws reconcile, (d.step a).oms = s.requeue rings ws reconcile s.submitQueues s.nowUs := by
    rintro d a ⟨rings, ws, reconcile, homs⟩
    cases a with
    | arrive a =>
      rw [DrainState.step, homs]
      cases a <;> exact ⟨_, _, _, rfl⟩
    | turn =>
      rcases hfront : d.front with _ | ⟨q, cmd⟩
      · obtain ⟨pos, hstep⟩ := DrainState.step_of_front_none hfront
        exact ⟨rings, ws, reconcile, by rw [hstep, homs]⟩
      · obtain ⟨-, hstep⟩ := DrainState.step_of_front hfront
        rw [hstep, homs]
        cases q <;> exact ⟨_, _, _, rfl⟩
  exact run_inv hstep ds ⟨s.resultRings, s.wsResultQueue, s.reconcileQueue, rfl⟩

/-- The fill commands a drain pops, in their order. -/
def drainedFills (es : List DrainEvent) : List Command :=
  es.filterMap fun
    | .popped .reconcile _ => none
    | .popped _ cmd => some cmd
    | .arrived .. => none

/-- What was popped for the two buckets of fills is what was popped, by its side. -/
theorem poppedFor_fills (s : OrderManagerState) (es : List DrainEvent) :
    poppedFor s .closes es = s.ofSide true (drainedFills es) ∧
      poppedFor s .opens es = s.ofSide false (drainedFills es) := by
  induction es with
  | nil => exact ⟨rfl, rfl⟩
  | cons e es ih =>
    have happend : ∀ k, poppedFor s k (e :: es) = poppedFor s k [e] ++ poppedFor s k es :=
      fun k => poppedFor_append s k [e] es
    have hdrained : drainedFills (e :: es) = drainedFills [e] ++ drainedFills es := List.filterMap_append (l := [e])
    rw [happend, happend, hdrained, ih.1, ih.2, ofSide, ofSide, ofSide, ofSide, List.filter_append,
      List.filter_append,
      List.append_left_inj, List.append_left_inj]
    rcases e with _ | ⟨q, cmd⟩
    · exact ⟨rfl, rfl⟩
    rw [poppedFor_popped, poppedFor_popped]
    cases q with
    | reconcile => exact ⟨rfl, rfl⟩
    | rest n | ws =>
      show _ = [cmd].filter _ ∧ _ = [cmd].filter _
      by_cases hclose : (s.orders (orderIdSlot cmd.orderId)).type.isClose = true <;> simp [bucketOf, closes, hclose]

/-- Without an aggregator nothing ever waits in a fill ring. -/
theorem fillRings_act (hwired : c.aggWired = false) (hc : (s.act c a).Clean) :
    (s.act c a).val.books.composer.els.agg.fillRings = s.books.composer.els.agg.fillRings := by
  have hkeeps : ∀ b b' : Books, b.composer.SameFills b'.composer → b'.portfolio = b.portfolio →
      b'.fillEmitSeq = b.fillEmitSeq → b.composer.els.agg.fillRings = s.books.composer.els.agg.fillRings →
        b'.composer.els.agg.fillRings = s.books.composer.els.agg.fillRings :=
    fun b b' hfills _ _ hb => hfills.fillRings.trans hb
  refine books_act_booked (fun b => b.composer.els.agg.fillRings = s.books.composer.els.agg.fillRings)
    (fun b => b.composer.els.agg.fillRings = s.books.composer.els.agg.fillRings) (fun _ => id)
      (hkeeps s.books) ?_ hkeeps ?_
    (fun _ _ _ => id) rfl hc
  · intro l _ b b' _ _ hb hbook
    rcases hbook False (.beside b.portfolio) (.of_eq rfl rfl) with _ |
      ⟨fe, record, q, -, -, -, -, hcomposer, -, -, -, -, -⟩
    · exact hb
    · rw [hcomposer, (Composer.sameFills_emitRecord ..).fillRings, Composer.fillEmit, hwired]
      exact hb
  · exact fun hwired' => absurd (hwired.symm.trans hwired') Bool.false_ne_true

/-- After a pass with the rings applied nothing waits that did not wait before. -/
theorem pendingFills_pass (as : List Act)
    (hclean : Steps (step c) (fun s a => (s.act c a).Clean) s (as ++ [.fillRingsApply])) :
    (run (step c) s (as ++ [.fillRingsApply])).books.composer.pendingFills =
      if c.aggWired then [] else s.books.composer.pendingFills := by
  split
  next hwired =>
    rw [run_append]
    show ((run (step c) s as).fillRingsApply c).val.books.composer.pendingFills = []
    unfold fillRingsApply
    rw [if_pos hwired]
    exact Composer.pendingFills_fillRingsApply ..
  next hwired =>
    have hstep : ∀ (t : OrderManagerState) (a : Act),
        t.books.composer.els.agg.fillRings = s.books.composer.els.agg.fillRings → (t.act c a).Clean →
          (t.step c a).books.composer.els.agg.fillRings = s.books.composer.els.agg.fillRings :=
      fun t a ht hc => (fillRings_act (eq_false_of_ne_true hwired) hc).trans ht
    exact Composer.pendingFills_congr (run_inv_of_steps hstep _ rfl hclean)

theorem legs_of_idle : ∀ {as : List Act} {s : OrderManagerState},
    (∀ a ∈ as, ∀ s : OrderManagerState, s.dispatched a = none) →
    legs c s as = []
  | [], _, _ => rfl
  | a :: as, s, hidle => by
    have hnone : s.legsOf a = [] := by
      rw [legsOf_eq, hidle a List.mem_cons_self s]
      rfl
    show s.legsOf a ++ legs c (s.step c a) as = []
    rw [hnone, List.nil_append, legs_of_idle fun b hb => hidle b (List.mem_cons_of_mem a hb)]

/-- `x` brings no quantity for a buy of a slot that `y` brings one for a sell of. -/
def Apart (s : OrderManagerState) (x y : Command) : Prop :=
  ∀ i, s.legSide x = some (i, false) → s.legSide y ≠ some (i, true)

instance (s : OrderManagerState) : DecidableRel s.Apart := fun x y =>
  inferInstanceAs (Decidable (∀ i, s.legSide x = some (i, false) → s.legSide y ≠ some (i, true)))

/-- If no entry comes before an exit of its slot, no entry leg does. -/
theorem legs_apart {as : List Act} (hpumps : ∀ a ∈ as, a.pumps = true)
    (hfew : s.nextOrderId + (fills c s as).length ≤ orderIdCounterSize) (htaken : RemaindersTaken c s as)
    (hknown : ∀ cmd ∈ fills c s as, s.knownId cmd.orderId) (hapart : (fills c s as).Pairwise s.Apart) :
    (legs c s as).Pairwise fun x y => x.slot = y.slot → y.isSell = true → x.isSell = true := by
  have hsides : ((fills c s as).filterMap s.legSide).Pairwise fun x y => x.1 = y.1 → y.2 = true → x.2 = true := by
    refine List.pairwise_filterMap.2 (hapart.imp fun {x y} hxy => ?_)
    rintro ⟨i, b⟩ hx ⟨j, b'⟩ hy rfl rfl
    rcases b with _ | _
    · exact absurd hy (hxy i hx)
    · rfl
  exact List.pairwise_map.1 (hsides.sublist (legs_sublist as hpumps (.start hfew) htaken hknown))

/-- What `OrderManager_Tick` does after its queues are empty, and the composer after it. -/
def tickEnd : List Act := [.staleSweep, .fillRingsApply]

/-- The phases of the buckets, and the composer after them. -/
def bucketPhases (b : OmsDrainBuckets) : List Act :=
  (b.closes ++ b.opens).map .processFill ++ b.reconciles.map .processReconcile ++ [.fillRingsApply]

theorem remaindersTaken_paper (hpaper : c.liveTrading = false) : ∀ (as : List Act) {s : OrderManagerState},
    RemaindersTaken c s as
  | [], _ => trivial
  | _ :: as, _ =>
    ⟨fun _ _ hlive => absurd (hpaper.symm.trans hlive) Bool.false_ne_true, remaindersTaken_paper hpaper as⟩

/-- Commands processed one after another, without their queues. -/
theorem fills_processFill (c : OmsConfig) : ∀ (batch : List Command) (s : OrderManagerState),
    fills c s (batch.map .processFill) = batch
  | [], _ => rfl
  | cmd :: batch, s => congrArg (cmd :: ·) (fills_processFill c batch (s.step c (.processFill cmd)))

/-- Paper trading with a composer. -/
def sampleComposed : OmsConfig := { samplePaper with aggWired := true }

/-- An entry into slot 0 and an exit of `sold`, one after the other. -/
def sampleSubmits (setup : List Act) (sold : SlotIdx) : List Act :=
  setup ++ [.submit (sampleTrade firstIdx .marketBuy 3), .submit (sampleTrade sold .marketSell 3)]

/-- Their results wait. -/
def sampleWaiting (setup : List Act) (sold : SlotIdx) : OrderManagerState :=
  run (step sampleComposed) (init (Money.fromInt 1000).val none) (sampleSubmits setup sold)

/-- Turns enough to drain them. -/
def sampleTurns : List DrainAct := List.replicate 21 .turn

/-- The batch they are. -/
def samplePopped (setup : List Act) (sold : SlotIdx) : List Command :=
  drainedFills (outputs DrainState.step DrainState.events (.start (sampleWaiting setup sold)) sampleTurns)

/-- The second slot is held. -/
def sampleSetup : List Act := [.submit (sampleTrade nextIdx .marketBuy 3), .popResult]

end OrderManagerState

end FoxTrader
