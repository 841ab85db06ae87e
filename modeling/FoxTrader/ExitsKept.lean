import FoxTrader.ExitsInFlight
import FoxTrader.OrderLegs
import FoxTrader.OrderRemainder

/-! # Exits that are not lost

    A sell under way stays under way until it has sold what its slot holds, if the submission it
    waits for is accepted and the results it meets neither fail it nor end it short of the slot's
    quantity with a remainder that is refused. With no buy under way the slot is not opened again
    behind it. -/

namespace FoxTrader

open Lib Function

namespace OrderManagerState

variable {c : OmsConfig} {s : OrderManagerState} {p : SlotIdx}

/-! ### Buys under way -/

/-- A buy of slot `p` waits to be submitted or stands in the table. -/
def entering (s : OrderManagerState) (p : SlotIdx) : Bool :=
  (s.submitQueues p).items.any (fun cmd => !cmd.orderType.isSell) ||
    (List.finRange 16).any fun i => s.orderBitmap i && !(s.orders i).type.isSell && (s.orders i).portfolioSlot = p

theorem entering_iff : s.entering p = true ↔
    (∃ cmd ∈ (s.submitQueues p).items, cmd.orderType.isSell = false) ∨
      ∃ i, s.orderBitmap i = true ∧ (s.orders i).type.isSell = false ∧ (s.orders i).portfolioSlot = p := by
  simp [entering, and_assoc]

/-- A turn of the order manager's own begins no buy. -/
theorem entering_act {a : Act} (hown : a.isOwn = true) (hhome : Homed s)
    (hafter : (s.act c a).val.entering p = true) :
    s.entering p = true := by
  rw [entering_iff] at hafter ⊢
  rcases hafter with ⟨cmd, hmem, hbuy⟩ | ⟨i, hocc, hbuy, hslot⟩
  · left
    rcases act_submitQueues c s hown with hsame | ⟨k, -, hpop⟩
    · exact ⟨cmd, hsame ▸ hmem, hbuy⟩
    · rw [hpop] at hmem
      rcases eq_or_ne p k with rfl | hne
      · rw [update_self] at hmem
        exact ⟨cmd, Fifo.mem_of_mem_tryPop hmem, hbuy⟩
      · rw [update_of_ne hne] at hmem
        exact ⟨cmd, hmem, hbuy⟩
  · rcases act_lives c s hocc with ⟨hheld, hsame, -, -⟩ | ⟨_, hheld, -, hsame, -, -, -⟩ | ⟨cmd, hcmd, -, hfresh, -⟩ |
      ⟨_, _, _, -, -, -, -, -, hfresh, -⟩
    · exact .inr ⟨i, hheld, hsame.type ▸ hbuy, hsame.portfolioSlot ▸ hslot⟩
    · exact .inr ⟨i, hheld, hsame.type ▸ hbuy, hsame.portfolioSlot ▸ hslot⟩
    · left
      obtain ⟨k, rfl, hpop⟩ := submitting_of_isOwn hown hcmd
      have hmem : cmd ∈ (s.submitQueues k).items := Fifo.tryPop_some hpop ▸ List.mem_cons_self
      obtain rfl : k = p := (hhome k cmd hmem).symm.trans (hfresh.portfolioSlot.symm.trans hslot)
      exact ⟨cmd, hmem, hfresh.type ▸ hbuy⟩
    · -- a remainder is sold
      rw [hfresh.type] at hbuy
      exact absurd hbuy Bool.false_ne_true.symm

/-- A slot no buy is under way for is not opened. -/
theorem active_of_act {a : Act} (hsize : ∀ cmd j, s.executed a = some (cmd, j) → Sizable cmd.result)
    (hst : s.books.portfolio.Stocked) (hbuy : s.entering p = false)
    (hactive : (s.act c a).val.books.portfolio.active p = true) : s.books.portfolio.active p = true := by
  rcases hexec : s.executed a with _ | ⟨cmd, j⟩
  · rw [← (held_of_idle (c := c) hexec p).active]
    exact hactive
  · have hheld := (stocked_act (c := c) hsize hst).active_iff.1 hactive
    rcases moves_of_executed (c := c) hexec (hsize cmd j hexec) hst p with ⟨hsame, -, -⟩ | ⟨hslot, hbuys, -, -⟩ |
      ⟨-, -, hsold⟩
    · exact hsame.symm.trans hactive
    · refine absurd (entering_iff.2 (.inr ⟨j, occupied_of_executed hexec, hbuys, hslot.symm⟩)) ?_
      rw [hbuy]
      exact Bool.false_ne_true
    · refine hst.active_iff.2 ?_
      have hnonneg := (hsize cmd j hexec).1
      rw [hsold] at hheld
      split at hheld <;> omega

/-! ### Pushes -/

theorem submitQueues_pushSubmit_of_ne {cmd : SubmitCommand} (hne : p ≠ cmd.portfolioSlot) :
    (s.pushSubmit cmd).submitQueues p = s.submitQueues p := update_of_ne hne ..

/-- A push is nothing to the other slots. -/
theorem entering_pushSubmit_of_ne {cmd : SubmitCommand} (hne : p ≠ cmd.portfolioSlot) :
    (s.pushSubmit cmd).entering p = s.entering p := by
  rw [entering, submitQueues_pushSubmit_of_ne hne]
  rfl

theorem exitUnderWay_pushSubmit_of_ne {cmd : SubmitCommand} (hne : p ≠ cmd.portfolioSlot) :
    (s.pushSubmit cmd).exitUnderWay p = s.exitUnderWay p := by
  rw [exitUnderWay, queuedExits, submitQueues_pushSubmit_of_ne hne]
  rfl

/-- A sell that goes in begins no buy and is under way. -/
theorem entering_pushSubmit_of_sell {cmd : SubmitCommand} (hsell : cmd.orderType.isSell = true)
    (hbuy : s.entering p = false) : (s.pushSubmit cmd).entering p = false := by
  rcases eq_or_ne p cmd.portfolioSlot with rfl | hne
  · by_contra hafter
    rw [Bool.not_eq_false, entering_iff] at hafter
    rcases hafter with ⟨cmd', hmem, hbuys⟩ | hlive
    · simp only [OrderManagerState.pushSubmit, update_self] at hmem
      rcases Fifo.mem_tryPush hmem with hold | rfl
      · exact Bool.false_ne_true (hbuy.symm.trans (entering_iff.2 (.inl ⟨cmd', hold, hbuys⟩)))
      · exact Bool.false_ne_true (hbuys.symm.trans hsell)
    · exact Bool.false_ne_true (hbuy.symm.trans (entering_iff.2 (.inr hlive)))
  · rw [entering_pushSubmit_of_ne hne]
    exact hbuy

theorem mem_queuedExits_pushSubmit {cmd : SubmitCommand} (hsell : cmd.orderType.isSell = true)
    (hroom : (s.submitQueues cmd.portfolioSlot).isFull = false) :
    cmd ∈ (s.pushSubmit cmd).queuedExits cmd.portfolioSlot := by
  simp only [queuedExits, OrderManagerState.pushSubmit, update_self, Fifo.tryPush_items, hroom,
    Bool.false_eq_true, if_false,
    List.mem_filter, List.mem_append, List.mem_singleton, or_true, true_and]
  exact hsell

/-! ### A submission that is accepted -/

/-- Whether a submission finds a table slot and, live, the adapter takes it. -/
def accepts (c : OmsConfig) (s : OrderManagerState) (cmd : SubmitCommand) : Bool :=
  (freeSlot s.orderBitmap).any fun i => !c.liveTrading || adapterTakes c cmd.orderType (s.nextId c cmd i) cmd.qty

theorem submit_of_accepts {cmd : SubmitCommand} (h : s.accepts c cmd = true) :
    ∃ i, (s.submit c cmd).val.1.orderBitmap i = true ∧ ((s.submit c cmd).val.1.orders i).type = cmd.orderType ∧
      ((s.submit c cmd).val.1.orders i).portfolioSlot = cmd.portfolioSlot := by
  obtain ⟨i, hfree, htakes⟩ := (Option.any_eq_true ..).1 h
  have hplaced : (s.place c cmd i).orderBitmap i = true ∧ ((s.place c cmd i).orders i).type = cmd.orderType ∧
      ((s.place c cmd i).orders i).portfolioSlot = cmd.portfolioSlot := by
    simp only [place, update_self]
    exact ⟨trivial, rfl, rfl⟩
  have hout := submit_outcome c s cmd
  generalize s.submit c cmd = m at hout ⊢
  rcases hout with hfull | ⟨k, hfree', -⟩ | ⟨k, hfree', -, -⟩ | ⟨k, hfree', hlive, hrefused⟩
  · exact absurd (hfree.symm.trans hfull) (Option.some_ne_none i)
  · obtain rfl := Option.some_inj.1 (hfree.symm.trans hfree')
    exact ⟨i, hplaced⟩
  · obtain rfl := Option.some_inj.1 (hfree.symm.trans hfree')
    exact ⟨i, hplaced⟩
  · obtain rfl := Option.some_inj.1 (hfree.symm.trans hfree')
    rw [hlive, hrefused] at htakes
    exact absurd htakes Bool.false_ne_true

/-- A popped sell that is accepted stands in the table. -/
theorem liveExits_popSubmit {cmd : SubmitCommand} (hhome : Homed s) (hpop : (s.submitQueues p).tryPop.1 = some cmd)
    (hsell : cmd.orderType.isSell = true) (h : s.accepts c cmd = true) :
    ∃ i, i ∈ (s.act c (.popSubmit p)).val.liveExits p := by
  have hslot : cmd.portfolioSlot = p := hhome p cmd (Fifo.tryPop_some hpop ▸ List.mem_cons_self)
  rcases hq : (s.submitQueues p).tryPop with ⟨front, q⟩
  obtain rfl : front = some cmd := by rw [← hpop, hq]
  obtain ⟨i, hocc, htype, hport⟩ :=
    submit_of_accepts (c := c) (s := { s with submitQueues := update s.submitQueues p q }) h
  refine ⟨i, ?_⟩
  simp only [act, hq]
  exact mem_liveExits.2 ⟨hocc, (congrArg OrderType.isSell htype).trans hsell, hport.trans hslot⟩

/-! ### Results that do not lose an exit -/

/-- The result leaves the sell in `j` working, or leaves nothing to sell, or its remainder is taken. -/
structure KeepsExit (c : OmsConfig) (s : OrderManagerState) (cmd : Command) (j : OrderSlot) : Prop where
  success : cmd.result.success = true
  complete : s.executing cmd = some j → cmd.result.orderComplete = true → (s.remainder j cmd.result).isZero = true
  short : s.executing cmd = some j → cmd.result.orderComplete = false → cmd.result.venueTerminal = true →
    (s.remainder j cmd.result).isZero = true ∨
      (s.orders j).type = .marketSell ∧ takesRemainder c s j cmd.result = true

instance (cmd : Command) (j : OrderSlot) : Decidable (KeepsExit c s cmd j) :=
  decidable_of_iff (cmd.result.success = true ∧
      (s.executing cmd = some j → cmd.result.orderComplete = true → (s.remainder j cmd.result).isZero = true) ∧
      (s.executing cmd = some j → cmd.result.orderComplete = false → cmd.result.venueTerminal = true →
        (s.remainder j cmd.result).isZero = true ∨
          (s.orders j).type = .marketSell ∧ takesRemainder c s j cmd.result = true))
    ⟨fun h => ⟨h.1, h.2.1, h.2.2⟩, fun h => ⟨h.success, h.complete, h.short⟩⟩

/-- A success that executes nothing leaves its order where it is. -/
theorem stays_of_unexecuted {cmd : Command} {j : OrderSlot} (hocc : s.occupant cmd.orderId = some j)
    (hexec : s.executing cmd = none) (hsuccess : cmd.result.success = true) :
    (s.processFillCommand c cmd).val.1.orderBitmap j = true ∧
      SameOrder (s.orders j) ((s.processFillCommand c cmd).val.1.orders j) := by
  have hheld := (occupant_eq_some.1 hocc).2.1
  have hout := processFillCommand_outcome c s cmd
  generalize s.processFillCommand c cmd = m at hout ⊢
  rcases hout with _ | ⟨k, hk, -⟩ | ⟨k, hk, -⟩ | ⟨k, -, hbooks, -⟩ | ⟨k, -, hbooks, -, -⟩ | ⟨k, -, -, hfail⟩
  · exact ⟨hheld, .refl _⟩
  · obtain rfl := Option.some_inj.1 (hocc.symm.trans hk)
    refine ⟨hheld, ?_⟩
    simp only [Flagged.pure_val, setOrder, update_self, acknowledge]
    split <;> exact ⟨rfl, rfl, rfl, rfl⟩
  · obtain rfl := Option.some_inj.1 (hocc.symm.trans hk)
    refine ⟨hheld, ?_⟩
    simp only [Flagged.pure_val, setOrder, update_self]
    exact ⟨rfl, rfl, rfl, rfl⟩
  · exact absurd (hbooks.symm.trans hexec) (Option.some_ne_none k)
  · exact absurd (hbooks.symm.trans hexec) (Option.some_ne_none k)
  · exact absurd (hfail.symm.trans hsuccess) Bool.false_ne_true

/-- A leg of a sell that goes on leaves it in the table. -/
theorem liveExit_of_leg {cmd : Command} {j : OrderSlot} (hexec : s.executing cmd = some j)
    (hcomplete : cmd.result.orderComplete = false) (hterminal : cmd.result.venueTerminal = false)
    (hsell : (s.orders j).type.isSell = true) :
    j ∈ (s.processFillCommand c cmd).val.1.liveExits (s.orders j).portfolioSlot := by
  have hheld := (occupant_eq_some.1 (goes_on (c := c) hexec hcomplete hterminal).1).2.1
  have hsame : SameOrder (s.orders j) ((s.processFillCommand c cmd).val.1.orders j) := by
    rcases processFillCommand_lives none hheld with ⟨-, hsame, -, -⟩ | ⟨_, -, -, hsame, -, -, -⟩ |
      ⟨_, hnone, -, -, -⟩ |
      ⟨cmd', _, _, hexec', hterminal', -, -, -, -, -⟩
    · exact hsame
    · exact hsame
    · exact absurd hnone.symm (Option.some_ne_none _)
    · rw [hexec, Option.map_some, Option.some_inj, Prod.mk.injEq] at hexec'
      rw [← hexec'.1] at hterminal'
      exact absurd (hterminal.symm.trans hterminal') Bool.false_ne_true
  exact mem_liveExits.2 ⟨hheld, (congrArg OrderType.isSell hsame.type).trans hsell, hsame.portfolioSlot⟩

/-- A remainder that is taken stands in the table. -/
theorem liveExit_of_takesRemainder {cmd : Command} {j : OrderSlot} (hexec : s.executing cmd = some j)
    (hterminal : cmd.result.venueTerminal = true) (hshort : cmd.result.orderComplete = false)
    (hmarket : (s.orders j).type = .marketSell) (hrest : (s.remainder j cmd.result).isZero = false)
    (htakes : takesRemainder c s j cmd.result = true) :
    ∃ i, i ∈ (s.processFillCommand c cmd).val.1.liveExits (s.orders j).portfolioSlot := by
  rw [processFillCommand_endedShort hexec hterminal hshort]
  have hleft := leftover_bookExecution (c := c) (r := cmd.result) (s := s) (i := j) (by rw [hmarket]; rfl)
  have horder : (s.bookExecution c j (s.priced j cmd.result) cmd.result).val.orders j =
      (legOrder (s.priced j cmd.result) cmd.result).val := update_self ..
  have hcancel : Cancelled s ((s.bookExecution c j (s.priced j cmd.result) cmd.result).val.cancel c j) j :=
    ⟨rfl, fun k hne => (update_of_ne hne ..).trans (update_of_ne hne ..), rfl, rfl⟩
  generalize (s.bookExecution c j (s.priced j cmd.result) cmd.result).val = t at hleft horder hcancel ⊢
  have htype : (t.orders j).type = .marketSell := ((congrArg Order.type horder).trans (legOrder_type _)).trans hmarket
  have hslot : (t.deadOrder j).portfolioSlot = (s.orders j).portfolioSlot := by
    rw [deadOrder, horder]
    rfl
  have hpre : (t.deadOrder j).preResolved = (s.orders j).preResolved := by
    rw [deadOrder, horder]
    rfl
  rw [endIncomplete, if_pos ⟨htype, by rw [hleft]; exact hrest⟩, hleft]
  obtain ⟨k, hfree, hadapter⟩ : ∃ k, freeSlot (t.cancel c j).orderBitmap = some k ∧
      (c.liveTrading = true → adapterTakes c .marketSell (s.remainderId c j k) (s.remainder j cmd.result) = true) := by
    rw [hcancel.bitmap]
    rcases hfree : freeSlot (update s.orderBitmap j false) with _ | k
    · have hfull := freeSlot_none hfree j
      rw [update_self] at hfull
      exact absurd hfull Bool.false_ne_true
    · refine ⟨k, rfl, fun hlive => ?_⟩
      rwa [takesRemainder, hfree, hlive, Bool.not_true, Bool.false_or, Option.any_some] at htakes
  have hid := nextId_resubmission (c := c) (k := k) hcancel (s.remainder j cmd.result) hslot
  rw [← hid] at hadapter
  obtain ⟨hbitmap, horders⟩ := resubmit_taken hfree hadapter
  have hrest : IsRemainder c s j (s.remainder j cmd.result) k
      (((t.cancel c j).resubmit c (t.deadOrder j) (s.remainder j cmd.result)).val.orders k) := by
    rw [horders, update_self]
    exact isRemainder_resubmission hid hslot hpre
  refine ⟨k, mem_liveExits.2 ⟨freeIfTerminal_keeps (by rw [hbitmap, update_self]) ?_, ?_, ?_⟩⟩
  · rintro rfl
    rw [hrest.state]
    rfl
  · rw [freeIfTerminal_orders, hrest.type]
    rfl
  · rw [freeIfTerminal_orders, hrest.portfolioSlot]

/-- What the slot of the sell in `j` holds once a turn has executed on it. -/
theorem held_of_executed {a : Act} {cmd : Command} {j : OrderSlot} (hexec : s.executed a = some (cmd, j))
    (hsell : (s.orders j).type.isSell = true) :
    (s.act c a).val.books.portfolio.held (s.orders j).portfolioSlot = s.remainder j cmd.result := by
  obtain ⟨us, hsame⟩ := act_portfolio c s a
  rw [(hsame _).held, hexec]
  exact remaining_bookLeg (b := s.books) (o := (legOrder (s.priced j cmd.result) cmd.result).val) hsell

/-- A result that keeps the exit in `j` leaves a sell of its slot in the table, or nothing to sell. -/
theorem exit_kept {a : Act} {cmd : Command} {j : OrderSlot} (hdisp : s.dispatched a = some cmd)
    (hocc : s.occupant cmd.orderId = some j) (hsell : (s.orders j).type.isSell = true)
    (hkeeps : KeepsExit c s cmd j) :
    (∃ i, i ∈ (s.act c a).val.liveExits (s.orders j).portfolioSlot) ∨
      (s.act c a).val.books.portfolio.held (s.orders j).portfolioSlot = .zero := by
  rcases hexec : s.executing cmd with _ | k
  · left
    refine ⟨j, ?_⟩
    obtain ⟨rings, ws, reconcile, submits, us, hact⟩ := act_of_dispatched (c := c) hdisp
    obtain ⟨hheld, hsame⟩ :=
      stays_of_unexecuted (c := c) (s := s.requeue rings ws reconcile submits us) hocc hexec hkeeps.success
    rw [hact]
    exact mem_liveExits.2 ⟨hheld, (congrArg OrderType.isSell hsame.type).trans hsell, hsame.portfolioSlot⟩
  · obtain rfl : k = j := Option.some_inj.1 ((occupant_of_executing hexec).symm.trans hocc)
    have hexecuted : s.executed a = some (cmd, k) := executed_eq_some.2 ⟨hdisp, hexec⟩
    have hheld := held_of_executed (c := c) hexecuted hsell
    have hflat : (s.remainder k cmd.result).isZero = true →
        (s.act c a).val.books.portfolio.held (s.orders k).portfolioSlot = .zero :=
      fun hzero => hheld.trans (Money.isZero_iff.1 hzero)
    obtain ⟨rings, ws, reconcile, submits, us, hact⟩ := act_of_dispatched (c := c) hdisp
    rcases hcomplete : cmd.result.orderComplete with _ | _
    · rcases hterminal : cmd.result.venueTerminal with _ | _
      · left
        rw [hact]
        exact ⟨k, liveExit_of_leg (s := s.requeue rings ws reconcile submits us) hexec hcomplete hterminal hsell⟩
      · rcases hzero : (s.remainder k cmd.result).isZero with _ | _
        · rcases hkeeps.short hexec hcomplete hterminal with hflat' | ⟨hmarket, htakes⟩
          · exact absurd (hzero.symm.trans hflat') Bool.false_ne_true
          · left
            rw [hact]
            exact liveExit_of_takesRemainder (s := s.requeue rings ws reconcile submits us) hexec hterminal hcomplete hmarket
              hzero htakes
        · exact .inr (hflat hzero)
    · exact .inr (hflat (hkeeps.complete hexec hcomplete))

/-! ### The last exit of a slot -/

/-- Whether a turn pops the submit queue of slot `p`. -/
def Act.pops (p : SlotIdx) : Act → Bool
  | .popSubmit k => k = p
  | _ => false

theorem Act.eq_of_pops {a : Act} (h : a.pops p = true) : a = .popSubmit p := by
  cases a with
  | popSubmit k => exact congrArg Act.popSubmit (of_decide_eq_true h)
  | _ => exact absurd h Bool.false_ne_true

/-- If one sell of slot `p` is under way, the turn does not lose it: popped, it is accepted, and the
    result it meets keeps it. -/
def SparesLastExit (c : OmsConfig) (s : OrderManagerState) (a : Act) (p : SlotIdx) : Prop :=
  (s.queuedExits p).length + (s.liveExits p).length = 1 →
    (a.pops p = true → ∀ cmd ∈ s.queuedExits p, s.accepts c cmd = true) ∧
      ∀ cmd ∈ s.dispatched a, ∀ j ∈ s.liveExits p, s.occupant cmd.orderId = some j → KeepsExit c s cmd j

instance (a : Act) : Decidable (SparesLastExit c s a p) := inferInstanceAs (Decidable (_ → _))

theorem exitUnderWay_of_live {i : OrderSlot} (h : i ∈ s.liveExits p) : s.exitUnderWay p = true := by
  rw [exitUnderWay, Bool.or_eq_true, Bool.not_eq_true', Bool.not_eq_true', List.isEmpty_eq_false_iff_exists_mem,
    List.isEmpty_eq_false_iff_exists_mem]
  exact .inr ⟨i, h⟩

theorem exitUnderWay_of_queued {cmd : SubmitCommand} (h : cmd ∈ s.queuedExits p) : s.exitUnderWay p = true := by
  rw [exitUnderWay, Bool.or_eq_true, Bool.not_eq_true', Bool.not_eq_true', List.isEmpty_eq_false_iff_exists_mem,
    List.isEmpty_eq_false_iff_exists_mem]
  exact .inl ⟨cmd, h⟩

/-- A sell in the table stays there, unless the turn hands its order a result. -/
theorem liveExits_of_other {a : Act} {i : OrderSlot} (hi : i ∈ s.liveExits p)
    (hother : ∀ cmd, s.dispatched a = some cmd → s.occupant cmd.orderId ≠ some i) :
    i ∈ (s.act c a).val.liveExits p := by
  obtain ⟨hocc, hsell, hslot⟩ := mem_liveExits.1 hi
  obtain ⟨hocc', hkept⟩ := stays_act (c := c) hocc hother
  exact mem_liveExits.2 ⟨hocc', (congrArg OrderType.isSell hkept.type).trans hsell, hkept.portfolioSlot.trans hslot⟩

/-- A sell that waits keeps waiting, unless the turn pops it. -/
theorem queuedExits_of_not_pops {a : Act} (hown : a.isOwn = true) (hpops : a.pops p = false) :
    (s.act c a).val.queuedExits p = s.queuedExits p := by
  rcases act_submitQueues c s hown with hsame | ⟨k, rfl, hpop⟩
  · rw [queuedExits, hsame]
    rfl
  · have hne : p ≠ k := fun heq => of_decide_eq_false hpops heq.symm
    rw [queuedExits, hpop, update_of_ne hne]
    rfl

/-- A popped queue loses its front, which joins the table if it is a sell and accepted. -/
theorem exitUnderWay_popSubmit (hhome : Homed s) (h : s.queuedExits p ≠ [])
    (hspares : SparesLastExit c s (.popSubmit p) p)
    (hlive : s.liveExits p = []) : (s.act c (.popSubmit p)).val.exitUnderWay p = true := by
  rcases hpop : (s.submitQueues p).tryPop.1 with _ | cmd
  · exact absurd (by rw [queuedExits, Fifo.tryPop_eq_none.1 hpop]; rfl) h
  rcases hsell : cmd.orderType.isSell with _ | _
  · have hsame : (s.act c (.popSubmit p)).val.queuedExits p = s.queuedExits p := by
      simp only [queuedExits, popSubmit_submitQueues, update_self, Fifo.tryPop_some hpop, List.filter_cons, hsell,
        Bool.false_eq_true, if_false]
    obtain ⟨cmd', hmem⟩ := List.exists_mem_of_ne_nil _ h
    exact exitUnderWay_of_queued (hsame ▸ hmem)
  · have hqueue := queuedExits_popSubmit (c := c) hpop hsell
    rcases hrest : (s.act c (.popSubmit p)).val.queuedExits p with _ | ⟨cmd', rest⟩
    · rw [hrest] at hqueue
      have hlast : (s.queuedExits p).length + (s.liveExits p).length = 1 := by rw [hqueue, hlive]; rfl
      have haccepts := (hspares hlast).1 (decide_eq_true rfl) cmd (hqueue ▸ List.mem_cons_self)
      obtain ⟨i, hi⟩ := liveExits_popSubmit hhome hpop hsell haccepts
      exact exitUnderWay_of_live hi
    · exact exitUnderWay_of_queued (hrest ▸ List.mem_cons_self)

/-- A turn that spares the last exit leaves one under way, or the slot is flat. -/
theorem exitUnderWay_act {a : Act} (hown : a.isOwn = true) (hhome : Homed s) (h : s.exitUnderWay p = true)
    (hspares : SparesLastExit c s a p) :
    (s.act c a).val.exitUnderWay p = true ∨ (s.act c a).val.books.portfolio.held p = .zero := by
  by_cases hother : ∃ i ∈ s.liveExits p, ∀ cmd, s.dispatched a = some cmd → s.occupant cmd.orderId ≠ some i
  · obtain ⟨i, hi, hother⟩ := hother
    exact .inl (exitUnderWay_of_live (liveExits_of_other hi hother))
  -- every sell in the table is the one the turn hands a result to
  have hnamed : ∀ i ∈ s.liveExits p, ∃ cmd, s.dispatched a = some cmd ∧ s.occupant cmd.orderId = some i := by
    intro i hi
    by_contra hnone
    exact hother ⟨i, hi, fun cmd hdisp hocc => hnone ⟨cmd, hdisp, hocc⟩⟩
  by_cases hqueue : s.queuedExits p = []
  · have hlive : s.liveExits p ≠ [] := by
      intro hnil
      rw [exitUnderWay_eq_false.2 ⟨hqueue, hnil⟩] at h
      exact Bool.false_ne_true h
    obtain ⟨j, hj⟩ := List.exists_mem_of_ne_nil _ hlive
    obtain ⟨cmd, hdisp, hocc⟩ := hnamed j hj
    have hone : (s.liveExits p).length ≤ 1 := by
      refine liveExits_length_le fun i hi k hk => ?_
      obtain ⟨cmd₁, hdisp₁, hocc₁⟩ := hnamed i hi
      obtain ⟨cmd₂, hdisp₂, hocc₂⟩ := hnamed k hk
      obtain rfl := Option.some_inj.1 (hdisp₁.symm.trans hdisp₂)
      exact Option.some_inj.1 (hocc₁.symm.trans hocc₂)
    have hlast : (s.queuedExits p).length + (s.liveExits p).length = 1 := by
      have hpos := List.length_pos_of_mem hj
      rw [hqueue, List.length_nil]
      omega
    obtain ⟨-, hsell, hslot⟩ := mem_liveExits.1 hj
    have hkept := exit_kept (c := c) hdisp hocc hsell ((hspares hlast).2 cmd hdisp j hj hocc)
    rw [hslot] at hkept
    exact hkept.imp (fun ⟨_, hi⟩ => exitUnderWay_of_live hi) id
  · left
    rcases hpops : a.pops p with _ | _
    · obtain ⟨cmd, hmem⟩ := List.exists_mem_of_ne_nil _ hqueue
      exact exitUnderWay_of_queued (queuedExits_of_not_pops (c := c) (s := s) hown hpops ▸ hmem)
    · obtain rfl := Act.eq_of_pops hpops
      have hnone : s.liveExits p = [] := by
        refine List.eq_nil_iff_forall_not_mem.2 fun i hi => ?_
        obtain ⟨_, hdisp, -⟩ := hnamed i hi
        exact Option.some_ne_none _ hdisp.symm
      exact exitUnderWay_popSubmit hhome hqueue hspares hnone

end OrderManagerState

end FoxTrader
