import FoxTrader.OrderRemainder
import FoxTrader.OrderTable

/-! # How an order came to be where it is

    An order found in the table after a turn was there before it, untouched or one leg further; or it
    was just submitted, from the queue or for the remainder of an exit the venue ended short. `Lived`
    is this case distinction, read backwards from the order; whoever follows orders through a run
    cases on it and never looks into a turn again. New orders carry new ids as long as the counter
    has not wrapped, so an id that is out of the table stays out. -/

namespace FoxTrader.OrderManagerState

open Lib Function

variable {c : OmsConfig} {s : OrderManagerState}

/-- The same order, however far it has come. -/
structure SameOrder (o o' : Order) : Prop where
  id : o'.id = o.id
  type : o'.type = o.type
  portfolioSlot : o'.portfolioSlot = o.portfolioSlot
  requestedQty : o'.requestedQty = o.requestedQty

theorem SameOrder.refl (o : Order) : SameOrder o o := ⟨rfl, rfl, rfl, rfl⟩

/-- `o` is what `Submit` makes of `cmd` in the slot `i`. -/
structure Fresh (c : OmsConfig) (s : OrderManagerState) (cmd : SubmitCommand) (i : OrderSlot) (o : Order) : Prop where
  id : o.id = s.nextId c cmd i
  type : o.type = cmd.orderType
  portfolioSlot : o.portfolioSlot = cmd.portfolioSlot
  requestedQty : o.requestedQty = cmd.qty
  filledQty : o.filledQty = .zero

theorem Fresh.congr {s' : OrderManagerState} {cmd : SubmitCommand} {i : OrderSlot} {o o' : Order}
    (h : Fresh c s cmd i o) (hnext : s'.nextOrderId = s.nextOrderId) (hid : o'.id = o.id) (htype : o'.type = o.type)
    (hslot : o'.portfolioSlot = o.portfolioSlot) (hreq : o'.requestedQty = o.requestedQty)
    (hqty : o'.filledQty = o.filledQty) : Fresh c s' cmd i o' :=
  ⟨hid.trans (h.id.trans (by rw [nextId, nextId, hnext])), htype.trans h.type, hslot.trans h.portfolioSlot,
    hreq.trans h.requestedQty, hqty.trans h.filledQty⟩

/-- The order `o` of slot `i` in the state `after` of a turn that books what `exec` says and submits
    `sub`. -/
inductive Lived (c : OmsConfig) (s : OrderManagerState) (exec : Option (Command × OrderSlot))
    (sub : Option SubmitCommand) (after : OrderManagerState) (i : OrderSlot) (o : Order) : Prop
  | kept (hheld : s.orderBitmap i = true) (hsame : SameOrder (s.orders i) o)
      (hqty : o.filledQty = (s.orders i).filledQty) (hidle : ∀ cmd, exec ≠ some (cmd, i))
  | leg (cmd : Command) (hheld : s.orderBitmap i = true) (hexec : exec = some (cmd, i))
      (hsame : SameOrder (s.orders i) o) (hqty : o.filledQty = (legOrder (s.orders i) cmd.result).val.filledQty)
      (hcomplete : cmd.result.orderComplete = false) (hterminal : cmd.result.venueTerminal = false)
  | submitted (cmd : SubmitCommand) (hcmd : sub = some cmd) (hfree : freeSlot s.orderBitmap = some i)
      (hfresh : Fresh c s cmd i o) (hissued : o.id ∈ after.issued)
  | resubmitted (cmd : Command) (j : OrderSlot) (dead : Order) (hexec : exec = some (cmd, j))
      (hterminal : cmd.result.venueTerminal = true) (hsell : (s.orders j).type = .marketSell)
        (hfree : freeSlot (update s.orderBitmap j false) = some i)
      (hdead : dead.portfolioSlot = (s.orders j).portfolioSlot)
      (hfresh : Fresh c s (resubmission dead (remaining after.books (s.orders j).portfolioSlot)) i o)
      (hissued : o.id ∈ after.issued)

/-! ### Submit -/

/-- An order after `Submit` was there before or is the one submitted. -/
theorem submit_lives {cmd : SubmitCommand} {i : OrderSlot} (hocc : (s.submit c cmd).val.1.orderBitmap i = true) :
    (s.orderBitmap i = true ∧ (s.submit c cmd).val.1.orders i = s.orders i) ∨
      (freeSlot s.orderBitmap = some i ∧ Fresh c s cmd i ((s.submit c cmd).val.1.orders i) ∧
        ((s.submit c cmd).val.1.orders i).id ∈ (s.submit c cmd).val.1.issued) := by
  have hplace : ∀ k, freeSlot s.orderBitmap = some k → (s.place c cmd k).orderBitmap i = true →
      (s.orderBitmap i = true ∧ (s.place c cmd k).orders i = s.orders i) ∨
        (freeSlot s.orderBitmap = some i ∧ Fresh c s cmd i ((s.place c cmd k).orders i) ∧
          ((s.place c cmd k).orders i).id ∈ (s.place c cmd k).issued) := by
    intro k hfree hheld
    rcases eq_or_ne i k with rfl | hne
    · right
      refine ⟨hfree, ?_⟩
      simp only [place, update_self]
      exact ⟨⟨rfl, rfl, rfl, rfl, rfl⟩, List.mem_cons_self⟩
    · left
      simp only [place, update_of_ne hne] at hheld ⊢
      exact ⟨hheld, trivial⟩
  have hout := submit_outcome c s cmd
  generalize s.submit c cmd = m at hout hocc ⊢
  rcases hout with hfull | ⟨k, hfree, -⟩ | ⟨k, hfree, -, -⟩ | ⟨k, hfree, -, -⟩
  · exact .inl ⟨hocc, rfl⟩
  · exact hplace k hfree hocc
  · exact hplace k hfree hocc
  · -- the refused order is out again
    obtain ⟨hne, hheld⟩ := of_update_false hocc
    rcases hplace k hfree hheld with h | ⟨hfree', -⟩
    · refine .inl ⟨h.1, ?_⟩
      simp only [Flagged.pure_val, refuseSubmit, update_of_ne hne]
      exact h.2
    · exact absurd (Option.some_inj.1 (hfree'.symm.trans hfree)) hne

/-- The remainder's order takes over the dead one's binding, which says nothing about what it is. -/
theorem resubmit_lives {dead : Order} {rest : Money} {i : OrderSlot}
    (hocc : (s.resubmit c dead rest).val.orderBitmap i = true) :
    (s.orderBitmap i = true ∧ SameOrder (s.orders i) ((s.resubmit c dead rest).val.orders i) ∧
        ((s.resubmit c dead rest).val.orders i).filledQty = (s.orders i).filledQty) ∨
      (freeSlot s.orderBitmap = some i ∧
        Fresh c s (resubmission dead rest) i ((s.resubmit c dead rest).val.orders i) ∧
        ((s.resubmit c dead rest).val.orders i).id ∈ (s.resubmit c dead rest).val.issued) := by
  have hbind : ∃ pre, (s.resubmit c dead rest).val.orders i =
      { (s.submit c (resubmission dead rest)).val.1.orders i with preResolved := pre } := by
    simp only [resubmit, Flagged.bind_val, Flagged.pure_val, setOrder]
    rcases eq_or_ne i (orderIdSlot (s.submit c (resubmission dead rest)).val.2) with heq | hne
    · exact ⟨dead.preResolved, by rw [← heq, update_self]⟩
    · exact ⟨_, update_of_ne hne ..⟩
  obtain ⟨pre, hpre⟩ := hbind
  have hocc' : (s.submit c (resubmission dead rest)).val.1.orderBitmap i = true := hocc
  rw [hpre]
  rcases submit_lives hocc' with ⟨hheld, heq⟩ | ⟨hfree, hfresh, hissued⟩
  · rw [heq]
    exact .inl ⟨hheld, ⟨rfl, rfl, rfl, rfl⟩, rfl⟩
  · exact .inr ⟨hfree, hfresh.congr rfl rfl rfl rfl rfl rfl, hissued⟩

/-- The order that ends short leaves its slot; where it was, or in a lower one, is at most its remainder. -/
theorem endIncomplete_lives {i j : OrderSlot} (hocc : (s.endIncomplete c j).val.orderBitmap i = true) :
    (i ≠ j ∧ s.orderBitmap i = true ∧ SameOrder (s.orders i) ((s.endIncomplete c j).val.orders i) ∧
        ((s.endIncomplete c j).val.orders i).filledQty = (s.orders i).filledQty) ∨
      ((s.orders j).type = .marketSell ∧ freeSlot (update s.orderBitmap j false) = some i ∧
        Fresh c s (resubmission (s.deadOrder j) (remaining (s.endIncomplete c j).val.books (s.orders j).portfolioSlot)) i
          ((s.endIncomplete c j).val.orders i) ∧
        ((s.endIncomplete c j).val.orders i).id ∈ (s.endIncomplete c j).val.issued) := by
  have hrest : remaining (s.endIncomplete c j).val.books (s.orders j).portfolioSlot = s.leftover j := by
    rw [endIncomplete_books, remaining, Books.auditAppend_portfolio]
    rfl
  rw [hrest]
  have hother : i ≠ j → (s.cancel c j).orders i = s.orders i := fun hne => update_of_ne hne ..
  unfold endIncomplete at hocc ⊢
  split at hocc
  next hsell =>
    rw [if_pos hsell]
    rcases resubmit_lives hocc with ⟨hheld, hsame, hqty⟩ | ⟨hfree, hfresh, hissued⟩
    · obtain ⟨hne, hheld⟩ := of_update_false hheld
      rw [hother hne] at hsame hqty
      exact .inl ⟨hne, hheld, hsame, hqty⟩
    · exact .inr ⟨hsell.1, hfree, hfresh.congr rfl rfl rfl rfl rfl rfl, hissued⟩
  next hsell =>
    rw [if_neg hsell]
    obtain ⟨hne, hheld⟩ := of_update_false hocc
    refine .inl ⟨hne, hheld, ?_⟩
    rw [Flagged.pure_val, hother hne]
    exact ⟨.refl _, rfl⟩

/-! ### ProcessFillCommand -/

theorem freeIfTerminal_issued (s : OrderManagerState) (i : OrderSlot) : (s.freeIfTerminal i).issued = s.issued := by
  unfold freeIfTerminal
  split <;> rfl

theorem freeIfTerminal_lives {i j : OrderSlot} (hocc : (s.freeIfTerminal j).orderBitmap i = true) :
    s.orderBitmap i = true ∧ (s.freeIfTerminal j).orders i = s.orders i ∧
      (i = j → (s.orders j).state.isTerminal = false) := by
  unfold freeIfTerminal at hocc ⊢
  split at hocc
  · obtain ⟨hne, hheld⟩ := of_update_false hocc
    exact ⟨hheld, by split <;> rfl, fun heq => absurd heq hne⟩
  next hgoes =>
    rw [if_neg hgoes]
    exact ⟨hocc, rfl, fun _ => by simpa using hgoes⟩

theorem setOrder_lives {i j : OrderSlot} {o : Order} {sub : Option SubmitCommand}
    {after : OrderManagerState} (hocc : s.orderBitmap i = true) (hsame : SameOrder (s.orders j) o)
    (hqty : o.filledQty = (s.orders j).filledQty) :
    Lived c s none sub after i (update s.orders j o i) := by
  rcases eq_or_ne i j with rfl | hne
  · rw [update_self]
    exact .kept hocc hsame hqty fun _ => Option.some_ne_none _ |>.symm
  · rw [update_of_ne hne]
    exact .kept hocc (.refl _) rfl fun _ => Option.some_ne_none _ |>.symm

theorem acknowledge_same (o : Order) (name : String) :
    SameOrder o (acknowledge { o with exchangeId := name }) ∧
      (acknowledge { o with exchangeId := name }).filledQty = o.filledQty := by
  unfold acknowledge
  split <;> exact ⟨⟨rfl, rfl, rfl, rfl⟩, rfl⟩

theorem processFillCommand_lives (sub : Option SubmitCommand) {cmd : Command} {i : OrderSlot}
    (hocc : (s.processFillCommand c cmd).val.1.orderBitmap i = true) :
    Lived c s ((s.executing cmd).map (cmd, ·)) sub (s.processFillCommand c cmd).val.1 i
      ((s.processFillCommand c cmd).val.1.orders i) := by
  have hout := processFillCommand_outcome c s cmd
  generalize s.processFillCommand c cmd = m at hout hocc ⊢
  rcases hout with hexec | ⟨j, -, hexec⟩ | ⟨j, -, hexec⟩ | ⟨j, hj, hexec, hgoes⟩ | ⟨j, hj, hexec, hterminal, hshort⟩ |
    ⟨j, -, hexec, -⟩
  · rw [hexec]
    exact .kept hocc (.refl _) rfl fun _ => Option.some_ne_none _ |>.symm
  · rw [hexec]
    exact setOrder_lives hocc (acknowledge_same ..).1 (acknowledge_same ..).2
  · rw [hexec]
    exact setOrder_lives hocc ⟨rfl, rfl, rfl, rfl⟩ rfl
  · simp only [Flagged.bind_val, Flagged.pure_val] at hocc ⊢
    obtain ⟨hheld, horder, hopen⟩ := freeIfTerminal_lives hocc
    rw [hexec, horder]
    have hbooked : (s.bookExecution c j (s.priced j cmd.result) cmd.result).val.orders j =
        (legOrder (s.priced j cmd.result) cmd.result).val := update_self ..
    rcases eq_or_ne i j with rfl | hne
    · rw [hbooked]
      have hcomplete : cmd.result.orderComplete = false := by
        have hstate := hopen rfl
        rw [hbooked] at hstate
        by_contra hdone
        simp [legOrder, Bool.eq_true_of_not_eq_false hdone, OrderState.isTerminal] at hstate
      have hterminal : cmd.result.venueTerminal = false := by
        by_contra hend
        exact Bool.false_ne_true (hcomplete.symm.trans (hgoes (Bool.eq_true_of_not_eq_false hend)))
      exact .leg cmd hheld rfl ⟨rfl, rfl, rfl, rfl⟩ rfl hcomplete hterminal
    · have hother : (s.bookExecution c j (s.priced j cmd.result) cmd.result).val.orders i = s.orders i :=
        update_of_ne hne ..
      rw [hother]
      refine .kept hheld (.refl _) rfl fun _ hsome => hne ?_
      exact (Prod.mk.inj (Option.some_inj.1 hsome)).2.symm
  · simp only [Flagged.bind_val, Flagged.pure_val] at hocc ⊢
    obtain ⟨hheld, horder, -⟩ := freeIfTerminal_lives hocc
    rw [hexec, horder]
    rcases endIncomplete_lives hheld with ⟨hne, hheld, hsame, hqty⟩ | ⟨hsell, hfree, hfresh, hissued⟩
    · have hother : (s.bookExecution c j (s.priced j cmd.result) cmd.result).val.orders i = s.orders i :=
        update_of_ne hne ..
      rw [hother] at hsame hqty
      refine .kept hheld hsame hqty fun _ hsome => hne ?_
      exact (Prod.mk.inj (Option.some_inj.1 hsome)).2.symm
    · have hbooked : (s.bookExecution c j (s.priced j cmd.result) cmd.result).val.orders j =
          (legOrder (s.priced j cmd.result) cmd.result).val := update_self ..
      rw [hbooked] at hsell hfresh
      rw [← freeIfTerminal_issued _ j] at hissued
      rw [← freeIfTerminal_books _ j] at hfresh
      refine .resubmitted cmd j _ rfl hterminal hsell hfree ?_ (hfresh.congr rfl rfl rfl rfl rfl rfl) hissued
      rw [deadOrder, hbooked]
      rfl
  · simp only [Flagged.pure_val, processFailure] at hocc ⊢
    obtain ⟨hheld, horder, -⟩ := freeIfTerminal_lives hocc
    rw [hexec, horder]
    exact setOrder_lives hheld ⟨rfl, rfl, rfl, rfl⟩ rfl

/-! ### Turns -/

theorem executed_of_dispatched {a : Act} {cmd : Command} (hcmd : s.dispatched a = some cmd) :
    s.executed a = (s.executing cmd).map (cmd, ·) := by
  rw [executed, hcmd]
  rcases hexec : s.executing cmd with _ | i <;> simp [hexec]

theorem act_lives (c : OmsConfig) (s : OrderManagerState) {a : Act} {i : OrderSlot}
    (hocc : (s.act c a).val.orderBitmap i = true) :
    Lived c s (s.executed a) (s.submitting a) (s.act c a).val i ((s.act c a).val.orders i) := by
  have hidle : s.dispatched a = none → s.executed a = none := by
    intro hnone
    rw [executed, hnone]
    rfl
  have hstill : ∀ {o : Order} {after : OrderManagerState}, s.dispatched a = none → s.orderBitmap i = true →
      SameOrder (s.orders i) o → o.filledQty = (s.orders i).filledQty →
      Lived c s (s.executed a) (s.submitting a) after i o := by
    intro o after hnone hheld hsame hqty
    refine .kept hheld hsame hqty fun _ hsome => ?_
    exact Option.some_ne_none _ (hsome.symm.trans (hidle hnone))
  have hframe : ∀ {s' : OrderManagerState}, s.dispatched a = none → s'.orderBitmap i = true →
      s'.orders = s.orders ∧ s'.orderBitmap = s.orderBitmap →
      Lived c s (s.executed a) (s.submitting a) s' i (s'.orders i) := by
    intro s' hnone hocc' hsame
    rw [hsame.1]
    exact hstill hnone (hsame.2 ▸ hocc') (.refl _) rfl
  have hout := act_outcome c s a
  generalize s.act c a = m at hout hocc ⊢
  rcases hout with ⟨rings, ws, reconcile, submits, us, hnone⟩ | ⟨rings, ws, reconcile, submits, us, cmd, hnone,
    hcmd⟩ |
    ⟨rings, ws, reconcile, submits, us, cmd, hcmd⟩ | ⟨rings, ws, reconcile, submits, us, cmd, hnone⟩ | _ | _ |
    ⟨fatalSites, drags⟩
  · exact hframe hnone hocc ⟨rfl, rfl⟩
  · rcases submit_lives (s := s.requeue rings ws reconcile submits us) hocc with
      ⟨hheld, heq⟩ | ⟨hfree, hfresh, hissued⟩
    · simp only [Flagged.bind_val, Flagged.pure_val]
      rw [heq]
      exact hstill hnone hheld (.refl _) rfl
    · exact .submitted cmd hcmd hfree (hfresh.congr rfl rfl rfl rfl rfl rfl) hissued
  · have hexec : s.executed a = (s.executing cmd).map (cmd, ·) := executed_of_dispatched hcmd
    have hlives := processFillCommand_lives (s.submitting a) (s := s.requeue rings ws reconcile submits us) hocc
    rw [hexec]
    rcases hlives with ⟨hheld, hsame, hqty, hidle⟩ | ⟨cmd', hheld, hsome, hsame, hqty, hcomplete, hterminal⟩ |
      ⟨cmd', hsub, hfree, hfresh, hissued⟩ | ⟨cmd', j, dead, hsome, hterminal, hsell, hfree, hdead, hfresh, hissued⟩
    · exact .kept hheld hsame hqty hidle
    · exact .leg cmd' hheld hsome hsame hqty hcomplete hterminal
    · exact .submitted cmd' hsub hfree (hfresh.congr rfl rfl rfl rfl rfl rfl) hissued
    · exact .resubmitted cmd' j dead hsome hterminal hsell hfree hdead (hfresh.congr rfl rfl rfl rfl rfl rfl) hissued
  · exact hframe hnone hocc ⟨rfl, rfl⟩
  · have hstays : s.orderBitmap i = true ∧ SameOrder (s.orders i) ((s.staleSweep c).orders i) ∧
        ((s.staleSweep c).orders i).filledQty = (s.orders i).filledQty := by
      have hocc' : (s.staleSweep c).orderBitmap i = true := hocc
      unfold staleSweep at hocc' ⊢
      split at hocc'
      next hlive =>
        rw [if_pos hlive]
        refine ⟨hocc', ?_⟩
        dsimp only
        split <;> exact ⟨⟨rfl, rfl, rfl, rfl⟩, rfl⟩
      next hlive =>
        rw [if_neg hlive]
        exact ⟨hocc', .refl _, rfl⟩
    exact hstill rfl hstays.1 hstays.2.1 hstays.2.2
  · exact hframe rfl hocc (fillRingsApply_orders c s)
  · exact hframe rfl hocc (fillRingsApply_orders c s)

/-! ### Ids in and out of the table -/

theorem submit_issued (c : OmsConfig) (s : OrderManagerState) (cmd : SubmitCommand) :
    s.issued ⊆ (s.submit c cmd).val.1.issued := by
  have hout := submit_outcome c s cmd
  generalize s.submit c cmd = m at hout ⊢
  rcases hout with _ | _ | _ | _
  · exact List.Subset.refl _
  · exact List.subset_cons_self _ _
  · exact List.subset_cons_self _ _
  · exact List.subset_cons_self _ _

theorem endIncomplete_issued (c : OmsConfig) (s : OrderManagerState) (i : OrderSlot) :
    s.issued ⊆ (s.endIncomplete c i).val.issued := by
  unfold endIncomplete
  split
  · exact submit_issued c (s.cancel c i) _
  · exact List.Subset.refl _

theorem processFillCommand_issued (c : OmsConfig) (s : OrderManagerState) (cmd : Command) :
    s.issued ⊆ (s.processFillCommand c cmd).val.1.issued := by
  have hout := processFillCommand_outcome c s cmd
  generalize s.processFillCommand c cmd = m at hout ⊢
  rcases hout with _ | _ | _ | _ | ⟨j, -, -, -, -⟩ | ⟨j, -, -, -⟩
  · exact List.Subset.refl _
  · exact List.Subset.refl _
  · exact List.Subset.refl _
  · simp only [Flagged.bind_val, Flagged.pure_val, freeIfTerminal_issued]
    exact List.Subset.refl _
  · simp only [Flagged.bind_val, Flagged.pure_val, freeIfTerminal_issued]
    exact endIncomplete_issued c (s.bookExecution c j (s.priced j cmd.result) cmd.result).val j
  · simp only [Flagged.pure_val, processFailure, freeIfTerminal_issued]
    exact List.Subset.refl _

theorem act_issued (c : OmsConfig) (s : OrderManagerState) (a : Act) : s.issued ⊆ (s.act c a).val.issued := by
  have hout := act_outcome c s a
  generalize s.act c a = m at hout ⊢
  rcases hout with _ | ⟨rings, ws, reconcile, submits, us, cmd, -, -⟩ | ⟨rings, ws, reconcile, submits, us, cmd, -⟩ |
    _ | _ | _ | _
  · exact List.Subset.refl _
  · exact submit_issued c (s.requeue rings ws reconcile submits us) cmd
  · exact processFillCommand_issued c (s.requeue rings ws reconcile submits us) cmd
  · exact List.Subset.refl _
  · unfold staleSweep
    split <;> exact List.Subset.refl _
  · unfold fillRingsApply
    split <;> exact List.Subset.refl _
  · unfold compose fillRingsApply
    split <;> exact List.Subset.refl _

/-- The id `Submit` makes up is new. -/
theorem Fresh.isNew {cmd : SubmitCommand} {i : OrderSlot} {o : Order} (h : Fresh c s cmd i o)
    (hfresh : IdsFresh s.nextOrderId s.issued) (hfew : s.nextOrderId < orderIdCounterSize) : o.id ∉ s.issued := by
  intro hmem
  have hold := (hfresh (by omega)).1 _ hmem
  rw [h.id, nextId, encode_mod, Nat.mod_eq_of_lt hfew] at hold
  exact Nat.lt_irrefl _ hold

/-- The id has been issued and its order has left the table. -/
structure Closed (s : OrderManagerState) (id : Nat) : Prop where
  issued : id ∈ s.issued
  out : s.occupant id = none

instance (s : OrderManagerState) (id : Nat) : Decidable (Closed s id) :=
  decidable_of_iff (id ∈ s.issued ∧ s.occupant id = none) ⟨fun h => ⟨h.1, h.2⟩, fun h => ⟨h.issued, h.out⟩⟩

/-- Every order in the table has an id that was issued. -/
def Known (s : OrderManagerState) : Prop := ∀ i, s.orderBitmap i = true → (s.orders i).id ∈ s.issued

theorem Known.act (h : Known s) (a : Act) : Known (s.act c a).val := by
  intro i hocc
  have hold := act_issued c s a
  rcases act_lives c s hocc with ⟨hheld, hsame, -, -⟩ | ⟨_, hheld, -, hsame, -, -, -⟩ | ⟨_, -, -, -, hissued⟩ |
    ⟨_, _, _, -, -, -, -, -, -, hissued⟩
  · exact hsame.id.symm ▸ hold (h i hheld)
  · exact hsame.id.symm ▸ hold (h i hheld)
  · exact hissued
  · exact hissued

theorem occupant_act {a : Act} {i : OrderSlot} {id : Nat} (hocc : (s.act c a).val.occupant id = some i) :
    (s.act c a).val.orderBitmap i = true ∧ ((s.act c a).val.orders i).id = id ∧
      (s.orderBitmap i = true → (s.orders i).id = id → s.occupant id = some i) := by
  obtain ⟨hslot, hheld, hid⟩ := occupant_eq_some.1 hocc
  exact ⟨hheld, hid, fun h h' => occupant_eq_some.2 ⟨hslot, h, h'⟩⟩

/-- An order found under a known id was there before. -/
theorem occupant_of_issued {a : Act} {i : OrderSlot} {id : Nat} (hinv : TableInv c s)
    (hfew : s.nextOrderId < orderIdCounterSize) (hissued : id ∈ s.issued)
    (hocc : (s.act c a).val.occupant id = some i) : s.occupant id = some i := by
  obtain ⟨hheld, hid, hback⟩ := occupant_act hocc
  rcases act_lives c s hheld with ⟨hbefore, hsame, -, -⟩ | ⟨_, hbefore, -, hsame, -, -, -⟩ | ⟨_, -, -, hfresh, -⟩ |
    ⟨_, _, _, -, -, -, -, -, hfresh, -⟩
  · exact hback hbefore (hsame.id.symm.trans hid)
  · exact hback hbefore (hsame.id.symm.trans hid)
  · exact absurd (hid ▸ hissued) (hfresh.isNew hinv.fresh hfew)
  · exact absurd (hid ▸ hissued) (hfresh.isNew hinv.fresh hfew)

theorem Closed.act {id : Nat} (h : Closed s id) (hinv : TableInv c s) (hfew : s.nextOrderId < orderIdCounterSize)
    (a : Act) : Closed (s.act c a).val id := by
  refine ⟨act_issued c s a h.issued, ?_⟩
  rcases hocc : (s.act c a).val.occupant id with _ | i
  · rfl
  · exact absurd (h.out.symm.trans (occupant_of_issued hinv hfew h.issued hocc)) (Option.some_ne_none i).symm

/-! ### Running totals -/

theorem occupant_of_executing {cmd : Command} {i : OrderSlot} (hexec : s.executing cmd = some i) :
    s.occupant cmd.orderId = some i := by
  unfold executing at hexec
  split at hexec
  · exact absurd hexec (Option.some_ne_none i).symm
  · exact (Option.filter_eq_some_iff.1 hexec).1

/-- A response with a quantity is booked only as the first leg. -/
theorem unfilled_of_response {cmd : Command} {i : OrderSlot} (hexec : s.executing cmd = some i)
    (hresponse : cmd.type = .fillResult) (hqty : cmd.result.fillQty > 0.0) : (s.orders i).filledQty = .zero := by
  unfold executing at hexec
  split at hexec
  · exact absurd hexec (Option.some_ne_none i).symm
  · have hgoes := (Option.filter_eq_some_iff.1 hexec).2
    simp only [Bool.and_eq_true, restAfterLegs, hresponse, hqty, decide_true, Bool.and_true, Bool.true_and,
      Bool.not_eq_eq_eq_not] at hgoes
    exact Money.isZero_iff.1 hgoes.2

/-- A quantity a venue can report: not negative, and at least half a unit of 10⁻⁸ if it is positive. -/
def Sizable (r : OrderResult) : Prop :=
  0 ≤ (moneyFromDoublePayload r.fillQty).v ∧ (r.fillQty > 0.0 → 0 < (moneyFromDoublePayload r.fillQty).v)

instance (r : OrderResult) : Decidable (Sizable r) := inferInstanceAs (Decidable (_ ∧ _))

/-- The table in order, and nothing executed on an order less than nothing. -/
structure Orderly (c : OmsConfig) (s : OrderManagerState) : Prop where
  table : TableInv c s
  known : Known s
  nonneg : ∀ i, s.orderBitmap i = true → 0 ≤ (s.orders i).filledQty.v

theorem Orderly.init (c : OmsConfig) (balance : Money) (tradeLog : Option (List (EmitRecord × Money))) :
    Orderly c (init balance tradeLog) :=
  ⟨.init c balance tradeLog, fun _ h => absurd h Bool.false_ne_true, fun _ h => absurd h Bool.false_ne_true⟩

theorem Orderly.act (h : Orderly c s) {a : Act} (hsize : ∀ cmd i, s.executed a = some (cmd, i) → Sizable cmd.result) :
    Orderly c (s.act c a).val := by
  refine ⟨h.table.act a, h.known.act a, fun i hocc => ?_⟩
  rcases act_lives c s hocc with ⟨hheld, -, hqty, -⟩ | ⟨cmd, hheld, hexec, -, hqty, -, -⟩ | ⟨_, -, -, hfresh, -⟩ |
    ⟨_, _, _, -, -, -, -, -, hfresh, -⟩
  · exact hqty ▸ h.nonneg i hheld
  · have hold := h.nonneg i hheld
    have hsum := (Money.add_ge hold (hsize cmd i hexec).1).1
    rw [hqty]
    exact hold.trans hsum
  · rw [hfresh.filledQty, Money.zero_v]
  · rw [hfresh.filledQty, Money.zero_v]

/-- Something is booked under the id: its order is gone, or shows it in its running total. -/
structure Settled (s : OrderManagerState) (id : Nat) : Prop where
  issued : id ∈ s.issued
  filled : ∀ i, s.occupant id = some i → 0 < (s.orders i).filledQty.v

theorem Closed.settled {id : Nat} (h : Closed s id) : Settled s id :=
  ⟨h.issued, fun i hocc => absurd (h.out.symm.trans hocc) (Option.some_ne_none i).symm⟩

theorem Settled.act {id : Nat} (h : Settled s id) (hord : Orderly c s) (hfew : s.nextOrderId < orderIdCounterSize)
    {a : Act} (hsize : ∀ cmd i, s.executed a = some (cmd, i) → Sizable cmd.result) : Settled (s.act c a).val id := by
  refine ⟨act_issued c s a h.issued, fun i hocc => ?_⟩
  obtain ⟨hheld, hid, -⟩ := occupant_act hocc
  have hbefore := h.filled i (occupant_of_issued hord.table hfew h.issued hocc)
  rcases act_lives c s hheld with ⟨-, -, hqty, -⟩ | ⟨cmd, -, hexec, -, hqty, -, -⟩ | ⟨_, -, -, hfresh, -⟩ |
    ⟨_, _, _, -, -, -, -, -, hfresh, -⟩
  · exact hqty ▸ hbefore
  · have hsum := (Money.add_ge hbefore.le (hsize cmd i hexec).1).1
    rw [hqty]
    exact hbefore.trans_le hsum
  · exact absurd (hid ▸ h.issued) (hfresh.isNew hord.table.fresh hfew)
  · exact absurd (hid ▸ h.issued) (hfresh.isNew hord.table.fresh hfew)

theorem executed_eq_some {a : Act} {cmd : Command} {i : OrderSlot} :
    s.executed a = some (cmd, i) ↔ s.dispatched a = some cmd ∧ s.executing cmd = some i := by
  constructor
  · intro hexec
    obtain ⟨cmd', hdisp, hsome⟩ := Option.bind_eq_some_iff.1 hexec
    obtain ⟨k, hk, heq⟩ := Option.bind_eq_some_iff.1 hsome
    obtain ⟨rfl, rfl⟩ := Prod.mk.inj (Option.some_inj.1 heq)
    exact ⟨hdisp, hk⟩
  · rintro ⟨hdisp, hexec⟩
    rw [executed_of_dispatched hdisp, hexec]
    rfl

theorem Known.of_occupant (h : Known s) {id : Nat} {i : OrderSlot} (hocc : s.occupant id = some i) :
    id ∈ s.issued := by
  obtain ⟨-, hheld, hid⟩ := occupant_eq_some.1 hocc
  exact hid ▸ h i hheld

/-- What becomes of the order a turn executes on, if it stays: one leg further, and not ended. -/
theorem leg_of_executed {a : Act} {cmd : Command} {i j : OrderSlot} (hord : Orderly c s)
    (hfew : s.nextOrderId < orderIdCounterSize) (hexec : s.executed a = some (cmd, i))
    (hocc : (s.act c a).val.occupant cmd.orderId = some j) :
    j = i ∧ cmd.result.orderComplete = false ∧ cmd.result.venueTerminal = false ∧
      ((s.act c a).val.orders j).filledQty = (legOrder (s.orders i) cmd.result).val.filledQty := by
  have hbefore : s.occupant cmd.orderId = some i := occupant_of_executing (executed_eq_some.1 hexec).2
  have hissued : cmd.orderId ∈ s.issued := hord.known.of_occupant hbefore
  obtain rfl : j = i :=
    Option.some_inj.1 ((occupant_of_issued hord.table hfew hissued hocc).symm.trans hbefore)
  obtain ⟨hheld, hid, -⟩ := occupant_act hocc
  rcases act_lives c s hheld with ⟨-, -, -, hidle⟩ | ⟨cmd', -, hexec', -, hqty, hcomplete, hterminal⟩ |
    ⟨_, -, -, hfresh, -⟩ | ⟨_, _, _, -, -, -, -, -, hfresh, -⟩
  · exact absurd hexec (hidle cmd)
  · obtain rfl := (Prod.mk.inj (Option.some_inj.1 (hexec'.symm.trans hexec))).1
    exact ⟨rfl, hcomplete, hterminal, hqty⟩
  · exact absurd (hid ▸ hissued) (hfresh.isNew hord.table.fresh hfew)
  · exact absurd (hid ▸ hissued) (hfresh.isNew hord.table.fresh hfew)

/-- A leg of some size settles its order. -/
theorem settled_of_executed {a : Act} {cmd : Command} {i : OrderSlot} (hord : Orderly c s)
    (hfew : s.nextOrderId < orderIdCounterSize) (hexec : s.executed a = some (cmd, i)) (hsize : Sizable cmd.result)
    (hqty : cmd.result.fillQty > 0.0) : Settled (s.act c a).val cmd.orderId := by
  have hbefore : s.occupant cmd.orderId = some i := occupant_of_executing (executed_eq_some.1 hexec).2
  refine ⟨act_issued c s a (hord.known.of_occupant hbefore), fun j hocc => ?_⟩
  obtain ⟨rfl, -, -, htotal⟩ := leg_of_executed hord hfew hexec hocc
  rw [htotal]
  exact (hsize.2 hqty).trans_le (Money.add_ge (hord.nonneg j (occupant_eq_some.1 hbefore).2.1) hsize.1).2

/-- An execution that completes or ends its order closes it. -/
theorem closed_of_executed {a : Act} {cmd : Command} {i : OrderSlot} (hord : Orderly c s)
    (hfew : s.nextOrderId < orderIdCounterSize) (hexec : s.executed a = some (cmd, i))
    (hends : ¬(cmd.result.orderComplete = false ∧ cmd.result.venueTerminal = false)) :
    Closed (s.act c a).val cmd.orderId := by
  have hbefore : s.occupant cmd.orderId = some i := occupant_of_executing (executed_eq_some.1 hexec).2
  refine ⟨act_issued c s a (hord.known.of_occupant hbefore), ?_⟩
  rcases hocc : (s.act c a).val.occupant cmd.orderId with _ | j
  · rfl
  · obtain ⟨-, hcomplete, hterminal, -⟩ := leg_of_executed hord hfew hexec hocc
    exact absurd ⟨hcomplete, hterminal⟩ hends

end FoxTrader.OrderManagerState
