import FoxTrader.Holdings

/-! # Sells under way

    The sells of a portfolio slot that wait in its submit queue or stand in the order table, and the
    quantity they can still take. Where at most one is under way, and for no more than the slot
    holds, no turn of the order manager's own changes that: a turn that takes from the slot takes as
    much from its one sell, a popped sell becomes an order of its quantity, and a remainder is sold
    again for what is left. -/

namespace FoxTrader

open Lib Function

/-- Whether a turn of the order manager is its own, none that submits or queues for a caller. -/
def OrderManagerState.Act.isOwn : Act → Bool
  | .submit _ | .pushSubmit _ => false
  | _ => true

/-- What an order can still take. -/
def openQty (o : Order) : Int := if o.filledQty.v ≤ o.requestedQty.v then o.requestedQty.v - o.filledQty.v else 0

namespace OrderManagerState

variable {c : OmsConfig} {s : OrderManagerState} {p : SlotIdx}

/-! ### The submit queues -/

theorem submit_submitQueues (cmd : SubmitCommand) : (s.submit c cmd).val.1.submitQueues = s.submitQueues := by
  have hout := submit_outcome c s cmd
  generalize s.submit c cmd = m at hout ⊢
  rcases hout with _ | _ | _ | _ <;> rfl

theorem freeIfTerminal_submitQueues (i : OrderSlot) : (s.freeIfTerminal i).submitQueues = s.submitQueues := by
  unfold freeIfTerminal
  split <;> rfl

theorem endIncomplete_submitQueues (i : OrderSlot) :
    (s.endIncomplete c i).val.submitQueues = s.submitQueues := by
  unfold endIncomplete
  split
  · exact submit_submitQueues (s := s.cancel c i) _
  · rfl

theorem processFillCommand_submitQueues (cmd : Command) :
    (s.processFillCommand c cmd).val.1.submitQueues = s.submitQueues := by
  have hout := processFillCommand_outcome c s cmd
  generalize s.processFillCommand c cmd = m at hout ⊢
  rcases hout with _ | _ | _ | _ | _ | _
  · rfl
  · rfl
  · rfl
  · exact freeIfTerminal_submitQueues _
  · exact (freeIfTerminal_submitQueues _).trans (endIncomplete_submitQueues _)
  · exact freeIfTerminal_submitQueues _

theorem processIf_submitQueues (kind : CommandType) (cmd : Command) :
    (s.processIf c kind cmd).val.submitQueues = s.submitQueues := by
  unfold processIf
  split
  · rfl
  split
  · rfl
  · exact processFillCommand_submitQueues cmd

theorem popSubmit_submitQueues (c : OmsConfig) (s : OrderManagerState) (p : SlotIdx) :
    (s.act c (.popSubmit p)).val.submitQueues = update s.submitQueues p (s.submitQueues p).tryPop.2 := by
  rcases hpop : (s.submitQueues p).tryPop with ⟨_ | cmd, q⟩
  · have hempty : (s.submitQueues p).tryPop.2 = s.submitQueues p := Fifo.tryPop_none (by rw [hpop])
    obtain rfl : q = s.submitQueues p := by rw [← hempty, hpop]
    simp only [act, hpop]
    exact (update_eq_self p _).symm
  · simp only [act, hpop]
    exact submit_submitQueues (s := { s with submitQueues := update s.submitQueues p q }) cmd

/-- A turn of the order manager's own pops from a submit queue or leaves them all alone. -/
theorem act_submitQueues (c : OmsConfig) (s : OrderManagerState) {a : Act} (hown : a.isOwn = true) :
    (s.act c a).val.submitQueues = s.submitQueues ∨
      ∃ p, a = .popSubmit p ∧
        (s.act c a).val.submitQueues = update s.submitQueues p (s.submitQueues p).tryPop.2 := by
  cases a with
  | submit cmd | pushSubmit cmd => exact absurd hown Bool.false_ne_true
  | popSubmit p => exact .inr ⟨p, rfl, popSubmit_submitQueues c s p⟩
  | processFill cmd => exact .inl (processFillCommand_submitQueues cmd)
  | popResult =>
    left
    rcases hpop : s.resultPop with _ | ⟨cmd, s'⟩
    · simp only [act, hpop]
      rfl
    · simp only [act, hpop]
      simp only [resultPop, Option.bind_eq_bind, Option.bind_eq_some_iff, Option.pure_def, Option.some_inj,
        Prod.mk.injEq] at hpop
      obtain ⟨n, -, front, -, -, rfl⟩ := hpop
      exact processIf_submitQueues ..
  | popWs =>
    left
    rcases hpop : s.wsResultQueue.tryPop with ⟨_ | cmd, q⟩ <;> simp only [act, hpop]
    · rfl
    · exact processIf_submitQueues ..
  | popReconcile =>
    left
    rcases hpop : s.reconcileQueue.tryPop with ⟨_ | cmd, q⟩ <;> simp only [act, hpop]
    · rfl
    · exact processIf_submitQueues ..
  | staleSweep =>
    left
    simp only [act, staleSweep]
    split <;> rfl
  | fillRingsApply | compose =>
    left
    simp only [act, compose, fillRingsApply]
    split <;> rfl
  | clock | fillResult | pushWs | pushReconcile | processReconcile => exact .inl rfl

/-- Commands wait in the queue of their own slot. -/
def Homed (s : OrderManagerState) : Prop := ∀ p, ∀ cmd ∈ (s.submitQueues p).items, cmd.portfolioSlot = p

theorem Homed.init (balance : Money) (tradeLog : Option (List (EmitRecord × Money))) :
    Homed (init balance tradeLog) :=
  fun _ _ hmem => absurd hmem List.not_mem_nil

theorem Homed.act (h : Homed s) {a : Act} (hown : a.isOwn = true) : Homed (s.act c a).val := by
  rcases act_submitQueues c s hown with hsame | ⟨k, -, hpop⟩
  · rw [Homed, hsame]
    exact h
  · rw [Homed, hpop]
    intro p cmd hmem
    rcases eq_or_ne p k with rfl | hne
    · rw [update_self] at hmem
      exact h p cmd (Fifo.mem_of_mem_tryPop hmem)
    · rw [update_of_ne hne] at hmem
      exact h p cmd hmem

theorem Homed.pushSubmit (h : Homed s) (cmd : SubmitCommand) : Homed (s.pushSubmit cmd) := by
  intro p cmd' hmem
  simp only [OrderManagerState.pushSubmit] at hmem
  rcases eq_or_ne p cmd.portfolioSlot with rfl | hne
  · rw [update_self] at hmem
    rcases Fifo.mem_tryPush hmem with hold | rfl
    · exact h _ cmd' hold
    · rfl
  · rw [update_of_ne hne] at hmem
    exact h p cmd' hmem

/-- What a turn of its own submits comes off a submit queue. -/
theorem submitting_of_isOwn {a : Act} {cmd : SubmitCommand} (hown : a.isOwn = true)
    (hsub : s.submitting a = some cmd) :
    ∃ p, a = .popSubmit p ∧ (s.submitQueues p).tryPop.1 = some cmd := by
  cases a with
  | submit cmd => exact absurd hown Bool.false_ne_true
  | popSubmit p => exact ⟨p, rfl, hsub⟩
  | _ => exact absurd hsub.symm (Option.some_ne_none cmd)

theorem popSubmit_idle {p : SlotIdx} : s.executed (.popSubmit p) = none := rfl

/-! ### What is under way for a slot -/

/-- The sells of slot `p` that wait to be submitted. -/
def queuedExits (s : OrderManagerState) (p : SlotIdx) : List SubmitCommand :=
  (s.submitQueues p).items.filter fun cmd => cmd.orderType.isSell

/-- The sells of slot `p` in the table. -/
def liveExits (s : OrderManagerState) (p : SlotIdx) : List OrderSlot :=
  (List.finRange 16).filter fun i => s.orderBitmap i && (s.orders i).type.isSell && (s.orders i).portfolioSlot = p

/-- The quantity the sells of slot `p` can still take. -/
def outstanding (s : OrderManagerState) (p : SlotIdx) : Int :=
  ((s.queuedExits p).map fun cmd => cmd.qty.v).sum + ((s.liveExits p).map fun i => openQty (s.orders i)).sum

theorem mem_liveExits {i : OrderSlot} :
    i ∈ s.liveExits p ↔ s.orderBitmap i = true ∧ (s.orders i).type.isSell = true ∧
      (s.orders i).portfolioSlot = p := by
  simp only [liveExits, List.mem_filter, List.mem_finRange, true_and, Bool.and_eq_true, decide_eq_true_eq, and_assoc]

theorem liveExits_length_le (hunique : ∀ i ∈ s.liveExits p, ∀ j ∈ s.liveExits p, i = j) :
    (s.liveExits p).length ≤ 1 := by
  have hnodup : (s.liveExits p).Nodup := (List.nodup_finRange 16).filter _
  rcases hl : s.liveExits p with _ | ⟨i, _ | ⟨j, rest⟩⟩
  · exact Nat.zero_le 1
  · exact Nat.le_refl 1
  · have heq := hunique i (hl ▸ List.mem_cons_self) j (hl ▸ List.mem_cons_of_mem _ List.mem_cons_self)
    rw [hl, heq] at hnodup
    exact absurd List.mem_cons_self (List.nodup_cons.1 hnodup).1

/-- At most one sell of slot `p` is under way, and for no more than the slot holds. -/
structure Lone (s : OrderManagerState) (p : SlotIdx) : Prop where
  queued : (s.queuedExits p).length ≤ 1
  exclusive : ∀ cmd ∈ s.queuedExits p, ∀ i, i ∉ s.liveExits p
  unique : ∀ i ∈ s.liveExits p, ∀ j ∈ s.liveExits p, i = j
  queuedQty : ∀ cmd ∈ s.queuedExits p, cmd.qty.v ≤ (s.books.portfolio.held p).v
  liveQty : ∀ i ∈ s.liveExits p, openQty (s.orders i) ≤ (s.books.portfolio.held p).v

theorem Lone.outstanding_le (h : Lone s p) (hst : s.books.portfolio.Stocked) :
    s.outstanding p ≤ (s.books.portfolio.held p).v := by
  have hheld := hst.held_nonneg p
  unfold outstanding
  rcases hq : s.queuedExits p with _ | ⟨cmd, _ | ⟨cmd', rest⟩⟩
  · rcases hl : s.liveExits p with _ | ⟨i, _ | ⟨j, rest⟩⟩
    · simpa using hheld
    · have hone := h.liveQty i (hl ▸ List.mem_cons_self)
      simpa using hone
    · have hlen := liveExits_length_le h.unique
      rw [hl, List.length_cons, List.length_cons] at hlen
      omega
  · have hnone : s.liveExits p = [] :=
      List.eq_nil_iff_forall_not_mem.2 (h.exclusive cmd (hq ▸ List.mem_cons_self))
    have hone := h.queuedQty cmd (hq ▸ List.mem_cons_self)
    simpa [hnone] using hone
  · have hlen := h.queued
    rw [hq, List.length_cons, List.length_cons] at hlen
    omega

/-! ### Turns of the order manager's own -/

theorem occupied_of_executed {a : Act} {cmd : Command} {j : OrderSlot} (hexec : s.executed a = some (cmd, j)) :
    s.orderBitmap j = true :=
  (occupant_eq_some.1 (occupant_of_executing (executed_eq_some.1 hexec).2)).2.1

/-- Only an execution of one of its sells takes from a slot. -/
theorem held_le_of_noSale {a : Act} (hsize : ∀ cmd j, s.executed a = some (cmd, j) → Sizable cmd.result)
    (hst : s.books.portfolio.Stocked) (hnone : ∀ cmd j, s.executed a = some (cmd, j) → j ∉ s.liveExits p) :
    (s.books.portfolio.held p).v ≤ ((s.act c a).val.books.portfolio.held p).v := by
  rcases hexec : s.executed a with _ | ⟨cmd, j⟩
  · rw [(held_of_idle (c := c) hexec p).held]
  · rcases moves_of_executed (c := c) hexec (hsize cmd j hexec) hst p with ⟨-, hheld, -⟩ | ⟨-, -, -, hheld⟩ |
      ⟨hslot, hsell, -⟩
    · rw [hheld]
    · exact hheld
    · exact absurd (mem_liveExits.2 ⟨occupied_of_executed hexec, hsell, hslot.symm⟩) (hnone cmd j hexec)

/-- No sell joins those that wait. -/
theorem queuedExits_act {a : Act} (hown : a.isOwn = true) :
    ((s.act c a).val.queuedExits p).Sublist (s.queuedExits p) := by
  unfold queuedExits
  refine List.Sublist.filter _ ?_
  rcases act_submitQueues c s hown with hsame | ⟨k, -, hpop⟩
  · rw [hsame]
  · rw [hpop]
    rcases eq_or_ne p k with rfl | hne
    · rw [update_self]
      rcases hfront : (s.submitQueues p).tryPop.1 with _ | cmd
      · rw [Fifo.tryPop_none hfront]
      · rw [Fifo.tryPop_some hfront]
        exact List.sublist_cons_self _ _
    · rw [update_of_ne hne]

/-- A popped sell was the first of those that wait. -/
theorem queuedExits_popSubmit {cmd : SubmitCommand} (hpop : (s.submitQueues p).tryPop.1 = some cmd)
    (hsell : cmd.orderType.isSell = true) :
    s.queuedExits p = cmd :: (s.act c (.popSubmit p)).val.queuedExits p := by
  simp only [queuedExits, popSubmit_submitQueues, update_self, Fifo.tryPop_some hpop, List.filter_cons, hsell,
    if_true]

/-- Where a sell of slot `p` in the table after a turn comes from. -/
inductive ExitLived (c : OmsConfig) (s : OrderManagerState) (a : Act) (p : SlotIdx) (i : OrderSlot) (o : Order) : Prop
  | kept (hlive : i ∈ s.liveExits p) (hopen : openQty o = openQty (s.orders i))
    (hidle : ∀ cmd, s.executed a ≠ some (cmd, i))
  | leg (cmd : Command) (hlive : i ∈ s.liveExits p) (hexec : s.executed a = some (cmd, i))
      (hrequested : o.requestedQty = (s.orders i).requestedQty)
      (hqty : o.filledQty = (legOrder (s.orders i) cmd.result).val.filledQty)
      (hterminal : cmd.result.venueTerminal = false)
  | submitted (cmd : SubmitCommand) (hact : a = .popSubmit p) (hpop : (s.submitQueues p).tryPop.1 = some cmd)
      (hsell : cmd.orderType.isSell = true) (hfree : freeSlot s.orderBitmap = some i)
      (hopen : openQty o = if 0 ≤ cmd.qty.v then cmd.qty.v else 0)
  | resubmitted (cmd : Command) (j : OrderSlot) (hexec : s.executed a = some (cmd, j))
      (hterminal : cmd.result.venueTerminal = true) (hlive : j ∈ s.liveExits p)
      (hfree : freeSlot (update s.orderBitmap j false) = some i)
      (hopen : openQty o = if 0 ≤ ((s.act c a).val.books.portfolio.held p).v then
        ((s.act c a).val.books.portfolio.held p).v else 0)

theorem openQty_of_unfilled {o : Order} (h : o.filledQty = .zero) :
    openQty o = if 0 ≤ o.requestedQty.v then o.requestedQty.v else 0 := by
  rw [openQty, h, Money.zero_v, Int.sub_zero]

theorem liveExits_act {a : Act} {i : OrderSlot} (hown : a.isOwn = true) (hhome : Homed s)
    (hi : i ∈ (s.act c a).val.liveExits p) : ExitLived c s a p i ((s.act c a).val.orders i) := by
  obtain ⟨hocc, hsell, hslot⟩ := mem_liveExits.1 hi
  rcases act_lives c s hocc with ⟨hheld, hsame, hqty, hidle⟩ | ⟨cmd, hheld, hexec, hsame, hqty, -, hterminal⟩ |
    ⟨cmd, hcmd, hfree, hfresh, -⟩ | ⟨cmd, j, dead, hexec, hterminal, hdeadSell, hfree, hdead, hfresh, -⟩
  · refine .kept (mem_liveExits.2 ⟨hheld, hsame.type ▸ hsell, hsame.portfolioSlot ▸ hslot⟩) ?_ hidle
    rw [openQty, openQty, hqty, hsame.requestedQty]
  · exact .leg cmd (mem_liveExits.2 ⟨hheld, hsame.type ▸ hsell, hsame.portfolioSlot ▸ hslot⟩) hexec hsame.requestedQty
      hqty hterminal
  · obtain ⟨k, rfl, hpop⟩ := submitting_of_isOwn hown hcmd
    have hk : cmd.portfolioSlot = k := hhome k cmd (Fifo.tryPop_some hpop ▸ List.mem_cons_self)
    obtain rfl : k = p := hk.symm.trans (hfresh.portfolioSlot.symm.trans hslot)
    refine .submitted cmd rfl hpop (hfresh.type ▸ hsell) hfree ?_
    rw [openQty_of_unfilled hfresh.filledQty, hfresh.requestedQty]
  · have hjslot : (s.orders j).portfolioSlot = p := hdead.symm.trans (hfresh.portfolioSlot.symm.trans hslot)
    refine .resubmitted cmd j hexec hterminal
      (mem_liveExits.2 ⟨occupied_of_executed hexec, by rw [hdeadSell]; rfl, hjslot⟩) hfree ?_
    rw [openQty_of_unfilled hfresh.filledQty, hfresh.requestedQty, hjslot]
    rfl

/-- An execution takes from the slot no more than it takes from its sell. -/
theorem openQty_leg {a : Act} {cmd : Command} {i : OrderSlot} {o : Order} (hlive : i ∈ s.liveExits p)
    (hexec : s.executed a = some (cmd, i)) (hsize : Sizable cmd.result) (hst : s.books.portfolio.Stocked)
    (hrequested : o.requestedQty = (s.orders i).requestedQty)
    (hqty : o.filledQty = (legOrder (s.orders i) cmd.result).val.filledQty)
    (hbound : openQty (s.orders i) ≤ (s.books.portfolio.held p).v) :
    openQty o ≤ ((s.act c a).val.books.portfolio.held p).v := by
  obtain ⟨-, hsell, hslot⟩ := mem_liveExits.1 hlive
  have hnonneg := hst.held_nonneg p
  have hlower := (s.orders i).filledQty.lower
  have hupper := (s.orders i).requestedQty.upper
  have hsum := Money.saturate_cases ((s.orders i).filledQty.v + (moneyFromDoublePayload cmd.result.fillQty).v)
  have htotal : o.filledQty.v =
      (Money.saturate ((s.orders i).filledQty.v + (moneyFromDoublePayload cmd.result.fillQty).v)).val.v :=
    congrArg Money.v hqty
  have hqtyNonneg := hsize.1
  unfold openQty at hbound ⊢
  rw [hrequested]
  rcases moves_of_executed (c := c) hexec hsize hst p with ⟨-, hheld, hnot⟩ | ⟨-, hbuy, -, -⟩ | ⟨-, -, hheld⟩
  · rw [hheld]
    split at hbound <;> split <;> omega
  · exact absurd (hbuy.symm.trans hsell) Bool.false_ne_true
  · rw [hheld]
    split at hbound <;> split <;> split <;> omega

/-- A sell in the table after a turn was there and has not been ended, or took a free slot. -/
theorem ExitLived.origin {a : Act} {i : OrderSlot} {o : Order} (hi : ExitLived c s a p i o) :
    (i ∈ s.liveExits p ∧ ∀ cmd, s.executed a = some (cmd, i) → cmd.result.venueTerminal = false) ∨
      (∃ cmd ∈ s.queuedExits p, s.executed a = none ∧ freeSlot s.orderBitmap = some i) ∨
      ∃ cmd, ∃ j ∈ s.liveExits p, s.executed a = some (cmd, j) ∧ cmd.result.venueTerminal = true ∧
        freeSlot (update s.orderBitmap j false) = some i := by
  rcases hi with ⟨hlive, -, hidle⟩ | ⟨cmd, hlive, hexec, -, -, hterminal⟩ | ⟨cmd, rfl, hpop, hsell, hfree, -⟩ |
    ⟨cmd, j, hexec, hterminal, hlive, hfree, -⟩
  · exact .inl ⟨hlive, fun cmd hexec => absurd hexec (hidle cmd)⟩
  · refine .inl ⟨hlive, fun cmd' hexec' => ?_⟩
    obtain rfl := (Prod.mk.inj (Option.some_inj.1 (hexec'.symm.trans hexec))).1
    exact hterminal
  · exact .inr (.inl ⟨cmd, queuedExits_popSubmit (c := c) hpop hsell ▸ List.mem_cons_self, popSubmit_idle, hfree⟩)
  · exact .inr (.inr ⟨cmd, j, hlive, hexec, hterminal, hfree⟩)

/-- Two sells of slot `p` in the table after a turn are one. -/
theorem ExitLived.unique {a : Act} {i j : OrderSlot} {o o' : Order} (h : Lone s p) (hi : ExitLived c s a p i o)
    (hj : ExitLived c s a p j o') : i = j := by
  -- one that was there is the only one: none waits, and it has not been ended
  have halone : ∀ {k}, k ∈ s.liveExits p → (∀ cmd, s.executed a = some (cmd, k) → cmd.result.venueTerminal = false) →
      ∀ {l o''}, ExitLived c s a p l o'' → k = l := by
    intro k hlive hgoes l o'' hl
    rcases hl.origin with ⟨hlive', -⟩ | ⟨cmd, hcmd, -, -⟩ | ⟨cmd, m, hlive', hexec, hterminal, -⟩
    · exact h.unique k hlive l hlive'
    · exact absurd hlive (h.exclusive cmd hcmd k)
    · obtain rfl := h.unique k hlive m hlive'
      exact absurd ((hgoes cmd hexec).symm.trans hterminal) Bool.false_ne_true
  rcases hi.origin with ⟨hlive, hgoes⟩ | ⟨cmd, hcmd, hidle, hfree⟩ | ⟨cmd, m, hlive, hexec, hterminal, hfree⟩
  · exact halone hlive hgoes hj
  · rcases hj.origin with ⟨hlive, -⟩ | ⟨_, -, -, hfree'⟩ | ⟨_, _, hlive, -, -, -⟩
    · exact absurd hlive (h.exclusive cmd hcmd j)
    · exact Option.some_inj.1 (hfree.symm.trans hfree')
    · exact absurd hlive (h.exclusive cmd hcmd _)
  · rcases hj.origin with ⟨hlive', hgoes⟩ | ⟨cmd', hcmd', -, -⟩ | ⟨cmd', m', -, hexec', -, hfree'⟩
    · exact (halone hlive' hgoes hi).symm
    · exact absurd hlive (h.exclusive cmd' hcmd' m)
    · obtain ⟨-, rfl⟩ := Prod.mk.inj (Option.some_inj.1 (hexec'.symm.trans hexec))
      exact Option.some_inj.1 (hfree.symm.trans hfree')

theorem Lone.act (h : Lone s p) {a : Act} (hown : a.isOwn = true) (hhome : Homed s) (hst : s.books.portfolio.Stocked)
    (hsize : ∀ cmd j, s.executed a = some (cmd, j) → Sizable cmd.result) : Lone (s.act c a).val p := by
  have hqueue := queuedExits_act (c := c) (s := s) (p := p) hown
  have hlives := fun i => liveExits_act (c := c) (s := s) (p := p) (i := i) hown hhome
  refine ⟨hqueue.length_le.trans h.queued, ?_, ?_, ?_, ?_⟩
  · intro cmd hcmd i hi
    have hold := hqueue.subset hcmd
    rcases hlives i hi with ⟨hlive, -, -⟩ | ⟨_, hlive, -, -, -, -⟩ | ⟨cmd', rfl, hpop, hsell, -, -⟩ |
      ⟨_, j, -, -, hlive, -, -⟩
    · exact h.exclusive cmd hold i hlive
    · exact h.exclusive cmd hold i hlive
    · -- the sell popped was the only one that waited
      have hlen := h.queued
      rw [queuedExits_popSubmit (c := c) hpop hsell, List.length_cons] at hlen
      have hpos := List.length_pos_of_mem hcmd
      omega
    · exact h.exclusive cmd hold j hlive
  · exact fun i hi j hj => (hlives i hi).unique h (hlives j hj)
  · intro cmd hcmd
    have hold := hqueue.subset hcmd
    exact (h.queuedQty cmd hold).trans (held_le_of_noSale hsize hst fun _ j _ => h.exclusive cmd hold j)
  · intro i hi
    have hpos := (stocked_act (c := c) hsize hst).held_nonneg p
    rcases hlives i hi with ⟨hlive, hopen, hidle⟩ | ⟨cmd, hlive, hexec, hrequested, hqty, -⟩ |
      ⟨cmd, rfl, hpop, hsell, -, hopen⟩ | ⟨_, _, -, -, -, -, hopen⟩
    · rw [hopen]
      refine (h.liveQty i hlive).trans (held_le_of_noSale hsize hst fun cmd j hexec hj => ?_)
      obtain rfl := h.unique i hlive j hj
      exact hidle cmd hexec
    · exact openQty_leg hlive hexec (hsize cmd i hexec) hst hrequested hqty (h.liveQty i hlive)
    · have hmem : cmd ∈ s.queuedExits p := queuedExits_popSubmit (c := c) hpop hsell ▸ List.mem_cons_self
      have hqty := h.queuedQty cmd hmem
      rw [← (held_of_idle (c := c) (popSubmit_idle (s := s) (p := p)) p).held] at hqty
      rw [hopen]
      split
      · exact hqty
      · exact hpos
    · rw [hopen, if_pos hpos]

theorem Lone.step (h : Lone s p) {a : Act} (hown : a.isOwn = true) (hhome : Homed s) (hst : s.books.portfolio.Stocked)
    (hsize : ∀ cmd j, s.executed a = some (cmd, j) → Sizable cmd.result) : Lone (s.step c a) p := by
  obtain ⟨hqueued, hexclusive, hunique, hqueuedQty, hliveQty⟩ := h.act (c := c) hown hhome hst hsize
  exact ⟨hqueued, hexclusive, hunique, hqueuedQty, hliveQty⟩

/-! ### Pushes -/

/-- A sell of slot `p` is under way. -/
def exitUnderWay (s : OrderManagerState) (p : SlotIdx) : Bool :=
  !(s.queuedExits p).isEmpty || !(s.liveExits p).isEmpty

theorem exitUnderWay_eq_false : s.exitUnderWay p = false ↔ s.queuedExits p = [] ∧ s.liveExits p = [] := by
  simp [exitUnderWay]

theorem queuedExits_pushSubmit (cmd : SubmitCommand) :
    (s.pushSubmit cmd).queuedExits p = s.queuedExits p ∨
      (cmd.portfolioSlot = p ∧ cmd.orderType.isSell = true ∧ (s.pushSubmit cmd).queuedExits p = s.queuedExits p ++ [cmd]) := by
  simp only [queuedExits, pushSubmit]
  rcases eq_or_ne p cmd.portfolioSlot with rfl | hne
  · rw [update_self, Fifo.tryPush_items]
    split
    · exact .inl rfl
    · rw [List.filter_append]
      rcases hsell : cmd.orderType.isSell with _ | _
      · left
        simp [hsell]
      · right
        simp [hsell]
  · rw [update_of_ne hne]
    exact .inl rfl

/-- A push keeps the slots lone if it sells nothing, or is the first sell of its slot and for no more
    than the slot holds. -/
theorem Lone.pushSubmit (h : Lone s p) {cmd : SubmitCommand}
    (hok : cmd.orderType.isSell = true → cmd.portfolioSlot = p →
      s.exitUnderWay p = false ∧ cmd.qty.v ≤ (s.books.portfolio.held p).v) : Lone (s.pushSubmit cmd) p := by
  rcases queuedExits_pushSubmit (s := s) (p := p) cmd with hsame | ⟨hslot, hsell, hpushed⟩
  · exact ⟨hsame ▸ h.queued, hsame ▸ h.exclusive, h.unique, hsame ▸ h.queuedQty, h.liveQty⟩
  · obtain ⟨hidle, hqty⟩ := hok hsell hslot
    obtain ⟨hqueue, hlive⟩ := exitUnderWay_eq_false.1 hidle
    have hone : (s.pushSubmit cmd).queuedExits p = [cmd] := by rw [hpushed, hqueue, List.nil_append]
    have hnone : (s.pushSubmit cmd).liveExits p = [] := hlive
    refine ⟨by rw [hone, List.length_singleton], fun _ _ i => hnone ▸ List.not_mem_nil,
      fun i hi => absurd (hnone ▸ hi) List.not_mem_nil, fun cmd' hmem => ?_, fun i hi =>
        absurd (hnone ▸ hi) List.not_mem_nil⟩
    obtain rfl := List.mem_singleton.1 (hone ▸ hmem)
    exact hqty

theorem Lone.init (balance : Money) (tradeLog : Option (List (EmitRecord × Money))) (p : SlotIdx) :
    Lone (init balance tradeLog) p := by
  have hqueue : ∀ cmd, cmd ∉ (OrderManagerState.init balance tradeLog).queuedExits p := fun _ => List.not_mem_nil
  have hlive : ∀ i, i ∉ (OrderManagerState.init balance tradeLog).liveExits p :=
    fun _ hi => Bool.false_ne_true (mem_liveExits.1 hi).1
  exact ⟨Nat.zero_le _, fun cmd h => absurd h (hqueue cmd), fun i h => absurd h (hlive i),
    fun cmd h => absurd h (hqueue cmd), fun i h => absurd h (hlive i)⟩

end OrderManagerState

end FoxTrader
