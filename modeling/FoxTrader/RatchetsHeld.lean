import FoxTrader.SlowPathRun

/-! # The ratchets of a trade

    Over the cycles in which a node holds a slot its ratchets are to rise only, and with them the stop
    and the target the core applies. Every writer raises them, and the gates leave them alone. A full
    rebuild drops them in two places: the dispatch of an id without a builder re-initialises the pack,
    and the clear behind it looks for the node's slots where the configuration's flag puts them, which a
    reload can change under the slots the engine was booted with.

    Where neither happens the packs of a run ascend, and so does what a tick applies to a leg for as
    long as it stays open (`ratchets_ascend`). -/

namespace FoxTrader

open Lib

/-- `q` has no lower ratchet than `p`. -/
def RatchetsLe (p q : GateParameters) : Prop := p.ratchetSl.v ≤ q.ratchetSl.v ∧ p.ratchetTp.v ≤ q.ratchetTp.v

instance (p q : GateParameters) : Decidable (RatchetsLe p q) := inferInstanceAs (Decidable (_ ∧ _))

/-- The same of two stops and two targets. -/
def LevelsLe (l l' : Money × Money) : Prop := l.1.v ≤ l'.1.v ∧ l.2.v ≤ l'.2.v

instance (l l' : Money × Money) : Decidable (LevelsLe l l') := inferInstanceAs (Decidable (_ ∧ _))

theorem RatchetsLe.refl (p : GateParameters) : RatchetsLe p p := ⟨le_rfl, le_rfl⟩

theorem RatchetsLe.trans {p q r : GateParameters} (h : RatchetsLe p q) (h' : RatchetsLe q r) : RatchetsLe p r :=
  ⟨h.1.trans h'.1, h.2.trans h'.2⟩

theorem Advances.ratchetsLe {p q : GateParameters} (h : Advances p q) : RatchetsLe p q := ⟨h.ratchetSl, h.ratchetTp⟩

theorem Narrows.ratchetsLe {p q : GateParameters} (h : Narrows p q) : RatchetsLe p q :=
  ⟨(congrArg Money.v h.ratchetSl).ge, (congrArg Money.v h.ratchetTp).ge⟩

namespace SlowPath

/-! ### The condition -/

/-- The node holds a slot, where the engine was booted to have its slots. -/
def Holds (n : NodeIdx) : SlowAct → Prop
  | .cycle x => x.atClear.nodeSlots x.omsPartialExit n ≠ []
  | _ => True

/-- A rebuild that is not skipped has a builder, and finds the node's slots: its configuration has the
    flag of the boot, or another of the slots it looks at is active. -/
def KeepsRatchets (n : NodeIdx) (s : SlowPath) : SlowAct → Prop
  | .cycle x =>
    x.skipsRebuild s.ctx.node = true ∨ (Strategy.ofId x.effectiveStrategyId).isSome = true ∧
      (x.cfg.partialExitEnabled = x.omsPartialExit ∨ x.atClear.nodeSlots x.cfg.partialExitEnabled n ≠ [])
  | _ => True

instance (n : NodeIdx) : (a : SlowAct) → Decidable (Holds n a)
  | .cycle x => inferInstanceAs (Decidable (x.atClear.nodeSlots x.omsPartialExit n ≠ []))
  | .tick _ => inferInstanceAs (Decidable True)
  | .drain => inferInstanceAs (Decidable True)
  | .revoke => inferInstanceAs (Decidable True)

instance (n : NodeIdx) (s : SlowPath) : (a : SlowAct) → Decidable (s.KeepsRatchets n a)
  | .cycle _ => inferInstanceAs (Decidable (_ ∨ _ ∧ (_ ∨ _)))
  | .tick _ => inferInstanceAs (Decidable True)
  | .drain => inferInstanceAs (Decidable True)
  | .revoke => inferInstanceAs (Decidable True)

/-! ### One cycle -/

variable {n : NodeIdx}

/-- What is pushed has no lower ratchet than what was pending. -/
theorem ratchetsLe_pushed {s : SlowPath} {x : CycleInput} (hold : Holds n (.cycle x))
    (hkeep : s.KeepsRatchets n (.cycle x)) : RatchetsLe s.ctx.node.pendingParams (s.pushed n x) := by
  rcases Bool.eq_false_or_eq_true (x.skipsRebuild s.ctx.node) with hskip | hfull
  · rw [pushed, SlowContext.rebuild_of_skip hskip]
    exact .refl _
  · obtain hskip | ⟨hbuilder, hsees⟩ := hkeep
    · exact absurd (hskip.symm.trans hfull) (by decide)
    have hslots : x.atClear.nodeSlots x.cfg.partialExitEnabled n ≠ [] := by
      rcases hsees with hflag | hslot
      · rw [hflag]
        exact hold
      · exact hslot
    have hswitch := SlowNode.advances_switchRatchets n x s.ctx.node
    have hbuilt : RatchetsLe (SlowNode.switchRatchets n x s.ctx.node).pendingParams
        (SlowNode.withBuilt n x s.ctx.node).pendingParams := by
      obtain ⟨hsl, htp⟩ := BuildInput.ratchets_built (x := x.dispatched) hbuilder
        (SlowNode.switchRatchets n x s.ctx.node).pendingParams .ok
      exact ⟨(congrArg Money.v hsl).ge, (congrArg Money.v htp).ge⟩
    have htrade := SlowNode.advances_tradeRatchets n x (SlowNode.withBuilt n x s.ctx.node) hslots
    rw [pushed, (SlowContext.rebuild_of_full hfull).1]
    exact hswitch.ratchetsLe.trans (hbuilt.trans (htrade.ratchetsLe.trans s.ctx.narrows_gated.ratchetsLe))

/-! ### Runs -/

/-- The packs so far ascend, and none has a higher ratchet than what is pending. -/
structure Ascending (s : SlowPath) (packs : List GateParameters) : Prop where
  pairwise : packs.Pairwise RatchetsLe
  pending : ∀ p ∈ packs, RatchetsLe p s.ctx.node.pendingParams

theorem ascending_step (n : NodeIdx) (s : SlowPath) (a : SlowAct) (packs : List GateParameters)
    (h : s.Ascending packs) (hok : Holds n a ∧ s.KeepsRatchets n a) :
    (s.step n a).Ascending (packs ++ s.published n a) := by
  obtain ⟨x, rfl⟩ | ⟨hctx, -, hpublished⟩ := step_of_cycle_or n s a
  · have hpushed := ratchetsLe_pushed hok.1 hok.2
    have hpending := (advances_cycle (n := n) (x := x) s).ratchetsLe
    refine ⟨List.pairwise_append.2 ⟨h.pairwise, List.pairwise_singleton .., fun p hp q hq => ?_⟩, fun p hp => ?_⟩
    · rw [List.mem_singleton.1 hq]
      exact (h.pending p hp).trans hpushed
    · rcases List.mem_append.1 hp with hold | hnew
      · exact (h.pending p hold).trans (hpushed.trans hpending)
      · rw [List.mem_singleton.1 hnew]
        exact hpending
  · rw [hpublished, List.append_nil]
    exact ⟨h.pairwise, fun p hp => hctx ▸ h.pending p hp⟩

/-- The pack in force has no higher ratchet than what is pending. -/
def Ordered (s : SlowPath) : Prop := RatchetsLe s.core.inForce s.ctx.node.pendingParams

theorem Booted.ordered {s : SlowPath} (h : s.Booted) : s.Ordered := by
  rw [Ordered, h.inForce, h.pendingParams]
  exact .refl _

/-- A push puts the pending pack in force, and what then happens to the pending one is an advance. -/
theorem ordered_step (n : NodeIdx) (s : SlowPath) (a : SlowAct) (h : s.Ordered) (hcount : s.CountsOn a) :
    (s.step n a).Ordered := by
  obtain ⟨x, rfl⟩ | ⟨hctx, hforce, -⟩ := step_of_cycle_or n s a
  · have hpushed : (s.slowPathCycleOneCore n x).core.inForce = s.pushed n x := cycle_inForce hcount
    rw [SlowPath.step, Ordered, hpushed]
    exact s.advances_cycle.ratchetsLe
  · rw [Ordered, hctx, hforce]
    exact h

/-- The pack in force, and with it the levels of an open leg, do not fall in a step. -/
theorem ratchetsLe_inForce {s : SlowPath} (h : s.Ordered) {a : SlowAct} (hcount : s.CountsOn a) (hold : Holds n a)
    (hkeep : s.KeepsRatchets n a) : RatchetsLe s.core.inForce (s.step n a).core.inForce := by
  obtain ⟨x, rfl⟩ | ⟨-, hforce, -⟩ := step_of_cycle_or n s a
  · have hpushed : (s.slowPathCycleOneCore n x).core.inForce = s.pushed n x := cycle_inForce hcount
    rw [SlowPath.step, hpushed]
    exact h.trans (ratchetsLe_pushed hold hkeep)
  · rw [hforce]
    exact .refl _

theorem effective_le {c c' : ExecutionCore} {leg : Leg} (hlevels : c'.levels leg = c.levels leg)
    (hforce : RatchetsLe c.inForce c'.inForce) : LevelsLe (c.effective leg) (c'.effective leg) := by
  unfold ExecutionCore.effective LevelsLe
  rw [hlevels, Money.max_v, Money.max_v, Money.max_v, Money.max_v]
  exact ⟨max_le_max_left _ hforce.1, max_le_max_left _ hforce.2⟩

/-- What a run in which a leg stays open keeps: its levels, and the ratchets it began with from below. -/
structure Rising (leg : Leg) (s₀ s : SlowPath) : Prop where
  ordered : s.Ordered
  levels : s.core.levels leg = s₀.core.levels leg
  ratchets : RatchetsLe s₀.core.inForce s.core.inForce

theorem rising_step (n : NodeIdx) (leg : Leg) (s₀ s : SlowPath) (a : SlowAct) (h : Rising leg s₀ s)
    (hok : s.CountsOn a ∧ Holds n a ∧ s.KeepsRatchets n a ∧ s.core.legActive leg = true) :
    Rising leg s₀ (s.step n a) := by
  obtain ⟨hcount, hold, hkeep, hopen⟩ := hok
  exact
    { ordered := ordered_step n s a h.ordered hcount
      levels := (step_levels n hopen a).trans h.levels
      ratchets := h.ratchets.trans (ratchetsLe_inForce h.ordered hcount hold hkeep) }

/-- In a run whose cycles all keep the ratchets, the packs published while the node holds a slot ascend, and
    so do the stop and the target applied to a leg while it is open. -/
theorem ratchets_ascend (n : NodeIdx) {s : SlowPath} (hboot : s.Booted) (as bs : List SlowAct)
    (hcount : Steps (step n) CountsOn s (as ++ bs)) (hold : ∀ a ∈ bs, Holds n a)
    (hkeep : Steps (step n) (fun s a => s.KeepsRatchets n a) (run (step n) s as) bs) :
    (outputs (step n) (published n) (run (step n) s as) bs).Pairwise RatchetsLe ∧
      ∀ bs₁ bs₂ leg, bs = bs₁ ++ bs₂ →
        Steps (step n) (fun s _ => s.core.legActive leg = true) (run (step n) s (as ++ bs₁)) bs₂ →
        LevelsLe ((run (step n) s (as ++ bs₁)).core.effective leg)
          ((run (step n) s (as ++ bs)).core.effective leg) := by
  obtain ⟨hcount₀, hcount₁⟩ := steps_append.1 hcount
  have hordered := run_inv_of_steps (ordered_step n) as hboot.ordered hcount₀
  constructor
  · have hstart : (run (step n) s as).Ascending [] := ⟨.nil, fun _ hp => absurd hp List.not_mem_nil⟩
    exact (run_outputs (ascending_step n) bs [] hstart (steps_and.2 ⟨steps_of_forall hold, hkeep⟩)).pairwise
  · rintro bs₁ bs₂ leg rfl hopen
    obtain ⟨hcount₂, hcount₃⟩ := steps_append.1 hcount₁
    have hordered₁ := run_inv_of_steps (ordered_step n) bs₁ hordered hcount₂
    have hold₂ : ∀ a ∈ bs₂, Holds n a := fun a ha => hold a (List.mem_append_right bs₁ ha)
    have hkeep₂ := (steps_append.1 hkeep).2
    rw [← run_append] at hcount₃ hordered₁ hkeep₂
    rw [← List.append_assoc, run_append _ _ (as ++ bs₁)]
    have hrising := run_inv_of_steps (rising_step n leg (run (step n) s (as ++ bs₁))) bs₂
      ⟨hordered₁, rfl, .refl _⟩
      (steps_and.2 ⟨hcount₃, steps_and.2 ⟨steps_of_forall hold₂, steps_and.2 ⟨hkeep₂, hopen⟩⟩⟩)
    exact effective_le hrising.levels hrising.ratchets

/-! The stop of a leg bought at 99 trails to 99, one deviation under the price. -/

def quietTrail : List SlowAct := [.cycle (quietInput quietHeld), .tick (quietTick 105), .cycle (quietInput quietHeld)]

theorem ratchets_ascend_trail :
    (outputs (step quietNode) (published quietNode) (run (step quietNode) quietBoot quietEntry)
        quietTrail).Pairwise RatchetsLe ∧
      ∀ bs₁ bs₂ leg, quietTrail = bs₁ ++ bs₂ →
        Steps (step quietNode) (fun s _ => s.core.legActive leg = true)
          (run (step quietNode) quietBoot (quietEntry ++ bs₁)) bs₂ →
        LevelsLe ((run (step quietNode) quietBoot (quietEntry ++ bs₁)).core.effective leg)
          ((run (step quietNode) quietBoot (quietEntry ++ quietTrail)).core.effective leg) :=
  ratchets_ascend quietNode quietBoot_booted quietEntry quietTrail (by decide +kernel) (by decide +kernel)
    (by decide +kernel)

/-- The cycle after a reload that turned partial exits on, and one of an id that no strategy has. -/
def quietReload : CycleInput := { quietInput quietHeld with cfg := { quietCfg with partialExitEnabled := true } }

def quietUnknown : CycleInput := { quietInput quietHeld with strategyId := 7 }

/-- Either takes the ratchet of 99 from the pack of an open trade, and its stop falls to 94.05. -/
theorem ratchets_dropped :
    (∀ a ∈ [.cycle (quietInput quietHeld), .cycle quietReload, .cycle quietUnknown], Holds quietNode a) ∧
      ¬(outputs (step quietNode) (published quietNode) (run (step quietNode) quietBoot quietEntry)
          [.cycle (quietInput quietHeld), .cycle quietReload]).Pairwise RatchetsLe ∧
      ¬(outputs (step quietNode) (published quietNode) (run (step quietNode) quietBoot quietEntry)
          [.cycle (quietInput quietHeld), .cycle quietUnknown]).Pairwise RatchetsLe ∧
      Steps (step quietNode) (fun s _ => s.core.legActive .a = true) (run (step quietNode) quietBoot quietEntry)
        [.cycle (quietInput quietHeld), .cycle quietReload] ∧
      ¬LevelsLe ((run (step quietNode) quietBoot (quietEntry ++ [.cycle (quietInput quietHeld)])).core.effective .a)
        ((run (step quietNode) quietBoot
          (quietEntry ++ [.cycle (quietInput quietHeld), .cycle quietReload])).core.effective .a) := by
  decide +kernel

end SlowPath

end FoxTrader
