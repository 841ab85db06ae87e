import FoxTrader.SlowPathRun

/-! # The exits of an open leg

    A pack that blocks new entries is to leave the exits of an open leg armed. Every builder arms both,
    and what comes behind the builder only adds to the flags. The ML builder's two early returns, below
    the confidence floor and at the bottom of the ladder, assign the veto bit alone, and so does the
    dispatch of an id without a builder leave no flag at all.

    Where no cycle takes one of these ways, every pack that an open leg reads has both exits armed, and a
    tick at or below the leg's stop takes it out (`exits_armed`). A leg that a snapshot restored reads
    the pack of the boot, which has no flags, until the node's first cycle. -/

namespace FoxTrader

open Lib

namespace GateParameters

/-- Both exits are enabled. -/
def Armed (p : GateParameters) : Prop := p.has gateFlagTpEnabled = true ∧ p.has gateFlagSlEnabled = true

instance (p : GateParameters) : Decidable p.Armed := inferInstanceAs (Decidable (_ ∧ _))

theorem armed_iff {p : GateParameters} : p.Armed ↔ p.flags &&& exitFlags = exitFlags := by
  have hflags : ∀ f : BitVec 8, (decide (f &&& gateFlagTpEnabled ≠ 0) = true ∧
      decide (f &&& gateFlagSlEnabled ≠ 0) = true) ↔ f &&& exitFlags = exitFlags := by decide +kernel
  exact hflags p.flags

theorem armed_congr {p q : GateParameters} (h : q.flags &&& exitFlags = p.flags &&& exitFlags) :
    q.Armed ↔ p.Armed := by
  rw [armed_iff, armed_iff, h]

end GateParameters

open GateParameters

namespace SlowPath

variable {n : NodeIdx}

/-! ### The condition -/

/-- A rebuild that is not skipped leaves the exits armed: its id has a builder, and not an ML builder that
    refuses. -/
def KeepsExits (s : SlowPath) : SlowAct → Prop
  | .cycle x => x.skipsRebuild s.ctx.node = true ∨ x.dispatched.disarms x.effectiveStrategyId = false
  | _ => True

instance (s : SlowPath) : (a : SlowAct) → Decidable (s.KeepsExits a)
  | .cycle _ => inferInstanceAs (Decidable (_ ∨ _))
  | .tick _ => inferInstanceAs (Decidable True)
  | .drain => inferInstanceAs (Decidable True)
  | .revoke => inferInstanceAs (Decidable True)

/-! ### One cycle -/

/-- Once there was a rebuild, the pending pack is armed. -/
def Rebuilt (s : SlowPath) : Prop := s.ctx.node.usAtLastRebuild ≠ 0 → s.ctx.node.pendingParams.Armed

theorem rebuilt_of_skip {x : CycleInput} {node : SlowNode} (h : x.skipsRebuild node = true) :
    node.usAtLastRebuild ≠ 0 := by
  unfold CycleInput.skipsRebuild at h
  simp only [Bool.and_eq_true, bne_iff_ne] at h
  exact h.1.1.1.2

/-- The builder decides about the exits of a full rebuild. -/
theorem armed_gated_iff (s : SlowPath) (x : CycleInput) :
    (s.ctx.gated n x).params.Armed ↔ x.dispatched.disarms x.effectiveStrategyId = false := by
  have hgates := s.ctx.narrows_gated (n := n) (x := x)
  have htrade := SlowNode.tradeRatchets_flags n x (SlowNode.withBuilt n x s.ctx.node)
  calc (s.ctx.gated n x).params.Armed
    _ ↔ (SlowNode.tradeRatchets n x (SlowNode.withBuilt n x s.ctx.node)).pendingParams.Armed :=
      armed_congr hgates.exits
    _ ↔ (SlowNode.withBuilt n x s.ctx.node).pendingParams.Armed := armed_congr (congrArg (· &&& exitFlags) htrade)
    _ ↔ x.dispatched.disarms x.effectiveStrategyId = false :=
      armed_iff.trans (BuildInput.exits_built_iff x.dispatched x.effectiveStrategyId _ .ok)

/-- A cycle pushes an armed pack exactly if it keeps the exits. -/
theorem armed_pushed_iff {s : SlowPath} (h : s.Rebuilt) (x : CycleInput) :
    (s.pushed n x).Armed ↔ s.KeepsExits (.cycle x) := by
  have hkeeps : s.KeepsExits (.cycle x) ↔
      x.skipsRebuild s.ctx.node = true ∨ x.dispatched.disarms x.effectiveStrategyId = false := Iff.rfl
  rw [hkeeps, pushed]
  rcases Bool.eq_false_or_eq_true (x.skipsRebuild s.ctx.node) with hskip | hfull
  · rw [SlowContext.rebuild_of_skip hskip]
    exact iff_of_true (h (rebuilt_of_skip hskip)) (.inl hskip)
  · rw [(SlowContext.rebuild_of_full hfull).1, armed_gated_iff, hfull]
    exact (or_iff_right Bool.false_ne_true).symm

/-! ### Runs -/

/-- A cycle that keeps the exits puts an armed pack in force. -/
theorem armed_cycle {s : SlowPath} (h : s.Rebuilt) {x : CycleInput} (hcount : s.CountsOn (.cycle x))
    (hkeep : s.KeepsExits (.cycle x)) : (s.step n (.cycle x)).core.inForce.Armed := by
  have hforce : (s.slowPathCycleOneCore n x).core.inForce = s.pushed n x := cycle_inForce hcount
  rw [step, hforce]
  exact (armed_pushed_iff h x).2 hkeep

theorem Booted.rebuilt {s : SlowPath} (h : s.Booted) : s.Rebuilt := fun hus => absurd h.usAtLastRebuild hus

theorem rebuilt_step (n : NodeIdx) (s : SlowPath) (a : SlowAct) (h : s.Rebuilt)
    (hok : s.CountsOn a ∧ s.KeepsExits a) : (s.step n a).Rebuilt := by
  obtain ⟨x, rfl⟩ | ⟨hctx, -, -⟩ := step_of_cycle_or n s a
  · have hpending := (s.advances_cycle (n := n) (x := x)).flags
    exact fun _ => (armed_congr (congrArg (· &&& exitFlags) hpending)).2 ((armed_pushed_iff h x).2 hok.2)
  · rw [Rebuilt, hctx]
    exact h

/-- The pack in force is armed, or there was no cycle yet and the leg stays closed. -/
def Covered (leg : Leg) (s : SlowPath) : Prop :=
  s.core.inForce.Armed ∨ s.core.permission = 0 ∧ s.core.legActive leg = false

theorem covered_step (n : NodeIdx) (leg : Leg) (s : SlowPath) (a : SlowAct) (h : s.Rebuilt ∧ s.Covered leg)
    (hok : s.CountsOn a ∧ s.KeepsExits a) : (s.step n a).Rebuilt ∧ (s.step n a).Covered leg := by
  refine ⟨rebuilt_step n s a h.1 hok, ?_⟩
  cases a with
  | cycle x => exact .inl (armed_cycle h.1 hok.1 hok.2)
  | tick t =>
    rw [Covered, step, s.core.inForce_tick t]
    exact h.2.imp_right fun ⟨hpermission, hclosed⟩ =>
      ⟨(s.core.tick_permission t).trans hpermission, ExecutionCore.tick_closed hpermission hclosed⟩
  | drain =>
    have hforce : (s.step n .drain).core.inForce = s.core.inForce := ExecutionCore.inForce_of_held rfl
    rw [Covered, hforce]
    exact h.2.imp_right fun ⟨hpermission, hclosed⟩ => ⟨hpermission, by cases leg <;> exact hclosed⟩
  | revoke =>
    have hforce : (s.step n .revoke).core.inForce = s.core.inForce := ExecutionCore.inForce_of_held rfl
    rw [Covered, hforce]
    exact h.2.imp_right fun ⟨_, hclosed⟩ => ⟨rfl, by cases leg <;> exact hclosed⟩

/-- An armed exit takes out a leg at or below its stop. -/
theorem canExit_of_armed {c : ExecutionCore} {leg : Leg} (harmed : c.inForce.Armed) (hopen : c.legActive leg = true)
    {t : Tick} (hprice : t.price.v ≤ (c.levels leg).1.v) : c.canExit t leg = true := by
  have hstop : t.price.le (c.effective leg).1 = true := by
    unfold ExecutionCore.effective Money.le
    rw [Money.max_v]
    exact decide_eq_true (le_max_of_le_left hprice)
  rw [c.canExit_eq t hopen, harmed.2, hstop, Bool.and_self, Bool.or_true]

/-- In a run whose cycles all keep the exits an open leg reads an armed pack, and a tick at or below its stop
    takes it out. If a snapshot restored the leg, this begins with the first cycle. -/
theorem exits_armed (n : NodeIdx) {s : SlowPath} (hboot : s.Booted) (as : List SlowAct)
    (hok : Steps (step n) (fun s a => s.CountsOn a ∧ s.KeepsExits a) s as) (leg : Leg)
    (hfirst : s.core.legActive leg = false ∨ ∃ x, .cycle x ∈ as)
    (hopen : (run (step n) s as).core.legActive leg = true) :
    (run (step n) s as).core.inForce.Armed ∧
      ∀ t : Tick, t.price.v ≤ ((run (step n) s as).core.levels leg).1.v →
        (run (step n) s as).core.canExit t leg = true := by
  have hcovered : (run (step n) s as).Covered leg := by
    rcases hfirst with hclosed | ⟨x, hx⟩
    · exact (run_inv_of_steps (covered_step n leg) as ⟨hboot.rebuilt, .inr ⟨hboot.permission, hclosed⟩⟩ hok).2
    · obtain ⟨as₁, as₂, rfl⟩ := List.append_of_mem hx
      obtain ⟨hok₁, hcycle, hok₂⟩ := steps_append.1 hok
      have hrebuilt := run_inv_of_steps (rebuilt_step n) as₁ hboot.rebuilt hok₁
      have harmed := armed_cycle (n := n) hrebuilt hcycle.1 hcycle.2
      rw [run_append, run_cons]
      exact (run_inv_of_steps (covered_step n leg) as₂ ⟨rebuilt_step n _ _ hrebuilt hcycle, .inl harmed⟩ hok₂).2
  have harmed := hcovered.resolve_right fun hstill => absurd (hopen.symm.trans hstill.2) (by decide)
  exact ⟨harmed, fun t hprice => canExit_of_armed harmed hopen hprice⟩

/-! A leg bought at 99 on a stop of 94.05. -/

/-- The node holds its slot, and its pack is rebuilt as before. -/
def quietHold : List SlowAct := quietEntry ++ [.cycle (quietInput quietHeld)]

theorem exits_armed_held :
    (run (step quietNode) quietBoot quietHold).core.inForce.Armed ∧
      ∀ t : Tick, t.price.v ≤ ((run (step quietNode) quietBoot quietHold).core.levels .a).1.v →
        (run (step quietNode) quietBoot quietHold).core.canExit t .a = true :=
  exits_armed quietNode quietBoot_booted quietHold (by decide +kernel) .a (.inl rfl) (by decide +kernel)

/-- The cycle of a model that is back, with a confidence of 0.1 under a floor of 0.5. -/
def quietDoubt : CycleInput :=
  { quietInput quietHeld with
    build := { quietBuild with
      cfg := { quietSlice with confidenceHardBlockThreshold := .half }
      gates := ⟨false, true, false⟩
      ml := ⟨true, true, true, some ⟨0.9, 0.0, 1.0⟩, none, 0.1, 0.0, false⟩ } }

/-- Boot with leg A restored on a stop of 90. -/
def quietRestored : SlowPath :=
  { quietBoot with core := { quietBoot.core with active := true, liveSl := (Money.fromInt 90).val } }

/-- Behind it the leg is open on a pack without exits, and a tick at 80 leaves it open; so it leaves a leg that
    was restored, before the first cycle. -/
theorem exits_disarmed :
    ((run (step quietNode) quietBoot (quietEntry ++ [.cycle quietDoubt])).core.legActive .a = true ∧
      ¬(run (step quietNode) quietBoot (quietEntry ++ [.cycle quietDoubt])).core.inForce.Armed ∧
      (quietTick 80).price.v ≤
        ((run (step quietNode) quietBoot (quietEntry ++ [.cycle quietDoubt])).core.levels .a).1.v ∧
      (run (step quietNode) quietBoot (quietEntry ++ [.cycle quietDoubt, .tick (quietTick 80)])).core.legActive .a =
        true) ∧
      quietRestored.Booted ∧ (quietTick 80).price.v ≤ (quietRestored.core.levels .a).1.v ∧
      (run (step quietNode) quietRestored [.tick (quietTick 80)]).core.legActive .a = true :=
  ⟨by decide +kernel, ⟨rfl, rfl, rfl, rfl, rfl⟩, by decide +kernel⟩

end SlowPath

end FoxTrader
