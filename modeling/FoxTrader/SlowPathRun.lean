import FoxTrader.LegAlternation
import FoxTrader.SlowPathCycle

/-! # Runs of a node's slow path

    Cycles and ticks of a node in any order, the drain of its events and the kill switch in between. The
    pack a tick runs on, `inForce`, is the last one pushed unless the slot's counter has come round to
    the one the core remembers.

    A cycle is taken apart once: what it pushes, what the ratchets make of the pending pack behind the
    push (`Advances`), and that nothing else of the core changes. -/

namespace FoxTrader

open Lib

/-! ### The core -/

namespace ExecutionCore

/-- The slot and the cache of it. -/
def held (c : ExecutionCore) : ParameterSlot GateParameters × BitVec 64 × GateParameters :=
  (c.paramSlot, c.cachedSeq, c.cachedParams)

/-- What a tick leaves alone behind its refresh. -/
def fixed (c : ExecutionCore) := (c.held, c.permission)

/-- The live stop and target of a leg. -/
def levels (c : ExecutionCore) : Leg → Money × Money
  | .a => (c.liveSl, c.liveTp)
  | .b => (c.liveSlB, c.liveTpB)

/-- The pack the next tick runs on. -/
def inForce (c : ExecutionCore) : GateParameters := c.refresh.cachedParams

/-- `can_exit_a` and `can_exit_b` of a tick. -/
def canExit (c : ExecutionCore) (t : Tick) : Leg → Bool
  | .a => c.refresh.active && c.refresh.sgFiresA t
  | .b => c.refresh.activeB && c.refresh.sgFiresB (c.cachedParams.has gateFlagPairActive) t

/-- The stop and the target a tick applies to an open leg. -/
def effective (c : ExecutionCore) (leg : Leg) : Money × Money :=
  ((c.levels leg).1.max c.inForce.ratchetSl, (c.levels leg).2.max c.inForce.ratchetTp)

variable (c : ExecutionCore) (t : Tick)

theorem exitLeg_fixed (fires : Bool) (leg : Leg) :
    (c.exitLeg t fires leg).2.fixed = c.fixed ∧ (c.exitLeg t fires leg).2.levels = c.levels := by
  cases fires <;> exact ⟨rfl, rfl⟩

theorem enter_fixed : (c.enter t).2.fixed = c.fixed := by
  unfold enter
  split
  next heq => exact congrArg (fixed ·.2) heq.symm
  next c' heq =>
    have hpush : c'.fixed = c.fixed := congrArg (fixed ·.2) heq.symm
    dsimp only
    split
    · split
      next heq' => exact (congrArg (fixed ·.2) heq'.symm).trans hpush
      next heq' => exact (congrArg (fixed ·.2) heq'.symm).trans hpush
    · exact hpush

theorem tickBody_fixed (pb : Bool) : (tickBody pb c t).fixed = c.fixed := by
  have hexits := ((c.exitLeg t (c.active && c.sgFiresA t) .a).2.exitLeg_fixed t
    (c.activeB && c.sgFiresB pb t) .b).1.trans (c.exitLeg_fixed t (c.active && c.sgFiresA t) .a).1
  refine Eq.trans ?_ hexits
  unfold tickBody
  dsimp only
  cases c.canEnter t with
  | false => rfl
  | true => exact enter_fixed _ t

/-- The levels stay while a leg is open. -/
theorem tickBody_levels (pb : Bool) (h : (c.active || c.activeB) = true) : (tickBody pb c t).levels = c.levels := by
  have hexits := ((c.exitLeg t (c.active && c.sgFiresA t) .a).2.exitLeg_fixed t
    (c.activeB && c.sgFiresB pb t) .b).2.trans (c.exitLeg_fixed t (c.active && c.sgFiresA t) .a).2
  have hclosed : c.canEnter t = false := by rw [canEnter, h]; rfl
  refine Eq.trans ?_ hexits
  unfold tickBody
  rw [hclosed]
  rfl

theorem refresh_slot : c.refresh.paramSlot = c.paramSlot ∧ c.refresh.levels = c.levels := by
  unfold refresh
  split <;> exact ⟨rfl, rfl⟩

theorem tick_permission : (c.tick t).permission = c.permission :=
  (congrArg Prod.snd (tickBody_fixed c.refresh t _)).trans c.refresh_frame.2.2.2

variable {c t}

theorem tick_levels {leg : Leg} (h : c.legActive leg = true) : (c.tick t).levels = c.levels := by
  obtain ⟨hactive, hactiveB, -, -⟩ := c.refresh_frame
  refine (tickBody_levels c.refresh t _ ?_).trans c.refresh_slot.2
  rw [hactive, hactiveB]
  cases leg with
  | a => exact Bool.or_eq_true_iff.2 (.inl h)
  | b => exact Bool.or_eq_true_iff.2 (.inr h)

/-- Without permission no leg opens. -/
theorem tick_closed {leg : Leg} (hpermission : c.permission = 0) (h : c.legActive leg = false) :
    (c.tick t).legActive leg = false := by
  rcases c.tick_cases t with ⟨ea, eb, -, -, ha, hb, -⟩ | ⟨-, -, -, henter, -⟩
  · cases leg with
    | a => exact ha.trans (Bool.and_eq_false_iff.2 (.inl h))
    | b => exact hb.trans (Bool.and_eq_false_iff.2 (.inl h))
  · have hpermitted : c.refresh.permitted = false := by
      rw [permitted, c.refresh_frame.2.2.2, hpermission]
      rfl
    rw [canEnter, hpermitted, Bool.and_false, Bool.false_and] at henter
    exact absurd henter Bool.false_ne_true

theorem inForce_eq (c : ExecutionCore) :
    c.inForce = if c.paramSlot.seq ≠ c.cachedSeq ∨ ParameterSlot.midWrite c.paramSlot.seq then c.paramSlot.read.1
      else c.cachedParams := by
  unfold inForce refresh
  split <;> rfl

theorem inForce_of_held {c c' : ExecutionCore} (h : c'.held = c.held) : c'.inForce = c.inForce := by
  rw [held, held, Prod.mk.injEq, Prod.mk.injEq] at h
  rw [inForce_eq, inForce_eq, h.1, h.2.1, h.2.2]

/-- A second refresh makes no difference. -/
theorem inForce_refresh (c : ExecutionCore) : c.refresh.inForce = c.inForce := by
  by_cases hmoved : c.paramSlot.seq ≠ c.cachedSeq ∨ ParameterSlot.midWrite c.paramSlot.seq
  · have hread : c.refresh.cachedParams = c.paramSlot.read.1 := by rw [refresh, if_pos hmoved]
    rw [inForce_eq, inForce_eq, if_pos hmoved, hread, c.refresh_slot.1, ite_self]
  · rw [refresh, if_neg hmoved]

/-- A tick does not change the pack of the next one. -/
theorem inForce_tick (c : ExecutionCore) (t : Tick) : (c.tick t).inForce = c.inForce :=
  (inForce_of_held (congrArg Prod.fst (tickBody_fixed _ t _))).trans c.inForce_refresh

/-- A push is in force unless the counter comes round to the one the core remembers. -/
theorem inForce_setParameters {c : ExecutionCore} (h : c.paramSlot.seq + 2 ≠ c.cachedSeq) (p : GateParameters)
    (publishTick : Nat) : (c.setParameters p publishTick).inForce = p := by
  rw [inForce_eq, if_pos (.inl h)]
  exact congrArg Prod.fst (c.paramSlot.read_write p publishTick)

/-- What the exit of an open leg comes down to. -/
theorem canExit_eq (c : ExecutionCore) (t : Tick) {leg : Leg} (h : c.legActive leg = true) :
    c.canExit t leg = (c.inForce.has gateFlagTpEnabled && t.price.ge (c.effective leg).2 ||
      c.inForce.has gateFlagSlEnabled && t.price.le (c.effective leg).1) := by
  obtain ⟨hactive, hactiveB, -, -⟩ := c.refresh_frame
  have hlevels := congrFun c.refresh_slot.2
  cases leg with
  | a =>
    have ha : c.refresh.active = true := hactive.trans h
    have hsl : c.refresh.liveSl = c.liveSl := congrArg Prod.fst (hlevels .a)
    have htp : c.refresh.liveTp = c.liveTp := congrArg Prod.snd (hlevels .a)
    simp only [canExit, sgFiresA, ha, if_true, Bool.true_and, hsl, htp]
    rfl
  | b =>
    have hb : c.refresh.activeB = true := hactiveB.trans h
    have hsl : c.refresh.liveSlB = c.liveSlB := congrArg Prod.fst (hlevels .b)
    have htp : c.refresh.liveTpB = c.liveTpB := congrArg Prod.snd (hlevels .b)
    simp only [canExit, sgFiresB, hb, if_true, Bool.true_and, Bool.and_true, ite_self, hsl, htp]
    rfl

end ExecutionCore

/-! ### The ratchets -/

/-- `q` has the flags of `p`, and no ratchet of it is lower. -/
structure Advances (p q : GateParameters) : Prop where
  flags : q.flags = p.flags
  ratchetSl : p.ratchetSl.v ≤ q.ratchetSl.v
  ratchetTp : p.ratchetTp.v ≤ q.ratchetTp.v

theorem Advances.refl (p : GateParameters) : Advances p p := ⟨rfl, le_rfl, le_rfl⟩

theorem Advances.trans {p q r : GateParameters} (h : Advances p q) (h' : Advances q r) : Advances p r :=
  ⟨h'.flags.trans h.flags, h.ratchetSl.trans h'.ratchetSl, h.ratchetTp.trans h'.ratchetTp⟩

namespace SlowNode

theorem advances_advanceSl (node : SlowNode) (sl : Money) :
    Advances node.pendingParams (node.advanceSl sl).1.pendingParams := by
  unfold advanceSl
  split
  next habove => exact ⟨rfl, (Money.gt_iff.1 habove).le, le_rfl⟩
  next => exact .refl _

theorem advances_advanceTp (node : SlowNode) (tp : Money) :
    Advances node.pendingParams (node.advanceTp tp).1.pendingParams := by
  unfold advanceTp
  split
  next habove => exact ⟨rfl, le_rfl, (Money.gt_iff.1 habove).le⟩
  next => exact .refl _

theorem advances_writeRatchetSL (node : SlowNode) (proposedSl entryPrice feeTaker : Money) :
    Advances node.pendingParams (node.writeRatchetSL proposedSl entryPrice feeTaker).1.pendingParams := by
  unfold writeRatchetSL
  split
  · exact .refl _
  · exact node.advances_advanceSl _

theorem advances_writeRatchetTP (node : SlowNode) (proposedTp : Money) :
    Advances node.pendingParams (node.writeRatchetTP proposedTp).1.pendingParams := by
  unfold writeRatchetTP
  split
  · exact .refl _
  · exact node.advances_advanceTp _

/-- One writer after the other, for each of a list. -/
theorem advances_foldl {α : Type} {write : SlowNode → α → SlowNode}
    (hwrite : ∀ node a, Advances node.pendingParams (write node a).pendingParams) (node : SlowNode) (as : List α) :
    Advances node.pendingParams (as.foldl write node).pendingParams := by
  induction as generalizing node with
  | nil => exact .refl _
  | cons a as ih => exact (hwrite node a).trans (ih _)

theorem advances_writeEachSL (sl feeTaker : Money) (node : SlowNode) (held : List Position) :
    Advances node.pendingParams (node.writeEachSL sl feeTaker held).pendingParams :=
  advances_foldl (fun node (pos : Position) => node.advances_writeRatchetSL sl pos.entryPrice feeTaker) node held

variable (n : NodeIdx) (x : CycleInput) (node : SlowNode)

theorem advances_switchTp : Advances node.pendingParams (switchTp x node).pendingParams := by
  unfold switchTp
  dsimp only
  split
  · exact node.advances_writeRatchetTP _
  · split
    · exact node.advances_writeRatchetTP _
    · exact .refl _

theorem advances_switchRatchets : Advances node.pendingParams (switchRatchets n x node).pendingParams := by
  unfold switchRatchets
  dsimp only
  split
  · exact (node.advances_writeEachSL _ _ _).trans (advances_switchTp x _)
  · exact .refl _

theorem advances_trail (mult : Fpn) : Advances node.pendingParams (trail n x mult node).pendingParams :=
  node.advances_writeEachSL _ _ _

theorem advances_exitAdjustPerCore : Advances node.pendingParams (exitAdjustPerCore n x node).pendingParams := by
  unfold exitAdjustPerCore
  split
  · exact .refl _
  next s hs =>
    split
    · exact .refl _
    · cases s with
      | simpleDip => exact .refl _
      | emaCross =>
        exact advances_foldl (fun node (p : Money × Money) => node.advances_writeRatchetSL p.1 p.2 x.feeTaker) node _
      | _ =>
        dsimp only
        split
        · exact node.advances_trail n x _
        · exact .refl _

theorem advances_tradeRatchets (h : x.atClear.nodeSlots x.cfg.partialExitEnabled n ≠ []) :
    Advances node.pendingParams (tradeRatchets n x node).pendingParams := by
  unfold tradeRatchets
  rw [if_neg (Bool.eq_false_iff.1 (List.isEmpty_eq_false_iff.2 h))]
  exact node.advances_exitAdjustPerCore n x

/-- With a slot or without one, the flags stay. -/
theorem tradeRatchets_flags : (tradeRatchets n x node).pendingParams.flags = node.pendingParams.flags := by
  unfold tradeRatchets
  split
  · rfl
  · exact (node.advances_exitAdjustPerCore n x).flags

theorem advances_trailPosition (price : Float) (pos : Position) :
    Advances node.pendingParams (trailPosition x price node pos).pendingParams := by
  unfold trailPosition
  dsimp only
  split
  · exact .refl _
  · split
    · exact .refl _
    · exact node.advances_advanceSl _

theorem advances_breakevenPosition (price : Float) (pos : Position) :
    Advances node.pendingParams (breakevenPosition x price node pos).pendingParams := by
  unfold breakevenPosition
  dsimp only
  split
  · exact .refl _
  · split
    · exact .refl _
    · exact node.advances_advanceSl _

end SlowNode

namespace SlowPath

/-- Behind a push the ratchets only advance. -/
theorem advances_ratchets (n : NodeIdx) (x : CycleInput) (node : SlowNode) :
    Advances node.pendingParams (ratchets n x node).pendingParams := by
  have htrail : ∀ node : SlowNode, Advances node.pendingParams
      (node.trailingSLRatchetOneCore n x x.price.toDouble).pendingParams := fun node =>
    SlowNode.advances_foldl (SlowNode.advances_trailPosition x · _) node _
  have hbreakeven : ∀ node : SlowNode, Advances node.pendingParams
      (node.breakevenOnProfitOneCore n x x.price.toDouble).pendingParams := fun node =>
    SlowNode.advances_foldl (SlowNode.advances_breakevenPosition x · _) node _
  unfold ratchets
  dsimp only
  split
  · refine Advances.trans ?_ (hbreakeven _)
    split
    · exact htrail node
    · exact .refl _
  · split
    · exact htrail node
    · exact .refl _

end SlowPath

/-! ### One cycle -/

/-- The node with the builder's pack. -/
def SlowNode.withBuilt (n : NodeIdx) (x : CycleInput) (node : SlowNode) : SlowNode :=
  { switchRatchets n x node with pendingParams := (dispatch x (switchRatchets n x node)).params }

namespace SlowContext

variable {n : NodeIdx} {x : CycleInput} {ctx : SlowContext}

theorem rebuild_of_skip (h : x.skipsRebuild ctx.node = true) :
    (ctx.rebuildOneCore n x).node = { ctx.node with dirty := true } := by
  unfold rebuildOneCore
  rw [if_pos h]

/-- A full rebuild leaves the gated pack, and when it was. -/
theorem rebuild_of_full (h : x.skipsRebuild ctx.node = false) :
    (ctx.rebuildOneCore n x).node.pendingParams = (ctx.gated n x).params ∧
      (ctx.rebuildOneCore n x).node.usAtLastRebuild = x.nowUs := by
  unfold rebuildOneCore
  rw [if_neg (Bool.eq_false_iff.1 h)]
  exact ⟨rfl, rfl⟩

theorem rebuild_dirty (ctx : SlowContext) : (ctx.rebuildOneCore n x).node.dirty = true := by
  unfold rebuildOneCore
  split <;> rfl

/-- The trade's ratchets work on the builder's pack, and the gates on what they leave. -/
theorem narrows_gated (ctx : SlowContext) :
    Narrows (SlowNode.tradeRatchets n x (SlowNode.withBuilt n x ctx.node)).pendingParams (ctx.gated n x).params :=
  x.narrows_gates ⟨(ctx.built n x).1.pendingParams, .ok, (ctx.built n x).2, (ctx.built n x).1.slCooldownRemaining⟩

end SlowContext

namespace SlowPath

variable {n : NodeIdx} {x : CycleInput}

/-- The pack a cycle pushes. -/
def pushed (n : NodeIdx) (x : CycleInput) (s : SlowPath) : GateParameters :=
  (s.ctx.rebuildOneCore n x).node.pendingParams

theorem push_rebuilt (s : SlowPath) :
    push x { s with ctx := s.ctx.rebuildOneCore n x } =
      { ctx := { s.ctx.rebuildOneCore n x with node := { (s.ctx.rebuildOneCore n x).node with dirty := false } }
        core := s.core.setParameters (s.pushed n x) x.nowTick } := by
  unfold push
  rw [if_pos s.ctx.rebuild_dirty]
  rfl

theorem grant_ctx (s : SlowPath) : (grant x s).ctx = s.ctx := by
  unfold grant
  split <;> rfl

theorem grant_core (s : SlowPath) : (grant x s).core = s.core ∨ (grant x s).core = s.core.setPermission 1 := by
  unfold grant
  split
  · exact .inr rfl
  · exact .inl rfl

/-- The core behind a cycle: the push, and perhaps the permission. -/
theorem cycle_core (s : SlowPath) :
    (s.slowPathCycleOneCore n x).core = s.core.setParameters (s.pushed n x) x.nowTick ∨
      (s.slowPathCycleOneCore n x).core = (s.core.setParameters (s.pushed n x) x.nowTick).setPermission 1 := by
  unfold slowPathCycleOneCore
  rw [push_rebuilt]
  exact grant_core _

/-- The pending pack behind a cycle: what was pushed, under the ratchets. -/
theorem advances_cycle (s : SlowPath) :
    Advances (s.pushed n x) (s.slowPathCycleOneCore n x).ctx.node.pendingParams := by
  unfold slowPathCycleOneCore
  rw [push_rebuilt, grant_ctx]
  exact advances_ratchets n x { (s.ctx.rebuildOneCore n x).node with dirty := false }

theorem cycle_inForce {s : SlowPath} (h : s.core.paramSlot.seq + 2 ≠ s.core.cachedSeq) :
    (s.slowPathCycleOneCore n x).core.inForce = s.pushed n x := by
  have hset := ExecutionCore.inForce_setParameters h (s.pushed n x) x.nowTick
  rcases s.cycle_core (n := n) (x := x) with hcore | hcore
  · rw [hcore, hset]
  · have hheld : ((s.core.setParameters (s.pushed n x) x.nowTick).setPermission 1).held =
        (s.core.setParameters (s.pushed n x) x.nowTick).held := rfl
    rw [hcore, ExecutionCore.inForce_of_held hheld, hset]

theorem cycle_legs (s : SlowPath) (leg : Leg) :
    (s.slowPathCycleOneCore n x).core.legActive leg = s.core.legActive leg ∧
      (s.slowPathCycleOneCore n x).core.levels leg = s.core.levels leg := by
  rcases s.cycle_core (n := n) (x := x) with hcore | hcore <;>
  · rw [hcore]
    cases leg <;> exact ⟨rfl, rfl⟩

end SlowPath

/-! ### Runs -/

/-- A cycle on what it reads, a tick of the core, the drain taking an event of it, and the kill switch
    taking its permission. -/
inductive SlowAct where
  | cycle (x : CycleInput)
  | tick (t : Tick)
  | drain
  | revoke

namespace SlowPath

def step (n : NodeIdx) (s : SlowPath) : SlowAct → SlowPath
  | .cycle x => s.slowPathCycleOneCore n x
  | .tick t => { s with core := s.core.tick t }
  | .drain => { s with core := { s.core with eventRing := s.core.eventRing.tryPop.2 } }
  | .revoke => { s with core := s.core.setPermission 0 }

/-- The packs a step publishes. -/
def published (n : NodeIdx) (s : SlowPath) : SlowAct → List GateParameters
  | .cycle x => [s.pushed n x]
  | _ => []

/-- Nothing is pending, pushed or cached at boot; a snapshot may have restored the legs. -/
structure Booted (s : SlowPath) : Prop where
  pendingParams : s.ctx.node.pendingParams = .init
  usAtLastRebuild : s.ctx.node.usAtLastRebuild = 0
  paramSlot : s.core.paramSlot = .init .init
  cachedSeq : s.core.cachedSeq = -1
  permission : s.core.permission = 0

/-- The push of a cycle does not bring the slot's counter round to the one the core remembers, as `2⁶³`
    pushes without a tick would. -/
def CountsOn (s : SlowPath) : SlowAct → Prop
  | .cycle _ => s.core.paramSlot.seq + 2 ≠ s.core.cachedSeq
  | _ => True

instance (s : SlowPath) : (a : SlowAct) → Decidable (s.CountsOn a)
  | .cycle _ => inferInstanceAs (Decidable (s.core.paramSlot.seq + 2 ≠ s.core.cachedSeq))
  | .tick _ => inferInstanceAs (Decidable True)
  | .drain => inferInstanceAs (Decidable True)
  | .revoke => inferInstanceAs (Decidable True)

/-- Only a cycle changes what is pending and in force. -/
theorem step_of_cycle_or (n : NodeIdx) (s : SlowPath) (a : SlowAct) :
    (∃ x, a = .cycle x) ∨ ((s.step n a).ctx = s.ctx ∧ (s.step n a).core.inForce = s.core.inForce ∧
      s.published n a = []) := by
  cases a with
  | cycle x => exact .inl ⟨x, rfl⟩
  | tick t => exact .inr ⟨rfl, s.core.inForce_tick t, rfl⟩
  | drain => exact .inr ⟨rfl, ExecutionCore.inForce_of_held rfl, rfl⟩
  | revoke => exact .inr ⟨rfl, ExecutionCore.inForce_of_held rfl, rfl⟩

/-- The levels of an open leg stay. -/
theorem step_levels (n : NodeIdx) {s : SlowPath} {leg : Leg} (h : s.core.legActive leg = true) (a : SlowAct) :
    (s.step n a).core.levels leg = s.core.levels leg := by
  cases a with
  | cycle x => exact (s.cycle_legs leg).2
  | tick t => exact congrFun (ExecutionCore.tick_levels h) leg
  | drain => cases leg <;> rfl
  | revoke => cases leg <;> rfl

theorem Booted.inForce {s : SlowPath} (h : s.Booted) : s.core.inForce = .init := by
  rw [ExecutionCore.inForce_eq, h.paramSlot, h.cachedSeq]
  rfl

end SlowPath

/-! ### A quiet node

    An ML node without a model, on a steady window, with a stop at five percent and everything that can
    be off switched off. -/

def quietSlice : StrategyCfg where
  entryOffsetPct := .zero
  takeProfitPct := (Money.saturate 10000000).val
  stopLossPct := (Money.saturate 5000000).val
  simpledipTpPct := .zero
  simpledipSlPct := .zero
  mrTpPct := .zero
  mrSlPct := .zero
  emacrossTpPct := .zero
  emacrossSlPct := .zero
  mlTpPct := .zero
  mlSlPct := .zero
  momentumMinTpMarginPct := .zero
  tp2Mult := .zero
  feeRate := .zero
  feeRateTaker := .zero
  feeFloorMult := .zero
  volumeMultiplier := .zero
  offsetStddevMult := .zero
  spacingMultiplier := .zero
  slTrailMult := .zero
  tpHoldScore := .zero
  momentumTpMult := .zero
  momentumSlMult := .zero
  momentumMinR2 := .zero
  momentumMinBuyDeltaRecent := .zero
  emacrossCrossoverMin := .zero
  emacrossDipMult := .zero
  mlBuyThreshold := .zero
  confidenceThresholdScale := .zero
  confidenceHardBlockThreshold := .zero
  riskFullSizeThreshold := .zero
  riskMinSizeThreshold := .zero
  riskMinSizePct := .zero
  foxmlVolScalingZMax := .zero
  riskDegradationCurve := 0
  barrierBlendMode := 0
  perHorizonBarrierBlend := false
  barrierGateEnabled := false
  costGateEnabled := false
  foxmlVolScalingEnabled := false
  partialExitEnabled := false

def quietWindow : RollingStats :=
  { RollingStats.init with
    priceAvg := .fromInt 100, priceStddev := .fromInt 1, priceRSquared := .fromInt 1, priceMax := .fromInt 100
    count := 64 }

def quietBuild : BuildInput where
  cfg := quietSlice
  gates := ⟨false, false, false⟩
  rolling := quietWindow
  rollingLong := quietWindow
  allocatedBalance := (Money.fromInt 1000).val
  state := none
  ml := ⟨false, true, true, none, none, 0.0, 0.0, false⟩

def quietCfg : CycleCfg where
  lazyRebuildEnabled := false
  lazyRebuildForcePeriodUs := 0
  lazyRebuildPriceThresholdPct := .zero
  partialExitEnabled := false
  paramStalenessGateEnabled := false
  paramMaxAgeTicks := 0
  minWarmupSamples := 0
  breakevenOnProfit := false
  depthEnabled := false
  minBookImbalance := .zero
  sessionMult := .zero
  filterScale := .zero
  offsetMin := .zero
  offsetMax := .zero
  volMultMin := .zero
  volMultMax := .zero
  momentumTpMult := .zero
  momentumSlMult := .zero
  slTrailMult := .fromInt 1
  tpHoldScore := .zero
  spikeThreshold := .zero
  spikeSpacingReduction := .zero
  vwapOffset := .zero
  minLongSlope := .zero
  minBuyDelta := .zero
  minStddevPct := .zero

/-- A cycle in which the node holds `portfolio`. -/
def quietInput (portfolio : Portfolio) : CycleInput where
  cfg := quietCfg
  build := quietBuild
  strategyId := Strategy.ml.id
  stateKind := some Strategy.ml.id
  mildTrendDefault := .momentum
  oldRegime := regimeRanging
  newRegime := regimeRanging
  pnlFit := none
  priceFit := none
  emaCrossProposals := []
  bookImbalance := .zero
  omsPartialExit := false
  atSwitch := portfolio
  atClear := portfolio
  atExitAdjust := portfolio
  atTrailing := portfolio
  atBreakeven := portfolio
  nodeOpenNotional := .zero
  lastEntryPrice := .zero
  killTripped := false
  globalKill := false
  recoveryUntilUs := 0
  nowUs := 1
  clockUs := 1
  nowTick := 1
  price := (Money.fromInt 100).val

/-- Slot 1 bought at 100. -/
def quietHeld : Portfolio where
  positions := fun _ =>
    { Position.empty with entryPrice := (Money.fromInt 100).val, quantity := (Money.fromInt 1).val }
  active := fun slot => decide (slot.val = 1)

theorem quietNode_lt : 1 < 16 := by decide

def quietNode : NodeIdx := ⟨1, quietNode_lt⟩

def quietFlat : Portfolio := { quietHeld with active := fun _ => false }

def quietBoot : SlowPath where
  ctx :=
    { node := ⟨.init, false, 0, 0, .zero⟩
      haltReason := .ok, strategyHaltReason := .ok, resolvedStrategyId := 0
      intendedTp := .zero, intendedSl := .zero, intendedQty := .zero }
  core := .init 1

def quietTick (price : ℤ) : Tick := ⟨(Money.fromInt price).val, .zero, 0, 1⟩

theorem quietBoot_booted : quietBoot.Booted := ⟨rfl, rfl, rfl, rfl, rfl⟩

/-- A buy at 99. -/
def quietEntry : List SlowAct := [.cycle (quietInput quietFlat), .tick (quietTick 99)]

end FoxTrader
