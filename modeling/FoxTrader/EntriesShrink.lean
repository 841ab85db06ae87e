import FoxTrader.SlowPathRun

/-! # What takes entries away

    Behind the builder of a strategy a rebuild only takes entries away: the dispatcher's own checks, the
    gates and the kill flags close the buy gate or leave it, and the ratchets do not touch it. A tick that
    passes the gate of the pack in force passes the gate of the pack the builder made. -/

namespace FoxTrader

open Lib GateParameters

/-! ### What only takes entries away -/

/-- No tick passes the buy gate of `q` that does not pass that of `p`. -/
def Shrinks (p q : GateParameters) : Prop := ∀ t : Tick, q.bgEvaluate t = true → p.bgEvaluate t = true

variable {p q r : GateParameters}

theorem Shrinks.refl (p : GateParameters) : Shrinks p p := fun _ => id

theorem Shrinks.trans (h : Shrinks p q) (h' : Shrinks q r) : Shrinks p r := fun t => h t ∘ h' t

/-- The buy gate reads the two thresholds and three of the flags. -/
structure SameGate (p q : GateParameters) : Prop where
  price : q.bgPriceThreshold = p.bgPriceThreshold
  volume : q.bgVolumeThreshold = p.bgVolumeThreshold
  flags : q.flags = p.flags

theorem SameGate.refl (p : GateParameters) : SameGate p p := ⟨rfl, rfl, rfl⟩

theorem SameGate.shrinks (h : SameGate p q) : Shrinks p q := by
  intro t
  unfold bgEvaluate has
  rw [h.price, h.volume, h.flags]
  exact id

/-- A pack under the veto buys nothing. -/
theorem shrinks_of_blocked (h : q.has gateFlagBuyBlocked = true) : Shrinks p q := by
  intro t ht
  unfold bgEvaluate at ht
  rw [h, Bool.not_true, Bool.and_false] at ht
  exact absurd ht Bool.false_ne_true

theorem has_or_of_disjoint {m k : BitVec 8} (h : m &&& k = 0#8) (p : GateParameters) :
    { p with flags := p.flags ||| m : GateParameters }.has k = p.has k := by
  unfold has
  rw [and_or_of_disjoint h]

theorem has_and_not_of_disjoint {m k : BitVec 8} (h : m &&& k = 0#8) (p : GateParameters) :
    { p with flags := p.flags &&& ~~~m : GateParameters }.has k = p.has k := by
  unfold has
  rw [and_not_of_disjoint h]

/-- Bits that the buy gate does not read. -/
def gateBits : BitVec 8 := gateFlagBuyAbove ||| gateFlagVolumeRequired ||| gateFlagBuyBlocked

theorem disjoint_of_gateBits {m : BitVec 8} (h : m &&& gateBits = 0#8) :
    m &&& gateFlagBuyAbove = 0#8 ∧ m &&& gateFlagVolumeRequired = 0#8 ∧ m &&& gateFlagBuyBlocked = 0#8 := by
  unfold gateBits at h
  rw [BitVec.and_or_distrib_left, BitVec.and_or_distrib_left, BitVec.or_eq_zero_iff, BitVec.or_eq_zero_iff] at h
  exact ⟨h.1.1, h.1.2, h.2⟩

theorem shrinks_or {m : BitVec 8} (h : m &&& gateBits = 0#8) (p : GateParameters) :
    Shrinks p { p with flags := p.flags ||| m } := by
  obtain ⟨habove, hvolume, hblocked⟩ := disjoint_of_gateBits h
  intro t
  unfold bgEvaluate
  rw [has_or_of_disjoint habove, has_or_of_disjoint hvolume, has_or_of_disjoint hblocked]
  exact id

theorem shrinks_and_not {m : BitVec 8} (h : m &&& gateBits = 0#8) (p : GateParameters) :
    Shrinks p { p with flags := p.flags &&& ~~~m } := by
  obtain ⟨habove, hvolume, hblocked⟩ := disjoint_of_gateBits h
  intro t
  unfold bgEvaluate
  rw [has_and_not_of_disjoint habove, has_and_not_of_disjoint hvolume, has_and_not_of_disjoint hblocked]
  exact id

/-! ### Behind the builder -/

namespace BuildInput

variable (x : BuildInput) (b : Built)

theorem shrinks_block (b : Built) : Shrinks b.params b.block.params := shrinks_of_blocked (blocked_or b.params)

theorem shrinks_momentumFilters : Shrinks b.params (x.momentumFilters b).params := by
  unfold momentumFilters
  dsimp only
  split
  · exact shrinks_block b
  · split
    · exact shrinks_block b
    · split
      · exact shrinks_block b
      · exact .refl _

theorem shrinks_finalizeEmit : Shrinks b.params (finalizeEmit b).params := by
  unfold finalizeEmit
  dsimp only
  split
  · exact shrinks_of_blocked (blocked_or b.params)
  · exact .refl _

theorem shrinks_refuseCorrupt (s : Strategy) : Shrinks b.params (x.refuseCorrupt s b).params := by
  unfold refuseCorrupt
  split
  · exact shrinks_block b
  · exact .refl _

theorem shrinks_pairLegs : Shrinks b.params (x.pairLegs b).params := by
  unfold pairLegs
  dsimp only
  split
  · exact (shrinks_or (by decide) b.params).trans (SameGate.shrinks ⟨rfl, rfl, rfl⟩)
  · exact (shrinks_and_not (by decide) b.params).trans (SameGate.shrinks ⟨rfl, rfl, rfl⟩)

theorem shrinks_feeFloor : Shrinks b.params (x.feeFloor b).params := by
  unfold feeFloor
  dsimp only
  split
  · exact shrinks_block b
  · exact .refl _

theorem shrinks_costGate : Shrinks b.params (x.costGate b).params := by
  unfold costGate
  dsimp only
  split
  · split
    · exact shrinks_block b
    · exact .refl _
  · exact .refl _

theorem shrinks_scaleVolatility : Shrinks b.params (x.scaleVolatility b).params := by
  unfold scaleVolatility
  dsimp only
  split
  · split
    · exact SameGate.shrinks ⟨rfl, rfl, rfl⟩
    · exact .refl _
  · exact .refl _

/-- Behind the builder the dispatcher only takes entries away. -/
theorem shrinks_dispatch {x : BuildInput} {s : Strategy} {id : Nat} (hs : Strategy.ofId id = some s)
    (out : GateParameters) (halt : Shalt) :
    Shrinks (x.build ⟨out, halt⟩ s).params (x.strategyBuildParameters id out halt).params := by
  unfold strategyBuildParameters
  rw [hs]
  dsimp only
  rw [noteSilence_params]
  exact (shrinks_finalizeEmit _).trans <| (shrinks_refuseCorrupt x _ s).trans <| (shrinks_pairLegs x _).trans <|
    (shrinks_feeFloor x _).trans <| (shrinks_costGate x _).trans (shrinks_scaleVolatility x _)

end BuildInput

/-! ### The gates -/

namespace Gated

variable {g : Gated}

theorem shrinks_block (g : Gated) : Shrinks g.params g.block.params := shrinks_of_blocked (blocked_or g.params)

theorem shrinks_zeroGate (g : Gated) (reason : Halt) : Shrinks p (g.zeroGate reason).params :=
  shrinks_of_blocked (g.blocked_zeroGate reason)

theorem shrinks_zeroGateIf (g : Gated) (cond : Bool) (reason : Halt) :
    Shrinks g.params (g.zeroGateIf cond reason).params := by
  cases cond with
  | false => exact .refl _
  | true => exact g.shrinks_zeroGate reason

theorem shrinks_slCooldown (g : Gated) : Shrinks g.params g.slCooldown.params := by
  unfold slCooldown
  split
  · exact shrinks_zeroGate { g with slCooldownRemaining := g.slCooldownRemaining - 1 } .slCooldown
  · exact .refl _

end Gated

namespace CycleInput

variable (x : CycleInput) (g : Gated)

theorem shrinks_staleness : Shrinks g.params (x.staleness g).params := by
  unfold staleness
  cases x.cfg.paramStalenessGateEnabled with
  | false => exact SameGate.shrinks ⟨rfl, rfl, rfl⟩
  | true => exact (shrinks_or (by decide) g.params).trans (SameGate.shrinks ⟨rfl, rfl, rfl⟩)

theorem shrinks_recovery : Shrinks g.params (x.recovery g).params := by
  unfold recovery
  split
  · exact g.shrinks_block
  · exact .refl _

theorem shrinks_imbalance : Shrinks g.params (x.imbalance g).params := by
  unfold imbalance
  split
  · exact g.shrinks_block
  · exact .refl _

theorem shrinks_nodeBudget : Shrinks g.params (x.nodeBudget g).params := by
  unfold nodeBudget
  dsimp only
  split
  · exact Gated.shrinks_zeroGate { g with params := { g.params with tradeSize := .zero } } .nodeBudget
  · split
    · exact SameGate.shrinks ⟨rfl, rfl, rfl⟩
    · exact .refl _

theorem shrinks_feeFloor : Shrinks g.params (x.feeFloor g).params := by
  unfold feeFloor
  dsimp only
  split
  · split
    · exact SameGate.shrinks ⟨rfl, rfl, rfl⟩
    · exact .refl _
  · exact .refl _

/-- The gates open no entry. -/
theorem shrinks_gates : Shrinks g.params (x.gates g).params := by
  have hentry : Shrinks g.params (x.entryGates g).params :=
    (x.shrinks_staleness g).trans <| (x.shrinks_recovery _).trans <| (x.shrinks_imbalance _).trans
      (x.shrinks_nodeBudget _)
  have hkill (g : Gated) : Shrinks g.params (x.killGates g).params :=
    (g.shrinks_zeroGateIf _ _).trans (Gated.shrinks_zeroGateIf _ _ _)
  have hmarket (g : Gated) : Shrinks g.params (x.marketGates g).params :=
    g.shrinks_slCooldown.trans <| (Gated.shrinks_zeroGateIf _ _ _).trans <| (Gated.shrinks_zeroGateIf _ _ _).trans <|
      (Gated.shrinks_zeroGateIf _ _ _).trans <|
        (Gated.shrinks_zeroGateIf _ _ _).trans (Gated.shrinks_zeroGateIf _ _ _)
  exact hentry.trans <| (hkill _).trans <| (hmarket _).trans (x.shrinks_feeFloor _)

end CycleInput

/-! ### The ratchets -/

/-- A relation between a node before and behind the writers of its stop ratchet: each write keeps it, and so
    does one write after the other. -/
structure Ratcheting (R : SlowNode → SlowNode → Prop) : Prop where
  refl : ∀ node, R node node
  trans : ∀ {a b c}, R a b → R b c → R a c
  sl : ∀ node sl, R node (node.advanceSl sl).1

namespace Ratcheting

variable {R : SlowNode → SlowNode → Prop} (h : Ratcheting R) (n : NodeIdx) (x : CycleInput)

include h

theorem writeRatchetSL (node : SlowNode) (proposedSl entryPrice feeTaker : Money) :
    R node (node.writeRatchetSL proposedSl entryPrice feeTaker).1 := by
  unfold SlowNode.writeRatchetSL
  split
  · exact h.refl node
  · exact h.sl node _

theorem foldl {α : Type} {write : SlowNode → α → SlowNode} (hwrite : ∀ node a, R node (write node a))
    (node : SlowNode)
    (as : List α) : R node (as.foldl write node) := by
  induction as generalizing node with
  | nil => exact h.refl node
  | cons a as ih => exact h.trans (hwrite node a) (ih _)

theorem writeEachSL (sl feeTaker : Money) (node : SlowNode) (held : List Position) :
    R node (node.writeEachSL sl feeTaker held) :=
  h.foldl (fun node (pos : Position) => h.writeRatchetSL node sl pos.entryPrice feeTaker) node held

theorem exitAdjustPerCore (node : SlowNode) : R node (SlowNode.exitAdjustPerCore n x node) := by
  unfold SlowNode.exitAdjustPerCore
  split
  · exact h.refl node
  next s hs =>
    split
    · exact h.refl node
    · cases s with
      | simpleDip => exact h.refl node
      | emaCross =>
        exact h.foldl (fun node (p : Money × Money) => h.writeRatchetSL node p.1 p.2 x.feeTaker) node _
      | _ =>
        dsimp only
        split
        · exact h.writeEachSL _ _ _ _
        · exact h.refl node

theorem trailPosition (price : Float) (node : SlowNode) (pos : Position) :
    R node (SlowNode.trailPosition x price node pos) := by
  unfold SlowNode.trailPosition
  dsimp only
  split
  · exact h.refl node
  · split
    · exact h.refl node
    · exact h.sl node _

theorem breakevenPosition (price : Float) (node : SlowNode) (pos : Position) :
    R node (SlowNode.breakevenPosition x price node pos) := by
  unfold SlowNode.breakevenPosition
  dsimp only
  split
  · exact h.refl node
  · split
    · exact h.refl node
    · exact h.sl node _

/-- The ratchets behind the push. -/
theorem ratchets (node : SlowNode) : R node (SlowPath.ratchets n x node) := by
  have htrail (node : SlowNode) : R node (node.trailingSLRatchetOneCore n x x.price.toDouble) :=
    h.foldl (h.trailPosition x _) node _
  have hbreakeven (node : SlowNode) : R node (node.breakevenOnProfitOneCore n x x.price.toDouble) :=
    h.foldl (h.breakevenPosition x _) node _
  unfold SlowPath.ratchets
  dsimp only
  split
  · refine h.trans ?_ (hbreakeven _)
    split
    · exact htrail node
    · exact h.refl node
  · split
    · exact htrail node
    · exact h.refl node

end Ratcheting

/-- What the ratchets leave of a node: its buy gate, and the average it was built on. -/
structure GateKept (node node' : SlowNode) : Prop where
  gate : SameGate node.pendingParams node'.pendingParams
  average : node'.priceAtLastRebuild = node.priceAtLastRebuild

theorem GateKept.refl (node : SlowNode) : GateKept node node := ⟨.refl _, rfl⟩

theorem GateKept.trans {a b c : SlowNode} (h : GateKept a b) (h' : GateKept b c) : GateKept a c :=
  ⟨⟨h'.gate.price.trans h.gate.price, h'.gate.volume.trans h.gate.volume, h'.gate.flags.trans h.gate.flags⟩,
    h'.average.trans h.average⟩

theorem ratcheting_gateKept : Ratcheting GateKept where
  refl := .refl
  trans := .trans
  sl node sl := by
    unfold SlowNode.advanceSl
    split
    · exact ⟨⟨rfl, rfl, rfl⟩, rfl⟩
    · exact .refl node

theorem gateKept_tradeRatchets (n : NodeIdx) (x : CycleInput) (node : SlowNode) :
    GateKept node (SlowNode.tradeRatchets n x node) := by
  unfold SlowNode.tradeRatchets
  split
  · exact ⟨⟨rfl, rfl, rfl⟩, rfl⟩
  · exact ratcheting_gateKept.exitAdjustPerCore n x node

/-! ### A rebuild -/

/-- A full rebuild opens no entry that the builder's pack does not open. -/
theorem shrinks_rebuilt {n : NodeIdx} {x : CycleInput} {s : SlowPath} {strategy : Strategy}
    (hs : Strategy.ofId x.effectiveStrategyId = some strategy) (hfull : x.skipsRebuild s.ctx.node = false) :
    Shrinks (x.dispatched.build ⟨(SlowNode.switchRatchets n x s.ctx.node).pendingParams, .ok⟩ strategy).params
      (s.pushed n x) := by
  have htrade := gateKept_tradeRatchets n x (SlowNode.withBuilt n x s.ctx.node)
  rw [SlowPath.pushed, (SlowContext.rebuild_of_full hfull).1]
  exact (BuildInput.shrinks_dispatch hs _ .ok).trans <| htrade.gate.shrinks.trans
    (x.shrinks_gates ⟨(s.ctx.built n x).1.pendingParams, .ok, (s.ctx.built n x).2,
      (s.ctx.built n x).1.slCooldownRemaining⟩)

/-- What is pending behind a cycle has the gate of what was pushed. -/
theorem gateKept_cycle (n : NodeIdx) (x : CycleInput) (s : SlowPath) :
    GateKept (s.ctx.rebuildOneCore n x).node (s.slowPathCycleOneCore n x).ctx.node := by
  unfold SlowPath.slowPathCycleOneCore
  rw [SlowPath.push_rebuilt, SlowPath.grant_ctx]
  have hpush : GateKept (s.ctx.rebuildOneCore n x).node { (s.ctx.rebuildOneCore n x).node with dirty := false } :=
    ⟨⟨rfl, rfl, rfl⟩, rfl⟩
  exact hpush.trans (ratcheting_gateKept.ratchets n x _)

end FoxTrader
