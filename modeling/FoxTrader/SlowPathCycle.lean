import FoxTrader.ExecutionCore
import FoxTrader.RegimeAdjust
import FoxTrader.StrategyBuild

/-! # The slow path's cycle of a node

    A cycle (`EngineCommon_SlowPathCycleOneCore`) rebuilds the node's pending pack, pushes it to the
    node's core, lets the two ratchets that hold for every strategy work on the pack of the next push,
    and grants the core its permission.

    The rebuild (`EventLoop_RebuildOneCore`) is skipped where little has moved since the last one, and
    the pack is then pushed again as it is. Otherwise the ratchets of a regime switch, the builder of
    the strategy, its own ratchets and a dozen gates write to the one pack, one after the other. What
    other threads own, the portfolio and the kill flags among it, is read when the cycle gets there, so
    the input has one portfolio for every place that looks at it. What the cycle submits to the order
    manager does not come back to the pack and is left out. -/

namespace FoxTrader

open Lib

/-! ### Inputs -/

/-- What a cycle reads of the configuration besides the node's slice. The multiplier is that of the
    session the hour is in. -/
structure CycleCfg where
  lazyRebuildEnabled : Bool
  lazyRebuildForcePeriodUs : Nat
  lazyRebuildPriceThresholdPct : Money
  partialExitEnabled : Bool
  paramStalenessGateEnabled : Bool
  paramMaxAgeTicks : Nat
  minWarmupSamples : BitVec 32
  breakevenOnProfit : Bool
  depthEnabled : Bool
  minBookImbalance : Fpn
  sessionMult : Fpn
  filterScale : Fpn
  offsetMin : Money
  offsetMax : Money
  volMultMin : Fpn
  volMultMax : Fpn
  momentumTpMult : Fpn
  momentumSlMult : Fpn
  slTrailMult : Fpn
  tpHoldScore : Fpn
  spikeThreshold : Fpn
  spikeSpacingReduction : Fpn
  vwapOffset : Fpn
  minLongSlope : Fpn
  minBuyDelta : Fpn
  minStddevPct : Fpn

/-- The fit of `RegressionFeederX_Compute`. -/
structure FeederFit where
  slope : Fpn
  rSquared : Fpn

/-- What a cycle works on. `build` has the node's slice and windows, the strategy state behind the
    cycle's `Adapt`, and the model's answer; the fits are there once their feeders hold enough; the
    proposals are what `EmaCross_ExitAdjustSharded` hands to `Strategy_WriteRatchetSL`. -/
structure CycleInput where
  cfg : CycleCfg
  build : BuildInput
  strategyId : Nat
  stateKind : Option Nat
  mildTrendDefault : Strategy
  oldRegime : ℤ
  newRegime : ℤ
  pnlFit : Option FeederFit
  priceFit : Option FeederFit
  emaCrossProposals : List (Money × Money)
  bookImbalance : Fpn
  omsPartialExit : Bool
  atSwitch : Portfolio
  atClear : Portfolio
  atExitAdjust : Portfolio
  atTrailing : Portfolio
  atBreakeven : Portfolio
  nodeOpenNotional : Money
  lastEntryPrice : Money
  killTripped : Bool
  globalKill : Bool
  recoveryUntilUs : Nat
  nowUs : Nat
  clockUs : Nat
  nowTick : Nat
  price : Money

/-- `FOREACH_HALT_REASON`. -/
inductive Halt where
  | ok
  | spacing
  | vwap
  | longSlope
  | volDelta
  | minStddev
  | slCooldown
  | nodeBudget
  | nodeKill
  | imbalance
  | globalKill
  deriving DecidableEq

/-- What the slow path keeps of a node for the drain and the display. -/
structure SlowContext where
  node : SlowNode
  haltReason : Halt
  strategyHaltReason : Shalt
  resolvedStrategyId : Nat
  intendedTp : Money
  intendedSl : Money
  intendedQty : Money

/-- The active slots of a node, lowest first: `active_bitmap & BITMAP_NODE_SLOT_MASK`. -/
def Portfolio.nodeSlots (p : Portfolio) (partialOn : Bool) (n : NodeIdx) : List SlotIdx :=
  (List.finRange 16).filter fun slot => p.active slot && slotNode partialOn slot = n

def Portfolio.nodePositions (p : Portfolio) (partialOn : Bool) (n : NodeIdx) : List Position :=
  (p.nodeSlots partialOn n).map p.positions

/-! ### What a rebuild derives first -/

namespace CycleInput

variable (n : NodeIdx) (x : CycleInput)

/-- `rolling_short`. -/
abbrev rolling : RollingStats := x.build.rolling

/-- The taker rate of the node's slice. -/
def feeTaker : Money := takerRate x.build.cfg.feeRateTaker x.build.cfg.feeRate

/-- Little has moved: the period is not over and the price is where it was. -/
def skipsRebuild (node : SlowNode) : Bool :=
  let ageUs := if x.nowUs > node.usAtLastRebuild then x.nowUs - node.usAtLastRebuild else 0
  let relDelta := (x.rolling.priceAvg.sub node.priceAtLastRebuild).abs.divNoAssert node.priceAtLastRebuild
  x.cfg.lazyRebuildEnabled && x.nowUs != 0 && node.usAtLastRebuild != 0 && !node.priceAtLastRebuild.isZero
    && !decide (ageUs ≥ x.cfg.lazyRebuildForcePeriodUs)
    && !relDelta.greaterThan (.ofMoney x.cfg.lazyRebuildPriceThresholdPct)

/-- The slice under the session's multiplier. -/
def sessionCfg : StrategyCfg :=
  let c := x.build.cfg
  if !x.cfg.sessionMult.isZero then { c with volumeMultiplier := c.volumeMultiplier.mul x.cfg.sessionMult } else c

def clampOffset (offset : Money) : Money :=
  let offset := if offset.lt x.cfg.offsetMin then x.cfg.offsetMin else offset
  if offset.gt x.cfg.offsetMax then x.cfg.offsetMax else offset

def clampVolMult (mult : Fpn) : Fpn :=
  let mult := if mult.lessThan x.cfg.volMultMin then x.cfg.volMultMin else mult
  if mult.greaterThan x.cfg.volMultMax then x.cfg.volMultMax else mult

/-- The adaptive feedback: recent losses tighten the filters, recent gains loosen them. -/
def resolvedCfg : StrategyCfg :=
  let c := x.sessionCfg
  match x.pnlFit with
  | none => c
  | some fit =>
    if !x.cfg.filterScale.isZero && fit.rSquared.greaterThan .fifth then
      let shift := (fit.slope.mul x.cfg.filterScale).negate
      { c with
        entryOffsetPct := x.clampOffset (c.entryOffsetPct.add (Money.fromBinary shift).val).val
        volumeMultiplier := x.clampVolMult (c.volumeMultiplier.addSat shift) }
    else c

/-- What the dispatcher is called with. -/
def dispatched : BuildInput := { x.build with cfg := x.resolvedCfg }

/-- The strategy that runs: an AUTO node takes the regime's. -/
def effectiveStrategyId : Nat :=
  if x.strategyId = strategyAuto then (regimeToStrategy x.mildTrendDefault x.newRegime).id else x.strategyId

/-- `min_warmup_samples` as the two casts of it read. -/
def warmupSamples : ℤ := if x.cfg.minWarmupSamples.toInt ≤ 0 then 64 else x.cfg.minWarmupSamples.toInt

def permissionSamples : ℤ := if x.cfg.minWarmupSamples = 0 then 64 else x.cfg.minWarmupSamples.toInt

end CycleInput

/-! ### The ratchets -/

namespace SlowNode

variable (n : NodeIdx) (x : CycleInput)

/-- `sl` for each of the positions. -/
def writeEachSL (sl feeTaker : Money) (node : SlowNode) (held : List Position) : SlowNode :=
  held.foldl (fun node pos => (node.writeRatchetSL sl pos.entryPrice feeTaker).1) node

def proposeEach (feeTaker : Money) (node : SlowNode) (proposals : List (Money × Money)) : SlowNode :=
  proposals.foldl (fun node p => (node.writeRatchetSL p.1 p.2 feeTaker).1) node

/-- The target of a switch: further away into a trend, nearer out of it. -/
def switchTp (node : SlowNode) : SlowNode :=
  let rolling := x.rolling
  let widen := (x.oldRegime = regimeRanging ∨ x.oldRegime = regimeMildTrend) ∧ x.newRegime = regimeTrending
  let tighten :=
    (x.oldRegime = regimeTrending ∨ x.oldRegime = regimeTrendingDown ∨ x.oldRegime = regimeMildTrend) ∧
      x.newRegime = regimeRanging
  if widen then
    (node.writeRatchetTP
      (Money.fromBinary (rolling.priceAvg.addSat (rolling.priceStddev.mul x.cfg.momentumTpMult))).val).1
  else if tighten then
    (node.writeRatchetTP (Money.fromBinary (rolling.priceAvg.addSat (rolling.priceStddev.mul .half))).val).1
  else node

/-- The ratchets of a regime switch in mid-position. -/
def switchRatchets (node : SlowNode) : SlowNode :=
  let held := x.atSwitch.nodePositions x.cfg.partialExitEnabled n
  if x.strategyId = strategyAuto ∧ x.newRegime ≠ x.oldRegime ∧ held.isEmpty = false then
    let tightSl := (Money.fromBinary (x.rolling.priceAvg.sub x.rolling.priceStddev)).val
    switchTp x (node.writeEachSL tightSl x.feeTaker (held.filter fun pos => !pos.entryPrice.isZero))
  else node

/-- A position that the price has carried past its first target. -/
def runsOn (currentPrice : Money) (pos : Position) : Bool :=
  !pos.entryPrice.isZero && (pos.originalTp.isZero || currentPrice.gt pos.originalTp)

/-- The tail of the strategies' `ExitAdjustSharded`: a stop `mult` deviations below the price. -/
def trail (mult : Fpn) (node : SlowNode) : SlowNode :=
  let currentPrice := (Money.fromBinary x.rolling.priceAvg).val
  let trailingSl := (currentPrice.sub (Money.fromBinary (x.rolling.priceStddev.mul mult)).val).val
  node.writeEachSL trailingSl x.feeTaker
    ((x.atExitAdjust.nodePositions x.omsPartialExit n).filter (runsOn currentPrice))

/-- The trend is strong and steady enough to hold on. -/
def holdsOn : Bool :=
  let fit := x.priceFit.getD ⟨.zero, .zero⟩
  let holdScore := (fit.slope.divNoAssert x.rolling.priceStddev).mul fit.rSquared
  !x.cfg.tpHoldScore.isZero && !x.rolling.priceStddev.isZero && holdScore.greaterThanOrEqual x.cfg.tpHoldScore

/-- `Strategy_ExitAdjustPerCore`. -/
def exitAdjustPerCore (node : SlowNode) : SlowNode :=
  match Strategy.ofId x.effectiveStrategyId with
  | none => node
  | some s =>
    if x.stateKind ≠ some s.id then node
    else
      match s with
      | .meanReversion => if holdsOn x then trail n x x.cfg.slTrailMult node else node
      | .momentum =>
        let mult := if !x.cfg.momentumSlMult.isZero then x.cfg.momentumSlMult else x.cfg.slTrailMult
        if holdsOn x then trail n x mult node else node
      | .simpleDip => node
      | .ml =>
        if !x.rolling.priceStddev.isZero && x.rolling.priceRSquared.greaterThan .half then
          trail n x x.cfg.slTrailMult node
        else node
      | .emaCross => proposeEach x.feeTaker node x.emaCrossProposals

/-- One position under `EventLoop_TrailingSLRatchetOneCore`. -/
def trailPosition (price : Float) (node : SlowNode) (pos : Position) : SlowNode :=
  let trailDist := x.rolling.priceStddev.toDouble * x.build.cfg.slTrailMult.toDouble
  let holdThresh := x.build.cfg.tpHoldScore.toDouble
  let feeFloorPct := 3.0 * x.feeTaker.toDouble
  let entry := pos.entryPrice.toDouble
  if entry ≤ 0.0 then node
  else if (price - entry) / entry < holdThresh then node
  else
    let ratchet := price - trailDist
    let slFloor := entry * (1.0 - feeFloorPct)
    (node.advanceSl (moneyFromDoublePayload (if ratchet > slFloor then slFloor else ratchet))).1

/-- `EventLoop_TrailingSLRatchetOneCore`. -/
def trailingSLRatchetOneCore (price : Float) (node : SlowNode) : SlowNode :=
  (x.atTrailing.nodePositions x.omsPartialExit n).foldl (trailPosition x price) node

/-- One position under `EventLoop_BreakevenOnProfitOneCore`. -/
def breakevenPosition (price : Float) (node : SlowNode) (pos : Position) : SlowNode :=
  let feeTaker := x.feeTaker.toDouble
  let entry := pos.entryPrice.toDouble
  if entry ≤ 0.0 then node
  else if (price - entry) / entry < 2.0 * feeTaker then node
  else (node.advanceSl (moneyFromDoublePayload (entry * (1.0 - 3.0 * feeTaker)))).1

/-- `EventLoop_BreakevenOnProfitOneCore`. -/
def breakevenOnProfitOneCore (price : Float) (node : SlowNode) : SlowNode :=
  (x.atBreakeven.nodePositions x.omsPartialExit n).foldl (breakevenPosition x price) node

end SlowNode

/-! ### The gates -/

/-- A pack on its way through the gates. -/
structure Gated where
  params : GateParameters
  halt : Halt
  strategyHalt : Shalt
  slCooldownRemaining : Nat

namespace Gated

/-- The veto bit. -/
def block (g : Gated) : Gated := { g with params := { g.params with flags := g.params.flags ||| gateFlagBuyBlocked } }

/-- The first reason stays. -/
def note (g : Gated) (reason : Halt) : Gated := { g with halt := if g.halt = .ok then reason else g.halt }

/-- `zero_gate`: no threshold, and the veto bit for the strategies that buy above it. -/
def zeroGate (g : Gated) (reason : Halt) : Gated :=
  ({ g with params := { g.params with bgPriceThreshold := .zero } } : Gated).block.note reason

def zeroGateIf (g : Gated) (cond : Bool) (reason : Halt) : Gated := if cond then g.zeroGate reason else g

/-- One cycle less of the cooldown, and the gate closed for this one. -/
def slCooldown (g : Gated) : Gated :=
  if g.slCooldownRemaining > 0 then
    ({ g with slCooldownRemaining := g.slCooldownRemaining - 1 } : Gated).zeroGate .slCooldown
  else g

end Gated

namespace CycleInput

variable (x : CycleInput)

def staleness (g : Gated) : Gated :=
  let flags := if x.cfg.paramStalenessGateEnabled then g.params.flags ||| gateFlagStalenessEnabled else g.params.flags
  { g with params := { g.params with flags, paramMaxAgeTicks := x.cfg.paramMaxAgeTicks } }

/-- The recovery window of a flatten is open. -/
def recovering : Bool :=
  decide (x.recoveryUntilUs > 0) && decide ((if x.nowUs ≠ 0 then x.nowUs else x.clockUs) < x.recoveryUntilUs)

def recovery (g : Gated) : Gated := if x.recovering then { g.block with strategyHalt := .recovery } else g

/-- `book_imbalance_blocked`. -/
def bookImbalanceBlocked : Bool :=
  x.cfg.depthEnabled && !x.cfg.minBookImbalance.isZero && x.bookImbalance.lessThan x.cfg.minBookImbalance

def imbalance (g : Gated) : Gated := if x.bookImbalanceBlocked then g.block.note .imbalance else g

/-- What is left of the allocation bounds the size; nothing left closes the gate. -/
def nodeBudget (g : Gated) : Gated :=
  let alloc := x.build.allocatedBalance
  let p := g.params
  if x.nodeOpenNotional.ge alloc then
    ({ g with params := { p with tradeSize := .zero } } : Gated).zeroGate .nodeBudget
  else if !p.bgPriceThreshold.isZero then
    let maxQty := ((alloc.sub x.nodeOpenNotional).val.div p.bgPriceThreshold).val
    { g with params := { p with tradeSize := p.tradeSize.min maxQty } }
  else g

/-- The spacing, reduced while the volume spikes. -/
def spacingMultiplier : Fpn :=
  let mult := x.build.cfg.spacingMultiplier
  if !x.rolling.volumeMax.isZero && !x.cfg.spikeThreshold.isZero
      && x.rolling.volumeAvg.greaterThanOrEqual
        (x.rolling.volumeMax.mul ((Fpn.fromInt 1).divNoAssert x.cfg.spikeThreshold)) then
    mult.mul x.cfg.spikeSpacingReduction
  else mult

/-- `Strategy_SpacingOk`. -/
def spacingOk (proposedEntry : Money) : Bool :=
  let lastEntry := x.lastEntryPrice
  let diff :=
    if proposedEntry.ge lastEntry then (proposedEntry.sub lastEntry).val else (lastEntry.sub proposedEntry).val
  lastEntry.isZero || x.spacingMultiplier.isZero || x.rolling.priceStddev.isZero
    || diff.ge (Money.fromBinary (x.rolling.priceStddev.mul x.spacingMultiplier)).val

/-- The entry is not far enough below the volume-weighted average. -/
def aboveVwap (proposedEntry : Money) : Bool :=
  let vwap := x.rolling.vwap
  !x.cfg.vwapOffset.isZero && !vwap.isZero
    && proposedEntry.gt (Money.fromBinary (vwap.sub (vwap.mul x.cfg.vwapOffset))).val

def downtrend : Bool :=
  let long := x.build.rollingLong
  !x.cfg.minLongSlope.isZero && !long.priceAvg.isZero
    && (long.priceSlope.divNoAssert long.priceAvg).lessThan x.cfg.minLongSlope

def dumped : Bool := !x.cfg.minBuyDelta.isZero && x.rolling.volumeDelta.lessThan x.cfg.minBuyDelta

def deadMarket : Bool :=
  !x.cfg.minStddevPct.isZero && !x.rolling.priceAvg.isZero
    && (x.rolling.priceStddev.divNoAssert x.rolling.priceAvg).lessThan x.cfg.minStddevPct

/-- `Strategy_TpFloor`. -/
def tpFloor (entryPrice tpAmount : Money) : Money :=
  let c := x.build.cfg
  if c.feeFloorMult.isZero || c.feeRate.isZero then tpAmount
  else
    let floor := ((entryPrice.mul c.feeRate).val.mul c.feeFloorMult).val
    if tpAmount.ge floor then tpAmount else floor

/-- The target raised to where it clears the fees; one below the entry is left alone. -/
def feeFloor (g : Gated) : Gated :=
  let entry := g.params.bgPriceThreshold
  let tp := g.params.sgTakeProfitPrice
  if !entry.isZero && tp.gt entry then
    let tpAmount := (tp.sub entry).val
    let floored := x.tpFloor entry tpAmount
    if floored.gt tpAmount then { g with params := { g.params with sgTakeProfitPrice := (entry.add floored).val } }
    else g
  else g

/-- The gates ahead of the kill flags, in the order of the source. -/
def entryGates (g : Gated) : Gated := x.nodeBudget (x.imbalance (x.recovery (x.staleness g)))

def killGates (g : Gated) : Gated := (g.zeroGateIf x.killTripped .nodeKill).zeroGateIf x.globalKill .globalKill

def marketGates (g : Gated) : Gated :=
  let g := g.slCooldown
  let g := g.zeroGateIf (!x.spacingOk g.params.bgPriceThreshold) .spacing
  let g := g.zeroGateIf (x.aboveVwap g.params.bgPriceThreshold) .vwap
  ((g.zeroGateIf x.downtrend .longSlope).zeroGateIf x.dumped .volDelta).zeroGateIf x.deadMarket .minStddev

def gates (g : Gated) : Gated := x.feeFloor (x.marketGates (x.killGates (x.entryGates g)))

end CycleInput

/-! ### The rebuild -/

namespace SlowNode

variable (n : NodeIdx) (x : CycleInput)

/-- The ratchets do not outlive the trade. -/
def clearRatchets (node : SlowNode) : SlowNode :=
  { node with pendingParams := { node.pendingParams with ratchetSl := .zero, ratchetTp := .zero } }

/-- Cleared without an active slot, and the strategy's to raise with one. -/
def tradeRatchets (node : SlowNode) : SlowNode :=
  if (x.atClear.nodeSlots x.cfg.partialExitEnabled n).isEmpty then node.clearRatchets else exitAdjustPerCore n x node

/-- The builder's pack and code. -/
def dispatch (node : SlowNode) : Built :=
  x.dispatched.strategyBuildParameters x.effectiveStrategyId node.pendingParams .ok

end SlowNode

namespace SlowContext

variable (n : NodeIdx) (x : CycleInput)

/-- The pack behind the ratchets and the builder, and the builder's code. -/
def built (ctx : SlowContext) : SlowNode × Shalt :=
  let node := SlowNode.switchRatchets n x ctx.node
  let b := SlowNode.dispatch x node
  let halt := if b.halt = .noSignal ∧ (x.rolling.count : ℤ) < x.warmupSamples then .warming else b.halt
  (SlowNode.tradeRatchets n x { node with pendingParams := b.params }, halt)

/-- The pack of a full rebuild. -/
def gated (ctx : SlowContext) : Gated :=
  let (node, strategyHalt) := ctx.built n x
  x.gates ⟨node.pendingParams, .ok, strategyHalt, node.slCooldownRemaining⟩

/-- An ML node that fell through runs the dip. -/
def resolvedId : Nat :=
  if x.effectiveStrategyId = Strategy.ml.id ∧ x.dispatched.weighed.isNone then Strategy.simpleDip.id
  else x.effectiveStrategyId

/-- `EventLoop_RebuildOneCore`. -/
def rebuildOneCore (ctx : SlowContext) : SlowContext :=
  if x.skipsRebuild ctx.node then { ctx with node := { ctx.node with dirty := true } }
  else
    let g := ctx.gated n x
    { node :=
        { pendingParams := g.params, dirty := true, slCooldownRemaining := g.slCooldownRemaining
          usAtLastRebuild := x.nowUs, priceAtLastRebuild := x.rolling.priceAvg }
      haltReason := g.halt, strategyHaltReason := g.strategyHalt, resolvedStrategyId := resolvedId x
      intendedTp := g.params.sgTakeProfitPrice, intendedSl := g.params.sgStopLossPrice
      intendedQty := g.params.tradeSize }

end SlowContext

/-! ### The cycle -/

/-- A node's slow path and its core. -/
structure SlowPath where
  ctx : SlowContext
  core : ExecutionCore

namespace SlowPath

variable (n : NodeIdx) (x : CycleInput)

/-- The pending pack, if it is to be pushed. -/
def push (s : SlowPath) : SlowPath :=
  if s.ctx.node.dirty then
    { ctx := { s.ctx with node := { s.ctx.node with dirty := false } }
      core := s.core.setParameters s.ctx.node.pendingParams x.nowTick }
  else s

/-- The ratchets behind the push. -/
def ratchets (node : SlowNode) : SlowNode :=
  let price := x.price.toDouble
  let c := x.build.cfg
  let node :=
    if !c.slTrailMult.isZero && !c.tpHoldScore.isZero && !x.rolling.priceStddev.isZero && price > 0.01 then
      node.trailingSLRatchetOneCore n x price
    else node
  if x.cfg.breakevenOnProfit && price > 0.01 then node.breakevenOnProfitOneCore n x price else node

/-- Warm, assigned, and no kill on the account. -/
def grants : Bool :=
  !x.globalKill && decide ((x.rolling.count : ℤ) ≥ x.permissionSamples)
    && decide (x.strategyId ≠ GateParameters.strategyNone)

def grant (s : SlowPath) : SlowPath := if grants x then { s with core := s.core.setPermission 1 } else s

/-- `EngineCommon_SlowPathCycleOneCore`. -/
def slowPathCycleOneCore (s : SlowPath) : SlowPath :=
  let s := push x { s with ctx := s.ctx.rebuildOneCore n x }
  grant x { s with ctx := { s.ctx with node := ratchets n x s.ctx.node } }

end SlowPath

/-! ### What the gates keep -/

namespace Gated

variable {g : Gated}

theorem narrows_block (g : Gated) : Narrows g.params g.block.params := narrows_or g.params (by decide)

theorem blocked_zeroGate (g : Gated) (reason : Halt) : (g.zeroGate reason).params.has gateFlagBuyBlocked = true :=
  blocked_or { g.params with bgPriceThreshold := .zero }

theorem narrows_zeroGate (g : Gated) (reason : Halt) : Narrows g.params (g.zeroGate reason).params := by
  have hthreshold : Narrows g.params { g.params with bgPriceThreshold := .zero } := ⟨rfl, rfl, rfl, id⟩
  exact hthreshold.trans (narrows_or { g.params with bgPriceThreshold := .zero } (by decide))

theorem narrows_zeroGateIf (g : Gated) (cond : Bool) (reason : Halt) :
    Narrows g.params (g.zeroGateIf cond reason).params := by
  cases cond with
  | false => exact .refl _
  | true => exact g.narrows_zeroGate reason

theorem narrows_slCooldown (g : Gated) : Narrows g.params g.slCooldown.params := by
  unfold slCooldown
  split
  · exact narrows_zeroGate { g with slCooldownRemaining := g.slCooldownRemaining - 1 } .slCooldown
  · exact .refl _

end Gated

namespace CycleInput

variable (x : CycleInput) (g : Gated)

theorem narrows_staleness : Narrows g.params (x.staleness g).params := by
  unfold staleness
  cases x.cfg.paramStalenessGateEnabled with
  | false => exact ⟨rfl, rfl, rfl, id⟩
  | true => exact (narrows_or g.params (by decide)).trans ⟨rfl, rfl, rfl, id⟩

theorem narrows_recovery : Narrows g.params (x.recovery g).params := by
  unfold recovery
  split
  · exact g.narrows_block
  · exact .refl _

theorem narrows_imbalance : Narrows g.params (x.imbalance g).params := by
  unfold imbalance
  split
  · exact g.narrows_block
  · exact .refl _

theorem narrows_nodeBudget : Narrows g.params (x.nodeBudget g).params := by
  have hsize : ∀ tradeSize, Narrows g.params { g.params with tradeSize } := fun _ => ⟨rfl, rfl, rfl, id⟩
  unfold nodeBudget
  dsimp only
  split
  · exact (hsize .zero).trans
      (Gated.narrows_zeroGate { g with params := { g.params with tradeSize := .zero } } .nodeBudget)
  · split
    · exact hsize _
    · exact .refl _

theorem narrows_feeFloor : Narrows g.params (x.feeFloor g).params := by
  unfold feeFloor
  dsimp only
  split
  · split
    · exact ⟨rfl, rfl, rfl, id⟩
    · exact .refl _
  · exact .refl _

theorem narrows_killGates : Narrows g.params (x.killGates g).params :=
  (g.narrows_zeroGateIf _ _).trans (Gated.narrows_zeroGateIf _ _ _)

theorem narrows_marketGates : Narrows g.params (x.marketGates g).params :=
  g.narrows_slCooldown.trans <| (Gated.narrows_zeroGateIf _ _ _).trans <| (Gated.narrows_zeroGateIf _ _ _).trans <|
    (Gated.narrows_zeroGateIf _ _ _).trans <| (Gated.narrows_zeroGateIf _ _ _).trans (Gated.narrows_zeroGateIf _ _ _)

theorem narrows_entryGates : Narrows g.params (x.entryGates g).params :=
  (x.narrows_staleness g).trans <| (x.narrows_recovery _).trans <| (x.narrows_imbalance _).trans
    (x.narrows_nodeBudget _)

/-- The gates leave the ratchets and the exits alone, and take no veto back. -/
theorem narrows_gates : Narrows g.params (x.gates g).params :=
  (x.narrows_entryGates g).trans <| (x.narrows_killGates _).trans <| (x.narrows_marketGates _).trans
    (x.narrows_feeFloor _)

end CycleInput

end FoxTrader
