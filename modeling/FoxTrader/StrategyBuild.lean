import FoxTrader.FixedPointCasts
import FoxTrader.GateParameters
import FoxTrader.RatchetWrites
import FoxTrader.RollingStats

/-! # Building a node's pack

    `Strategy_BuildParameters` hands the pending pack to the builder of the node's strategy, which
    assigns its levels and its flag byte anew, and then adds to the flags what applies to every
    strategy. What a builder does not assign, the ratchets among it, stays in the pack; an id without a
    builder re-initialises the pack as a whole.

    Two returns of the ML builder assign the veto bit alone. `exits_built_iff` says when a built pack
    has its exits armed. -/

namespace FoxTrader

open Lib

/-! ### Strategies -/

/-- `FOREACH_STRATEGY`, in the order of the ids. -/
inductive Strategy where
  | meanReversion
  | momentum
  | simpleDip
  | ml
  | emaCross
  deriving DecidableEq

namespace Strategy

def id : Strategy → Nat
  | meanReversion => 0
  | momentum => 1
  | simpleDip => 2
  | ml => 3
  | emaCross => 4

/-- The strategy of an id, if it has a builder. -/
def ofId : Nat → Option Strategy
  | 0 => some meanReversion
  | 1 => some momentum
  | 2 => some simpleDip
  | 3 => some ml
  | 4 => some emaCross
  | _ => none

end Strategy

/-- `STRATEGY_AUTO`. -/
abbrev strategyAuto : Nat := 5

/-- The codes of `FOREACH_SHALT` that the slow path sets. -/
inductive Shalt where
  | ok
  | feeFloor
  | costGate
  | mlNoPred
  | lowConfidence
  | noSignal
  | momTpTooTight
  | momNoFlow
  | momLowR2
  | recovery
  | badPct
  | modelCorrupt
  | warming
  deriving DecidableEq

/-! ### Inputs -/

/-- What the builders read of a node's configuration. -/
structure StrategyCfg where
  entryOffsetPct : Money
  takeProfitPct : Money
  stopLossPct : Money
  simpledipTpPct : Money
  simpledipSlPct : Money
  mrTpPct : Money
  mrSlPct : Money
  emacrossTpPct : Money
  emacrossSlPct : Money
  mlTpPct : Money
  mlSlPct : Money
  momentumMinTpMarginPct : Money
  tp2Mult : Money
  feeRate : Money
  feeRateTaker : Money
  feeFloorMult : Money
  volumeMultiplier : Fpn
  offsetStddevMult : Fpn
  spacingMultiplier : Fpn
  slTrailMult : Fpn
  tpHoldScore : Fpn
  momentumTpMult : Fpn
  momentumSlMult : Fpn
  momentumMinR2 : Fpn
  momentumMinBuyDeltaRecent : Fpn
  emacrossCrossoverMin : Fpn
  emacrossDipMult : Fpn
  mlBuyThreshold : Fpn
  confidenceThresholdScale : Fpn
  confidenceHardBlockThreshold : Fpn
  riskFullSizeThreshold : Fpn
  riskMinSizeThreshold : Fpn
  riskMinSizePct : Fpn
  foxmlVolScalingZMax : Fpn
  riskDegradationCurve : Int
  barrierBlendMode : Int
  perHorizonBarrierBlend : Bool
  barrierGateEnabled : Bool
  costGateEnabled : Bool
  foxmlVolScalingEnabled : Bool
  partialExitEnabled : Bool

/-- The node's bits of the slow-path gate cache that the ML builder reads. -/
structure SlowPathGates where
  ladderActive : Bool
  confidenceEnabled : Bool
  compositeEnabled : Bool

structure MeanReversionState where
  liveOffsetPct : Fpn
  liveVolMult : Fpn
  liveStddevMult : Fpn

structure MomentumState where
  liveBreakoutMult : Fpn
  liveVolMult : Fpn

/-- The memory of a node's strategy state as each builder's cast reads it. -/
structure StrategyState where
  meanReversion : MeanReversionState
  momentum : MomentumState
  prevEma : Fpn

/-- A prediction that came out finite. -/
structure MlSignal where
  prediction : Float
  pPeak : Float
  pValley : Float

/-- The barriers of the ensemble's arms, weighted and of the heaviest arm. -/
structure MlBlend where
  blendTp : Float
  blendSl : Float
  dominantTp : Float
  dominantSl : Float

/-- What the inference of this cycle comes to: the models that serve, the features packed and scaled,
    the prediction, and the scorer's confidence by its two formulas. -/
structure MlContext where
  hasModel : Bool
  featuresFinite : Bool
  scaledFinite : Bool
  signal : Option MlSignal
  blend : Option MlBlend
  confidence : Float
  compositeConfidence : Float
  modelCorrupt : Bool

/-- The arguments of `Strategy_BuildParameters`. -/
structure BuildInput where
  cfg : StrategyCfg
  gates : SlowPathGates
  rolling : RollingStats
  rollingLong : RollingStats
  allocatedBalance : Money
  state : Option StrategyState
  ml : MlContext

/-- A pack and the code that goes with it. -/
structure Built where
  params : GateParameters
  halt : Shalt

namespace Built

/-- `*strategy_halt_reason = code` where it is still `SHALT_OK`. -/
def note (b : Built) (code : Shalt) : Built := { b with halt := if b.halt = .ok then code else b.halt }

/-- The veto bit. -/
def block (b : Built) : Built := { b with params := { b.params with flags := b.params.flags ||| gateFlagBuyBlocked } }

end Built

/-- What every builder assigns. -/
def GateParameters.assign (out : GateParameters) (s : Strategy) (flags : BitVec 8)
    (bgPrice bgVolume takeProfit stopLoss tpPct slPct tradeSize : Money) : GateParameters :=
  { out with
    bgPriceThreshold := bgPrice, bgVolumeThreshold := bgVolume, sgTakeProfitPrice := takeProfit
    sgStopLossPrice := stopLoss, tpPct, slPct, tradeSize, strategyId := s.id, flags }

/-- Both exits armed. -/
abbrev exitFlags : BitVec 8 := gateFlagTpEnabled ||| gateFlagSlEnabled

/-! ### The builders -/

/-- `first` if it is set. -/
def Money.orElse (first other : Money) : Money := if !first.isZero then first else other

/-- `ResolvePerFillTpPct`, `ResolvePerFillSlPct`. -/
def Strategy.resolvePerFillTpPct (s : Strategy) (cfg : StrategyCfg) : Money :=
  match s with
  | .simpleDip => cfg.simpledipTpPct.orElse cfg.takeProfitPct
  | .meanReversion => cfg.mrTpPct.orElse cfg.takeProfitPct
  | .emaCross => cfg.emacrossTpPct.orElse cfg.takeProfitPct
  | _ => cfg.takeProfitPct

def Strategy.resolvePerFillSlPct (s : Strategy) (cfg : StrategyCfg) : Money :=
  match s with
  | .simpleDip => cfg.simpledipSlPct.orElse cfg.stopLossPct
  | .meanReversion => cfg.mrSlPct.orElse cfg.stopLossPct
  | .emaCross => cfg.emacrossSlPct.orElse cfg.stopLossPct
  | _ => cfg.stopLossPct

/-- `entry + entry × pct` and `entry - entry × pct`. -/
def Money.above (entry pct : Money) : Money := (entry.add (entry.mul pct).val).val

def Money.below (entry pct : Money) : Money := (entry.sub (entry.mul pct).val).val

namespace BuildInput

variable (x : BuildInput)

/-- The whole allocation at `entry`. -/
def tradeSize (entry : Money) : Money := if !entry.isZero then (x.allocatedBalance.div entry).val else .zero

def volumeThreshold (mult : Fpn) : Money := (Money.fromBinary (x.rolling.volumeAvg.mul mult)).val

/-- The higher of the two windows' highs; some callers have no long window. -/
def recentHigh (long : Bool) : Fpn :=
  if long && x.rollingLong.priceMax.greaterThan x.rolling.priceMax then x.rollingLong.priceMax else x.rolling.priceMax

/-- `SimpleDip_BuildParameters`. -/
def simpleDip (long : Bool) (out : GateParameters) : GateParameters :=
  let entry := (Money.fromBinary (x.recentHigh long)).val.below x.cfg.entryOffsetPct
  let tpPct := Strategy.resolvePerFillTpPct .simpleDip x.cfg
  let slPct := Strategy.resolvePerFillSlPct .simpleDip x.cfg
  out.assign .simpleDip exitFlags entry (x.volumeThreshold x.cfg.volumeMultiplier) (entry.above tpPct)
    (entry.below slPct)
    tpPct slPct (x.tradeSize entry)

/-- The average, or the high before there is one. -/
def anchor (high : Fpn) : Fpn := if x.rolling.priceAvg.isZero then high else x.rolling.priceAvg

/-- `MeanReversion_BuildParameters`. -/
def meanReversion (out : GateParameters) : GateParameters :=
  let live := (x.state.map (·.meanReversion)).getD
    ⟨.ofMoney x.cfg.entryOffsetPct, x.cfg.volumeMultiplier, x.cfg.offsetStddevMult⟩
  let avg := x.anchor x.rolling.priceMax
  let offset := if !live.liveStddevMult.isZero then x.rolling.priceStddev.mul live.liveStddevMult
    else avg.mul live.liveOffsetPct
  let entry := (Money.fromBinary (avg.sub offset)).val
  let tpPct := Strategy.resolvePerFillTpPct .meanReversion x.cfg
  let slPct := Strategy.resolvePerFillSlPct .meanReversion x.cfg
  out.assign .meanReversion exitFlags entry (x.volumeThreshold live.liveVolMult) (entry.above tpPct)
    (entry.below slPct)
    tpPct slPct (x.tradeSize entry)

/-- `Momentum_BuildParameters`. -/
def momentum (out : GateParameters) : GateParameters :=
  let live := (x.state.map (·.momentum)).getD ⟨.zero, x.cfg.volumeMultiplier⟩
  let avg := x.anchor x.rolling.priceMax
  let stddev := x.rolling.priceStddev
  let breakoutOffset := if !live.liveBreakoutMult.isZero && !stddev.isZero then stddev.mul live.liveBreakoutMult
    else avg.mul (.ofMoney x.cfg.entryOffsetPct)
  let entryPrice := avg.addSat breakoutOffset
  let stddevUsable := stddev.greaterThan (avg.mul .tenThousandth)
  let (tpAmount, slAmount) :=
    if !x.cfg.momentumTpMult.isZero && stddevUsable then
      (stddev.mul x.cfg.momentumTpMult, stddev.mul x.cfg.momentumSlMult)
    else (entryPrice.mul (.ofMoney x.cfg.takeProfitPct), entryPrice.mul (.ofMoney x.cfg.stopLossPct))
  let entry := (Money.fromBinary entryPrice).val
  out.assign .momentum (exitFlags ||| gateFlagBuyAbove) entry (x.volumeThreshold live.liveVolMult)
    (entry.add (Money.fromBinary tpAmount).val).val (entry.sub (Money.fromBinary slAmount).val).val
    (Strategy.resolvePerFillTpPct .momentum x.cfg) (Strategy.resolvePerFillSlPct .momentum x.cfg) (x.tradeSize entry)

/-- `EmaCross_BuildParameters`. Without a state it is the dip's pack with its own percentages. -/
def emaCross (out : GateParameters) : GateParameters :=
  match x.state with
  | none =>
    let p := { x.simpleDip false out with strategyId := Strategy.emaCross.id }
    let p := if !x.cfg.emacrossTpPct.isZero then
        { p with tpPct := x.cfg.emacrossTpPct, sgTakeProfitPrice := p.bgPriceThreshold.above x.cfg.emacrossTpPct }
      else p
    if !x.cfg.emacrossSlPct.isZero then
      { p with slPct := x.cfg.emacrossSlPct, sgStopLossPrice := p.bgPriceThreshold.below x.cfg.emacrossSlPct }
    else p
  | some state =>
    let avg := x.rolling.priceAvg
    let stddev := x.rolling.priceStddev
    let ref := if !state.prevEma.isZero then state.prevEma else avg
    let diff := ref.sub avg
    let uptrend := (!avg.isZero && !stddev.isZero) && decide (diff.v > 0)
      && (diff.divNoAssert stddev).greaterThan x.cfg.emacrossCrossoverMin
    let entry := (Money.fromBinary (ref.sub (stddev.mul x.cfg.emacrossDipMult))).val
    let tpPct := Strategy.resolvePerFillTpPct .emaCross x.cfg
    let slPct := Strategy.resolvePerFillSlPct .emaCross x.cfg
    out.assign .emaCross exitFlags (if uptrend then entry else .zero) (x.volumeThreshold x.cfg.volumeMultiplier)
      (entry.above tpPct) (entry.below slPct) tpPct slPct (x.tradeSize entry)

/-! ### The ML builder -/

/-- `ML_FallThroughToSimpleDip`: the dip's pack under the id the node is configured with. -/
def fallThrough (out : GateParameters) : GateParameters := { x.simpleDip true out with strategyId := Strategy.ml.id }

/-- The percentages: the configured ones, or those the blend mode takes from the arms. Modes 1 and 3
    take the weighted barrier, modes 2 and 4 that of the heaviest arm. -/
def mlPercentages : Money × Money :=
  let activeMode := if x.cfg.perHorizonBarrierBlend then x.cfg.barrierBlendMode else 0
  match x.ml.blend with
  | none => (x.cfg.mlTpPct, x.cfg.mlSlPct)
  | some b =>
    if activeMode = 1 ∨ activeMode = 3 then (moneyFromDoublePayload b.blendTp, moneyFromDoublePayload b.blendSl)
    else if activeMode = 2 ∨ activeMode = 4 then
      (moneyFromDoublePayload b.dominantTp, moneyFromDoublePayload b.dominantSl)
    else (x.cfg.mlTpPct, x.cfg.mlSlPct)

/-- `conf_now`. -/
def confNow : Float :=
  if x.gates.confidenceEnabled then
    if x.gates.compositeEnabled then x.ml.compositeConfidence else x.ml.confidence
  else 0.0

/-- The threshold, damped by the confidence. -/
def mlThreshold : Float :=
  let base := x.cfg.mlBuyThreshold.toDouble
  if x.gates.confidenceEnabled then
    let effective := base * (x.cfg.confidenceThresholdScale.toDouble - x.confNow)
    if effective > 1.0 then 1.0 else effective
  else base

/-- The confidence is below the hard floor. -/
def belowHardFloor : Bool :=
  let hardFloor := x.cfg.confidenceHardBlockThreshold.toDouble
  x.gates.confidenceEnabled && hardFloor > 0.0 && x.confNow < hardFloor

end BuildInput

/-! ### The doubles -/

def fmin (a b : Float) : Float := if a < b then a else b

def fmax (a b : Float) : Float := if a > b then a else b

/-- `fma`: the product is not rounded. With a zero or something that is not finite among the three, the
    product is exact as it is. -/
def fma (a b c : Float) : Float :=
  match a.toModel.unpack, b.toModel.unpack, c.toModel.unpack with
  | .finite s₁ m₁ e₁ _, .finite s₂ m₂ e₂ _, .finite s₃ m₃ e₃ _ =>
    let e := min (e₁ + e₂) e₃
    let sum := (s₁ * s₂).apply ((m₁ * m₂) <<< (e₁ + e₂ - e).toNat) + s₃.apply (m₃ <<< (e₃ - e).toNat)
    .ofModel (.pack (.normalize .binary64 sum e .positive))
  | _, _, _ => a * b + c

/-- `Confidence_DegradationScale`: off, linear, squared, a step. -/
def confidenceDegradationScale (curve : Int) (conf full min minPct : Float) : Float :=
  let t := (fmin (fmax conf min) full - min) / (full - min)
  if curve = 1 then if full ≤ min then minPct else fma t (1.0 - minPct) minPct
  else if curve = 2 then if full ≤ min then minPct else fma (t * t) (1.0 - minPct) minPct
  else if curve = 3 then fma (if conf ≥ (full + min) * 0.5 then 1.0 else 0.0) (1.0 - minPct) minPct
  else 1.0

/-- `BarrierGate_Compute`: the gate, if it does not block. -/
def barrierGateCompute (pPeak pValley : Float) : Option Float :=
  if pPeak > 0.6 then none
  else
    let gate := (1.0 - pPeak).pow 1.0 * (0.5 + 0.5 * pValley).pow 0.5
    some (if gate < 0.2 then 0.2 else gate)

/-- `CostModel_Estimate` at its default coefficients: the total cost in basis points. -/
def costModelTotal (spreadBps volatility horizonMinutes orderSize adv : Float) : Float :=
  let h := if horizonMinutes > 0.0 then horizonMinutes else 5.0
  let spreadCost := 0.5 * spreadBps
  let timingCost := 0.15 * volatility * 10000.0 * (h / 5.0).sqrt
  let impactCost := if orderSize > 0.0 && adv > 0.0 then 1.0 * 10.0 * (orderSize / adv / 0.01).sqrt else 0.0
  spreadCost + timingCost + impactCost

/-- `VolScaler_Size`. -/
def volScalerSize (alpha volatility zMax maxWeight : Float) : Float :=
  if volatility ≤ 0.0 then 0.0
  else
    let zMax := if zMax ≤ 0.0 then 3.0 else zMax
    let z := alpha / volatility
    let z := if z > zMax then zMax else z
    let z := if z < -zMax then -zMax else z
    z * (maxWeight / zMax)

/-! ### The ML builder's tail -/

namespace BuildInput

variable (x : BuildInput)

/-- The size factor of the degradation ladder. -/
def ladderFactor : Float :=
  if x.gates.ladderActive then
    confidenceDegradationScale x.cfg.riskDegradationCurve x.confNow x.cfg.riskFullSizeThreshold.toDouble
      x.cfg.riskMinSizeThreshold.toDouble x.cfg.riskMinSizePct.toDouble
  else 1.0

/-- The ladder leaves nothing of the size. -/
def atLadderBottom : Bool := x.ladderFactor == 0.0 && x.gates.ladderActive

/-- A prediction is there to be weighed. -/
def weighed : Option MlSignal :=
  if x.ml.hasModel && x.ml.featuresFinite && x.ml.scaledFinite then x.ml.signal else none

/-- The price the buy gate gets and the size under it: nothing unless the prediction reaches the
    threshold and the barrier gate lets it pass. -/
def mlGate (s : MlSignal) (entry : Money) : Money × Money :=
  let size := x.tradeSize entry
  if x.cfg.barrierGateEnabled then
    match barrierGateCompute s.pPeak s.pValley with
    | some gate =>
      if s.prediction ≥ x.mlThreshold then (entry, (size.mul (moneyFromDoublePayload gate)).val)
        else (.zero, size)
    | none => (.zero, size)
  else (if s.prediction ≥ x.mlThreshold then entry else .zero, size)

/-- The pack of the two early returns: no level, and the veto bit for all flags. -/
def mlRefusal (out : GateParameters) : GateParameters :=
  out.assign .ml gateFlagBuyBlocked .zero .zero .zero .zero .zero .zero .zero

/-- `ML_BuildParameters`. -/
def mlBuild (b : Built) : Built :=
  match x.weighed with
  | none => { params := x.fallThrough b.params, halt := if !x.ml.hasModel then .mlNoPred else b.halt }
  | some s =>
    if x.belowHardFloor then { params := mlRefusal b.params, halt := .lowConfidence }
    else if x.atLadderBottom then { params := mlRefusal b.params, halt := .lowConfidence }
    else
      let entry := (Money.fromBinary (x.anchor (x.recentHigh true))).val
      let (tpPct, slPct) := x.mlPercentages
      let (gatePrice, size) := x.mlGate s entry
      { b with
        params := b.params.assign .ml exitFlags gatePrice (x.volumeThreshold x.cfg.volumeMultiplier) (entry.above tpPct)
          (entry.below slPct) tpPct slPct (size.mul (moneyFromDoublePayload x.ladderFactor)).val }

/-! ### The dispatcher -/

/-- The momentum filters behind its builder; the first that applies blocks. -/
def momentumFilters (b : Built) : Built :=
  let margin := x.cfg.momentumMinTpMarginPct
  if !margin.isZero && !b.params.tpPct.isZero && b.params.tpPct.lt margin then b.block.note .momTpTooTight
  else if !x.cfg.momentumMinR2.isZero && x.rolling.priceRSquared.lessThan x.cfg.momentumMinR2 then
    b.block.note .momLowR2
  else if !x.cfg.momentumMinBuyDeltaRecent.isZero && x.rolling.volumeDelta.lessThan x.cfg.momentumMinBuyDeltaRecent then
    b.block.note .momNoFlow
  else b

/-- The builder of a strategy. -/
def build (b : Built) : Strategy → Built
  | .simpleDip => { b with params := x.simpleDip true b.params }
  | .meanReversion => { b with params := x.meanReversion b.params }
  | .momentum => x.momentumFilters { b with params := x.momentum b.params }
  | .emaCross => { b with params := x.emaCross b.params }
  | .ml => x.mlBuild b

/-- `GateEgress_MaxPct`. -/
def maxPct : Money := (Money.fromInt 10000).val

def clampPct (pct : Money) : Money := (pct.min maxPct).max .zero

/-- `GateParameters_FinalizeEmit`. -/
def finalizeEmit (b : Built) : Built :=
  let outside := fun pct : Money => pct.lt .zero || pct.gt maxPct
  if outside b.params.tpPct || outside b.params.slPct then
    { params := { b.block.params with tpPct := clampPct b.params.tpPct, slPct := clampPct b.params.slPct },
      halt := .badPct }
  else b

/-- Only an ML node has a model context. -/
def refuseCorrupt (s : Strategy) (b : Built) : Built :=
  if s = .ml ∧ x.ml.modelCorrupt then { b.block with halt := .modelCorrupt } else b

/-- The pair flag and leg B's percentage, set or cleared every time. -/
def pairLegs (b : Built) : Built :=
  let p := b.params
  if x.cfg.partialExitEnabled then
    let tpPctB := if !x.cfg.tp2Mult.isZero && !p.tpPct.isZero then (p.tpPct.mul x.cfg.tp2Mult).val else p.tpPct
    { b with params := { p with flags := p.flags ||| gateFlagPairActive, tpPctB := clampPct tpPctB } }
  else { b with params := { p with flags := p.flags &&& ~~~gateFlagPairActive, tpPctB := .zero } }

/-- A target under three taker fees earns nothing. -/
def feeFloor (b : Built) : Built :=
  let floorPct := ((takerRate x.cfg.feeRateTaker x.cfg.feeRate).mul (Money.fromInt 3).val).val
  if !b.params.tpPct.isZero && b.params.tpPct.lt floorPct then b.block.note .feeFloor else b

/-- `price_stddev / price_avg` in doubles. -/
def relVol : Float :=
  let price := x.rolling.priceAvg.toDouble
  if price > 0.01 then x.rolling.priceStddev.toDouble / price else 0.0

/-- The estimated cost takes more than half of the target. -/
def costGate (b : Built) : Built :=
  let p := b.params
  if x.cfg.costGateEnabled && !p.tpPct.isZero && !p.bgPriceThreshold.isZero && x.relVol > 0.0 then
    let adv := x.rolling.volumeAvg.toDouble * x.rolling.priceAvg.toDouble * 1440.0
    let cost := costModelTotal 0.0 x.relVol 5.0 (p.tradeSize.toDouble * p.bgPriceThreshold.toDouble) adv
    if cost > p.tpPct.toDouble * 10000.0 * 0.5 then b.block.note .costGate else b
  else b

def zMax : Float := if !x.cfg.foxmlVolScalingZMax.isZero then x.cfg.foxmlVolScalingZMax.toDouble else 3.0

/-- Volatility scaling of the size. -/
def scaleVolatility (b : Built) : Built :=
  let p := b.params
  if x.cfg.foxmlVolScalingEnabled && !p.tradeSize.isZero && !p.tpPct.isZero && x.relVol > 0.0 then
    let weight := volScalerSize p.tpPct.toDouble x.relVol x.zMax 1.0
    if weight > 0.0 && weight < 1.0 then
      { b with params := { p with tradeSize := (p.tradeSize.mul (moneyFromDoublePayload weight)).val } }
    else b
  else b

/-- A pack that no gate blocks and that still buys nothing. -/
def noteSilence (b : Built) : Built :=
  if b.params.bgPriceThreshold.isZero && !b.params.has gateFlagBuyBlocked then b.note .noSignal else b

/-- `Strategy_BuildParameters`. -/
def strategyBuildParameters (strategyId : Nat) (out : GateParameters) (halt : Shalt) : Built :=
  match Strategy.ofId strategyId with
  | none => { params := .init, halt : Built }.note .noSignal
  | some s =>
    noteSilence (x.scaleVolatility (x.costGate (x.feeFloor (x.pairLegs (x.refuseCorrupt s (finalizeEmit (x.build ⟨out, halt⟩ s)))))))

end BuildInput

/-! ### What the stages keep -/

/-- `q` has the ratchets and the exits of `p`, and its veto if `p` has it. -/
structure Narrows (p q : GateParameters) : Prop where
  ratchetSl : q.ratchetSl = p.ratchetSl
  ratchetTp : q.ratchetTp = p.ratchetTp
  exits : q.flags &&& exitFlags = p.flags &&& exitFlags
  blocked : p.has gateFlagBuyBlocked = true → q.has gateFlagBuyBlocked = true

variable {p q r : GateParameters} {b : Built} {x : BuildInput}

theorem Narrows.refl (p : GateParameters) : Narrows p p := ⟨rfl, rfl, rfl, id⟩

theorem Narrows.trans (h : Narrows p q) (h' : Narrows q r) : Narrows p r :=
  ⟨h'.ratchetSl.trans h.ratchetSl, h'.ratchetTp.trans h.ratchetTp, h'.exits.trans h.exits, h'.blocked ∘ h.blocked⟩

theorem and_or_of_disjoint {f m k : BitVec 8} (h : m &&& k = 0#8) : (f ||| m) &&& k = f &&& k := by
  rw [BitVec.and_or_distrib_right, h, BitVec.or_zero]

theorem and_not_of_disjoint {f m k : BitVec 8} (h : m &&& k = 0#8) : (f &&& ~~~m) &&& k = f &&& k := by
  have hk : ~~~m &&& k = k := by
    calc ~~~m &&& k = (~~~m &&& k) ||| (m &&& k) := by rw [h, BitVec.or_zero]
      _ = (~~~m ||| m) &&& k := BitVec.and_or_distrib_right.symm
      _ = k := by rw [BitVec.or_comm, BitVec.or_not_self, BitVec.allOnes_and]
  rw [BitVec.and_assoc, hk]

/-- A bit set on top. -/
theorem narrows_or (p : GateParameters) {m : BitVec 8} (hm : m &&& exitFlags = 0#8) :
    Narrows p { p with flags := p.flags ||| m } where
  ratchetSl := rfl
  ratchetTp := rfl
  exits := and_or_of_disjoint hm
  blocked := by
    intro h
    have hset : p.flags &&& gateFlagBuyBlocked ≠ 0 := of_decide_eq_true h
    refine decide_eq_true fun (hzero : (p.flags ||| m) &&& gateFlagBuyBlocked = 0#8) => hset ?_
    rw [BitVec.and_or_distrib_right, BitVec.or_eq_zero_iff] at hzero
    exact hzero.1

theorem blocked_or (p : GateParameters) :
    { p with flags := p.flags ||| gateFlagBuyBlocked : GateParameters }.has gateFlagBuyBlocked = true := by
  refine decide_eq_true fun (hzero : (p.flags ||| gateFlagBuyBlocked) &&& gateFlagBuyBlocked = 0#8) => ?_
  rw [BitVec.and_or_distrib_right, BitVec.or_eq_zero_iff] at hzero
  exact absurd hzero.2 (by decide)

theorem narrows_block (b : Built) : Narrows b.params b.block.params := narrows_or b.params (by decide)

namespace BuildInput

theorem narrows_momentumFilters (x : BuildInput) (b : Built) : Narrows b.params (x.momentumFilters b).params := by
  unfold momentumFilters
  dsimp only
  split
  · exact narrows_block b
  · split
    · exact narrows_block b
    · split
      · exact narrows_block b
      · exact .refl _

theorem narrows_finalizeEmit (b : Built) : Narrows b.params (finalizeEmit b).params := by
  unfold finalizeEmit
  dsimp only
  split
  · exact (narrows_block b).trans ⟨rfl, rfl, rfl, id⟩
  · exact .refl _

theorem narrows_refuseCorrupt (x : BuildInput) (s : Strategy) (b : Built) :
    Narrows b.params (x.refuseCorrupt s b).params := by
  unfold refuseCorrupt
  split
  · exact narrows_block b
  · exact .refl _

theorem narrows_pairLegs (x : BuildInput) (b : Built) : Narrows b.params (x.pairLegs b).params := by
  unfold pairLegs
  dsimp only
  split
  · exact (narrows_or b.params (by decide)).trans ⟨rfl, rfl, rfl, id⟩
  · refine ⟨rfl, rfl, and_not_of_disjoint (by decide), fun h => ?_⟩
    unfold GateParameters.has at h ⊢
    rwa [and_not_of_disjoint (by decide)]

theorem narrows_feeFloor (x : BuildInput) (b : Built) : Narrows b.params (x.feeFloor b).params := by
  unfold feeFloor
  dsimp only
  split
  · exact narrows_block b
  · exact .refl _

theorem narrows_costGate (x : BuildInput) (b : Built) : Narrows b.params (x.costGate b).params := by
  unfold costGate
  dsimp only
  split
  · split
    · exact narrows_block b
    · exact .refl _
  · exact .refl _

theorem narrows_scaleVolatility (x : BuildInput) (b : Built) : Narrows b.params (x.scaleVolatility b).params := by
  unfold scaleVolatility
  dsimp only
  split
  · split
    · exact ⟨rfl, rfl, rfl, id⟩
    · exact .refl _
  · exact .refl _

theorem noteSilence_params (b : Built) : (noteSilence b).params = b.params := by
  unfold noteSilence Built.note
  split <;> rfl

/-- Behind the builder the dispatcher only narrows the pack. -/
theorem narrows_dispatch {s : Strategy} {id : Nat} (hs : Strategy.ofId id = some s) (out : GateParameters)
    (halt : Shalt) :
    Narrows (x.build ⟨out, halt⟩ s).params (x.strategyBuildParameters id out halt).params := by
  unfold strategyBuildParameters
  rw [hs]
  dsimp only
  rw [noteSilence_params]
  exact (narrows_finalizeEmit _).trans <| (narrows_refuseCorrupt x s _).trans <| (narrows_pairLegs x _).trans <|
    (narrows_feeFloor x _).trans <| (narrows_costGate x _).trans (narrows_scaleVolatility x _)

/-! ### The builders' packs -/

/-- The ML builder returns early with the veto bit alone. -/
def refuses (x : BuildInput) : Bool := x.weighed.isSome && (x.belowHardFloor || x.atLadderBottom)

/-- A pack for another strategy id. -/
theorem emaCross_keeps (x : BuildInput) (out : GateParameters) :
    (x.emaCross out).ratchetSl = out.ratchetSl ∧ (x.emaCross out).ratchetTp = out.ratchetTp ∧
      (x.emaCross out).flags = exitFlags := by
  unfold emaCross
  cases x.state with
  | none =>
    dsimp only
    split
    · split <;> exact ⟨rfl, rfl, rfl⟩
    · split <;> exact ⟨rfl, rfl, rfl⟩
  | some state => exact ⟨rfl, rfl, rfl⟩

/-- A builder leaves the ratchets alone. -/
theorem build_ratchets (x : BuildInput) (b : Built) (s : Strategy) :
    (x.build b s).params.ratchetSl = b.params.ratchetSl ∧ (x.build b s).params.ratchetTp = b.params.ratchetTp := by
  cases s with
  | meanReversion => exact ⟨rfl, rfl⟩
  | simpleDip => exact ⟨rfl, rfl⟩
  | emaCross => exact ⟨(x.emaCross_keeps b.params).1, (x.emaCross_keeps b.params).2.1⟩
  | momentum =>
    have hfilters := x.narrows_momentumFilters { b with params := x.momentum b.params }
    exact ⟨hfilters.ratchetSl, hfilters.ratchetTp⟩
  | ml =>
    unfold build mlBuild
    dsimp only
    cases x.weighed with
    | none => exact ⟨rfl, rfl⟩
    | some signal =>
      cases x.belowHardFloor with
      | true => exact ⟨rfl, rfl⟩
      | false => cases x.atLadderBottom <;> exact ⟨rfl, rfl⟩

/-- The ML builder refuses for this strategy. -/
def refusesFor (x : BuildInput) (s : Strategy) : Bool := decide (s = .ml) && x.refuses

theorem refusesFor_of_ne {s : Strategy} (hs : s ≠ .ml) : x.refusesFor s = false := by
  rw [refusesFor, decide_eq_false hs, Bool.false_and]

/-- A builder arms both exits, or neither when it refuses. -/
theorem build_exits (x : BuildInput) (b : Built) (s : Strategy) :
    (x.build b s).params.flags &&& exitFlags = if x.refusesFor s = true then 0 else exitFlags := by
  have harmed : exitFlags &&& exitFlags = exitFlags := BitVec.and_self
  cases s with
  | meanReversion =>
    rw [refusesFor_of_ne (by decide)]
    exact harmed
  | simpleDip =>
    rw [refusesFor_of_ne (by decide)]
    exact harmed
  | emaCross =>
    rw [refusesFor_of_ne (by decide)]
    exact (congrArg (· &&& exitFlags) (x.emaCross_keeps b.params).2.2).trans harmed
  | momentum =>
    have hmomentum : (exitFlags ||| gateFlagBuyAbove) &&& exitFlags = exitFlags := by decide
    rw [refusesFor_of_ne (by decide)]
    exact (x.narrows_momentumFilters { b with params := x.momentum b.params }).exits.trans hmomentum
  | ml =>
    have hrefused : gateFlagBuyBlocked &&& exitFlags = 0 := by decide
    unfold build mlBuild refusesFor refuses
    dsimp only
    cases x.weighed with
    | none => exact harmed
    | some signal =>
      cases x.belowHardFloor with
      | true => exact hrefused
      | false =>
        cases x.atLadderBottom with
        | true => exact hrefused
        | false => exact harmed

/-- The dispatch of this id leaves the exits off: no builder, or an ML builder that refuses. -/
def disarms (x : BuildInput) (strategyId : Nat) : Bool :=
  match Strategy.ofId strategyId with
  | none => true
  | some s => x.refusesFor s

/-- A built pack has both exits armed exactly if the dispatch does not disarm them, and then has the
    ratchets it had. -/
theorem exits_built_iff (x : BuildInput) (id : Nat) (out : GateParameters) (halt : Shalt) :
    (x.strategyBuildParameters id out halt).params.flags &&& exitFlags = exitFlags ↔ x.disarms id = false := by
  unfold disarms
  cases hs : Strategy.ofId id with
  | none =>
    have hinit : (x.strategyBuildParameters id out halt).params = .init := by
      unfold strategyBuildParameters
      rw [hs]
      rfl
    rw [hinit]
    exact ⟨fun h => absurd h (by decide), fun h => Bool.noConfusion h⟩
  | some s =>
    rw [(narrows_dispatch hs out halt).exits, x.build_exits]
    dsimp only
    cases x.refusesFor s with
    | false => exact ⟨fun _ => rfl, fun _ => rfl⟩
    | true => exact ⟨fun h => absurd h (by decide), fun h => absurd h (by decide)⟩

theorem ratchets_built {id : Nat} (hs : (Strategy.ofId id).isSome = true) (out : GateParameters) (halt : Shalt) :
    (x.strategyBuildParameters id out halt).params.ratchetSl = out.ratchetSl ∧
      (x.strategyBuildParameters id out halt).params.ratchetTp = out.ratchetTp := by
  obtain ⟨s, hs⟩ := Option.isSome_iff_exists.1 hs
  have hnarrow := narrows_dispatch (x := x) hs out halt
  have hkeep := x.build_ratchets ⟨out, halt⟩ s
  exact ⟨hnarrow.ratchetSl.trans hkeep.1, hnarrow.ratchetTp.trans hkeep.2⟩

end BuildInput

end FoxTrader
