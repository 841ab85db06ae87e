import FoxTrader.Money

/-! # Gate parameters, ticks and trade events

    What flows into and out of the hot path: market ticks in, one trade event per leg that changed
    state out, and the parameter pack the slow path pushes. The buy gate and the sell gate read
    nothing else. The gate behaviours are the bits of one flag byte. -/

namespace FoxTrader

/-- One market tick, in market time. -/
structure Tick where
  price : Money
  volume : Money
  timestamp : Nat
  sequence : Nat

/-- `TRADE_EVENT_ENTRY`, `TRADE_EVENT_EXIT`. -/
inductive TradeEventType where
  | entry
  | exit
  deriving DecidableEq

/-- `PARTIAL_LEG_A`, `PARTIAL_LEG_B`. -/
inductive Leg where
  | a
  | b
  deriving DecidableEq

structure TradeEvent where
  price : Money
  timestamp : Nat
  nodeId : Nat
  type : TradeEventType
  leg : Leg
  deriving DecidableEq

/-! ### Flags -/

abbrev gateFlagTpEnabled : BitVec 8 := 0x01
abbrev gateFlagSlEnabled : BitVec 8 := 0x02
abbrev gateFlagVolumeRequired : BitVec 8 := 0x08
abbrev gateFlagBuyAbove : BitVec 8 := 0x10
abbrev gateFlagBuyBlocked : BitVec 8 := 0x20
abbrev gateFlagPairActive : BitVec 8 := 0x40
abbrev gateFlagStalenessEnabled : BitVec 8 := 0x80

structure GateParameters where
  bgPriceThreshold : Money
  bgVolumeThreshold : Money
  sgTakeProfitPrice : Money
  sgStopLossPrice : Money
  tpPct : Money
  slPct : Money
  tpPctB : Money
  tradeSize : Money
  ratchetSl : Money
  ratchetTp : Money
  strategyId : Nat
  flags : BitVec 8
  paramMaxAgeTicks : Nat

namespace GateParameters

/-- `STRATEGY_NONE`. -/
abbrev strategyNone : Nat := 0xFF

/-- `GateParameters_Init`: no threshold, no flag, no strategy. -/
def init : GateParameters :=
  { bgPriceThreshold := .zero, bgVolumeThreshold := .zero, sgTakeProfitPrice := .zero
    sgStopLossPrice := .zero, tpPct := .zero, slPct := .zero, tpPctB := .zero, tradeSize := .zero
    ratchetSl := .zero, ratchetTp := .zero, strategyId := strategyNone, flags := 0
    paramMaxAgeTicks := 0 }

/-- `(flags & mask) != 0`. -/
def has (p : GateParameters) (mask : BitVec 8) : Bool := p.flags &&& mask ≠ 0

/-- The buy gate: the price on the side the flag asks for, enough volume if volume is required,
    and no veto from the slow path. -/
def bgEvaluate (p : GateParameters) (tick : Tick) : Bool :=
  let priceBelow := tick.price.lt p.bgPriceThreshold
  let priceAbove := tick.price.gt p.bgPriceThreshold
  let priceOk := (priceAbove && p.has gateFlagBuyAbove) || (priceBelow && !p.has gateFlagBuyAbove)
  let volumeOk := tick.volume.gt p.bgVolumeThreshold
  let volumeCheck := (p.has gateFlagVolumeRequired && volumeOk) || !p.has gateFlagVolumeRequired
  (priceOk && volumeCheck) && !p.has gateFlagBuyBlocked

/-- The sell gate against the levels `tp` and `sl`, each raised by its ratchet. -/
def sgFires (p : GateParameters) (price tp sl : Money) : Bool :=
  let effectiveSl := sl.max p.ratchetSl
  let effectiveTp := tp.max p.ratchetTp
  let tpHit := price.ge effectiveTp
  let slHit := price.le effectiveSl
  (p.has gateFlagTpEnabled && tpHit) || (p.has gateFlagSlEnabled && slHit)

/-- `SG_Evaluate`: the sell gate against the pack's own levels. -/
def sgEvaluate (p : GateParameters) (price : Money) : Bool :=
  p.sgFires price p.sgTakeProfitPrice p.sgStopLossPrice

end GateParameters

end FoxTrader
