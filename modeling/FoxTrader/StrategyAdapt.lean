import FoxTrader.Lib.FlooredDecay
import FoxTrader.RegressionFeeder
import FoxTrader.StrategyBuild

/-! # The strategies' adaptation

    Before each build the slow path lets the node's strategy adapt what it remembers: while nothing is
    open and the price has left the gate behind, the live parameters are squeezed towards the market, and
    once eight samples are in, a confident fit of the P&L shifts them and they are clamped.

    `Strategy_AdaptPerCore` hands the strategies an empty gate and, from the slow path, a P&L sample of
    zero. So the fit is always flat, the shift nothing, and what is left is the squeeze and the clamp:
    `MeanReversion` is squeezed in every cycle with nothing open, `Momentum` in none. -/

namespace FoxTrader

open Lib

/-! ### What the strategies remember -/

/-- What the two `Adapt` functions read of the configuration. -/
structure StrategyAdaptCfg where
  offsetStddevMult : Fpn
  squeezeDecay : Fpn
  offsetStddevMin : Fpn
  offsetStddevMax : Fpn
  r2Threshold : Fpn
  filterScale : Fpn
  offsetAdaptScale : Fpn
  stddevAdaptScale : Fpn
  volAdaptScale : Fpn
  offsetMin : Money
  offsetMax : Money
  volMultMin : Fpn
  volMultMax : Fpn
  breakoutMin : Fpn
  slopeScaleBuy : Fpn

/-- What `Strategy_SeedFromCfg` reads of the configuration. -/
structure StrategySeedCfg where
  momentumBreakoutMult : Fpn
  volumeMultiplier : Fpn
  entryOffsetPct : Money
  offsetStddevMult : Fpn

/-- `MeanReversionState`. -/
structure MeanReversionMemory extends MeanReversionState where
  feeder : RegressionFeeder
  priceFeeder : RegressionFeeder
  lastRegression : LinearRegressionResult
  hasRegression : Bool

/-- `MomentumState`. -/
structure MomentumMemory extends MomentumState where
  feeder : RegressionFeeder
  priceFeeder : RegressionFeeder
  lastRegression : LinearRegressionResult
  hasRegression : Bool

/-- The state behind a node's `strategy_state`, under its kind. -/
inductive StrategyMemory where
  | meanReversion (m : MeanReversionMemory)
  | momentum (m : MomentumMemory)
  | simpleDip
  | ml

namespace StrategyMemory

/-- `strategy_state_kind`. -/
def kind : StrategyMemory → Strategy
  | meanReversion _ => .meanReversion
  | momentum _ => .momentum
  | simpleDip => .simpleDip
  | ml => .ml

end StrategyMemory

/-! ### The two moves -/

namespace Fpn

/-- A share of the gap given up, never below the floor. -/
def squeeze (live gap decay floor : Fpn) (should : Bool) : Fpn :=
  (live.sub (blendOnMask (gap.mul decay) zero should)).maxOf floor

/-- The shift, then the clamp. -/
def shiftWithin (live shift lo hi : Fpn) : Fpn := ((live.addSat shift).maxOf lo).minOf hi

end Fpn

namespace MeanReversionMemory

/-- `MeanReversion_Init` behind `Strategy_SeedFromCfg`, on new memory. -/
def fresh (cfg : StrategySeedCfg) : MeanReversionMemory where
  liveOffsetPct := .ofMoney cfg.entryOffsetPct
  liveVolMult := cfg.volumeMultiplier
  liveStddevMult := cfg.offsetStddevMult
  feeder := .init
  priceFeeder := .init
  lastRegression := ⟨.zero, .zero, .zero⟩
  hasRegression := false

/-- The idle squeeze of `MeanReversion_Adapt`. -/
def idleSqueeze (m : MeanReversionMemory) (currentPrice gatePrice : Fpn) (activeBitmap : BitVec 16)
    (cfg : StrategyAdaptCfg) : MeanReversionMemory :=
  let useStddev := !cfg.offsetStddevMult.isZero
  let shouldSqueeze := decide (activeBitmap = 0) && currentPrice.greaterThan gatePrice
  { m with
    liveOffsetPct := m.liveOffsetPct.squeeze m.liveOffsetPct cfg.squeezeDecay .zero (shouldSqueeze && !useStddev)
    liveStddevMult :=
      m.liveStddevMult.squeeze (m.liveStddevMult.sub cfg.offsetStddevMin) cfg.squeezeDecay cfg.offsetStddevMin
        (shouldSqueeze && useStddev)
    liveVolMult :=
      m.liveVolMult.squeeze (m.liveVolMult.sub (.fromInt 1)) cfg.squeezeDecay (.fromInt 1) shouldSqueeze }

/-- The filters of `MeanReversion_Adapt` behind a fit of the P&L. -/
def adaptFilters (m : MeanReversionMemory) (inner : LinearRegressionResult) (cfg : StrategyAdaptCfg) :
    MeanReversionMemory :=
  let useStddev := !cfg.offsetStddevMult.isZero
  let confident := inner.rSquared.greaterThanOrEqual cfg.r2Threshold
  let negShift := (inner.slope.mul cfg.filterScale).negate
  { m with
    lastRegression := inner
    hasRegression := true
    liveOffsetPct :=
      m.liveOffsetPct.shiftWithin ((Fpn.blendOnMask negShift .zero (confident && !useStddev)).mul cfg.offsetAdaptScale)
        (.ofMoney cfg.offsetMin) (.ofMoney cfg.offsetMax)
    liveStddevMult :=
      m.liveStddevMult.shiftWithin ((Fpn.blendOnMask negShift .zero (confident && useStddev)).mul cfg.stddevAdaptScale)
        cfg.offsetStddevMin cfg.offsetStddevMax
    liveVolMult :=
      m.liveVolMult.shiftWithin ((Fpn.blendOnMask negShift .zero confident).mul cfg.volAdaptScale)
        cfg.volMultMin cfg.volMultMax }

/-- Both feeders pushed. -/
def feed (m : MeanReversionMemory) (currentPrice portfolioDelta : Fpn) : MeanReversionMemory :=
  { m with
    feeder := m.feeder.push portfolioDelta
    priceFeeder := m.priceFeeder.push currentPrice
    hasRegression := false }

/-- `MeanReversion_Adapt`. -/
def adapt (m : MeanReversionMemory) (currentPrice portfolioDelta : Fpn) (activeBitmap : BitVec 16) (gatePrice : Fpn)
    (cfg : StrategyAdaptCfg) : MeanReversionMemory :=
  let m := (m.idleSqueeze currentPrice gatePrice activeBitmap cfg).feed currentPrice portfolioDelta
  if m.feeder.count ≥ maxWindow then m.adaptFilters m.feeder.compute cfg else m

end MeanReversionMemory

namespace MomentumMemory

/-- `Momentum_Init` behind `Strategy_SeedFromCfg`, on new memory. -/
def fresh (cfg : StrategySeedCfg) : MomentumMemory where
  liveBreakoutMult := if !cfg.momentumBreakoutMult.isZero then cfg.momentumBreakoutMult else .fromInt 2
  liveVolMult := cfg.volumeMultiplier
  feeder := .init
  priceFeeder := .init
  lastRegression := ⟨.zero, .zero, .zero⟩
  hasRegression := false

/-- The idle squeeze of `Momentum_Adapt`. -/
def idleSqueeze (m : MomentumMemory) (currentPrice gatePrice : Fpn) (activeBitmap : BitVec 16)
    (cfg : StrategyAdaptCfg) : MomentumMemory :=
  let shouldSqueeze := decide (activeBitmap = 0) && currentPrice.lessThan gatePrice
  { m with
    liveBreakoutMult :=
      m.liveBreakoutMult.squeeze (m.liveBreakoutMult.sub cfg.breakoutMin) cfg.squeezeDecay cfg.breakoutMin shouldSqueeze
    liveVolMult :=
      m.liveVolMult.squeeze (m.liveVolMult.sub (.fromInt 1)) cfg.squeezeDecay (.fromInt 1) shouldSqueeze }

/-- The filter of `Momentum_Adapt` behind a fit of the P&L. -/
def adaptFilter (m : MomentumMemory) (reg : LinearRegressionResult) (cfg : StrategyAdaptCfg) : MomentumMemory :=
  let confident := reg.rSquared.greaterThanOrEqual cfg.r2Threshold
  let negShift := (reg.slope.mul cfg.slopeScaleBuy).negate
  { m with
    lastRegression := reg
    hasRegression := true
    liveBreakoutMult :=
      m.liveBreakoutMult.shiftWithin ((Fpn.blendOnMask negShift .zero confident).mul cfg.stddevAdaptScale)
        cfg.breakoutMin (.fromInt 5) }

def feed (m : MomentumMemory) (currentPrice portfolioDelta : Fpn) : MomentumMemory :=
  { m with feeder := m.feeder.push portfolioDelta, priceFeeder := m.priceFeeder.push currentPrice }

/-- `Momentum_Adapt`. -/
def adapt (m : MomentumMemory) (currentPrice portfolioDelta : Fpn) (activeBitmap : BitVec 16) (gatePrice : Fpn)
    (cfg : StrategyAdaptCfg) : MomentumMemory :=
  let m := (m.idleSqueeze currentPrice gatePrice activeBitmap cfg).feed currentPrice portfolioDelta
  if m.feeder.count ≥ maxWindow then m.adaptFilter m.feeder.compute cfg else m

end MomentumMemory

/-! ### The dispatcher -/

/-- `Strategy_AdaptPerCore`: the strategy that runs adapts, if the memory is its own; the gate it is
    shown is an empty one. -/
def StrategyMemory.adaptPerCore (m : StrategyMemory) (effective : Option Strategy) (currentPrice portfolioDelta : Fpn)
    (activeBitmap : BitVec 16) (cfg : StrategyAdaptCfg) : StrategyMemory :=
  match m, effective with
  | .meanReversion s, some .meanReversion =>
    .meanReversion (s.adapt currentPrice portfolioDelta activeBitmap .zero cfg)
  | .momentum s, some .momentum => .momentum (s.adapt currentPrice portfolioDelta activeBitmap .zero cfg)
  | m, _ => m

/-- What a rebuild hands to the adaptation. -/
structure AdaptCycle where
  effective : Option Strategy
  priceAvg : Fpn
  activeBitmap : BitVec 16
  cfg : StrategyAdaptCfg

/-- The adaptation of `EventLoop_RebuildOneCore`, whose P&L sample is zero. -/
def StrategyMemory.rebuild (m : StrategyMemory) (c : AdaptCycle) : StrategyMemory :=
  m.adaptPerCore c.effective c.priceAvg .zero c.activeBitmap c.cfg

/-! ### The moves in integers -/

namespace Fpn

variable {a b live gap d floor shift lo hi : Fpn}

theorem maxOf_v (a b : Fpn) : (a.maxOf b).v = max a.v b.v := by
  unfold maxOf
  split
  · exact (max_eq_left (le_of_lt ‹_›)).symm
  · exact (max_eq_right (not_lt.1 ‹_›)).symm

theorem minOf_v (a b : Fpn) : (a.minOf b).v = min a.v b.v := by
  unfold minOf
  split
  · exact (min_eq_left (le_of_lt ‹_›)).symm
  · exact (min_eq_right (not_lt.1 ‹_›)).symm

/-- Without a squeeze the floor is all there is. -/
theorem squeeze_false_v (live gap d floor : Fpn) : (live.squeeze gap d floor false).v = max live.v floor.v := by
  rw [squeeze, blendOnMask_false, sub_zero, maxOf_v]

/-- A shift of nothing leaves the clamp. -/
theorem shiftWithin_zero_v (live lo hi : Fpn) : (live.shiftWithin zero lo hi).v = min (max live.v lo.v) hi.v := by
  rw [shiftWithin, addSat_zero, minOf_v, maxOf_v]

/-- What is not below zero times what is between nothing and everything. -/
theorem mul_share_v (hgap : 0 ≤ gap.v) (hd : 0 ≤ d.v ∧ d.v ≤ fpnOne) :
    (gap.mul d).v = (gap.v * d.v).tdiv fpnOne := by
  refine mul_tdiv ?_
  have hle : gap.v.natAbs * d.v.natAbs / fpnOne ≤ gap.v.natAbs := by
    refine Nat.div_le_of_le_mul ?_
    rw [Nat.mul_comm]
    refine Nat.mul_le_mul_right _ ?_
    have hcast : ((d.v.natAbs : ℕ) : ℤ) ≤ fpnOne := by rw [Int.natAbs_of_nonneg hd.1]; exact hd.2
    exact_mod_cast hcast
  have hup : ((gap.v.natAbs : ℕ) : ℤ) ≤ fpnMax := by rw [Int.natAbs_of_nonneg hgap]; exact gap.upper
  exact (Int.ofNat_le.2 hle).trans hup

/-- A squeeze is a turn of the decay above its floor. -/
theorem squeeze_v (should : Bool) (hfloor : 0 ≤ floor.v) (hlive : floor.v ≤ live.v) (hgap : gap.v = live.v - floor.v)
    (hd : 0 ≤ d.v ∧ d.v ≤ fpnOne) :
    (live.squeeze gap d floor should).v =
      floor.v + if should then decay fpnOne d.v (live.v - floor.v) else live.v - floor.v := by
  cases should with
  | false =>
    rw [squeeze_false_v, max_eq_left hlive, if_neg (by decide)]
    omega
  | true =>
    have hnonneg : 0 ≤ live.v - floor.v := Int.sub_nonneg_of_le hlive
    have hstep : 0 ≤ decay fpnOne d.v (live.v - floor.v) := decay_nonneg (by decide) hd.2 hnonneg
    have hmul : (gap.mul d).v = ((live.v - floor.v) * d.v).tdiv fpnOne := by
      rw [mul_share_v (hgap ▸ hnonneg) hd, hgap]
    have hless : 0 ≤ (gap.mul d).v := hmul ▸ mul_tdiv_nonneg hnonneg hd.1
    have hvalue : live.v - (gap.mul d).v = floor.v + decay fpnOne d.v (live.v - floor.v) := by
      rw [hmul, decay]
      omega
    have hfits : Fits (live.v - (gap.mul d).v) := by
      have hup := live.upper
      have hmax : fpnMax = 2 ^ 127 - 1 := rfl
      constructor <;> omega
    rw [squeeze, blendOnMask_true, maxOf_v, sub_v hfits, hvalue, if_pos rfl]
    exact max_eq_left (by omega)

end Fpn

/-! ### A node on the slow path -/

/-- Nothing but zeros has reached the P&L feeder, whose fill is the number of cycles up to eight. -/
structure Unfed (feeder : RegressionFeeder) (cycles : ℕ) : Prop where
  still : feeder.Still
  count : feeder.count = min cycles maxWindow

theorem unfed_init : Unfed .init 0 := ⟨RegressionFeeder.still_init, rfl⟩

theorem Unfed.push {feeder : RegressionFeeder} {n : ℕ} (h : Unfed feeder n) : Unfed (feeder.push .zero) (n + 1) where
  still := h.still.push
  count := by
    rw [RegressionFeeder.push_count _ _ (h.count ▸ Nat.min_le_right _ _), h.count]
    omega

/-- The feeder is full. -/
theorem Unfed.full_iff {feeder : RegressionFeeder} {n : ℕ} (h : Unfed feeder n) :
    feeder.count ≥ maxWindow ↔ maxWindow ≤ n := by
  rw [h.count]
  omega

end FoxTrader
