import FoxTrader.TrainingLabels

/-! # The label functions

    A label function is given the ticks of a window, the position of the tick the sample was collected
    on, the price of the sample, two barriers and a number that is a horizon for most of them. Six scan
    the ticks ahead for the first to touch one of two barriers, four read one tick ahead, two look for
    the furthest price ahead. The prices are doubles and the labels floats; what the code asks of them is
    all the functions use. -/

namespace FoxTrader

namespace Backtest

variable {π ℓ : Type}

/-! ### Doubles and floats -/

/-- The operations on doubles (`π`) and floats (`ℓ`) of the label code. -/
structure Floats (π ℓ : Type) where
  lit : Rat → π
  ofInt : Int → π
  toInt : π → Int
  add : π → π → π
  sub : π → π → π
  mul : π → π → π
  div : π → π → π
  sqrt : π → π
  lt : π → π → Bool
  le : π → π → Bool
  num : Rat → ℓ
  nan : ℓ
  toFloat : π → ℓ
  isNan : ℓ → Bool
  isInf : ℓ → Bool
  eq : ℓ → ℓ → Bool
  lt_irrefl : ∀ x, lt x x = false
  lt_trans : ∀ {x y z}, lt x y → lt y z → lt x z

def Floats.labelNumbers (F : Floats π ℓ) : LabelNumbers ℓ :=
  { nan := F.nan, zero := F.num 0, half := F.num (1 / 2), isBad := fun l => F.isNan l || F.isInf l }

/-- A loader takes no other price. -/
def Floats.positive (F : Floats π ℓ) (p : π) : Bool := F.lt (F.lit 0) p

/-! ### Scanning ahead -/

/-- The ticks behind the position `idx` and before `stop`. -/
def ahead (ticks : List (HistoricalTick π)) (idx stop : Nat) : List (HistoricalTick π) :=
  (ticks.take stop).drop (idx + 1)

/-- The barrier a price touches; the upper one is asked first. -/
def touch (F : Floats π ℓ) (up down : π) (onUp onDown : ℓ) (price : π) : Option ℓ :=
  if F.le up price then some onUp else if F.le price down then some onDown else none

/-- The first barrier touched. -/
def firstPassage (F : Floats π ℓ) (up down : π) (onUp onDown neither : ℓ) (reach : List (HistoricalTick π)) : ℓ :=
  (reach.findSome? fun t => touch F up down onUp onDown t.price).getD neither

/-- The furthest price and its position, when the ticks from the position `n` on are seen. -/
def furthestFrom (beyond : π → π → Bool) (e : π × Nat) (n : Nat) (reach : List (HistoricalTick π)) : π × Nat :=
  (reach.zipIdx n).foldl (fun e t => if beyond e.1 t.1.price then (t.1.price, t.2) else e) e

def furthest (beyond : π → π → Bool) (samplePrice : π) (idx : Nat) (reach : List (HistoricalTick π)) : π × Nat :=
  furthestFrom beyond (samplePrice, idx) (idx + 1) reach

/-- The barriers a percentage above and below a price. -/
def pctAbove (F : Floats π ℓ) (price pct : π) : π := F.mul price (F.add (F.lit 1) (F.div pct (F.lit 100)))

def pctBelow (F : Floats π ℓ) (price pct : π) : π := F.mul price (F.sub (F.lit 1) (F.div pct (F.lit 100)))

/-! ### Volatility -/

/-- `LABEL_VOL_MIN_PERIODS`. -/
def labelVolMinPeriods : Nat := 5

/-- `LABEL_VOL_WINDOW_DEFAULT`. -/
def labelVolWindowDefault : Int := 500

structure ReturnSums (π : Type) where
  sum : π
  sumSq : π
  n : Nat

/-- The returns between neighbours; one from a bad price is left out. -/
def returnSums (F : Floats π ℓ) (prices : List π) : ReturnSums π :=
  (prices.zip prices.tail).foldl (fun s p =>
    if F.le p.1 (F.lit 0) then s
    else
      let r := F.div (F.sub p.2 p.1) p.1
      { sum := F.add s.sum r, sumSq := F.add s.sumSq (F.mul r r), n := s.n + 1 })
    { sum := F.lit 0, sumSq := F.lit 0, n := 0 }

/-- `LabelVol_RollingSigma`; the ticks it reads are those before the position. -/
def labelVolRollingSigma (F : Floats π ℓ) (ticks : List (HistoricalTick π)) (tickIdx : Nat) (volWindow : Int) :
    Option π :=
  if tickIdx < labelVolMinPeriods + 1 then none
  else
    let start : Int := tickIdx - volWindow
    let start := if start < 1 then 1 else start
    if tickIdx - start < labelVolMinPeriods then none
    else
      let s := returnSums F (((ticks.take tickIdx).drop (start - 1).toNat).map (·.price))
      if s.n < labelVolMinPeriods then none
      else
        let mean := F.div s.sum (F.ofInt s.n)
        let variance := F.sub (F.div s.sumSq (F.ofInt s.n)) (F.mul mean mean)
        if F.le variance (F.lit 0) then none
        else
          let sigma := F.sqrt variance
          if F.le sigma (F.lit (1 / 1000000000000000)) then none else some sigma

/-- The barriers `k` sigmas of a volatility above and below a price. -/
def sigmasAbove (F : Floats π ℓ) (price sigmas : π) : π := F.mul price (F.add (F.lit 1) sigmas)

def sigmasBelow (F : Floats π ℓ) (price sigmas : π) : π := F.mul price (F.sub (F.lit 1) sigmas)

def barrierKOrDefault (F : Floats π ℓ) (barrierK : π) : π :=
  if F.le barrierK (F.lit 0) then F.lit (1 / 2) else barrierK

/-! ### The functions -/

/-- `LabelFn`: the window, the position, the price of the sample, two barriers and the extra number. -/
abbrev LabelFn (π ℓ : Type) : Type := List (HistoricalTick π) → Nat → π → π → π → Int → ℓ

def labelWinLoss (F : Floats π ℓ) : LabelFn π ℓ := fun ticks tickIdx samplePrice tpPct slPct _ =>
  firstPassage F (pctAbove F samplePrice tpPct) (pctBelow F samplePrice slPct) (F.num 1) (F.num 0) (F.num 0)
    (ahead ticks tickIdx ticks.length)

def labelBarrier (F : Floats π ℓ) : LabelFn π ℓ := fun ticks tickIdx samplePrice tpPct slPct _ =>
  firstPassage F (pctAbove F samplePrice tpPct) (pctBelow F samplePrice slPct) (F.num 1) (F.num 0) (F.num (1 / 2))
    (ahead ticks tickIdx ticks.length)

/-- The tick at the horizon, or the last one where the horizon is past it. -/
def forwardTarget (total tickIdx : Nat) (forwardTicks : Int) : Int :=
  if tickIdx + forwardTicks ≥ total then (total : Int) - 1 else tickIdx + forwardTicks

def labelForwardPnl (F : Floats π ℓ) : LabelFn π ℓ := fun ticks tickIdx samplePrice _ _ forwardTicks =>
  let targetIdx := forwardTarget ticks.length tickIdx forwardTicks
  if targetIdx ≤ tickIdx then F.num 0
  else
    match ticks[targetIdx.toNat]? with
    | none => F.num 0
    | some t => F.toFloat (F.mul (F.div (F.sub t.price samplePrice) samplePrice) (F.lit 100))

def labelRegime (F : Floats π ℓ) : LabelFn π ℓ := fun _ _ _ _ _ regimeAtSample => F.num regimeAtSample

def labelVolBarrier (F : Floats π ℓ) : LabelFn π ℓ := fun ticks tickIdx samplePrice barrierK _ volWindow =>
  match labelVolRollingSigma F ticks tickIdx (if volWindow ≤ 0 then 20 else volWindow) with
  | none => F.num (1 / 2)
  | some vol =>
    let sigmas := F.mul (barrierKOrDefault F barrierK) vol
    firstPassage F (sigmasAbove F samplePrice sigmas) (sigmasBelow F samplePrice sigmas) (F.num 1) (F.num 0)
      (F.num (1 / 2))
      (ahead ticks tickIdx ticks.length)

def labelVolBarrier3C (F : Floats π ℓ) : LabelFn π ℓ := fun ticks tickIdx samplePrice barrierK _ volWindow =>
  match labelVolRollingSigma F ticks tickIdx (if volWindow ≤ 0 then 20 else volWindow) with
  | none => F.num 0
  | some vol =>
    let sigmas := F.mul (barrierKOrDefault F barrierK) vol
    firstPassage F (sigmasAbove F samplePrice sigmas) (sigmasBelow F samplePrice sigmas) (F.num 2) (F.num 1) (F.num 0)
      (ahead ticks tickIdx ticks.length)

def lookahead (extra : Int) : Int := if extra > 0 then extra else 500

/-- Where a bounded scan ends. -/
def lookaheadEnd (ticks : List (HistoricalTick π)) (tickIdx : Nat) (extra : Int) : Nat :=
  min (tickIdx + (lookahead extra).toNat) ticks.length

def labelVolBarrier3CTimed (F : Floats π ℓ) : LabelFn π ℓ :=
  fun ticks tickIdx samplePrice barrierK volWindowIn forwardTicks =>
  let volWindow := if F.le (F.ofInt labelVolMinPeriods) volWindowIn then F.toInt volWindowIn
    else labelVolWindowDefault
  match labelVolRollingSigma F ticks tickIdx volWindow with
  | none => F.num 0
  | some vol =>
    let horizonScale := F.sqrt (F.ofInt (lookahead forwardTicks))
    let sigmas := F.mul (F.mul (barrierKOrDefault F barrierK) vol) horizonScale
    firstPassage F (sigmasAbove F samplePrice sigmas) (sigmasBelow F samplePrice sigmas) (F.num 2) (F.num 1) (F.num 0)
      (ahead ticks tickIdx (lookaheadEnd ticks tickIdx forwardTicks))

/-- Whether the furthest price comes in the first quarter of the lookahead. -/
def nearStart (tickIdx : Nat) (extra : Int) (at_ : Nat) : Bool := ((at_ : Int) - tickIdx) < lookahead extra / 4

def risePct (F : Floats π ℓ) (samplePrice peak : π) : π := F.div (F.sub peak samplePrice) samplePrice

def dropPct (F : Floats π ℓ) (samplePrice valley : π) : π := F.div (F.sub samplePrice valley) samplePrice

def labelWillPeak (F : Floats π ℓ) : LabelFn π ℓ := fun ticks tickIdx samplePrice _ _ extra =>
  let peak :=
    furthest (fun e p => F.lt e p) samplePrice tickIdx (ahead ticks tickIdx (lookaheadEnd ticks tickIdx extra))
  if nearStart tickIdx extra peak.2 && F.lt (F.lit (1 / 1000)) (risePct F samplePrice peak.1) then F.num 1
    else F.num 0

def labelWillValley (F : Floats π ℓ) : LabelFn π ℓ := fun ticks tickIdx samplePrice _ _ extra =>
  let valley :=
    furthest (fun e p => F.lt p e) samplePrice tickIdx (ahead ticks tickIdx (lookaheadEnd ticks tickIdx extra))
  if nearStart tickIdx extra valley.2 && F.lt (F.lit (1 / 1000)) (dropPct F samplePrice valley.1) then F.num 1
    else F.num 0

def labelPeakValleyStable (F : Floats π ℓ) : LabelFn π ℓ := fun ticks tickIdx samplePrice tpPct slPct extra =>
  firstPassage F (pctAbove F samplePrice tpPct) (pctBelow F samplePrice slPct) (F.num 2) (F.num 1) (F.num 0)
    (ahead ticks tickIdx (lookaheadEnd ticks tickIdx extra))

/-- The raw return the three cross-sectional labels give for one symbol. -/
def labelFutureReturn (F : Floats π ℓ) : LabelFn π ℓ := fun ticks tickIdx samplePrice _ _ extra =>
  let forwardTicks := if extra > 0 then extra else 100
  if tickIdx + forwardTicks ≥ ticks.length || F.le samplePrice (F.lit 0) then F.nan
  else
    match ticks[(tickIdx + forwardTicks).toNat]? with
    | none => F.nan
    | some t => F.toFloat (F.div (F.sub t.price samplePrice) samplePrice)

def labelCSPercentileRank (F : Floats π ℓ) : LabelFn π ℓ := labelFutureReturn F

def labelCSZScoreRobust (F : Floats π ℓ) : LabelFn π ℓ := labelFutureReturn F

def labelCSVolScaledDemeaned (F : Floats π ℓ) : LabelFn π ℓ := labelFutureReturn F

/-! ### The table -/

/-- `FOREACH_TARGET`. -/
inductive LabelType where
  | winLoss | barrier | forwardPnl | regime | volBarrier | willPeak | willValley | peakValleyStable
  | csPercentileRank | csZscoreRobust | csVolscaledDemeaned | volBarrier3c | volBarrier3cTimed
  deriving DecidableEq

inductive LabelTpKind where
  | unused | pct | sigmaK
  deriving DecidableEq

inductive LabelSlKind where
  | unused | pct | volWindowTicks
  deriving DecidableEq

structure LabelDef (π ℓ : Type) where
  fn : LabelFn π ℓ
  numClasses : Nat
  tpKind : LabelTpKind
  slKind : LabelSlKind

def labelTable (F : Floats π ℓ) : LabelType → LabelDef π ℓ
  | .winLoss => ⟨labelWinLoss F, 0, .pct, .pct⟩
  | .barrier => ⟨labelBarrier F, 0, .pct, .pct⟩
  | .forwardPnl => ⟨labelForwardPnl F, 1, .unused, .unused⟩
  | .regime => ⟨labelRegime F, 5, .unused, .unused⟩
  | .volBarrier => ⟨labelVolBarrier F, 0, .sigmaK, .unused⟩
  | .willPeak => ⟨labelWillPeak F, 0, .unused, .unused⟩
  | .willValley => ⟨labelWillValley F, 0, .unused, .unused⟩
  | .peakValleyStable => ⟨labelPeakValleyStable F, 3, .pct, .pct⟩
  | .csPercentileRank => ⟨labelCSPercentileRank F, 1, .unused, .unused⟩
  | .csZscoreRobust => ⟨labelCSZScoreRobust F, 1, .unused, .unused⟩
  | .csVolscaledDemeaned => ⟨labelCSVolScaledDemeaned F, 1, .unused, .unused⟩
  | .volBarrier3c => ⟨labelVolBarrier3C F, 3, .sigmaK, .unused⟩
  | .volBarrier3cTimed => ⟨labelVolBarrier3CTimed F, 3, .sigmaK, .volWindowTicks⟩

/-- A label type as configured; `none` if the table has no such row. -/
abbrev LabelId : Type := Option LabelType

def labelTypeNumClasses (F : Floats π ℓ) (label : LabelId) : Nat :=
  (label.map fun l => (labelTable F l).numClasses).getD 0

def labelTypeKind (F : Floats π ℓ) (label : LabelId) : LabelKind :=
  match labelTypeNumClasses F label with
  | 0 => .binary
  | 1 => .regression
  | _ => .multiclass

/-- `Label_WinLoss` stands in for an unknown label type. -/
def labelFnOf (F : Floats π ℓ) (label : LabelId) : LabelFn π ℓ :=
  match label with
  | none => labelWinLoss F
  | some l => (labelTable F l).fn

def labelResolveEffectiveSl (F : Floats π ℓ) (label : LabelId) (slPct : π) : π :=
  match label.map fun l => (labelTable F l).slKind with
  | none => if F.lt (F.lit 0) slPct then slPct else F.lit 1
  | some .volWindowTicks => if F.le (F.ofInt labelVolMinPeriods) slPct then slPct else F.ofInt labelVolWindowDefault
  | some .pct => if F.lt (F.lit 0) slPct then slPct else F.lit 1
  | some .unused => if F.lt (F.lit 0) slPct then slPct else F.lit 0

/-- Only a percentage is widened by the fee. -/
def labelResolveEffectiveTp (F : Floats π ℓ) (label : LabelId) (tpPct roundtripFeePct : π) : π :=
  match label.map fun l => (labelTable F l).tpKind with
  | some .pct => if F.lt (F.lit 0) roundtripFeePct then F.add tpPct roundtripFeePct else tpPct
  | _ => tpPct

structure LabelBatchTarget (π : Type) where
  labelType : LabelId
  tpPct : π
  slPct : π
  forwardTicks : Int

/-- The price and the regime noted with a sample. -/
structure SampleNote (π : Type) where
  price : π
  regime : Int
  deriving DecidableEq

deriving instance DecidableEq for Sample

def LabelBatchTarget.tp (F : Floats π ℓ) (roundtripFeePct : π) (t : LabelBatchTarget π) : π :=
  labelResolveEffectiveTp F t.labelType (if F.lt (F.lit 0) t.tpPct then t.tpPct else F.lit (3 / 2)) roundtripFeePct

def LabelBatchTarget.sl (F : Floats π ℓ) (t : LabelBatchTarget π) : π := labelResolveEffectiveSl F t.labelType t.slPct

def LabelBatchTarget.fwd (t : LabelBatchTarget π) : Int := if t.forwardTicks > 0 then t.forwardTicks else 1000

def LabelBatchTarget.extra (t : LabelBatchTarget π) (noted : SampleNote π) : Int :=
  if t.labelType = some .regime then noted.regime else t.fwd

/-- The target with its parameters resolved (`ResolvedTarget`). -/
def LabelBatchTarget.resolved (F : Floats π ℓ) (roundtripFeePct : π) (t : LabelBatchTarget π) :
    LabelTarget π (SampleNote π) ℓ :=
  { fn := fun window localTidx noted => labelFnOf F t.labelType window localTidx noted.price (t.tp F roundtripFeePct) (t.sl F)
      (t.extra noted)
    kind := labelTypeKind F t.labelType }

end Backtest

end FoxTrader
