import FoxTrader.BanditLearning
import FoxTrader.RegimeDetector

/-! # The ensemble's rewards

    A node's ensemble records every prediction in a ring, with the price it was made at. A slow cycle
    rewards the arms of the records that are old enough by the price since, a closed trade those of the
    latest record that no trade has rewarded, and a watchdog keeps each arm's recent outcomes and takes
    the weight of an arm whose average falls below a floor.

    Prices and predictions are exact; what a conversion to `float` keeps of an average or a floor is a
    parameter. The bandits' own update is a parameter too: it changes no other field. -/

namespace FoxTrader

open Lib

/-- What a conversion to `float` keeps of a number: it tells any two hundredths apart. -/
structure FloatRounding (K : Type*) [Field K] where
  round : K → K
  hundredths : ∀ a b : ℤ, |a| ≤ 100 → |b| ≤ 100 → round (a / 100) = round (b / 100) → a = b

def ensembleHorizonMax : ℕ := 8
def rewardRingSize : ℕ := 256
def driftIcHistory : ℕ := 100

structure PredictionRecord (K : Type*) where
  /-- The number of the prediction, zero in a slot that was never written. -/
  predictCall : ℕ
  regimeId : ℤ
  predictions : ℕ → K
  samplePrice : K
  rewardedLookback : Bool
  rewardedTrade : Bool

structure PerArmDrift (K : Type*) where
  icHistory : List K
  icCount : ℕ
  icAvg : K
  demoted : Bool

/-- A regime's bandit, with its number of arms. -/
structure RegimeBandit (K : Type*) where
  nArms : ℕ
  state : BanditState K nArms

inductive PrimaryRole where
  | buySignal
  | barrier
  | regime

structure EnsembleModelZoo (K : Type*) where
  active : Bool
  banditsReady : Bool
  buySignalCount : ℤ
  barrierCount : ℤ
  regimeCount : ℤ
  primaryHandles : Option PrimaryRole
  primaryCount : ℤ
  disabledHorizonMask : BitVec 8
  bandits : Regime → RegimeBandit K
  rewardRing : ℕ → PredictionRecord K
  rewardRingHead : ℕ
  predictCallCount : ℕ
  drift : ℕ → PerArmDrift K

/-- A reward given to an arm for the prediction of a number. -/
structure Reward (K : Type*) where
  predictCall : ℕ
  regime : Regime
  arm : ℕ
  rewardBps : K

/-- The update of the regime's bandits by the configured algorithm. -/
abbrev RewardDispatch (K : Type*) := (Regime → RegimeBandit K) → Regime → ℕ → K → Regime → RegimeBandit K

variable {K : Type*}

namespace EnsembleModelZoo

/-- `EnsembleModelZoo_EnsurePrimary`. -/
def ensurePrimary (z : EnsembleModelZoo K) : EnsembleModelZoo K :=
  if z.primaryHandles.isSome || decide (0 < z.primaryCount) then z
  else if 0 < z.buySignalCount then
    { z with primaryHandles := some .buySignal, primaryCount := z.buySignalCount }
  else if 0 < z.barrierCount then
    { z with primaryHandles := some .barrier, primaryCount := z.barrierCount }
  else if 0 < z.regimeCount then
    { z with primaryHandles := some .regime, primaryCount := z.regimeCount }
  else z

theorem ensurePrimary_drift (z : EnsembleModelZoo K) : z.ensurePrimary.drift = z.drift := by
  unfold ensurePrimary
  split_ifs <;> rfl

theorem ensurePrimary_disabledHorizonMask (z : EnsembleModelZoo K) :
    z.ensurePrimary.disabledHorizonMask = z.disabledHorizonMask := by
  unfold ensurePrimary
  split_ifs <;> rfl

/-- What is chosen once is not chosen again. -/
theorem ensurePrimary_ensurePrimary (z : EnsembleModelZoo K) : z.ensurePrimary.ensurePrimary = z.ensurePrimary := by
  by_cases hset : (z.primaryHandles.isSome || decide (0 < z.primaryCount)) = true
  · have heq : z.ensurePrimary = z := if_pos hset
    rw [heq, heq]
  · by_cases hbuy : 0 < z.buySignalCount
    · have heq : z.ensurePrimary =
          { z with primaryHandles := some .buySignal, primaryCount := z.buySignalCount } := by
        rw [ensurePrimary, if_neg hset, if_pos hbuy]
      rw [heq]
      rfl
    · by_cases hbarrier : 0 < z.barrierCount
      · have heq : z.ensurePrimary =
            { z with primaryHandles := some .barrier, primaryCount := z.barrierCount } := by
          rw [ensurePrimary, if_neg hset, if_neg hbuy, if_pos hbarrier]
        rw [heq]
        rfl
      · by_cases hregime : 0 < z.regimeCount
        · have heq : z.ensurePrimary =
              { z with primaryHandles := some .regime, primaryCount := z.regimeCount } := by
            rw [ensurePrimary, if_neg hset, if_neg hbuy, if_neg hbarrier, if_pos hregime]
          rw [heq]
          rfl
        · have heq : z.ensurePrimary = z := by
            rw [ensurePrimary, if_neg hset, if_neg hbuy, if_neg hbarrier, if_neg hregime]
          rw [heq, heq]

/-- The primary role depends on the roles alone. -/
theorem ensurePrimary_primaryCount_congr {z z' : EnsembleModelZoo K} (hhandles : z'.primaryHandles = z.primaryHandles)
    (hprimary : z'.primaryCount = z.primaryCount) (hbuy : z'.buySignalCount = z.buySignalCount)
    (hbarrier : z'.barrierCount = z.barrierCount) (hregime : z'.regimeCount = z.regimeCount) :
    z'.ensurePrimary.primaryCount = z.ensurePrimary.primaryCount := by
  unfold ensurePrimary
  rw [hhandles, hprimary, hbuy, hbarrier, hregime]
  split_ifs
  · exact hprimary
  · rfl
  · rfl
  · rfl
  · exact hprimary

end EnsembleModelZoo

variable [Field K] [LinearOrder K]

/-- `exp3_only_reward`. -/
def exp3OnlyReward (m : BanditMath K) : RewardDispatch K := fun bandits regime arm r =>
  Function.update bandits regime
    ⟨(bandits regime).nArms, (bandits regime).state.update m arm (.finite r)⟩

/-- The prediction of an arm that says nothing. -/
def evenOdds : K := 1 / (2 : ℕ)

/-- The weight of a demoted arm. -/
def smallestWeight : K := 1 / (10 : ℕ) ^ 9

/-- How far above the floor a demoted arm has to get. -/
def recoveryMargin : K := (2 : ℕ) / (100 : ℕ)

/-- The regime of an id, the first one if it is none. -/
def regimeOfId (id : ℤ) : Regime :=
  if id = 1 then .trending
  else if id = 2 then .volatile
  else if id = 3 then .trendingDown
  else if id = 4 then .mildTrend
  else .ranging

namespace PerArmDrift

/-- The record of one outcome, and the average over the slots that are filled. -/
def record (r : FloatRounding K) (d : PerArmDrift K) (correct : Bool) : PerArmDrift K :=
  let idx := d.icCount % driftIcHistory
  let icHistory := d.icHistory.set idx (if correct then 1 else -1)
  let icCount := if d.icCount < driftIcHistory then d.icCount + 1 else d.icCount
  let n := if driftIcHistory < icCount then driftIcHistory else icCount
  let sum := (icHistory.take n).foldl (· + ·) 0
  { d with
    icHistory
    icCount
    icAvg := if 0 < n then r.round (sum / n) else 0 }

/-- An arm with enough outcomes, an average below the floor and its weight. -/
def demotes (r : FloatRounding K) (d : PerArmDrift K) (icFloor : K) : Bool :=
  decide (20 ≤ min d.icCount driftIcHistory) && decide (d.icAvg < r.round icFloor) && !d.demoted

def recovers (r : FloatRounding K) (d : PerArmDrift K) (icFloor : K) : Bool :=
  d.demoted && decide (r.round (r.round icFloor + r.round recoveryMargin) < d.icAvg)

end PerArmDrift

namespace EnsembleModelZoo

/-- `EnsembleModelZoo_RecordPrediction`. -/
def recordPrediction (z : EnsembleModelZoo K) (regimeId : ℤ) (perArmPreds : ℕ → K) (nArms : ℤ) (samplePrice : K) :
    EnsembleModelZoo K :=
  if !z.active then z
  else
    let slot := z.rewardRingHead % rewardRingSize
    let n := min nArms ensembleHorizonMax
    { z with
      predictCallCount := z.predictCallCount + 1
      rewardRing := Function.update z.rewardRing slot
        { predictCall := z.predictCallCount + 1
          regimeId
          predictions := fun a => if (a : ℤ) < n then perArmPreds a else evenOdds
          samplePrice
          rewardedLookback := false
          rewardedTrade := false }
      rewardRingHead := (z.rewardRingHead + 1) % rewardRingSize }

/-- The weight of an arm, forced near zero in every regime that has it. -/
def demoteArm (z : EnsembleModelZoo K) (arm : ℕ) : EnsembleModelZoo K :=
  { z with
    bandits := fun regime =>
      let b := z.bandits regime
      ⟨b.nArms, { b.state with
        weights := fun i => if (i : ℕ) = arm then .finite smallestWeight else b.state.weights i }⟩
    drift := Function.update z.drift arm { z.drift arm with demoted := true } }

/-- `EnsembleModelZoo_UpdateDrift`. -/
def updateDrift (r : FloatRounding K) (z : EnsembleModelZoo K) (arm : ℤ) (correct : Bool) (icFloor : K) :
    EnsembleModelZoo K :=
  let z := z.ensurePrimary
  if arm < 0 || z.primaryCount ≤ arm then z
  else
    let a := arm.toNat
    let d := (z.drift a).record r correct
    let z := { z with drift := Function.update z.drift a d }
    if d.demotes r icFloor then z.demoteArm a
    else if d.recovers r icFloor then { z with drift := Function.update z.drift a { d with demoted := false } }
    else z

/-- The arms that are not disabled, in order. -/
def enabledArms (z : EnsembleModelZoo K) : List ℕ :=
  (List.range z.primaryCount.toNat).filter fun a => !z.disabledHorizonMask.getLsbD a

/-- The reward of an arm reaches the bandits of its regime. -/
def credit (dispatch : RewardDispatch K) (z : EnsembleModelZoo K) (w : Reward K) : EnsembleModelZoo K :=
  { z with bandits := dispatch z.bandits w.regime w.arm w.rewardBps }

end EnsembleModelZoo

namespace PredictionRecord

/-- Whether an arm's prediction went the way things did. -/
def correct (rec : PredictionRecord K) (up : Bool) (arm : ℕ) : Bool := decide (evenOdds < rec.predictions arm) == up

def rewards (rec : PredictionRecord K) (up : Bool) (mult : K) (arms : List ℕ) : List (Reward K) :=
  arms.map fun a =>
    { predictCall := rec.predictCall
      regime := regimeOfId rec.regimeId
      arm := a
      rewardBps := (if rec.correct up a then 50 else -50) * mult }

/-- Whether the price went up since. -/
def priceUp (rec : PredictionRecord K) (currentPrice : K) : Bool :=
  decide (0 < (currentPrice - rec.samplePrice) / rec.samplePrice)

/-- A record that was written, was not rewarded yet and is old enough. -/
def due (rec : PredictionRecord K) (now lookbackCalls : ℕ) : Bool :=
  rec.predictCall != 0 && !rec.rewardedLookback && !decide (now < rec.predictCall + lookbackCalls)

end PredictionRecord

/-- What the rewards of a node depend on. -/
structure RewardEnv (K : Type*) [Field K] where
  dispatch : RewardDispatch K
  rounding : FloatRounding K
  forwardTicks : ℤ
  pollInterval : ℤ

namespace RewardEnv

def forward (env : RewardEnv K) : ℤ := if env.forwardTicks ≤ 0 then 1000 else env.forwardTicks

def poll (env : RewardEnv K) : ℤ := if env.pollInterval ≤ 0 then 100 else env.pollInterval

/-- How many predictions later a record is old enough. -/
def lookbackCalls (env : RewardEnv K) : ℕ :=
  let calls := ((env.forward + env.poll - 1) / env.poll).toNat
  if calls = 0 then 1 else calls

end RewardEnv

namespace EnsembleModelZoo

/-- The look at one slot: what it rewards is added to the rewards so far. -/
def tickSlot (env : RewardEnv K) (currentPrice icFloor : K) (arms : List ℕ) (now : ℕ)
    (acc : EnsembleModelZoo K × List (Reward K)) (i : ℕ) : EnsembleModelZoo K × List (Reward K) :=
  let z := acc.1
  let rec' := z.rewardRing i
  if !rec'.due now env.lookbackCalls then acc
  else
    let marked : PredictionRecord K := { rec' with rewardedLookback := true }
    if rec'.samplePrice ≤ 0 then ({ z with rewardRing := Function.update z.rewardRing i marked }, acc.2)
    else
      let up := rec'.priceUp currentPrice
      let rewards := rec'.rewards up 1 arms
      let z := rewards.foldl
        (fun z w => (z.credit env.dispatch w).updateDrift env.rounding w.arm (rec'.correct up w.arm) icFloor) z
      ({ z with rewardRing := Function.update z.rewardRing i marked }, acc.2 ++ rewards)

/-- `EnsembleModelZoo_TickRewardsFromLookback`, with the rewards it gave. -/
def tickRewardsFromLookback (env : RewardEnv K) (z : EnsembleModelZoo K) (currentPrice icFloor : K) :
    EnsembleModelZoo K × List (Reward K) :=
  if !z.active || !z.banditsReady then (z, [])
  else
    let now := z.predictCallCount
    let z := z.ensurePrimary
    (List.range rewardRingSize).foldl (tickSlot env currentPrice icFloor z.enabledArms now) (z, [])

/-- The walk back from the head: past the records a trade has rewarded, up to the first slot never
    written. -/
def tradeSlot (z : EnsembleModelZoo K) : List ℕ → Option ℕ
  | [] => none
  | back :: rest =>
    let idx := (z.rewardRingHead + rewardRingSize - back) % rewardRingSize
    if (z.rewardRing idx).predictCall = 0 then none
    else if (z.rewardRing idx).rewardedTrade then z.tradeSlot rest
    else some idx

/-- The slot a closed trade rewards. -/
def tradeFound (z : EnsembleModelZoo K) : Option ℕ :=
  if !z.active || !z.banditsReady || z.predictCallCount == 0 then none
  else z.tradeSlot (List.range' 1 rewardRingSize)

/-- `EnsembleModelZoo_TradeCloseReward`. -/
def tradeCloseReward (env : RewardEnv K) (z : EnsembleModelZoo K) (realizedPnlBps rewardMult : K) :
    EnsembleModelZoo K :=
  match z.tradeFound with
  | none => if !z.active || !z.banditsReady || z.predictCallCount == 0 then z else z.ensurePrimary
  | some found =>
    let z := z.ensurePrimary
    let rec' := z.rewardRing found
    let z := (rec'.rewards (decide (0 < realizedPnlBps)) rewardMult z.enabledArms).foldl
      (credit env.dispatch) z
    { z with rewardRing := Function.update z.rewardRing found { rec' with rewardedTrade := true } }

end EnsembleModelZoo

end FoxTrader
