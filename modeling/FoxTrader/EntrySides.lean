import FoxTrader.AdaptationRuns
import FoxTrader.EntriesBlocked
import FoxTrader.EntriesShrink

/-! # The side a strategy buys on

    Mean reversion buys below the average and momentum above it. The builder sets the threshold on its
    side, and what comes behind it only takes entries away. So in a run of cycles and ticks, with the
    parameters adapted in between, a tick that enters is on the strategy's side of the average of the last
    full rebuild. -/

namespace FoxTrader

open Lib GateParameters

/-! ### The builders -/

namespace Fpn

variable {a b : Fpn}

theorem sub_le_v (ha : 0 ≤ a.v) (hb : 0 ≤ b.v) : (a.sub b).v ≤ a.v := by
  have hfits : Fits (a.v - b.v) := by
    have hup := a.upper
    have hbup := b.upper
    have hmax : fpnMax = 2 ^ 127 - 1 := rfl
    constructor <;> omega
  rw [sub_v hfits]
  omega

theorem le_addSat_v (ha : 0 ≤ a.v) (hb : 0 ≤ b.v) : a.v ≤ (a.addSat b).v := by
  have hup := a.upper
  unfold addSat saturate
  split
  · show a.v ≤ a.v + b.v
    omega
  · rw [decide_eq_false (by omega)]
    exact hup

theorem ofMoney_nonneg {m : Money} (hm : 0 ≤ m.v) : 0 ≤ (ofMoney m).v := by
  have hround : 0 ≤ halfEven (m.v * fpnOne) moneyScale := halfEven_nonneg (Int.mul_nonneg hm (by decide)) (by decide)
  unfold ofMoney saturate
  split
  · exact hround
  · rw [decide_eq_false (by omega)]
    decide

end Fpn

theorem Money.fromBinary_mono {a b : Fpn} (h : a.v ≤ b.v) : (Money.fromBinary a).val.v ≤ (Money.fromBinary b).val.v :=
  Money.saturate_mono (halfEven_mono (by decide) (Int.mul_le_mul_of_nonneg_right h (by decide)))

/-- A tick at a price that is not negative enters only where `side` holds of its price. -/
def GateParameters.EntersWhere (p : GateParameters) (side : Money → Prop) : Prop :=
  ∀ t : Tick, 0 ≤ t.price.v → p.bgEvaluate t = true → side t.price

def below (average : Fpn) (price : Money) : Prop := price.v < (Money.fromBinary average).val.v

def above (average : Fpn) (price : Money) : Prop := (Money.fromBinary average).val.v < price.v

variable {side : Money → Prop} {p q : GateParameters}

theorem GateParameters.EntersWhere.shrink (h : p.EntersWhere side) (hq : Shrinks p q) : q.EntersWhere side :=
  fun t hprice ht => h t hprice (hq t ht)

theorem lt_threshold_of_enters {t : Tick} (hside : p.has gateFlagBuyAbove = false) (ht : p.bgEvaluate t = true) :
    t.price.v < p.bgPriceThreshold.v := by
  unfold bgEvaluate at ht
  dsimp only at ht
  rw [hside, Bool.and_false, Bool.false_or, Bool.not_false, Bool.and_true] at ht
  simp only [Bool.and_eq_true] at ht
  exact of_decide_eq_true ht.1.1

theorem threshold_lt_of_enters {t : Tick} (hside : p.has gateFlagBuyAbove = true) (ht : p.bgEvaluate t = true) :
    p.bgPriceThreshold.v < t.price.v := by
  unfold bgEvaluate at ht
  dsimp only at ht
  rw [hside, Bool.and_true, Bool.not_true, Bool.and_false, Bool.or_false] at ht
  simp only [Bool.and_eq_true] at ht
  exact Money.gt_iff.1 ht.1.1

theorem entersWhere_init (side : Money → Prop) : GateParameters.init.EntersWhere side := by
  intro t hprice ht
  exact absurd (lt_threshold_of_enters (by decide) ht) (Int.not_lt.2 hprice)

namespace BuildInput

variable {x : BuildInput} {state : StrategyState} {b : Built}

/-- The average stands for itself once there is one. -/
theorem anchor_of_pos (h : 0 < x.rolling.priceAvg.v) (high : Fpn) : x.anchor high = x.rolling.priceAvg := by
  rw [anchor, Fpn.isZero_of_ne h.ne']
  rfl

theorem entersBelow_meanReversion (hstate : x.state = some state) (haverage : 0 < x.rolling.priceAvg.v)
    (hstddev : 0 ≤ x.rolling.priceStddev.v) (hoffset : 0 ≤ state.meanReversion.liveOffsetPct.v)
    (hmult : 0 ≤ state.meanReversion.liveStddevMult.v) :
    (x.build b .meanReversion).params.EntersWhere (below x.rolling.priceAvg) := by
  intro t _ ht
  have hside : (x.meanReversion b.params).has gateFlagBuyAbove = false := by
    have hflags : (x.meanReversion b.params).flags = exitFlags := rfl
    rw [has, hflags]
    decide
  have hthreshold : t.price.v < (x.meanReversion b.params).bgPriceThreshold.v := lt_threshold_of_enters hside ht
  refine lt_of_lt_of_le hthreshold ?_
  unfold meanReversion
  dsimp only [GateParameters.assign]
  rw [hstate, anchor_of_pos haverage]
  refine Money.fromBinary_mono (Fpn.sub_le_v haverage.le ?_)
  dsimp only [Option.map_some, Option.getD_some]
  split
  · exact Fpn.mul_nonneg_v hstddev hmult
  · exact Fpn.mul_nonneg_v haverage.le hoffset

theorem entersAbove_momentum (hstate : x.state = some state) (haverage : 0 < x.rolling.priceAvg.v)
    (hstddev : 0 ≤ x.rolling.priceStddev.v) (hbreakout : 0 ≤ state.momentum.liveBreakoutMult.v)
    (hoffset : 0 ≤ x.cfg.entryOffsetPct.v) :
    (x.build b .momentum).params.EntersWhere (above x.rolling.priceAvg) := by
  refine GateParameters.EntersWhere.shrink ?_ (shrinks_momentumFilters x { b with params := x.momentum b.params })
  intro t _ ht
  have hside : (x.momentum b.params).has gateFlagBuyAbove = true := by
    have hflags : (x.momentum b.params).flags = exitFlags ||| gateFlagBuyAbove := rfl
    rw [has, hflags]
    decide
  have hthreshold : (x.momentum b.params).bgPriceThreshold.v < t.price.v := threshold_lt_of_enters hside ht
  refine lt_of_le_of_lt ?_ hthreshold
  unfold momentum
  dsimp only [GateParameters.assign]
  rw [hstate, anchor_of_pos haverage]
  refine Money.fromBinary_mono (Fpn.le_addSat_v haverage.le ?_)
  dsimp only [Option.map_some, Option.getD_some]
  split
  · exact Fpn.mul_nonneg_v hstddev hbreakout
  · exact Fpn.mul_nonneg_v haverage.le (Fpn.ofMoney_nonneg hoffset)

end BuildInput

/-! ### One cycle -/

namespace SlowPath

/-- What is pending and what is in force enter on a side of the average of the last full rebuild. -/
structure OnSide (side : Fpn → Money → Prop) (s : SlowPath) : Prop where
  pending : s.ctx.node.pendingParams.EntersWhere (side s.ctx.node.priceAtLastRebuild)
  inForce : s.core.inForce.EntersWhere (side s.ctx.node.priceAtLastRebuild)

variable {side : Fpn → Money → Prop} {n : NodeIdx} {x : CycleInput} {s : SlowPath} {strategy : Strategy}

theorem Booted.onSide (h : s.Booted) : s.OnSide side where
  pending := h.pendingParams ▸ entersWhere_init _
  inForce := h.inForce ▸ entersWhere_init _

theorem average_rebuilt (s : SlowPath) (n : NodeIdx) (x : CycleInput) :
    (s.ctx.rebuildOneCore n x).node.priceAtLastRebuild =
      if x.skipsRebuild s.ctx.node then s.ctx.node.priceAtLastRebuild else x.rolling.priceAvg := by
  unfold SlowContext.rebuildOneCore
  split <;> rfl

/-- A builder on its side of the average keeps the node there. -/
theorem onSide_cycle (h : s.OnSide side) (hcount : s.CountsOn (.cycle x))
    (hs : Strategy.ofId x.effectiveStrategyId = some strategy)
    (hbuild : x.skipsRebuild s.ctx.node = false →
      ∀ out, (x.dispatched.build ⟨out, .ok⟩ strategy).params.EntersWhere (side x.rolling.priceAvg)) :
    (s.slowPathCycleOneCore n x).OnSide side := by
  have hkept := gateKept_cycle n x s
  have hforce : (s.slowPathCycleOneCore n x).core.inForce = s.pushed n x := cycle_inForce hcount
  have hpushed : (s.pushed n x).EntersWhere (side (s.ctx.rebuildOneCore n x).node.priceAtLastRebuild) := by
    rw [average_rebuilt]
    rcases Bool.eq_false_or_eq_true (x.skipsRebuild s.ctx.node) with hskip | hfull
    · rw [pushed_of_skip hskip, hskip, if_pos rfl]
      exact h.pending
    · rw [hfull, if_neg Bool.false_ne_true]
      exact (hbuild hfull _).shrink (shrinks_rebuilt hs hfull)
  refine ⟨?_, ?_⟩
  · rw [hkept.average]
    exact hpushed.shrink hkept.gate.shrinks
  · rw [hkept.average, hforce]
    exact hpushed

end SlowPath

/-! ### A node that adapts -/

/-- A node's slow path and core, and what its strategy remembers. -/
structure AdaptingNode where
  path : SlowPath
  memory : StrategyMemory

/-- A cycle on what it reads, and what the core does in between. -/
inductive AdaptingAct where
  | cycle (x : CycleInput) (activeBitmap : BitVec 16) (cfg : StrategyAdaptCfg)
  | tick (t : Tick)
  | drain
  | revoke

/-- The builder of a strategy casts the memory to the strategy's own state. -/
structure Views (view : StrategyMemory → StrategyState) : Prop where
  meanReversion : ∀ m, (view (.meanReversion m)).meanReversion = m.toMeanReversionState
  momentum : ∀ m, (view (.momentum m)).momentum = m.toMomentumState

namespace AdaptingNode

variable (view : StrategyMemory → StrategyState) (n : NodeIdx)

/-- The memory behind the adaptation of a cycle, which a skipped rebuild leaves out. -/
def adapted (s : AdaptingNode) (x : CycleInput) (activeBitmap : BitVec 16) (cfg : StrategyAdaptCfg) : StrategyMemory :=
  if x.skipsRebuild s.path.ctx.node then s.memory
  else
    s.memory.rebuild
      { effective := Strategy.ofId x.effectiveStrategyId, priceAvg := x.rolling.priceAvg, activeBitmap, cfg }

/-- The cycle's input with the adapted memory in it. -/
def input (x : CycleInput) (memory : StrategyMemory) : CycleInput :=
  { x with build := { x.build with state := some (view memory) } }

def step (s : AdaptingNode) : AdaptingAct → AdaptingNode
  | .cycle x activeBitmap cfg =>
    { path := s.path.slowPathCycleOneCore n (input view x (s.adapted x activeBitmap cfg))
      memory := s.adapted x activeBitmap cfg }
  | .tick t => { s with path := s.path.step n (.tick t) }
  | .drain => { s with path := s.path.step n .drain }
  | .revoke => { s with path := s.path.step n .revoke }

/-- What a mean reversion node needs of a cycle: an average above zero, a deviation and bounds that are not
    negative, and the slot's counter not come round. -/
def MeanReverts (s : AdaptingNode) : AdaptingAct → Prop
  | .cycle x _ cfg =>
    s.path.core.paramSlot.seq + 2 ≠ s.path.core.cachedSeq ∧ x.strategyId = Strategy.meanReversion.id ∧
      0 < x.rolling.priceAvg.v ∧ 0 ≤ x.rolling.priceStddev.v ∧ 0 ≤ cfg.offsetMin.v ∧ 0 ≤ cfg.offsetMax.v ∧
      0 ≤ cfg.offsetStddevMin.v ∧ 0 ≤ cfg.offsetStddevMax.v
  | _ => True

/-- What a momentum node needs of one. -/
def BreaksOut (s : AdaptingNode) : AdaptingAct → Prop
  | .cycle x _ cfg =>
    s.path.core.paramSlot.seq + 2 ≠ s.path.core.cachedSeq ∧ x.strategyId = Strategy.momentum.id ∧
      0 < x.rolling.priceAvg.v ∧ 0 ≤ x.rolling.priceStddev.v ∧ 0 ≤ x.build.cfg.entryOffsetPct.v ∧
      0 ≤ x.cfg.offsetMin.v ∧ 0 ≤ x.cfg.offsetMax.v ∧ 0 ≤ cfg.breakoutMin.v
  | _ => True

end AdaptingNode

/-! ### The parameters a builder sees -/

namespace Fpn

variable {live gap d floor shift lo hi : Fpn}

theorem squeeze_nonneg (should : Bool) (hfloor : 0 ≤ floor.v) : 0 ≤ (live.squeeze gap d floor should).v := by
  rw [squeeze, maxOf_v]
  exact le_max_of_le_right hfloor

theorem shiftWithin_nonneg (hlo : 0 ≤ lo.v) (hhi : 0 ≤ hi.v) : 0 ≤ (live.shiftWithin shift lo hi).v := by
  rw [shiftWithin, minOf_v, maxOf_v]
  exact le_min (le_max_of_le_right hlo) hhi

end Fpn

variable {price delta gate : Fpn} {bitmap : BitVec 16} {cfg : StrategyAdaptCfg}

/-- Whatever the fit says, behind an adaptation the offsets are not negative. -/
theorem MeanReversionMemory.adapt_nonneg (m : MeanReversionMemory) (hoffsetMin : 0 ≤ cfg.offsetMin.v)
    (hoffsetMax : 0 ≤ cfg.offsetMax.v) (hstddevMin : 0 ≤ cfg.offsetStddevMin.v)
    (hstddevMax : 0 ≤ cfg.offsetStddevMax.v) :
    0 ≤ (m.adapt price delta bitmap gate cfg).liveOffsetPct.v ∧
      0 ≤ (m.adapt price delta bitmap gate cfg).liveStddevMult.v := by
  unfold adapt
  dsimp only
  split
  · exact ⟨Fpn.shiftWithin_nonneg (Fpn.ofMoney_nonneg hoffsetMin) (Fpn.ofMoney_nonneg hoffsetMax),
      Fpn.shiftWithin_nonneg hstddevMin hstddevMax⟩
  · exact ⟨Fpn.squeeze_nonneg _ le_rfl, Fpn.squeeze_nonneg _ hstddevMin⟩

theorem MomentumMemory.adapt_nonneg (m : MomentumMemory) (hbreakoutMin : 0 ≤ cfg.breakoutMin.v) :
    0 ≤ (m.adapt price delta bitmap gate cfg).liveBreakoutMult.v := by
  unfold adapt
  dsimp only
  split
  · exact Fpn.shiftWithin_nonneg hbreakoutMin (by decide)
  · exact Fpn.squeeze_nonneg _ hbreakoutMin

/-- The adaptive feedback keeps the entry offset between its bounds. -/
theorem CycleInput.resolvedOffset_nonneg {x : CycleInput} (hoffset : 0 ≤ x.build.cfg.entryOffsetPct.v)
    (hmin : 0 ≤ x.cfg.offsetMin.v) (hmax : 0 ≤ x.cfg.offsetMax.v) : 0 ≤ x.resolvedCfg.entryOffsetPct.v := by
  have hsession : x.sessionCfg.entryOffsetPct = x.build.cfg.entryOffsetPct := by
    unfold sessionCfg
    dsimp only
    split <;> rfl
  have hclamp (offset : Money) : 0 ≤ (x.clampOffset offset).v := by
    have hraised : 0 ≤ (if offset.lt x.cfg.offsetMin then x.cfg.offsetMin else offset).v := by
      split
      · exact hmin
      next hge => exact hmin.trans (Int.not_lt.1 fun h => hge (decide_eq_true h))
    unfold clampOffset
    generalize (if offset.lt x.cfg.offsetMin then x.cfg.offsetMin else offset) = raised at hraised
    dsimp only
    split
    · exact hmax
    · exact hraised
  unfold resolvedCfg
  dsimp only
  split
  · exact hsession ▸ hoffset
  · split
    · exact hclamp _
    · exact hsession ▸ hoffset

/-! ### Runs -/

namespace AdaptingNode

variable {view : StrategyMemory → StrategyState} {n : NodeIdx} {s : AdaptingNode}

/-- A mean reversion node: its memory, and the side it buys on. -/
structure Reverting (s : AdaptingNode) : Prop where
  memory : ∃ m, s.memory = .meanReversion m
  side : s.path.OnSide below

structure Breaking (s : AdaptingNode) : Prop where
  memory : ∃ m, s.memory = .momentum m
  side : s.path.OnSide above

/-- Between the cycles nothing is built and nothing pushed. -/
theorem onSide_between {side : Fpn → Money → Prop} {path : SlowPath} (h : path.OnSide side) {a : SlowAct}
    (hctx : (path.step n a).ctx = path.ctx) (hforce : (path.step n a).core.inForce = path.core.inForce) :
    (path.step n a).OnSide side where
  pending := by rw [hctx]; exact h.pending
  inForce := by rw [hctx, hforce]; exact h.inForce

theorem onSide_tick {side : Fpn → Money → Prop} {path : SlowPath} (h : path.OnSide side) (t : Tick) :
    (path.step n (.tick t)).OnSide side := onSide_between h rfl (path.core.inForce_tick t)

theorem onSide_drain {side : Fpn → Money → Prop} {path : SlowPath} (h : path.OnSide side) :
    (path.step n .drain).OnSide side := onSide_between h rfl (ExecutionCore.inForce_of_held rfl)

theorem onSide_revoke {side : Fpn → Money → Prop} {path : SlowPath} (h : path.OnSide side) :
    (path.step n .revoke).OnSide side := onSide_between h rfl (ExecutionCore.inForce_of_held rfl)

theorem effective_of_strategy {x : CycleInput} {strategy : Strategy} (h : x.strategyId = strategy.id) :
    Strategy.ofId x.effectiveStrategyId = some strategy := by
  unfold CycleInput.effectiveStrategyId
  rw [h]
  cases strategy <;> rfl

theorem reverting_step (hview : Views view) (n : NodeIdx) (s : AdaptingNode) (a : AdaptingAct) (h : s.Reverting)
    (hok : s.MeanReverts a) : (s.step view n a).Reverting := by
  obtain ⟨m, hm⟩ := h.memory
  cases a with
  | tick t => exact ⟨h.memory, onSide_tick (n := n) h.side t⟩
  | drain => exact ⟨h.memory, onSide_drain (n := n) h.side⟩
  | revoke => exact ⟨h.memory, onSide_revoke (n := n) h.side⟩
  | cycle x bitmap cfg =>
    obtain ⟨hcount, hid, haverage, hstddev, hoffsetMin, hoffsetMax, hstddevMin, hstddevMax⟩ := hok
    have heffective : Strategy.ofId x.effectiveStrategyId = some .meanReversion := effective_of_strategy hid
    obtain ⟨m', hm', hbuilt⟩ : ∃ m', s.adapted x bitmap cfg = .meanReversion m' ∧
        (x.skipsRebuild s.path.ctx.node = false → 0 ≤ m'.liveOffsetPct.v ∧ 0 ≤ m'.liveStddevMult.v) := by
      unfold adapted
      rcases Bool.eq_false_or_eq_true (x.skipsRebuild s.path.ctx.node) with hskip | hfull
      · rw [hskip, if_pos rfl]
        exact ⟨m, hm, fun h => absurd h (by decide)⟩
      · rw [hfull, if_neg Bool.false_ne_true, hm, heffective]
        exact ⟨_, rfl, fun _ => m.adapt_nonneg hoffsetMin hoffsetMax hstddevMin hstddevMax⟩
    refine ⟨⟨m', hm'⟩, SlowPath.onSide_cycle h.side hcount heffective fun hfull out => ?_⟩
    obtain ⟨hoffset, hmult⟩ := hbuilt hfull
    have hstate : (input view x (s.adapted x bitmap cfg)).dispatched.state = some (view (.meanReversion m')) :=
      congrArg (fun memory => some (view memory)) hm'
    have hseen := hview.meanReversion m'
    exact BuildInput.entersBelow_meanReversion hstate haverage hstddev (hseen ▸ hoffset) (hseen ▸ hmult)

theorem breaking_step (hview : Views view) (n : NodeIdx) (s : AdaptingNode) (a : AdaptingAct) (h : s.Breaking)
    (hok : s.BreaksOut a) : (s.step view n a).Breaking := by
  obtain ⟨m, hm⟩ := h.memory
  cases a with
  | tick t => exact ⟨h.memory, onSide_tick (n := n) h.side t⟩
  | drain => exact ⟨h.memory, onSide_drain (n := n) h.side⟩
  | revoke => exact ⟨h.memory, onSide_revoke (n := n) h.side⟩
  | cycle x bitmap cfg =>
    obtain ⟨hcount, hid, haverage, hstddev, hoffset, hoffsetMin, hoffsetMax, hbreakoutMin⟩ := hok
    have heffective : Strategy.ofId x.effectiveStrategyId = some .momentum := effective_of_strategy hid
    obtain ⟨m', hm', hbuilt⟩ : ∃ m', s.adapted x bitmap cfg = .momentum m' ∧
        (x.skipsRebuild s.path.ctx.node = false → 0 ≤ m'.liveBreakoutMult.v) := by
      unfold adapted
      rcases Bool.eq_false_or_eq_true (x.skipsRebuild s.path.ctx.node) with hskip | hfull
      · rw [hskip, if_pos rfl]
        exact ⟨m, hm, fun h => absurd h (by decide)⟩
      · rw [hfull, if_neg Bool.false_ne_true, hm, heffective]
        exact ⟨_, rfl, fun _ => m.adapt_nonneg hbreakoutMin⟩
    refine ⟨⟨m', hm'⟩, SlowPath.onSide_cycle h.side hcount heffective fun hfull out => ?_⟩
    have hstate : (input view x (s.adapted x bitmap cfg)).dispatched.state = some (view (.momentum m')) :=
      congrArg (fun memory => some (view memory)) hm'
    have hresolved : 0 ≤ (input view x (s.adapted x bitmap cfg)).resolvedCfg.entryOffsetPct.v :=
      CycleInput.resolvedOffset_nonneg hoffset hoffsetMin hoffsetMax
    exact BuildInput.entersAbove_momentum hstate haverage hstddev (hview.momentum m' ▸ hbuilt hfull) hresolved

/-- A tick that enters has passed the buy gate of the pack in force. -/
theorem enters_of_canEnter {c : ExecutionCore} {t : Tick} (h : c.refresh.canEnter t = true) :
    c.inForce.bgEvaluate t = true := by
  unfold ExecutionCore.canEnter ExecutionCore.bgFires at h
  simp only [Bool.and_eq_true] at h
  exact h.2.1

/-- In every run of a mean reversion node a tick that enters is below the average of the last full rebuild. -/
theorem mean_reversion_enters_below (hview : Views view) (n : NodeIdx) (hboot : s.path.Booted)
    {m : MeanReversionMemory} (hm : s.memory = .meanReversion m) (as : List AdaptingAct)
    (hok : Steps (step view n) MeanReverts s as) {t : Tick} (hprice : 0 ≤ t.price.v)
    (henter : (run (step view n) s as).path.core.refresh.canEnter t = true) :
    t.price.v < (Money.fromBinary (run (step view n) s as).path.ctx.node.priceAtLastRebuild).val.v :=
  (run_inv_of_steps (reverting_step hview n) as ⟨⟨m, hm⟩, hboot.onSide⟩ hok).side.inForce t hprice
    (enters_of_canEnter henter)

/-- In every run of a momentum node one is above it. -/
theorem momentum_enters_above (hview : Views view) (n : NodeIdx) (hboot : s.path.Booted) {m : MomentumMemory}
    (hm : s.memory = .momentum m) (as : List AdaptingAct) (hok : Steps (step view n) BreaksOut s as) {t : Tick}
    (hprice : 0 ≤ t.price.v) (henter : (run (step view n) s as).path.core.refresh.canEnter t = true) :
    (Money.fromBinary (run (step view n) s as).path.ctx.node.priceAtLastRebuild).val.v < t.price.v :=
  (run_inv_of_steps (breaking_step hview n) as ⟨⟨m, hm⟩, hboot.onSide⟩ hok).side.inForce t hprice
    (enters_of_canEnter henter)

/-! A steady window around 100 with a deviation of one. -/

def steadyInput (strategy : Strategy) : CycleInput :=
  { quietInput quietFlat with
    cfg := { quietCfg with filterScale := .fromInt 1, offsetMax := (Money.fromInt 1).val, volMultMax := .fromInt 6 }
    strategyId := strategy.id, stateKind := some strategy.id }

/-- Every cast of a memory that is not its own reads zeros. -/
def zeroView : StrategyMemory → StrategyState
  | .meanReversion m => ⟨m.toMeanReversionState, ⟨.zero, .zero⟩, .zero⟩
  | .momentum m => ⟨⟨.zero, .zero, .zero⟩, m.toMomentumState, .zero⟩
  | _ => ⟨⟨.zero, .zero, .zero⟩, ⟨.zero, .zero⟩, .zero⟩

theorem zeroView_views : Views zeroView := ⟨fun _ => rfl, fun _ => rfl⟩

def steadyReverting : AdaptingNode := ⟨quietBoot, .meanReversion (.fresh MeanReversionMemory.sampleSeed)⟩

def steadyBreaking : AdaptingNode := ⟨quietBoot, .momentum (.fresh MeanReversionMemory.sampleSeed)⟩

instance (s : AdaptingNode) : (a : AdaptingAct) → Decidable (s.MeanReverts a)
  | .cycle _ _ _ => inferInstanceAs (Decidable (_ ∧ _))
  | .tick _ => inferInstanceAs (Decidable True)
  | .drain => inferInstanceAs (Decidable True)
  | .revoke => inferInstanceAs (Decidable True)

instance (s : AdaptingNode) : (a : AdaptingAct) → Decidable (s.BreaksOut a)
  | .cycle _ _ _ => inferInstanceAs (Decidable (_ ∧ _))
  | .tick _ => inferInstanceAs (Decidable True)
  | .drain => inferInstanceAs (Decidable True)
  | .revoke => inferInstanceAs (Decidable True)

def steadyCycle (strategy : Strategy) : List AdaptingAct :=
  [.cycle (steadyInput strategy) 0 MeanReversionMemory.sampleAdaptCfg]

theorem mean_reversion_enters_below_steady :
    (quietTick 99).price.v <
      (Money.fromBinary (run (step zeroView quietNode) steadyReverting
        (steadyCycle .meanReversion)).path.ctx.node.priceAtLastRebuild).val.v :=
  mean_reversion_enters_below zeroView_views quietNode quietBoot_booted rfl (steadyCycle .meanReversion)
    (by decide +kernel) (by decide) (by decide +kernel)

theorem momentum_enters_above_steady :
    (Money.fromBinary (run (step zeroView quietNode) steadyBreaking
        (steadyCycle .momentum)).path.ctx.node.priceAtLastRebuild).val.v <
      (quietTick 102).price.v :=
  momentum_enters_above zeroView_views quietNode quietBoot_booted rfl (steadyCycle .momentum)
    (by decide +kernel) (by decide) (by decide +kernel)

end AdaptingNode

end FoxTrader
