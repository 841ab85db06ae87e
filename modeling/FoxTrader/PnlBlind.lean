import FoxTrader.EntrySides

/-! # What the P&L does not reach

    The rebuild fits the node's P&L and moves the entry offset and the volume multiple of the slice by it.
    A builder that has its strategy's memory takes both from there instead, and the memory is fed with
    zeros. So for a mean reversion node, and for a momentum node in a market that moves, the whole run is
    the same whatever the fits of the P&L are. -/

namespace FoxTrader

open Lib GateParameters

/-! ### The slice -/

namespace CycleInput

variable {x : CycleInput}

/-- The same cycle under another fit of the P&L. -/
def withPnlFit (x : CycleInput) (fit : Option FeederFit) : CycleInput := { x with pnlFit := fit }

/-- The feedback writes two fields of the slice. -/
theorem resolvedCfg_eq (x : CycleInput) :
    ∃ offset mult, x.resolvedCfg = { x.build.cfg with entryOffsetPct := offset, volumeMultiplier := mult } := by
  have hsession : ∃ mult, x.sessionCfg = { x.build.cfg with volumeMultiplier := mult } := by
    unfold sessionCfg
    dsimp only
    split
    · exact ⟨_, rfl⟩
    · exact ⟨x.build.cfg.volumeMultiplier, rfl⟩
  obtain ⟨mult, hmult⟩ := hsession
  unfold resolvedCfg
  dsimp only
  rw [hmult]
  split
  · exact ⟨_, _, rfl⟩
  · split
    · exact ⟨_, _, rfl⟩
    · exact ⟨_, _, rfl⟩

end CycleInput

/-! ### The builders -/

namespace BuildInput

variable {x : BuildInput} {state : StrategyState}

/-- The input with the two fields replaced. -/
def withFeedback (x : BuildInput) (offset : Money) (mult : Fpn) : BuildInput :=
  { x with cfg := { x.cfg with entryOffsetPct := offset, volumeMultiplier := mult } }

/-- The mean reversion builder reads neither of the fields when it has its memory. -/
theorem meanReversion_withFeedback (hstate : x.state = some state) (offset : Money) (mult : Fpn)
    (out : GateParameters) : (x.withFeedback offset mult).meanReversion out = x.meanReversion out := by
  unfold withFeedback meanReversion
  dsimp only
  rw [hstate]
  rfl

/-- Nor does the momentum builder when there is a multiple and a deviation. -/
theorem momentum_withFeedback (hstate : x.state = some state) (hbreakout : state.momentum.liveBreakoutMult.v ≠ 0)
    (hstddev : x.rolling.priceStddev.v ≠ 0) (offset : Money) (mult : Fpn) (out : GateParameters) :
    (x.withFeedback offset mult).momentum out = x.momentum out := by
  unfold withFeedback momentum
  dsimp only
  rw [hstate]
  simp only [Option.map_some, Option.getD_some, Fpn.isZero_of_ne hbreakout, Fpn.isZero_of_ne hstddev, Bool.not_false,
    Bool.and_self, if_true]
  rfl

/-- Nothing behind the builder reads them. -/
theorem strategyBuildParameters_withFeedback {s : Strategy} {id : Nat} (hs : Strategy.ofId id = some s)
    (offset : Money)
    (mult : Fpn) (out : GateParameters) (halt : Shalt)
    (hbuild : (x.withFeedback offset mult).build ⟨out, halt⟩ s = x.build ⟨out, halt⟩ s) :
    (x.withFeedback offset mult).strategyBuildParameters id out halt = x.strategyBuildParameters id out halt := by
  unfold strategyBuildParameters
  rw [hs]
  dsimp only
  rw [hbuild]
  rfl

end BuildInput

/-! ### One cycle -/

section

variable {n : NodeIdx} {x : CycleInput} {fit : Option FeederFit} {strategy : Strategy}

/-- The two inputs of the builder differ in the two fields of the slice. -/
theorem dispatched_withPnlFit (x : CycleInput) (fit : Option FeederFit) :
    ∃ offset mult, (x.withPnlFit fit).dispatched = x.dispatched.withFeedback offset mult := by
  obtain ⟨offset, mult, hfit⟩ := (x.withPnlFit fit).resolvedCfg_eq
  obtain ⟨offset', mult', hown⟩ := x.resolvedCfg_eq
  refine ⟨offset, mult, ?_⟩
  unfold CycleInput.dispatched BuildInput.withFeedback
  rw [hfit, hown]
  rfl

/-- Where the builder does not read the two fields, the rebuild is the same under another fit. -/
theorem rebuildOneCore_withPnlFit {ctx : SlowContext} (hs : Strategy.ofId x.effectiveStrategyId = some strategy)
    (hml : strategy ≠ .ml)
    (hbuild : x.skipsRebuild ctx.node = false → ∀ offset mult out,
      (x.dispatched.withFeedback offset mult).build ⟨out, .ok⟩ strategy = x.dispatched.build ⟨out, .ok⟩ strategy) :
    ctx.rebuildOneCore n (x.withPnlFit fit) = ctx.rebuildOneCore n x := by
  rcases Bool.eq_false_or_eq_true (x.skipsRebuild ctx.node) with hskip | hfull
  · unfold SlowContext.rebuildOneCore
    rw [if_pos hskip]
    exact if_pos hskip
  · obtain ⟨offset, mult, hdispatched⟩ := dispatched_withPnlFit x fit
    have hid : (x.withPnlFit fit).effectiveStrategyId = x.effectiveStrategyId := rfl
    have hswitch : SlowNode.switchRatchets n (x.withPnlFit fit) ctx.node = SlowNode.switchRatchets n x ctx.node := rfl
    have hdispatch (node : SlowNode) : SlowNode.dispatch (x.withPnlFit fit) node = SlowNode.dispatch x node := by
      unfold SlowNode.dispatch
      rw [hid, hdispatched]
      exact BuildInput.strategyBuildParameters_withFeedback hs offset mult _ .ok (hbuild hfull offset mult _)
    have hbuilt : ctx.built n (x.withPnlFit fit) = ctx.built n x := by
      unfold SlowContext.built
      dsimp only
      rw [hswitch, hdispatch]
      rfl
    have hgated : ctx.gated n (x.withPnlFit fit) = ctx.gated n x := by
      unfold SlowContext.gated
      rw [hbuilt]
      rfl
    have hnot (y : CycleInput) (hy : y.effectiveStrategyId = x.effectiveStrategyId) :
        SlowContext.resolvedId y = x.effectiveStrategyId := by
      unfold SlowContext.resolvedId
      rw [hy, if_neg fun h => ?_]
      rw [h.1] at hs
      exact hml (Option.some.inj hs).symm
    unfold SlowContext.rebuildOneCore
    rw [hgated, hnot _ hid, hnot x rfl]
    rfl

theorem cycle_withPnlFit {s : SlowPath} (hs : Strategy.ofId x.effectiveStrategyId = some strategy)
    (hml : strategy ≠ .ml)
    (hbuild : x.skipsRebuild s.ctx.node = false → ∀ offset mult out,
      (x.dispatched.withFeedback offset mult).build ⟨out, .ok⟩ strategy = x.dispatched.build ⟨out, .ok⟩ strategy) :
    s.slowPathCycleOneCore n (x.withPnlFit fit) = s.slowPathCycleOneCore n x := by
  unfold SlowPath.slowPathCycleOneCore
  rw [rebuildOneCore_withPnlFit hs hml hbuild]
  rfl

end

/-! ### Runs -/

theorem MomentumMemory.adapt_pos {price delta gate : Fpn} {bitmap : BitVec 16} {cfg : StrategyAdaptCfg}
    (m : MomentumMemory) (hbreakoutMin : 0 < cfg.breakoutMin.v) :
    0 < (m.adapt price delta bitmap gate cfg).liveBreakoutMult.v := by
  unfold adapt
  dsimp only
  split
  · show 0 < (Fpn.shiftWithin _ _ _ _).v
    rw [Fpn.shiftWithin, Fpn.minOf_v, Fpn.maxOf_v]
    exact lt_min (lt_max_of_lt_right hbreakoutMin) (by decide)
  · show 0 < (Fpn.squeeze _ _ _ _ _).v
    rw [Fpn.squeeze, Fpn.maxOf_v]
    exact lt_max_of_lt_right hbreakoutMin

namespace AdaptingAct

def withPnlFit (fit : Option FeederFit) : AdaptingAct → AdaptingAct
  | .cycle x activeBitmap cfg => .cycle (x.withPnlFit fit) activeBitmap cfg
  | a => a

/-- The act is the same, but for the fit of the P&L. -/
def SameButFit (a a' : AdaptingAct) : Prop := ∃ fit, a' = a.withPnlFit fit

/-- A cycle of a node with this strategy; momentum is to have a deviation and a floor to break out by. -/
def RunsOn (strategy : Strategy) : AdaptingAct → Prop
  | .cycle x _ cfg =>
    x.strategyId = strategy.id ∧ (strategy = .momentum → x.rolling.priceStddev.v ≠ 0 ∧ 0 < cfg.breakoutMin.v)
  | _ => True

end AdaptingAct

namespace AdaptingNode

variable {view : StrategyMemory → StrategyState} {n : NodeIdx} {strategy : Strategy} {s : AdaptingNode}

/-- Adapting keeps the kind of the memory. -/
theorem kind_rebuild (m : StrategyMemory) (c : AdaptCycle) : (m.rebuild c).kind = m.kind := by
  unfold StrategyMemory.rebuild StrategyMemory.adaptPerCore
  split <;> rfl

theorem kind_step (view : StrategyMemory → StrategyState) (n : NodeIdx) (s : AdaptingNode) (a : AdaptingAct) :
    (s.step view n a).memory.kind = s.memory.kind := by
  cases a with
  | cycle x bitmap cfg =>
    show (s.adapted x bitmap cfg).kind = _
    unfold adapted
    split
    · rfl
    · exact kind_rebuild _ _
  | _ => rfl

/-- The memory of a momentum node behind a full rebuild. -/
theorem momentum_adapted {x : CycleInput} {bitmap : BitVec 16} {cfg : StrategyAdaptCfg}
    (hkind : s.memory.kind = .momentum) (heffective : Strategy.ofId x.effectiveStrategyId = some .momentum)
    (hfull : x.skipsRebuild s.path.ctx.node = false) (hbreakoutMin : 0 < cfg.breakoutMin.v) :
    ∃ m, s.adapted x bitmap cfg = .momentum m ∧ 0 < m.liveBreakoutMult.v := by
  obtain ⟨m, hm⟩ : ∃ m, s.memory = .momentum m := by
    generalize s.memory = memory at hkind
    cases memory with
    | momentum m => exact ⟨m, rfl⟩
    | _ => exact nomatch hkind
  unfold adapted
  rw [hfull, if_neg Bool.false_ne_true, hm, heffective]
  exact ⟨_, rfl, m.adapt_pos hbreakoutMin⟩

/-- A step does not see the fit. -/
theorem step_sameButFit (hview : Views view) (hstrategy : strategy = .meanReversion ∨ strategy = .momentum)
    (hkind : s.memory.kind = strategy) {a a' : AdaptingAct} (hok : a.RunsOn strategy) (hsame : a.SameButFit a') :
    s.step view n a' = s.step view n a := by
  obtain ⟨fit, rfl⟩ := hsame
  cases a with
  | tick t => rfl
  | drain => rfl
  | revoke => rfl
  | cycle x bitmap cfg =>
    obtain ⟨hid, hmoves⟩ := hok
    have heffective : Strategy.ofId x.effectiveStrategyId = some strategy := effective_of_strategy hid
    have hmemory : s.adapted (x.withPnlFit fit) bitmap cfg = s.adapted x bitmap cfg := rfl
    have hpath : s.path.slowPathCycleOneCore n (input view (x.withPnlFit fit) (s.adapted x bitmap cfg)) =
        s.path.slowPathCycleOneCore n (input view x (s.adapted x bitmap cfg)) := by
      refine cycle_withPnlFit (x := input view x (s.adapted x bitmap cfg)) heffective ?_
        fun hfull offset mult out => ?_
      · rcases hstrategy with rfl | rfl <;> decide
      · rcases hstrategy with rfl | rfl
        · exact congrArg (Built.mk · .ok) (BuildInput.meanReversion_withFeedback rfl offset mult out)
        · obtain ⟨hstddev, hbreakoutMin⟩ := hmoves rfl
          obtain ⟨m, hm, hpos⟩ := momentum_adapted hkind heffective hfull hbreakoutMin
          have hseen : (view (s.adapted x bitmap cfg)).momentum.liveBreakoutMult.v ≠ 0 := by
            rw [hm, hview.momentum]
            exact hpos.ne'
          have hbuild := BuildInput.momentum_withFeedback (x := (input view x (s.adapted x bitmap cfg)).dispatched)
            rfl hseen hstddev offset mult out
          exact congrArg (fun p => (input view x (s.adapted x bitmap cfg)).dispatched.momentumFilters ⟨p, .ok⟩) hbuild
    show AdaptingNode.mk _ _ = AdaptingNode.mk _ _
    rw [hmemory, hpath]

/-- Two runs that differ in the fits of the P&L alone come to the same node: the packs, the core and the
    memory. -/
theorem pnl_blind (hview : Views view) (n : NodeIdx) (hstrategy : strategy = .meanReversion ∨ strategy = .momentum)
    (hkind : s.memory.kind = strategy) {as as' : List AdaptingAct} (hok : ∀ a ∈ as, a.RunsOn strategy)
    (hsame : List.Forall₂ AdaptingAct.SameButFit as as') :
    run (step view n) s as' = run (step view n) s as := by
  induction hsame generalizing s with
  | nil => rfl
  | cons h _ ih =>
    rw [run_cons, run_cons, step_sameButFit hview hstrategy hkind (hok _ List.mem_cons_self) h]
    exact ih ((kind_step view n s _).trans hkind) fun b hb => hok b (List.mem_cons_of_mem _ hb)

/-- One cycle under a fit that says to tighten, and one without. -/
def tightFit : Option FeederFit := some ⟨.saturate (-18446744073709551616), .fromInt 1⟩

theorem steadyCycle_sameButFit (strategy : Strategy) :
    List.Forall₂ AdaptingAct.SameButFit (steadyCycle strategy)
      ((steadyCycle strategy).map (AdaptingAct.withPnlFit tightFit)) :=
  .cons ⟨tightFit, rfl⟩ .nil

theorem steadyCycle_runsOn : ∀ a ∈ steadyCycle .momentum, a.RunsOn .momentum := by
  intro a ha
  obtain rfl := List.mem_singleton.1 ha
  exact ⟨rfl, fun _ => ⟨by decide, by decide⟩⟩

theorem pnl_blind_steady :
    run (step zeroView quietNode) steadyBreaking ((steadyCycle .momentum).map (AdaptingAct.withPnlFit tightFit)) =
      run (step zeroView quietNode) steadyBreaking (steadyCycle .momentum) :=
  pnl_blind zeroView_views quietNode (.inr rfl) rfl steadyCycle_runsOn (steadyCycle_sameButFit .momentum)

end AdaptingNode

end FoxTrader
