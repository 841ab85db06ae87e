import FoxTrader.StrategyAdapt

/-! # Runs of the adaptation

    From the slow path the fit of the P&L is flat in every cycle, so a run of cycles moves the live
    parameters by the squeeze and the clamp alone. A mean reversion node's parameters decay towards their
    floors, one turn for each cycle with nothing open, and nothing raises them again; a momentum node's
    are clamped and otherwise stay what they were seeded with. -/

namespace FoxTrader

open Lib

variable {price : Fpn} {bitmap : BitVec 16} {cfg : StrategyAdaptCfg}

/-! ### Mean reversion -/

namespace Fpn

/-- A live parameter between its bounds and not below the floor of its squeeze. -/
structure Held (live floor lo hi : ℤ) : Prop where
  floor_le : floor ≤ live
  lo_le : lo ≤ live
  le_hi : live ≤ hi

variable {live gap d floor lo hi : Fpn}

/-- The clamp behind a squeeze keeps the parameter between its bounds, wherever it was. -/
theorem held_clamp (should : Bool) (hfloor : floor.v ≤ hi.v) (hlohi : lo.v ≤ hi.v) :
    Held (min (max (live.squeeze gap d floor should).v lo.v) hi.v) floor.v lo.v hi.v := by
  have hsqueezed : floor.v ≤ (live.squeeze gap d floor should).v := by
    rw [squeeze, maxOf_v]
    exact le_max_right _ _
  exact ⟨le_min (hsqueezed.trans (le_max_left _ _)) hfloor, le_min (le_max_right _ _) hlohi, min_le_right _ _⟩

/-- Above its floor, a held parameter takes a turn of the decay down to its lower bound. -/
theorem Held.clamp_v (h : Held live.v floor.v lo.v hi.v) (should : Bool) (hfloor : 0 ≤ floor.v)
    (hgap : gap.v = live.v - floor.v) (hd : 0 ≤ d.v ∧ d.v ≤ fpnOne) :
    min (max (live.squeeze gap d floor should).v lo.v) hi.v - floor.v =
      max (lo.v - floor.v) (if should then decay fpnOne d.v (live.v - floor.v) else live.v - floor.v) := by
  have hnonneg : 0 ≤ live.v - floor.v := Int.sub_nonneg_of_le h.floor_le
  have hless : decay fpnOne d.v (live.v - floor.v) ≤ live.v - floor.v := decay_le hd.1 hnonneg
  have hlo := h.lo_le
  have hhi := h.le_hi
  rw [squeeze_v should hfloor h.floor_le hgap hd]
  cases should with
  | false =>
    omega
  | true =>
    omega

end Fpn

/-- What a parameter that is never squeezed comes to in `n` cycles: floored from the first on, and capped
    once the feeder is full. -/
def clampedSeed (seed lo hi : ℤ) (n : ℕ) : ℤ :=
  if n = 0 then seed else if n < maxWindow then max seed lo else min (max seed lo) hi

theorem clampedSeed_succ (seed lo hi : ℤ) (n : ℕ) :
    clampedSeed seed lo hi (n + 1) =
      if n + 1 < maxWindow then max (clampedSeed seed lo hi n) lo
      else min (max (max (clampedSeed seed lo hi n) lo) lo) hi := by
  have hwindow : maxWindow = 8 := rfl
  have hfloor : lo ≤ max seed lo := le_max_right _ _
  unfold clampedSeed
  rw [hwindow, if_neg n.succ_ne_zero]
  by_cases hzero : n = 0
  · subst hzero
    rfl
  · rw [if_neg hzero]
    generalize max seed lo = floored at hfloor
    split_ifs <;> omega

namespace StrategyAdaptCfg

/-- The share is one, and the bounds are in order and leave room for the floors of the squeeze. -/
structure Ordered (cfg : StrategyAdaptCfg) : Prop where
  share : 0 ≤ cfg.squeezeDecay.v ∧ cfg.squeezeDecay.v ≤ fpnOne
  offset : 0 ≤ (Fpn.ofMoney cfg.offsetMax).v ∧ (Fpn.ofMoney cfg.offsetMin).v ≤ (Fpn.ofMoney cfg.offsetMax).v
  stddev : 0 ≤ cfg.offsetStddevMin.v ∧ cfg.offsetStddevMin.v ≤ cfg.offsetStddevMax.v
  vol : (Fpn.fromInt 1).v ≤ cfg.volMultMax.v ∧ cfg.volMultMin.v ≤ cfg.volMultMax.v

end StrategyAdaptCfg

namespace MeanReversionMemory

variable {m : MeanReversionMemory}

/-- An adaptation to a flat fit. -/
def adaptFlat (m : MeanReversionMemory) (price : Fpn) (bitmap : BitVec 16) (cfg : StrategyAdaptCfg) :
    MeanReversionMemory :=
  m.adapt price .zero bitmap .zero cfg

theorem feeder_adaptFlat (m : MeanReversionMemory) (price : Fpn) (bitmap : BitVec 16) (cfg : StrategyAdaptCfg) :
    (m.adaptFlat price bitmap cfg).feeder = m.feeder.push .zero := by
  unfold adaptFlat adapt
  dsimp only
  split <;> rfl

/-- The clamps are all that a full feeder of zeros adds to the squeeze. -/
structure Clamped (s m : MeanReversionMemory) (cfg : StrategyAdaptCfg) : Prop where
  offset : m.liveOffsetPct.v =
    min (max s.liveOffsetPct.v (Fpn.ofMoney cfg.offsetMin).v) (Fpn.ofMoney cfg.offsetMax).v
  stddev : m.liveStddevMult.v = min (max s.liveStddevMult.v cfg.offsetStddevMin.v) cfg.offsetStddevMax.v
  vol : m.liveVolMult.v = min (max s.liveVolMult.v cfg.volMultMin.v) cfg.volMultMax.v

theorem clamped_adaptFlat {n : ℕ} (h : Unfed m.feeder n) (hn : maxWindow ≤ n + 1) :
    Clamped (m.idleSqueeze price .zero bitmap cfg) (m.adaptFlat price bitmap cfg) cfg := by
  have hfull : (m.feeder.push .zero).count ≥ maxWindow := h.push.full_iff.2 hn
  have hfit : (m.feeder.push .zero).compute = ⟨.zero, .zero, .zero⟩ := h.push.still.compute
  have hshift (cond : Bool) (a b : Fpn) :
      (Fpn.blendOnMask (Fpn.zero.mul a).negate .zero cond).mul b = .zero := by
    cases cond <;> simp
  have hadapt : m.adaptFlat price bitmap cfg =
      ((m.idleSqueeze price .zero bitmap cfg).feed price .zero).adaptFilters ⟨.zero, .zero, .zero⟩ cfg := by
    rw [adaptFlat, adapt, ← hfit]
    exact if_pos hfull
  rw [hadapt]
  refine ⟨?_, ?_, ?_⟩
  · dsimp only [adaptFilters]
    rw [hshift, Fpn.shiftWithin_zero_v]
    rfl
  · dsimp only [adaptFilters]
    rw [hshift, Fpn.shiftWithin_zero_v]
    rfl
  · dsimp only [adaptFilters]
    rw [hshift, Fpn.shiftWithin_zero_v]
    rfl

/-- The parameters are between the bounds of `cfg`. -/
structure Within (m : MeanReversionMemory) (cfg : StrategyAdaptCfg) : Prop where
  offset : Fpn.Held m.liveOffsetPct.v Fpn.zero.v (Fpn.ofMoney cfg.offsetMin).v (Fpn.ofMoney cfg.offsetMax).v
  stddev : Fpn.Held m.liveStddevMult.v cfg.offsetStddevMin.v cfg.offsetStddevMin.v cfg.offsetStddevMax.v
  vol : Fpn.Held m.liveVolMult.v (Fpn.fromInt 1).v cfg.volMultMin.v cfg.volMultMax.v

theorem within_adaptFlat {n : ℕ} (h : Unfed m.feeder n) (hn : maxWindow ≤ n + 1) (hcfg : cfg.Ordered) :
    (m.adaptFlat price bitmap cfg).Within cfg := by
  have hclamped : Clamped (m.idleSqueeze price .zero bitmap cfg) (m.adaptFlat price bitmap cfg) cfg :=
    clamped_adaptFlat h hn
  refine ⟨?_, ?_, ?_⟩
  · rw [hclamped.offset]
    exact Fpn.held_clamp _ hcfg.offset.1 hcfg.offset.2
  · rw [hclamped.stddev]
    exact Fpn.held_clamp _ hcfg.stddev.2 hcfg.stddev.2
  · rw [hclamped.vol]
    exact Fpn.held_clamp _ hcfg.vol.1 hcfg.vol.2

/-- How far each parameter is above the floor of its squeeze. -/
structure Gaps where
  offset : ℤ
  stddev : ℤ
  vol : ℤ

def gaps (m : MeanReversionMemory) (cfg : StrategyAdaptCfg) : Gaps where
  offset := m.liveOffsetPct.v
  stddev := m.liveStddevMult.v - cfg.offsetStddevMin.v
  vol := m.liveVolMult.v - fpnOne

/-- A gap that has decayed for some turns, at a lower bound at the least. -/
def decayed (cfg : StrategyAdaptCfg) (lo gap : ℤ) (turns : ℕ) : ℤ :=
  max lo ((decay fpnOne cfg.squeezeDecay.v)^[turns] gap)

/-- The gaps behind a number of idle turns. In the mode of the percentages the deviations' multiple
    rests, and in the other the percentage. -/
def Gaps.settle (g : Gaps) (cfg : StrategyAdaptCfg) (turns : ℕ) : Gaps where
  offset := decayed cfg (Fpn.ofMoney cfg.offsetMin).v g.offset (if cfg.offsetStddevMult.isZero then turns else 0)
  stddev := decayed cfg 0 g.stddev (if cfg.offsetStddevMult.isZero then 0 else turns)
  vol := decayed cfg (cfg.volMultMin.v - fpnOne) g.vol turns

/-- One cycle of a node whose feeder is full. -/
def Gaps.turn (g : Gaps) (cfg : StrategyAdaptCfg) (idle : Bool) : Gaps where
  offset := max (Fpn.ofMoney cfg.offsetMin).v
    (if idle && cfg.offsetStddevMult.isZero then decay fpnOne cfg.squeezeDecay.v g.offset else g.offset)
  stddev := max 0 (if idle && !cfg.offsetStddevMult.isZero then decay fpnOne cfg.squeezeDecay.v g.stddev else g.stddev)
  vol := max (cfg.volMultMin.v - fpnOne) (if idle then decay fpnOne cfg.squeezeDecay.v g.vol else g.vol)

theorem Within.gaps_nonneg (h : m.Within cfg) :
    0 ≤ (m.gaps cfg).offset ∧ 0 ≤ (m.gaps cfg).stddev ∧ 0 ≤ (m.gaps cfg).vol :=
  ⟨h.offset.floor_le, Int.sub_nonneg_of_le h.stddev.floor_le, Int.sub_nonneg_of_le h.vol.floor_le⟩

theorem fromInt_one_v : (Fpn.fromInt 1).v = fpnOne := Fpn.fromInt_v (by decide)

/-- Bounds that are kept need no turn. -/
theorem Within.settle_zero (h : m.Within cfg) : (m.gaps cfg).settle cfg 0 = m.gaps cfg := by
  have hoffset : decayed cfg (Fpn.ofMoney cfg.offsetMin).v (m.gaps cfg).offset 0 = (m.gaps cfg).offset :=
    max_eq_right h.offset.lo_le
  have hstddev : decayed cfg 0 (m.gaps cfg).stddev 0 = (m.gaps cfg).stddev := max_eq_right h.gaps_nonneg.2.1
  have hvol : decayed cfg (cfg.volMultMin.v - fpnOne) (m.gaps cfg).vol 0 = (m.gaps cfg).vol :=
    max_eq_right (Int.sub_le_sub_right h.vol.lo_le _)
  unfold Gaps.settle
  simp only [ite_self]
  rw [hoffset, hstddev, hvol]

theorem fits_gap {live floor : Fpn} (hfloor : 0 ≤ floor.v) (hle : floor.v ≤ live.v) :
    Fpn.Fits (live.v - floor.v) := by
  have hup := live.upper
  have hmax : fpnMax = 2 ^ 127 - 1 := rfl
  constructor <;> omega

theorem gaps_adaptFlat {n : ℕ} (h : Unfed m.feeder n) (hn : maxWindow ≤ n + 1) (hw : m.Within cfg) (hcfg : cfg.Ordered)
    (hprice : 0 < price.v) :
    (m.adaptFlat price bitmap cfg).gaps cfg = (m.gaps cfg).turn cfg (decide (bitmap = 0)) := by
  have hclamped : Clamped (m.idleSqueeze price .zero bitmap cfg) (m.adaptFlat price bitmap cfg) cfg :=
    clamped_adaptFlat h hn
  have hshould : (decide (bitmap = 0) && price.greaterThan .zero) = decide (bitmap = 0) := by
    have hmoved : price.greaterThan .zero = true := decide_eq_true hprice
    rw [hmoved, Bool.and_true]
  have hstddevGap : (m.liveStddevMult.sub cfg.offsetStddevMin).v = m.liveStddevMult.v - cfg.offsetStddevMin.v :=
    Fpn.sub_v (fits_gap hcfg.stddev.1 hw.stddev.floor_le)
  have hvolGap : (m.liveVolMult.sub (.fromInt 1)).v = m.liveVolMult.v - (Fpn.fromInt 1).v :=
    Fpn.sub_v (fits_gap (by decide) hw.vol.floor_le)
  have hoffset := hw.offset.clamp_v (decide (bitmap = 0) && !!cfg.offsetStddevMult.isZero) le_rfl
    (Int.sub_zero _).symm hcfg.share
  have hstddev := hw.stddev.clamp_v (decide (bitmap = 0) && !cfg.offsetStddevMult.isZero) hcfg.stddev.1 hstddevGap
    hcfg.share
  have hvol := hw.vol.clamp_v (decide (bitmap = 0)) (by decide) hvolGap hcfg.share
  unfold gaps Gaps.turn
  rw [hclamped.offset, hclamped.stddev, hclamped.vol]
  dsimp only [idleSqueeze]
  rw [hshould]
  refine Gaps.mk.injEq .. |>.mpr ⟨?_, ?_, ?_⟩
  · simpa only [Bool.not_not, Fpn.zero_v, Int.sub_zero] using hoffset
  · simpa only [Int.sub_self] using hstddev
  · simpa only [fromInt_one_v] using hvol

theorem turn_settle {g : Gaps} (hshare : 0 ≤ cfg.squeezeDecay.v ∧ cfg.squeezeDecay.v ≤ fpnOne)
    (hg : 0 ≤ g.offset ∧ 0 ≤ g.stddev ∧ 0 ≤ g.vol) (turns : ℕ) (idle : Bool) :
    (g.settle cfg turns).turn cfg idle = g.settle cfg (if idle then turns + 1 else turns) := by
  have hturn {lo x : ℤ} (hx : 0 ≤ x) (k : ℕ) :
      max lo (decay fpnOne cfg.squeezeDecay.v (decayed cfg lo x k)) = decayed cfg lo x (k + 1) :=
    max_decay_iterate (by decide) hshare hx k
  have hrest {lo x : ℤ} (k : ℕ) : max lo (decayed cfg lo x k) = decayed cfg lo x k := max_eq_right (le_max_left _ _)
  obtain ⟨hoffset, hstddev, hvol⟩ := hg
  unfold Gaps.turn Gaps.settle
  cases idle <;> cases cfg.offsetStddevMult.isZero <;> simp [hturn, hrest, hoffset, hstddev, hvol]

end MeanReversionMemory

/-! ### Runs of a mean reversion node -/

/-- The cycles in which a strategy runs. -/
def adaptCycles (s : Strategy) (cs : List AdaptCycle) : ℕ := cs.countP fun c => c.effective = some s

/-- Those of them with nothing open. -/
def idleAdaptCycles (s : Strategy) (cs : List AdaptCycle) : ℕ :=
  cs.countP fun c => c.effective = some s ∧ c.activeBitmap = 0

namespace MeanReversionMemory

variable {m : MeanReversionMemory} {seed : StrategySeedCfg}

/-- A cycle of a node with this memory. -/
def rebuild (m : MeanReversionMemory) (c : AdaptCycle) : MeanReversionMemory :=
  if c.effective = some .meanReversion then m.adaptFlat c.priceAvg c.activeBitmap c.cfg else m

theorem rebuild_runs {c : AdaptCycle} (hc : c.effective = some .meanReversion) (m : MeanReversionMemory) :
    m.rebuild c = m.adaptFlat c.priceAvg c.activeBitmap c.cfg := if_pos hc

theorem rebuild_rests {c : AdaptCycle} (hc : c.effective ≠ some .meanReversion) (m : MeanReversionMemory) :
    m.rebuild c = m := if_neg hc

theorem rebuild_meanReversion (m : MeanReversionMemory) (c : AdaptCycle) :
    (StrategyMemory.meanReversion m).rebuild c = .meanReversion (m.rebuild c) := by
  unfold StrategyMemory.rebuild StrategyMemory.adaptPerCore rebuild adaptFlat
  rcases c.effective with _ | ⟨_ | _⟩ <;> rfl

/-- The memory keeps its kind. -/
theorem run_meanReversion (m : MeanReversionMemory) (cs : List AdaptCycle) :
    run StrategyMemory.rebuild (.meanReversion m) cs = .meanReversion (run rebuild m cs) := by
  induction cs generalizing m with
  | nil => rfl
  | cons c cs ih => rw [run_cons, run_cons, rebuild_meanReversion, ih]

theorem unfed_run (seed : StrategySeedCfg) (cs : List AdaptCycle) :
    Unfed (run rebuild (fresh seed) cs).feeder (adaptCycles .meanReversion cs) := by
  induction cs using List.reverseRecOn with
  | nil => exact unfed_init
  | append_singleton cs c ih =>
    rw [run_append, run_cons, run_nil, adaptCycles, List.countP_append, List.countP_singleton]
    by_cases hc : c.effective = some .meanReversion
    · rw [rebuild_runs hc, feeder_adaptFlat, if_pos (decide_eq_true hc)]
      exact ih.push
    · rw [rebuild_rests hc, if_neg (by simpa using hc)]
      exact ih

theorem within_run {pre : List AdaptCycle} {c : AdaptCycle} (hpre : maxWindow ≤ adaptCycles .meanReversion pre + 1)
    (hc : c.effective = some .meanReversion) (hcfg : c.cfg.Ordered) :
    (run rebuild (fresh seed) (pre ++ [c])).Within c.cfg := by
  rw [run_append, run_cons, run_nil, rebuild_runs hc]
  exact within_adaptFlat (unfed_run seed pre) hpre hcfg

/-- A full feeder, the bounds, and the gaps after some more cycles. -/
theorem settled_run {pre cs : List AdaptCycle} (hpre : maxWindow ≤ adaptCycles .meanReversion pre)
    (hw : (run rebuild (fresh seed) pre).Within cfg) (hcfg : cfg.Ordered)
    (hcs : ∀ c ∈ cs, c.cfg = cfg ∧ 0 < c.priceAvg.v) :
    (run rebuild (fresh seed) (pre ++ cs)).Within cfg ∧
      (run rebuild (fresh seed) (pre ++ cs)).gaps cfg =
        ((run rebuild (fresh seed) pre).gaps cfg).settle cfg (idleAdaptCycles .meanReversion cs) := by
  induction cs using List.reverseRecOn with
  | nil =>
    rw [List.append_nil]
    exact ⟨hw, hw.settle_zero.symm⟩
  | append_singleton cs c ih =>
    obtain ⟨hwithin, hgaps⟩ := ih fun d hd => hcs d (List.mem_append_left _ hd)
    obtain ⟨hcfgc, hprice⟩ := hcs c (List.mem_append_right _ (List.mem_singleton_self c))
    have hunfed := unfed_run seed (pre ++ cs)
    have hfull : maxWindow ≤ adaptCycles .meanReversion (pre ++ cs) + 1 := by
      rw [adaptCycles, List.countP_append]
      unfold adaptCycles at hpre
      omega
    rw [← List.append_assoc, run_append, run_cons, run_nil, idleAdaptCycles, List.countP_append,
      List.countP_singleton]
    by_cases hc : c.effective = some .meanReversion
    · rw [rebuild_runs hc, hcfgc]
      refine ⟨within_adaptFlat hunfed hfull hcfg, ?_⟩
      rw [gaps_adaptFlat hunfed hfull hwithin hcfg hprice, hgaps, turn_settle hcfg.share hw.gaps_nonneg]
      congr 1
      by_cases hidle : c.activeBitmap = 0
      · rw [if_pos (decide_eq_true hidle), if_pos (decide_eq_true ⟨hc, hidle⟩)]
        rfl
      · rw [if_neg (hidle ∘ of_decide_eq_true), if_neg fun h => hidle (of_decide_eq_true h).2]
        rfl
    · rw [rebuild_rests hc, if_neg (by simp [hc]), Nat.add_zero]
      exact ⟨hwithin, hgaps⟩

/-- From the first cycle under a configuration on, with the P&L feeder full, every parameter is what its
    gap has decayed to in the cycles with nothing open, whatever the market and the P&L did. -/
theorem mean_reversion_settles (seed : StrategySeedCfg) {pre cs : List AdaptCycle} {c : AdaptCycle}
    (hpre : maxWindow ≤ adaptCycles .meanReversion pre + 1) (hc : c.effective = some .meanReversion)
    (hcfg : c.cfg.Ordered) (hcs : ∀ d ∈ cs, d.cfg = c.cfg ∧ 0 < d.priceAvg.v) :
    ∃ m m', run StrategyMemory.rebuild (.meanReversion (fresh seed)) (pre ++ [c]) = .meanReversion m ∧
      run StrategyMemory.rebuild (.meanReversion (fresh seed)) (pre ++ c :: cs) = .meanReversion m' ∧
      m'.gaps c.cfg = (m.gaps c.cfg).settle c.cfg (idleAdaptCycles .meanReversion cs) ∧
      (0 < c.cfg.squeezeDecay.v →
        ((m'.gaps c.cfg).vol : ℚ) ≤
          decayBound fpnOne c.cfg.squeezeDecay.v (c.cfg.volMultMin.v - fpnOne) (m.gaps c.cfg).vol
            (idleAdaptCycles .meanReversion cs)) := by
  have hwithin : (run rebuild (fresh seed) (pre ++ [c])).Within c.cfg := within_run hpre hc hcfg
  have hfull : maxWindow ≤ adaptCycles .meanReversion (pre ++ [c]) := by
    rw [adaptCycles, List.countP_append, List.countP_singleton, if_pos (decide_eq_true hc)]
    exact hpre
  have hgaps := (settled_run hfull hwithin hcfg hcs).2
  rw [List.append_assoc, List.singleton_append] at hgaps
  refine ⟨_, _, run_meanReversion _ _, run_meanReversion _ _, hgaps, fun hpos => ?_⟩
  rw [hgaps]
  exact max_iterate_decay_le (by decide) ⟨hpos, hcfg.share.2⟩ hwithin.gaps_nonneg.2.2 _

/-! Twelve cycles, the last four of them with nothing open, under a tenth a turn. -/

def sampleAdaptCfg : StrategyAdaptCfg where
  offsetStddevMult := .zero
  squeezeDecay := .saturate 1844674407370955161
  offsetStddevMin := .half
  offsetStddevMax := .fromInt 4
  r2Threshold := .half
  filterScale := .fromInt 1
  offsetAdaptScale := .fromInt 1
  stddevAdaptScale := .fromInt 1
  volAdaptScale := .fromInt 1
  offsetMin := .zero
  offsetMax := (Money.fromInt 1).val
  volMultMin := .fromInt 1
  volMultMax := .fromInt 6
  breakoutMin := .half
  slopeScaleBuy := .fromInt 1

def sampleSeed : StrategySeedCfg where
  momentumBreakoutMult := .fromInt 1
  volumeMultiplier := .fromInt 3
  entryOffsetPct := .zero
  offsetStddevMult := .zero

def sampleAdaptCycle (strategy : Strategy) (activeBitmap : BitVec 16) : AdaptCycle :=
  ⟨some strategy, .fromInt 100, activeBitmap, sampleAdaptCfg⟩

def sampleHeldCycles (strategy : Strategy) : List AdaptCycle := List.replicate 7 (sampleAdaptCycle strategy 1)

def sampleIdleCycles (strategy : Strategy) : List AdaptCycle := List.replicate 4 (sampleAdaptCycle strategy 0)

theorem sampleAdaptCfg_ordered : sampleAdaptCfg.Ordered := by
  constructor <;> decide

theorem mean_reversion_settles_sample :
    ∃ m m', run StrategyMemory.rebuild (.meanReversion (fresh sampleSeed))
          (sampleHeldCycles .meanReversion ++ [sampleAdaptCycle .meanReversion 1]) = .meanReversion m ∧
      run StrategyMemory.rebuild (.meanReversion (fresh sampleSeed))
          (sampleHeldCycles .meanReversion ++ sampleAdaptCycle .meanReversion 1 :: sampleIdleCycles .meanReversion) =
        .meanReversion m' ∧
      m'.gaps sampleAdaptCfg =
        (m.gaps sampleAdaptCfg).settle sampleAdaptCfg
          (idleAdaptCycles .meanReversion (sampleIdleCycles .meanReversion)) ∧
      (0 < sampleAdaptCfg.squeezeDecay.v →
        ((m'.gaps sampleAdaptCfg).vol : ℚ) ≤
          decayBound fpnOne sampleAdaptCfg.squeezeDecay.v (sampleAdaptCfg.volMultMin.v - fpnOne)
            (m.gaps sampleAdaptCfg).vol (idleAdaptCycles .meanReversion (sampleIdleCycles .meanReversion))) :=
  mean_reversion_settles sampleSeed (by decide) rfl sampleAdaptCfg_ordered fun c hc => by
    obtain rfl := List.eq_of_mem_replicate hc
    exact ⟨rfl, by decide⟩

/-- In the mode of the percentages a cycle floors the deviations' multiple all the same. -/
theorem adaptFlat_stddevMult {n : ℕ} (h : Unfed m.feeder n) (hmode : cfg.offsetStddevMult.isZero = true) :
    (m.adaptFlat price bitmap cfg).liveStddevMult.v =
      if n + 1 < maxWindow then max m.liveStddevMult.v cfg.offsetStddevMin.v
      else min (max (max m.liveStddevMult.v cfg.offsetStddevMin.v) cfg.offsetStddevMin.v) cfg.offsetStddevMax.v := by
  have hfloored : (m.idleSqueeze price .zero bitmap cfg).liveStddevMult.v =
      max m.liveStddevMult.v cfg.offsetStddevMin.v := by
    dsimp only [idleSqueeze]
    rw [hmode, Bool.not_true, Bool.and_false, Fpn.squeeze_false_v]
  by_cases hfull : maxWindow ≤ n + 1
  · have hclamped : Clamped (m.idleSqueeze price .zero bitmap cfg) (m.adaptFlat price bitmap cfg) cfg :=
      clamped_adaptFlat h hfull
    rw [if_neg (Nat.not_lt.2 hfull), hclamped.stddev, hfloored]
  · have hfed : m.adaptFlat price bitmap cfg = (m.idleSqueeze price .zero bitmap cfg).feed price .zero := by
      rw [adaptFlat, adapt]
      exact if_neg (hfull ∘ h.push.full_iff.1)
    rw [if_pos (Nat.lt_of_not_le hfull), hfed]
    exact hfloored

theorem stddevMult_run (hseed : seed.offsetStddevMult = .zero) {lo hi : ℤ} {cs : List AdaptCycle}
    (hcs : ∀ c ∈ cs, c.cfg.offsetStddevMult.isZero = true ∧ c.cfg.offsetStddevMin.v = lo ∧
      c.cfg.offsetStddevMax.v = hi) :
    (run rebuild (fresh seed) cs).liveStddevMult.v = clampedSeed 0 lo hi (adaptCycles .meanReversion cs) := by
  induction cs using List.reverseRecOn with
  | nil => exact congrArg Fpn.v hseed
  | append_singleton cs c ih =>
    have hrun := ih fun d hd => hcs d (List.mem_append_left _ hd)
    obtain ⟨hmode, rfl, rfl⟩ := hcs c (List.mem_append_right _ (List.mem_singleton_self c))
    rw [run_append, run_cons, run_nil, adaptCycles, List.countP_append, List.countP_singleton]
    by_cases hc : c.effective = some .meanReversion
    · rw [rebuild_runs hc, adaptFlat_stddevMult (unfed_run seed cs) hmode, hrun, if_pos (decide_eq_true hc)]
      exact (clampedSeed_succ _ _ _ _).symm
    · rw [rebuild_rests hc, if_neg (hc ∘ of_decide_eq_true)]
      exact hrun

/-- The mode of the percentages ends with the first cycle: the multiple of the deviations is then its
    floor, under its cap from the eighth cycle on, and unless that is zero the builder takes the entry from
    it and leaves the percentage aside. -/
theorem percentage_mode_ends (hseed : seed.offsetStddevMult = .zero) {lo hi : ℤ} {cs : List AdaptCycle}
    (hcs : ∀ c ∈ cs, c.cfg.offsetStddevMult.isZero = true ∧ c.cfg.offsetStddevMin.v = lo ∧
      c.cfg.offsetStddevMax.v = hi) :
    ∃ m, run StrategyMemory.rebuild (.meanReversion (fresh seed)) cs = .meanReversion m ∧
      m.liveStddevMult.v = clampedSeed 0 lo hi (adaptCycles .meanReversion cs) ∧
      ∀ (x : BuildInput) (state : StrategyState) (out : GateParameters), x.state = some state →
        state.meanReversion = m.toMeanReversionState →
        (x.meanReversion out).bgPriceThreshold =
          (Money.fromBinary ((x.anchor x.rolling.priceMax).sub
            (if clampedSeed 0 lo hi (adaptCycles .meanReversion cs) ≠ 0 then x.rolling.priceStddev.mul m.liveStddevMult
              else (x.anchor x.rolling.priceMax).mul m.liveOffsetPct))).val := by
  have hmult := stddevMult_run hseed hcs
  refine ⟨_, run_meanReversion _ _, hmult, fun x state out hstate hseen => ?_⟩
  unfold BuildInput.meanReversion
  rw [hstate, ← hmult]
  by_cases hzero : (run rebuild (fresh seed) cs).liveStddevMult.v = 0
  · simp only [GateParameters.assign, Option.map_some, Option.getD_some, hseen, Fpn.isZero_of_eq hzero, hzero]
    rfl
  · simp only [GateParameters.assign, Option.map_some, Option.getD_some, hseen, Fpn.isZero_of_ne hzero]
    rw [if_pos (by decide), if_pos hzero]

theorem percentage_mode_ends_sample :
    ∃ m, run StrategyMemory.rebuild (.meanReversion (fresh sampleSeed)) (sampleIdleCycles .meanReversion) =
        .meanReversion m ∧
      m.liveStddevMult.v = clampedSeed 0 Fpn.half.v (Fpn.fromInt 4).v 4 ∧
      ∀ (x : BuildInput) (state : StrategyState) (out : GateParameters), x.state = some state →
        state.meanReversion = m.toMeanReversionState →
        (x.meanReversion out).bgPriceThreshold =
          (Money.fromBinary ((x.anchor x.rolling.priceMax).sub
            (if clampedSeed 0 Fpn.half.v (Fpn.fromInt 4).v 4 ≠ 0 then x.rolling.priceStddev.mul m.liveStddevMult
              else (x.anchor x.rolling.priceMax).mul m.liveOffsetPct))).val :=
  percentage_mode_ends rfl fun c hc => by
    obtain rfl := List.eq_of_mem_replicate hc
    exact ⟨rfl, rfl, rfl⟩

end MeanReversionMemory

/-! ### Runs of a momentum node -/

namespace MomentumMemory

variable {m : MomentumMemory}

/-- A cycle of a node with this memory. -/
def rebuild (m : MomentumMemory) (c : AdaptCycle) : MomentumMemory :=
  if c.effective = some .momentum then m.adapt c.priceAvg .zero c.activeBitmap .zero c.cfg else m

theorem rebuild_momentum (m : MomentumMemory) (c : AdaptCycle) :
    (StrategyMemory.momentum m).rebuild c = .momentum (m.rebuild c) := by
  unfold StrategyMemory.rebuild StrategyMemory.adaptPerCore rebuild
  rcases c.effective with _ | ⟨_ | _⟩ <;> rfl

theorem run_momentum (m : MomentumMemory) (cs : List AdaptCycle) :
    run StrategyMemory.rebuild (.momentum m) cs = .momentum (run rebuild m cs) := by
  induction cs generalizing m with
  | nil => rfl
  | cons c cs ih => rw [run_cons, run_cons, rebuild_momentum, ih]

/-- What the memory is after `n` cycles: fed with zeros and never squeezed. -/
structure Unmoved (seed : StrategySeedCfg) (breakoutMin : ℤ) (m : MomentumMemory) (n : ℕ) : Prop where
  unfed : Unfed m.feeder n
  fit : m.lastRegression = ⟨.zero, .zero, .zero⟩
  breakout : m.liveBreakoutMult.v = clampedSeed (fresh seed).liveBreakoutMult.v breakoutMin (Fpn.fromInt 5).v n
  vol : m.liveVolMult.v = if n = 0 then seed.volumeMultiplier.v else max seed.volumeMultiplier.v (Fpn.fromInt 1).v

theorem unmoved_fresh (seed : StrategySeedCfg) (breakoutMin : ℤ) : Unmoved seed breakoutMin (fresh seed) 0 :=
  ⟨unfed_init, rfl, rfl, rfl⟩

/-- A price that is not negative has not left an empty gate behind. -/
theorem idleSqueeze_v (hprice : 0 ≤ price.v) (m : MomentumMemory) :
    (m.idleSqueeze price .zero bitmap cfg).liveBreakoutMult.v = max m.liveBreakoutMult.v cfg.breakoutMin.v ∧
      (m.idleSqueeze price .zero bitmap cfg).liveVolMult.v = max m.liveVolMult.v (Fpn.fromInt 1).v := by
  have hmoved : price.lessThan .zero = false := decide_eq_false (Int.not_lt.2 hprice)
  unfold idleSqueeze
  dsimp only
  rw [hmoved, Bool.and_false, Fpn.squeeze_false_v, Fpn.squeeze_false_v]
  exact ⟨rfl, rfl⟩

theorem unmovedVol_succ (seed : ℤ) (n : ℕ) :
    max (if n = 0 then seed else max seed (Fpn.fromInt 1).v) (Fpn.fromInt 1).v = max seed (Fpn.fromInt 1).v := by
  split_ifs <;> omega

theorem Unmoved.adapt {seed : StrategySeedCfg} {n : ℕ} (h : Unmoved seed cfg.breakoutMin.v m n) (hprice : 0 ≤ price.v)
    (bitmap : BitVec 16) : Unmoved seed cfg.breakoutMin.v (m.adapt price .zero bitmap .zero cfg) (n + 1) := by
  obtain ⟨hbreakout, hvol⟩ : (m.idleSqueeze price .zero bitmap cfg).liveBreakoutMult.v =
      max m.liveBreakoutMult.v cfg.breakoutMin.v ∧
        (m.idleSqueeze price .zero bitmap cfg).liveVolMult.v = max m.liveVolMult.v (Fpn.fromInt 1).v :=
    idleSqueeze_v hprice m
  have hvolume : (m.idleSqueeze price .zero bitmap cfg).liveVolMult.v =
      max seed.volumeMultiplier.v (Fpn.fromInt 1).v := by
    rw [hvol, h.vol, unmovedVol_succ]
  have hfed : Unfed (m.feeder.push .zero) (n + 1) := h.unfed.push
  by_cases hfull : maxWindow ≤ n + 1
  · have hadapt : m.adapt price .zero bitmap .zero cfg =
        ((m.idleSqueeze price .zero bitmap cfg).feed price .zero).adaptFilter ⟨.zero, .zero, .zero⟩ cfg := by
      rw [MomentumMemory.adapt, ← hfed.still.compute]
      exact if_pos (hfed.full_iff.2 hfull)
    rw [hadapt]
    refine ⟨hfed, rfl, ?_, hvolume⟩
    have hshift (cond : Bool) (a b : Fpn) :
        (Fpn.blendOnMask (Fpn.zero.mul a).negate .zero cond).mul b = .zero := by
      cases cond <;> simp
    dsimp only [adaptFilter]
    rw [hshift, Fpn.shiftWithin_zero_v, clampedSeed_succ, if_neg (Nat.not_lt.2 hfull), ← h.breakout]
    exact congrArg (fun v => min (max v cfg.breakoutMin.v) (Fpn.fromInt 5).v) hbreakout
  · have hadapt : m.adapt price .zero bitmap .zero cfg =
        (m.idleSqueeze price .zero bitmap cfg).feed price .zero := by
      rw [MomentumMemory.adapt]
      exact if_neg (hfull ∘ hfed.full_iff.1)
    rw [hadapt]
    refine ⟨hfed, h.fit, ?_, hvolume⟩
    rw [clampedSeed_succ, if_pos (Nat.lt_of_not_le hfull), ← h.breakout]
    exact hbreakout

theorem unmoved_run (seed : StrategySeedCfg) {breakoutMin : ℤ} {cs : List AdaptCycle}
    (hcs : ∀ c ∈ cs, c.cfg.breakoutMin.v = breakoutMin ∧ 0 ≤ c.priceAvg.v) :
    Unmoved seed breakoutMin (run rebuild (fresh seed) cs) (adaptCycles .momentum cs) := by
  induction cs using List.reverseRecOn with
  | nil => exact unmoved_fresh seed breakoutMin
  | append_singleton cs c ih =>
    have hrun := ih fun d hd => hcs d (List.mem_append_left _ hd)
    obtain ⟨hmin, hprice⟩ := hcs c (List.mem_append_right _ (List.mem_singleton_self c))
    rw [run_append, run_cons, run_nil, adaptCycles, List.countP_append, List.countP_singleton]
    subst hmin
    by_cases hc : c.effective = some .momentum
    · rw [rebuild, if_pos hc, if_pos (decide_eq_true hc)]
      exact hrun.adapt hprice c.activeBitmap
    · rw [rebuild, if_neg hc, if_neg (hc ∘ of_decide_eq_true)]
      exact hrun

/-- As long as the floor of the breakout stays the same, nothing the market or the P&L does moves the
    parameters of a momentum node: behind the first cycle they are what they were seeded with, floored,
    and from the eighth on the breakout is capped as well. -/
theorem momentum_unmoved (seed : StrategySeedCfg) {breakoutMin : ℤ} {cs : List AdaptCycle}
    (hcs : ∀ c ∈ cs, c.cfg.breakoutMin.v = breakoutMin ∧ 0 ≤ c.priceAvg.v) :
    ∃ m, run StrategyMemory.rebuild (.momentum (fresh seed)) cs = .momentum m ∧
      m.lastRegression = ⟨.zero, .zero, .zero⟩ ∧
      m.liveBreakoutMult.v =
        clampedSeed (fresh seed).liveBreakoutMult.v breakoutMin (Fpn.fromInt 5).v (adaptCycles .momentum cs) ∧
      m.liveVolMult.v =
        if adaptCycles .momentum cs = 0 then seed.volumeMultiplier.v
        else max seed.volumeMultiplier.v (Fpn.fromInt 1).v :=
  have h := unmoved_run seed hcs
  ⟨_, run_momentum _ _, h.fit, h.breakout, h.vol⟩

theorem momentum_unmoved_sample :
    ∃ m, run StrategyMemory.rebuild (.momentum (fresh MeanReversionMemory.sampleSeed))
        (MeanReversionMemory.sampleHeldCycles .momentum ++ MeanReversionMemory.sampleIdleCycles .momentum) =
          .momentum m ∧
      m.lastRegression = ⟨.zero, .zero, .zero⟩ ∧
      m.liveBreakoutMult.v = clampedSeed (Fpn.fromInt 1).v Fpn.half.v (Fpn.fromInt 5).v 11 ∧
      m.liveVolMult.v = max (Fpn.fromInt 3).v (Fpn.fromInt 1).v :=
  momentum_unmoved MeanReversionMemory.sampleSeed fun c hc => by
    rcases List.mem_append.1 hc with hc | hc
    · obtain rfl := List.eq_of_mem_replicate hc
      exact ⟨rfl, by decide⟩
    · obtain rfl := List.eq_of_mem_replicate hc
      exact ⟨rfl, by decide⟩

end MomentumMemory

end FoxTrader
