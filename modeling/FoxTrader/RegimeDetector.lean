import FoxTrader.BucketRing
import FoxTrader.FixedPointCasts
import FoxTrader.Lib.SignedWord
import FoxTrader.Lib.TrailingRun

/-! # The regime detector

    A slow cycle scores its signals, and the scores detect a regime. A detection like the proposed
    regime raises the count, another one becomes the proposal with a count of one, and when the count
    has reached the threshold the proposal becomes the current regime. The count is not set back then.

    It counts the run that the detections end in: `Tracks` relates the state to all detections so far,
    also past the wrap of the count, where nothing is left to switch. -/

namespace FoxTrader

open Lib

/-- `FOREACH_REGIME`, in the order of the ids. -/
inductive Regime where
  | ranging
  | trending
  | volatile
  | trendingDown
  | mildTrend
  deriving DecidableEq

/-- What the classifier reads of the signal vector. -/
structure RegimeSignals where
  shortR2 : Fpn
  volRatio : Fpn
  rorSlope : Fpn
  volumeSlope : Fpn
  emaSmaSpread : Fpn
  emaSmaSpreadLong : Fpn
  emaAboveSma : Bool
  shortCount : ℤ
  longCount : ℤ
  rorReady : Bool
  modelScore : Fpn

/-- What the classifier reads of the configuration. -/
structure RegimeCfg where
  crossoverThreshold : Fpn
  strongCrossover : Fpn
  r2Threshold : Fpn
  volSpikeRatio : Fpn
  modelWeight : Fpn

structure RegimeState where
  currentRegime : Regime
  proposedRegime : Regime
  hysteresisCount : ℤ
  hysteresisThreshold : ℤ
  lastTrendingScore : ℤ
  lastVolatileScore : ℤ

/-- `Regime_Init`. -/
def regimeInit (hysteresisThreshold : ℤ) : RegimeState where
  currentRegime := .ranging
  proposedRegime := .ranging
  hysteresisCount := 0
  hysteresisThreshold
  lastTrendingScore := 0
  lastVolatileScore := 0

/-- A truth value as the scores add it. -/
def score (b : Bool) : ℤ := if b then 1 else 0

namespace RegimeSignals

variable (cfg : RegimeCfg) (sig : RegimeSignals)

def crossoverStrong : Bool := sig.emaSmaSpread.abs.greaterThan cfg.crossoverThreshold

def longHasData : Bool := sig.longCount ≥ 64

def longEmaAbove : Bool := sig.emaSmaSpreadLong.v > 0

def longCrossoverStrong : Bool :=
  sig.longHasData && sig.emaSmaSpreadLong.abs.greaterThan cfg.crossoverThreshold

/-- Far below the long average while the short one says nothing. -/
def longDownOnly : Bool :=
  sig.longHasData && sig.emaSmaSpreadLong.abs.greaterThan (cfg.crossoverThreshold.mul (Fpn.fromInt 2)) &&
    !sig.longEmaAbove && !sig.crossoverStrong cfg

/-- The regression explains the prices. -/
def consistent : Bool := sig.shortR2.greaterThan cfg.r2Threshold

def rorPositive : Bool := sig.rorReady && sig.rorSlope.greaterThan Fpn.zero

def rorNegative : Bool := sig.rorReady && sig.rorSlope.lessThan Fpn.zero

def volConfirms : Bool := sig.volumeSlope.greaterThan Fpn.zero && sig.crossoverStrong cfg

/-- The model's share of the score; the weight is cut to an `int`. -/
def modelScoreTerm : ℤ :=
  if !sig.modelScore.isZero then
    score (sig.modelScore.greaterThan Fpn.half) * cfg.modelWeight.toDouble.toInt32.toInt
  else 0

def trendingScore : ℤ :=
  score (sig.crossoverStrong cfg) + score (sig.longCrossoverStrong cfg) + score (sig.longDownOnly cfg) +
    score (sig.consistent cfg) + score (sig.rorPositive || sig.rorNegative) + score (sig.volConfirms cfg) +
    sig.modelScoreTerm cfg

def upSignals : ℤ :=
  score (sig.crossoverStrong cfg && sig.emaAboveSma) + score (sig.longCrossoverStrong cfg && sig.longEmaAbove) +
    score sig.rorPositive

def downSignals : ℤ :=
  score (sig.crossoverStrong cfg && !sig.emaAboveSma) + score (sig.longCrossoverStrong cfg && !sig.longEmaAbove) +
    score (sig.longDownOnly cfg) + score sig.rorNegative

def volSpike : Bool := sig.volRatio.greaterThan cfg.volSpikeRatio

def volatileScore : ℤ := score (sig.volSpike cfg) + score (sig.volSpike cfg && !sig.consistent cfg)

/-- The regime the scores speak for. -/
def detected : Regime :=
  if sig.trendingScore cfg ≥ 2 ∧ (sig.crossoverStrong cfg || sig.longCrossoverStrong cfg) ∧ sig.consistent cfg ∧
      sig.trendingScore cfg > sig.volatileScore cfg then
    if sig.downSignals cfg > sig.upSignals cfg then .trendingDown
    else if (Fpn.maxOf sig.emaSmaSpread.abs sig.emaSmaSpreadLong.abs).greaterThan cfg.strongCrossover then .trending
    else .mildTrend
  else if sig.volatileScore cfg ≥ 2 ∧ sig.volatileScore cfg > sig.trendingScore cfg then .volatile
  else .ranging

end RegimeSignals

namespace RegimeState

/-- One more detection of the proposal, in an `int`, or the first of another one. -/
def propose (state : RegimeState) (detected : Regime) : RegimeState :=
  if detected = state.proposedRegime then
    { state with hysteresisCount := int32 (state.hysteresisCount + 1) }
  else { state with proposedRegime := detected, hysteresisCount := 1 }

/-- The proposal held long enough. -/
def switch (state : RegimeState) : RegimeState :=
  if state.hysteresisCount ≥ state.hysteresisThreshold ∧ state.proposedRegime ≠ state.currentRegime then
    { state with currentRegime := state.proposedRegime }
  else state

end RegimeState

/-- `Regime_Classify`. -/
def regimeClassify (cfg : RegimeCfg) (state : RegimeState) (sig : RegimeSignals) : RegimeState :=
  if sig.shortCount < 64 then state
  else
    let scored := { state with
      lastTrendingScore := sig.trendingScore cfg, lastVolatileScore := sig.volatileScore cfg }
    (scored.propose (sig.detected cfg)).switch

/-! ### Runs -/

/-- The cycles from `Regime_Init` on. -/
def regimeRun (cfg : RegimeCfg) (threshold : ℤ) (sigs : List RegimeSignals) : RegimeState :=
  sigs.foldl (regimeClassify cfg) (regimeInit threshold)

/-- What the classified cycles detected, in their order. -/
def detections (cfg : RegimeCfg) (sigs : List RegimeSignals) : List Regime :=
  (sigs.filter fun sig => !(sig.shortCount < 64 : Bool)).map fun sig => sig.detected cfg

/-- The cycle of `sig` changes the current regime. -/
def Changes (cfg : RegimeCfg) (threshold : ℤ) (sigs : List RegimeSignals) (sig : RegimeSignals) : Prop :=
  (regimeRun cfg threshold (sigs ++ [sig])).currentRegime ≠ (regimeRun cfg threshold sigs).currentRegime

variable {cfg : RegimeCfg} {n : ℕ} {l : List Regime} {st : RegimeState} {sig : RegimeSignals}
  {sigs : List RegimeSignals}

theorem regimeRun_append (cfg : RegimeCfg) (threshold : ℤ) (sigs : List RegimeSignals) (sig : RegimeSignals) :
    regimeRun cfg threshold (sigs ++ [sig]) = regimeClassify cfg (regimeRun cfg threshold sigs) sig := by
  rw [regimeRun, List.foldl_append]
  rfl

theorem detections_append (cfg : RegimeCfg) (sigs rest : List RegimeSignals) :
    detections cfg (sigs ++ rest) = detections cfg sigs ++ detections cfg rest := by
  rw [detections, List.filter_append, List.map_append]
  rfl

theorem detections_cold (h : sig.shortCount < 64) : detections cfg [sig] = [] := by
  rw [detections, List.filter_cons_of_neg (by simpa using h)]
  rfl

theorem detections_classified (h : ¬sig.shortCount < 64) : detections cfg [sig] = [sig.detected cfg] := by
  rw [detections, List.filter_cons_of_pos (by simpa using h)]
  rfl

theorem regimeClassify_cold (h : sig.shortCount < 64) : regimeClassify cfg st sig = st := if_pos h

namespace RegimeState

/-- The proposal is the last of the detections `l`, and the count its run. -/
structure Counts (n : ℕ) (l : List Regime) (st : RegimeState) : Prop where
  threshold : st.hysteresisThreshold = n
  count : st.hysteresisCount = int32 (trailingRun st.proposedRegime l)
  last : ∀ r, 0 < trailingRun r l → st.proposedRegime = r

/-- The state after the detections `l`, with the threshold `n`. -/
structure Follows (n : ℕ) (l : List Regime) (st : RegimeState) : Prop extends Counts n l st where
  settled : n ≤ trailingRun st.proposedRegime l → st.currentRegime = st.proposedRegime

/-- What stands between the two halves of a step: unless the proposal is already current, its run is
    at most `n`. -/
structure Proposed (n : ℕ) (l : List Regime) (st : RegimeState) : Prop extends Counts n l st where
  pending : st.currentRegime = st.proposedRegime ∨ trailingRun st.proposedRegime l ≤ n

theorem counts_init (n : ℕ) : Counts n [] (regimeInit n) where
  threshold := rfl
  count := (int32_natCast (Nat.zero_le _)).symm
  last _ h := absurd h (lt_irrefl 0)

theorem follows_init (hn : 1 ≤ n) : Follows n [] (regimeInit n) where
  toCounts := counts_init n
  settled h := absurd h (by rw [trailingRun_nil]; omega)

theorem propose_currentRegime (st : RegimeState) (r : Regime) : (st.propose r).currentRegime = st.currentRegime := by
  unfold RegimeState.propose
  split <;> rfl

/-- A count of at most `n` has not wrapped. -/
theorem Proposed.count_eq (hint : n ≤ 2147483647) (h : Proposed n l st) (hne : st.proposedRegime ≠ st.currentRegime) :
    st.hysteresisCount = trailingRun st.proposedRegime l := by
  have hrun : trailingRun st.proposedRegime l ≤ n := h.pending.resolve_left (Ne.symm hne)
  rw [h.count]
  exact int32_natCast (hrun.trans hint)

/-- The value detected last ends the list. -/
theorem counts_snoc {r : Regime} (hprop : st.proposedRegime = r) (hthreshold : st.hysteresisThreshold = n)
    (hcount : st.hysteresisCount = int32 (trailingRun r (l ++ [r]))) : Counts n (l ++ [r]) st where
  threshold := hthreshold
  count := by rw [hprop, hcount]
  last s hs := by
    by_contra hne
    rw [hprop] at hne
    rw [trailingRun_snoc_of_ne hne] at hs
    exact lt_irrefl 0 hs

theorem Follows.propose (hn : 1 ≤ n) (h : Follows n l st) (r : Regime) : Proposed n (l ++ [r]) (st.propose r) := by
  unfold RegimeState.propose
  split
  · rename_i hr
    subst hr
    refine ⟨counts_snoc rfl h.threshold ?_, ?_⟩
    · show int32 (st.hysteresisCount + 1) = _
      rw [trailingRun_snoc_self, h.count, int32_add_int32, Nat.cast_succ]
    · by_cases hle : n ≤ trailingRun st.proposedRegime l
      · exact Or.inl (h.settled hle)
      · exact Or.inr ((trailingRun_snoc_self _ _).trans_le (not_le.1 hle))
  · rename_i hr
    have hzero : trailingRun r l = 0 := by
      by_contra hne
      exact hr (h.last r (Nat.pos_of_ne_zero hne)).symm
    have hrun : trailingRun r (l ++ [r]) = 1 := by rw [trailingRun_snoc_self, hzero]
    refine ⟨counts_snoc rfl h.threshold ?_, Or.inr (hrun.trans_le hn)⟩
    rw [hrun, int32_natCast (by decide)]
    rfl

theorem Proposed.switch (hint : n ≤ 2147483647) (h : Proposed n l st) : Follows n l st.switch := by
  unfold RegimeState.switch
  split
  · exact ⟨⟨h.threshold, h.count, h.last⟩, fun _ => rfl⟩
  · rename_i hstay
    refine ⟨h.toCounts, fun hle => ?_⟩
    by_contra hne
    have hge : st.hysteresisCount ≥ st.hysteresisThreshold := by
      rw [h.count_eq hint (Ne.symm hne), h.threshold]
      exact_mod_cast hle
    exact hstay ⟨hge, Ne.symm hne⟩

/-- Only the regime proposed last comes in, and only with a run of `n`. -/
theorem Proposed.of_switch (hint : n ≤ 2147483647) (h : Proposed n l st)
    (hchange : st.switch.currentRegime ≠ st.currentRegime) :
    n ≤ trailingRun st.switch.currentRegime l := by
  unfold RegimeState.switch at hchange ⊢
  split at hchange
  · rename_i hswitch
    rw [if_pos hswitch]
    have hge : st.hysteresisCount ≥ st.hysteresisThreshold := hswitch.1
    rw [h.count_eq hint hswitch.2, h.threshold] at hge
    exact_mod_cast hge
  · exact absurd rfl hchange

end RegimeState

open RegimeState

/-- Scoring leaves what hysteresis reads. -/
theorem RegimeState.Follows.scored (h : RegimeState.Follows n l st) (trending volatile : ℤ) :
    RegimeState.Follows n l { st with lastTrendingScore := trending, lastVolatileScore := volatile } :=
  ⟨⟨h.threshold, h.count, h.last⟩, h.settled⟩

theorem regimeClassify_classified (h : ¬sig.shortCount < 64) :
    regimeClassify cfg st sig = ({ st with
      lastTrendingScore := sig.trendingScore cfg
      lastVolatileScore := sig.volatileScore cfg }.propose (sig.detected cfg)).switch := if_neg h

theorem follows_classify (hn : 1 ≤ n) (hint : n ≤ 2147483647) (h : RegimeState.Follows n l st) (sig : RegimeSignals) :
    RegimeState.Follows n (l ++ detections cfg [sig]) (regimeClassify cfg st sig) := by
  by_cases hcold : sig.shortCount < 64
  · rw [detections_cold hcold, regimeClassify_cold hcold, List.append_nil]
    exact h
  · rw [detections_classified hcold, regimeClassify_classified hcold]
    exact ((h.scored _ _).propose hn _).switch hint

theorem follows_regimeRun (hn : 1 ≤ n) (hint : n ≤ 2147483647) (sigs : List RegimeSignals) :
    RegimeState.Follows n (detections cfg sigs) (regimeRun cfg n sigs) := by
  induction sigs using List.reverseRecOn with
  | nil => exact follows_init hn
  | append_singleton sigs sig ih =>
    rw [regimeRun_append, detections_append]
    exact follows_classify hn hint ih sig

/-- A cycle changes the current regime only to one the last `n` classified cycles detected. -/
theorem replicate_of_change (hn : 1 ≤ n) (hint : n ≤ 2147483647)
    (h : Changes cfg n sigs sig) :
    List.replicate n (regimeRun cfg n (sigs ++ [sig])).currentRegime <:+ detections cfg (sigs ++ [sig]) := by
  rw [Changes, regimeRun_append] at h
  rw [replicate_suffix_iff, regimeRun_append, detections_append]
  by_cases hcold : sig.shortCount < 64
  · rw [regimeClassify_cold hcold] at h
    exact absurd rfl h
  · rw [regimeClassify_classified hcold] at h ⊢
    rw [detections_classified hcold]
    refine (((follows_regimeRun hn hint sigs).scored _ _).propose hn _).of_switch hint ?_
    rwa [propose_currentRegime]

/-- The regime of the last `n` classified cycles is the current one. -/
theorem current_of_replicate (hn : 1 ≤ n) (hint : n ≤ 2147483647) {r : Regime}
    (h : List.replicate n r <:+ detections cfg sigs) : (regimeRun cfg n sigs).currentRegime = r := by
  rw [replicate_suffix_iff] at h
  have hfollows : RegimeState.Follows n (detections cfg sigs) (regimeRun cfg n sigs) := follows_regimeRun hn hint sigs
  have hprop : (regimeRun cfg n sigs).proposedRegime = r := hfollows.last r (by omega)
  rw [← hprop] at h
  rw [hfollows.settled h, hprop]

/-- Between two changes lie `n` classified cycles: fewer would leave the last `n` before the second
    change with the regime that is current already. -/
theorem length_of_changes (hn : 1 ≤ n) (hint : n ≤ 2147483647) {a b : RegimeSignals} {mid : List RegimeSignals}
    (ha : Changes cfg n sigs a) (hb : Changes cfg n (sigs ++ [a] ++ mid) b) :
    n ≤ (detections cfg (mid ++ [b])).length := by
  by_contra hshort
  have hrunA := replicate_of_change hn hint ha
  have hrunB := replicate_of_change hn hint hb
  have hwhole : detections cfg (sigs ++ [a] ++ mid ++ [b]) =
      detections cfg (sigs ++ [a]) ++ detections cfg (mid ++ [b]) := by
    rw [List.append_assoc _ mid, detections_append]
  rw [hwhole] at hrunB
  obtain ⟨hbefore, hall⟩ := replicate_suffix_append (not_le.1 hshort) hrunB
  have hsame := eq_of_replicate_suffix hn (by omega) hrunA hbefore
  -- The cycles between detected it too, so it is current before the second change.
  have hmid : detections cfg mid = List.replicate (detections cfg mid).length
      (regimeRun cfg n (sigs ++ [a] ++ mid ++ [b])).currentRegime :=
    List.eq_replicate_of_mem fun r hr => hall r (by rw [detections_append]; exact List.mem_append_left _ hr)
  refine hb ((current_of_replicate hn hint ?_).symm)
  rw [detections_append, hmid, ← hsame]
  exact replicate_suffix_append_replicate hrunA _

/-- The hysteresis of the classifier over every run. -/
theorem regimeRun_hysteresis (cfg : RegimeCfg) {n : ℕ} (hn : 1 ≤ n) (hint : n ≤ 2147483647)
    (sigs : List RegimeSignals) :
    (∀ sig, sig.shortCount < 64 → regimeClassify cfg (regimeRun cfg n sigs) sig = regimeRun cfg n sigs) ∧
      (∀ sig, Changes cfg n sigs sig →
        List.replicate n (regimeRun cfg n (sigs ++ [sig])).currentRegime <:+ detections cfg (sigs ++ [sig])) ∧
      (∀ r, List.replicate n r <:+ detections cfg sigs → (regimeRun cfg n sigs).currentRegime = r) ∧
      ∀ a mid b, Changes cfg n sigs a → Changes cfg n (sigs ++ [a] ++ mid) b →
        n ≤ (detections cfg (mid ++ [b])).length :=
  ⟨fun _ hcold => regimeClassify_cold hcold, fun _ h => replicate_of_change hn hint h,
    fun _ h => current_of_replicate hn hint h, fun _ _ _ ha hb => length_of_changes hn hint ha hb⟩

/-- Prices that jump without a direction. -/
def choppySignals : RegimeSignals where
  shortR2 := Fpn.zero
  volRatio := Fpn.fromInt 3
  rorSlope := Fpn.zero
  volumeSlope := Fpn.zero
  emaSmaSpread := Fpn.zero
  emaSmaSpreadLong := Fpn.zero
  emaAboveSma := false
  shortCount := 64
  longCount := 64
  rorReady := false
  modelScore := Fpn.zero

/-- Thresholds of one and a spike ratio of two. -/
def unitRegimeCfg : RegimeCfg := ⟨Fpn.fromInt 1, Fpn.fromInt 1, Fpn.fromInt 1, Fpn.fromInt 2, Fpn.fromInt 2⟩

theorem regimeRun_choppy :
    (regimeRun unitRegimeCfg (2 : ℕ) [choppySignals, { choppySignals with shortCount := 63 }, choppySignals]).currentRegime
      = .volatile :=
  (regimeRun_hysteresis unitRegimeCfg (by decide) (by decide) _).2.2.1 .volatile (by decide +kernel)

end FoxTrader
