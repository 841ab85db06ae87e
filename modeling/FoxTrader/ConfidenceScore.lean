import FoxTrader.Lib.RingCursor
import Mathlib.Algebra.BigOperators.Group.List.Basic
import Mathlib.Algebra.Order.Field.Basic
import Mathlib.Algebra.CharZero.Defs
import Mathlib.Data.Int.DivMod
import Mathlib.Data.List.Induction

/-! # Confidence over restarts

    The confidence of a model rests on its last predictions and outcomes: a rank correlation over two rings
    that advance in lockstep, and a running sum of squared errors over a third. The rings count every push
    ever made and reduce the count by their window when they use it.

    A snapshot keeps the cells, the counts and the cursors, not the window: the scorer it is read into has the
    window of its configuration. Lockstep and sum are built again after the load, and what the new window finds
    in the cells are still the last pairs if and only if the window is the old one, or the rings hold no more
    than the new one has room for and both windows divide the number of the pairs that are gone
    (`keepsPairs_iff`). -/

namespace FoxTrader

open Lib Lib.RingCursor

def confidenceIcWindowDefault : ℤ := 32
def confidenceMinSamples : ℕ := 5
def rollingIcMaxWindow : ℤ := 64

variable {K : Type*}

/-! ### The rings -/

/-- How many samples a ring holds, how many it was ever given, and how many it has room for. -/
structure HotCluster where
  count : ℕ
  head : ℕ
  window : ℕ

structure RollingWindow (K : Type*) extends HotCluster where
  samples : ℕ → K

/-- The window of a ring that is asked for one. -/
def clampWindow (window : ℤ) : ℕ :=
  let atLeast := if window < 2 then 2 else window
  (if atLeast > rollingIcMaxWindow then rollingIcMaxWindow else atLeast).toNat

/-- Where a ring stands before any push. -/
def HotCluster.init (window : ℤ) : HotCluster := ⟨0, 0, clampWindow window⟩

/-- Where a ring stands after one more push. -/
def HotCluster.advance (hot : HotCluster) : HotCluster :=
  ⟨if hot.count < hot.window then hot.count + 1 else hot.count, hot.head + 1, hot.window⟩

namespace RollingWindow

def init [Zero K] (window : ℤ) : RollingWindow K := ⟨.init window, fun _ => 0⟩

def push (w : RollingWindow K) (sample : K) : RollingWindow K :=
  ⟨w.toHotCluster.advance, Function.update w.samples (w.head % w.window) sample⟩

end RollingWindow

structure RollingIC (K : Type*) where
  predictions : RollingWindow K
  actuals : RollingWindow K

namespace RollingIC

def init [Zero K] (window : ℤ) : RollingIC K := ⟨.init window, .init window⟩

def push (ric : RollingIC K) (prediction actual : K) : RollingIC K :=
  ⟨ric.predictions.push prediction, ric.actuals.push actual⟩

/-- The second ring is where the first one is. -/
def restoreLockstep (ric : RollingIC K) : RollingIC K :=
  { ric with actuals := { ric.actuals with count := ric.predictions.count, head := ric.predictions.head } }

/-- The cell of the sample `i` of those a ring holds. -/
def cellOf (hot : HotCluster) (i : ℕ) : ℕ :=
  let idx : ℤ := hot.head - hot.count + i
  (if idx < 0 then idx + hot.window else idx.tmod hot.window).toNat

/-- The rings in order, as they are copied out to be correlated. -/
def pairs (ric : RollingIC K) : List (K × K) :=
  (List.range ric.predictions.count).map fun i =>
    (ric.predictions.samples (cellOf ric.predictions.toHotCluster i),
      ric.actuals.samples (cellOf ric.predictions.toHotCluster i))

end RollingIC

section Correlation

variable [Field K] [LinearOrder K]

/-- The ranks of the values from one, equal ones between them. -/
def confidenceRank (values : List K) : List K :=
  values.zipIdx.map fun p =>
    let others := values.eraseIdx p.2
    let rank : K := 1 + ((others.countP fun v => decide (v < p.1) : ℕ) : K)
    let ties := 1 + others.countP fun v => decide (v = p.1)
    rank + ((ties - 1 : ℕ) : K) * (((1 : ℕ) : K) / ((2 : ℕ) : K))

/-- The correlation of the ranks. -/
def spearman (sqrt : K → K) (pairs : List (K × K)) : K :=
  let predRanks := confidenceRank (pairs.map Prod.fst)
  let actRanks := confidenceRank (pairs.map Prod.snd)
  let n : K := (pairs.length : ℕ)
  let meanPr := predRanks.sum / n
  let meanAr := actRanks.sum / n
  let cov := (List.zipWith (· * ·) predRanks actRanks).sum / n - meanPr * meanAr
  let varPr := (predRanks.map fun r => r * r).sum / n - meanPr * meanPr
  let varAr := (actRanks.map fun r => r * r).sum / n - meanAr * meanAr
  if varPr ≤ 0 ∨ varAr ≤ 0 then 0
  else
    let ic := cov / (sqrt varPr * sqrt varAr)
    let atMost := if ic > 1 then 1 else ic
    if atMost < -1 then -1 else atMost

def RollingIC.isMeasured (ric : RollingIC K) : Prop := confidenceMinSamples ≤ ric.predictions.count

instance (ric : RollingIC K) : Decidable ric.isMeasured :=
  inferInstanceAs (Decidable (confidenceMinSamples ≤ ric.predictions.count))

def RollingIC.compute (sqrt : K → K) (ric : RollingIC K) : K :=
  if ric.isMeasured then spearman sqrt ric.pairs else 0

end Correlation

structure RollingRMSE (K : Type*) where
  window : RollingWindow K
  sumSquaredErrors : K

namespace RollingRMSE

/-- The squared errors a ring holds, as they are walked after a load. -/
def errors (r : RollingRMSE K) : List K := (List.range r.window.count).map r.window.samples

variable [Field K]

def init (window : ℤ) : RollingRMSE K := ⟨.init window, 0⟩

def squaredError (prediction actual : K) : K := (prediction - actual) * (prediction - actual)

def push (r : RollingRMSE K) (prediction actual : K) : RollingRMSE K :=
  let kept :=
    if r.window.count ≥ r.window.window then
      r.sumSquaredErrors - r.window.samples (r.window.head % r.window.window)
    else r.sumSquaredErrors
  ⟨r.window.push (squaredError prediction actual), kept + squaredError prediction actual⟩

def compute (sqrt : K → K) (r : RollingRMSE K) : K :=
  if r.window.count < 2 then 1 else sqrt (r.sumSquaredErrors / (r.window.count : ℕ))

end RollingRMSE

/-! ### The scorer and its snapshot -/

structure ConfidenceScorer (K : Type*) where
  ic : RollingIC K
  rmse : RollingRMSE K

/-- The fields of a scorer that a snapshot keeps. -/
structure SavedConfidence (K : Type*) where
  predictionSamples : ℕ → K
  actualSamples : ℕ → K
  predictionCount : ℕ
  predictionHead : ℕ
  rmseSamples : ℕ → K
  rmseCount : ℕ
  rmseHead : ℕ

/-- The window a scorer gets from its configuration. -/
def configWindow (window : ℤ) : ℤ := if window > 0 then window else confidenceIcWindowDefault

namespace ConfidenceScorer

variable [Field K]

def init (window : ℤ) : ConfidenceScorer K := ⟨.init (configWindow window), .init (configWindow window)⟩

def update (cs : ConfidenceScorer K) (prediction actual : K) : ConfidenceScorer K :=
  ⟨cs.ic.push prediction actual, cs.rmse.push prediction actual⟩

def fieldwiseWrite (cs : ConfidenceScorer K) : SavedConfidence K where
  predictionSamples := cs.ic.predictions.samples
  actualSamples := cs.ic.actuals.samples
  predictionCount := cs.ic.predictions.count
  predictionHead := cs.ic.predictions.head
  rmseSamples := cs.rmse.window.samples
  rmseCount := cs.rmse.window.count
  rmseHead := cs.rmse.window.head

def recomputeRunningSums (cs : ConfidenceScorer K) : ConfidenceScorer K :=
  { cs with rmse := { cs.rmse with sumSquaredErrors := cs.rmse.errors.sum } }

/-- The saved fields over those of a scorer, and what is derived from them. -/
def commitPersistedFields (dst : ConfidenceScorer K) (src : SavedConfidence K) : ConfidenceScorer K :=
  let predictions : RollingWindow K :=
    ⟨⟨src.predictionCount, src.predictionHead, dst.ic.predictions.window⟩, src.predictionSamples⟩
  let actuals : RollingWindow K := { dst.ic.actuals with samples := src.actualSamples }
  let errors : RollingWindow K := ⟨⟨src.rmseCount, src.rmseHead, dst.rmse.window.window⟩, src.rmseSamples⟩
  recomputeRunningSums
    ⟨RollingIC.restoreLockstep ⟨predictions, actuals⟩, ⟨errors, dst.rmse.sumSquaredErrors⟩⟩

/-- Saved, and read into a new scorer. -/
def restart (cs : ConfidenceScorer K) (window : ℤ) : ConfidenceScorer K :=
  (init window).commitPersistedFields cs.fieldwiseWrite

end ConfidenceScorer

/-! ### Runs -/

inductive ConfidenceStep where
  | update
  | restart (window : ℤ)

/-- The pairs pushed so far, and the scorer. -/
structure ScorerRun (K : Type*) where
  pushed : List (K × K)
  scorer : ConfidenceScorer K

/-- The window of a scorer that is asked for one. -/
def effectiveWindow (window : ℤ) : ℕ := clampWindow (configWindow window)

/-- Where the rings stand after a step, whatever is pushed. -/
def HotCluster.step (hot : HotCluster) : ConfidenceStep → HotCluster
  | .update => hot.advance
  | .restart window => { hot with window := effectiveWindow window }

def cursorRun (window : ℤ) (steps : List ConfidenceStep) : HotCluster :=
  steps.foldl HotCluster.step (.init (configWindow window))

/-- The old window, or one with room for the pairs that begins with the first of them as the old one does. -/
def RestartFits (hot : HotCluster) (window : ℕ) : Prop :=
  window = hot.window ∨ hot.count ≤ window ∧ hot.window ∣ hot.head - hot.count ∧ window ∣ hot.head - hot.count

instance (hot : HotCluster) (window : ℕ) : Decidable (RestartFits hot window) :=
  inferInstanceAs (Decidable (_ ∨ _))

variable [Field K]

/-- The next of the values is pushed, or the scorer restarted. -/
def ScorerRun.step (values : ℕ → K × K) (s : ScorerRun K) : ConfidenceStep → ScorerRun K
  | .update =>
    let pair := values s.pushed.length
    ⟨s.pushed ++ [pair], s.scorer.update pair.1 pair.2⟩
  | .restart window => ⟨s.pushed, s.scorer.restart window⟩

def scorerRun (values : ℕ → K × K) (window : ℤ) (steps : List ConfidenceStep) : ScorerRun K :=
  steps.foldl (ScorerRun.step values) ⟨[], .init window⟩

def pairError (pair : K × K) : K := RollingRMSE.squaredError pair.1 pair.2

/-- The rings hold the last `n` pairs, and the sum is theirs. -/
structure HoldsLast (n : ℕ) (s : ScorerRun K) : Prop where
  fits : n ≤ s.scorer.ic.predictions.window
  within : n ≤ s.pushed.length
  pairs : s.scorer.ic.pairs = window n s.pushed
  errors : s.scorer.rmse.errors.Perm ((window n s.pushed).map pairError)
  sum : s.scorer.rmse.sumSquaredErrors = ((window n s.pushed).map pairError).sum

theorem HoldsLast.count_eq {n : ℕ} {s : ScorerRun K} (h : HoldsLast n s) :
    s.scorer.ic.predictions.count = n := by
  have hlength := congrArg List.length h.pairs
  rwa [RollingIC.pairs, List.length_map, List.length_range, length_window, min_eq_right h.within] at hlength

/-- The correlation is that of the last pairs. -/
theorem HoldsLast.ic_compute [LinearOrder K] {n : ℕ} {s : ScorerRun K} (h : HoldsLast n s) (sqrt : K → K) :
    s.scorer.ic.compute sqrt =
      if confidenceMinSamples ≤ n then spearman sqrt (window n s.pushed) else 0 := by
  rw [← h.pairs, ← h.count_eq]
  rfl

/-- The error is the mean of theirs. -/
theorem HoldsLast.rmse_compute {n : ℕ} {s : ScorerRun K} (h : HoldsLast n s) (sqrt : K → K) :
    s.scorer.rmse.compute sqrt =
      if n < 2 then 1 else sqrt (((window n s.pushed).map pairError).sum / (n : ℕ)) := by
  have hcount : s.scorer.rmse.window.count = n := by
    have hlength := h.errors.length_eq
    rwa [RollingRMSE.errors, List.length_map, List.length_range, List.length_map, length_window,
      min_eq_right h.within] at hlength
  rw [RollingRMSE.compute, h.sum, hcount]

/-- At every point of the run, and all that the window has room for as long as it never changed. -/
def KeepsPairs (values : ℕ → K × K) (window0 : ℤ) (steps : List ConfidenceStep) : Prop :=
  ∀ done, done <+: steps → ∃ n, HoldsLast n (scorerRun values window0 done) ∧
    ((∀ window, .restart window ∈ done → effectiveWindow window = effectiveWindow window0) →
      n = min (scorerRun values window0 done).pushed.length (effectiveWindow window0))

/-- Every restart of the run fits where the rings stand before it. -/
def RestartsFit (window0 : ℤ) (steps : List ConfidenceStep) : Prop :=
  ∀ done window, done ++ [.restart window] <+: steps → RestartFits (cursorRun window0 done) (effectiveWindow window)

/-! ### Where the rings stand -/

theorem two_le_clampWindow (window : ℤ) : 2 ≤ clampWindow window := by
  unfold clampWindow rollingIcMaxWindow
  dsimp only
  split <;> split <;> omega

namespace HotCluster

/-- Something is held once something was pushed, and no more than that. -/
structure Begun (hot : HotCluster) : Prop where
  two_le : 2 ≤ hot.window
  le_head : hot.count ≤ hot.head
  pos : 0 < hot.head → 0 < hot.count

variable {hot : HotCluster}

theorem begun_init (window : ℤ) : (init window).Begun := ⟨two_le_clampWindow window, le_rfl, id⟩

theorem Begun.step (h : hot.Begun) (a : ConfidenceStep) : (hot.step a).Begun := by
  obtain ⟨htwo, hle, hpos⟩ := h
  cases a with
  | update =>
    refine ⟨htwo, ?_, fun _ => ?_⟩
    · show (if hot.count < hot.window then hot.count + 1 else hot.count) ≤ hot.head + 1
      split <;> omega
    · show 0 < if hot.count < hot.window then hot.count + 1 else hot.count
      split <;> omega
  | restart window => exact ⟨two_le_clampWindow _, hle, hpos⟩

/-- The ring has room for what it holds, and its first cells are in use. -/
structure Fitted (hot : HotCluster) : Prop where
  room : hot.count ≤ hot.window
  aligned : Aligned hot.window hot.head hot.count

theorem fitted_init (window : ℤ) : (init window).Fitted := ⟨Nat.zero_le _, .inr (dvd_zero _)⟩

theorem Fitted.advance (h : hot.Fitted) : hot.advance.Fitted := by
  refine ⟨?_, h.aligned.push h.room⟩
  show (if hot.count < hot.window then hot.count + 1 else hot.count) ≤ hot.window
  have hroom := h.room
  split <;> omega

theorem Fitted.restart (h : hot.Fitted) {window : ℤ} (hfits : RestartFits hot (effectiveWindow window)) :
    (hot.step (.restart window)).Fitted := by
  rcases hfits with hsame | ⟨hroom, -, hdvd⟩
  · obtain ⟨hroom, haligned⟩ := h
    rw [← hsame] at hroom haligned
    exact ⟨hroom, haligned⟩
  · exact ⟨hroom, .inr hdvd⟩

/-- A restart that fits leaves the held samples where the new window looks for them. -/
theorem mod_eq_of_restartFits (h : hot.Fitted) (hbegun : hot.Begun) {window : ℕ} (hfits : RestartFits hot window)
    (k : ℕ) (hlow : hot.head - hot.count ≤ k) (hup : k < hot.head) : k % hot.window = k % window := by
  have hroom : hot.count ≤ window := by
    rcases hfits with rfl | ⟨hroom, -, -⟩
    · exact h.room
    · exact hroom
  refine (mod_agree_iff hbegun.two_le (hbegun.pos (by omega)) hbegun.le_head h.room hroom h.aligned).2 ?_ k hlow hup
  rcases hfits with hsame | ⟨-, hdvd⟩
  · exact .inl hsame
  · exact .inr hdvd

/-- And only such a restart. -/
theorem restartFits_of_mod_eq (h : hot.Fitted) (hbegun : hot.Begun) {window : ℕ} (hroom : hot.count ≤ window)
    (hagree : ∀ k, hot.head - hot.count ≤ k → k < hot.head → k % hot.window = k % window) :
    RestartFits hot window := by
  rcases Nat.eq_zero_or_pos hot.count with hzero | hpos
  · have hhead : hot.head = 0 := by
      by_contra hne
      exact absurd (hbegun.pos (by omega)) (by omega)
    refine .inr ⟨hroom, ?_, ?_⟩ <;> rw [hhead, Nat.zero_sub] <;> exact dvd_zero _
  · rcases (mod_agree_iff hbegun.two_le hpos hbegun.le_head h.room hroom h.aligned).1 hagree with hsame | hdvd
    · exact .inl hsame
    · exact .inr ⟨hroom, hdvd⟩

end HotCluster

omit [Field K] in
theorem RollingIC.cellOf_eq {hot : HotCluster} (hle : hot.count ≤ hot.head) (i : ℕ) :
    cellOf hot i = (hot.head - hot.count + i) % hot.window := by
  have hidx : (hot.head : ℤ) - hot.count + i = (hot.head - hot.count + i : ℕ) := by omega
  unfold cellOf
  rw [hidx]
  dsimp only
  rw [if_neg (by omega), ← Int.ofNat_tmod, Int.toNat_natCast]

/-- The cells of both rings. -/
def RollingIC.cells (ric : RollingIC K) (j : ℕ) : K × K := (ric.predictions.samples j, ric.actuals.samples j)

omit [Field K] in
/-- The pairs are read from the cells of the last pushes. -/
theorem RollingIC.pairs_eq {ric : RollingIC K} (hle : ric.predictions.count ≤ ric.predictions.head) :
    ric.pairs =
      recent ric.predictions.head ric.predictions.count fun k => ric.cells (k % ric.predictions.window) := by
  rw [pairs, recent, List.range'_eq_map_range, List.map_map]
  refine List.map_inj_left.2 fun i _ => ?_
  rw [cellOf_eq hle]
  rfl

omit [Field K] in
theorem RollingIC.cells_push {ric : RollingIC K} (hlock : ric.actuals.toHotCluster = ric.predictions.toHotCluster)
    (pair : K × K) :
    (ric.push pair.1 pair.2).cells =
      Function.update ric.cells (ric.predictions.head % ric.predictions.window) pair := by
  funext j
  show (Function.update ric.predictions.samples _ pair.1 j,
    Function.update ric.actuals.samples (ric.actuals.head % ric.actuals.window) pair.2 j) = _
  rw [hlock]
  by_cases hj : j = ric.predictions.head % ric.predictions.window
  · subst hj
    rw [Function.update_self, Function.update_self, Function.update_self]
  · rw [Function.update_of_ne hj, Function.update_of_ne hj, Function.update_of_ne hj]
    rfl

/-- All three rings stand at the same place, as many pushes on as there are pairs. -/
structure Tracks (values : ℕ → K × K) (hot : HotCluster) (s : ScorerRun K) : Prop where
  pushed : s.pushed = (List.range hot.head).map values
  predictions : s.scorer.ic.predictions.toHotCluster = hot
  actuals : s.scorer.ic.actuals.toHotCluster = hot
  errors : s.scorer.rmse.window.toHotCluster = hot

section Tracks

variable {values : ℕ → K × K} {hot : HotCluster} {s : ScorerRun K}

omit [Field K] in
theorem Tracks.length_pushed (h : Tracks values hot s) : s.pushed.length = hot.head := by
  rw [h.pushed, List.length_map, List.length_range]

theorem Tracks.step (h : Tracks values hot s) (a : ConfidenceStep) :
    Tracks values (hot.step a) (s.step values a) := by
  obtain ⟨hpushed, hpredictions, hactuals, herrors⟩ := h
  cases a with
  | update =>
    refine ⟨?_, congrArg HotCluster.advance hpredictions, congrArg HotCluster.advance hactuals,
      congrArg HotCluster.advance herrors⟩
    show s.pushed ++ [values s.pushed.length] = (List.range (hot.head + 1)).map values
    rw [hpushed, List.length_map, List.length_range, List.range_succ, List.map_append, List.map_singleton]
  | restart window =>
    have hrestored (ring : RollingWindow K) (hring : ring.toHotCluster = hot) :
        HotCluster.mk ring.count ring.head (effectiveWindow window) = hot.step (.restart window) := by
      rw [hring]
      rfl
    have hic := hrestored s.scorer.ic.predictions hpredictions
    exact ⟨hpushed, hic, hic, hrestored s.scorer.rmse.window herrors⟩

/-- The held pairs and their errors are in their cells, and the sum is that of the errors. -/
structure Filled (values : ℕ → K × K) (hot : HotCluster) (s : ScorerRun K) : Prop where
  pairs : RingCursor.Holds hot.window hot.head hot.count s.scorer.ic.cells values
  errors :
    RingCursor.Holds hot.window hot.head hot.count s.scorer.rmse.window.samples fun k => pairError (values k)
  sum : s.scorer.rmse.sumSquaredErrors = (recent hot.head hot.count fun k => pairError (values k)).sum

theorem Filled.update (hfilled : Filled values hot s) (htracks : Tracks values hot s) (hbegun : hot.Begun)
    (hfitted : hot.Fitted) : Filled values (hot.step .update) (s.step values .update) := by
  have hle := hbegun.le_head
  have hroom := hfitted.room
  have hcount : (if hot.count < hot.window then hot.count + 1 else hot.count) ≤ hot.count + 1 := by split <;> omega
  have hpush : (s.step values .update).scorer.rmse.window.samples =
      Function.update s.scorer.rmse.window.samples (hot.head % hot.window) (pairError (values hot.head)) := by
    show Function.update s.scorer.rmse.window.samples
      (s.scorer.rmse.window.head % s.scorer.rmse.window.window) (pairError (values s.pushed.length)) = _
    rw [htracks.errors, htracks.length_pushed]
  have hcells : (s.step values .update).scorer.ic.cells =
      Function.update s.scorer.ic.cells (hot.head % hot.window) (values hot.head) := by
    show (s.scorer.ic.push (values s.pushed.length).1 (values s.pushed.length).2).cells = _
    rw [RollingIC.cells_push (htracks.actuals.trans htracks.predictions.symm), htracks.predictions,
      htracks.length_pushed]
  have hnewroom := hfitted.advance.room
  refine ⟨?_, ?_, ?_⟩
  · rw [hcells]
    exact hfilled.pairs.push hcount hnewroom
  · rw [hpush]
    exact hfilled.errors.push hcount hnewroom
  · show (if s.scorer.rmse.window.count ≥ s.scorer.rmse.window.window then s.scorer.rmse.sumSquaredErrors -
      s.scorer.rmse.window.samples (s.scorer.rmse.window.head % s.scorer.rmse.window.window)
      else s.scorer.rmse.sumSquaredErrors) + pairError (values s.pushed.length) =
      (recent (hot.head + 1) (if hot.count < hot.window then hot.count + 1 else hot.count) _).sum
    rw [htracks.errors, htracks.length_pushed, hfilled.sum]
    by_cases hlt : hot.count < hot.window
    · rw [if_neg (by omega), if_pos hlt, recent_succ hle, List.sum_append, List.sum_singleton]
    · -- The oldest error falls out of the sum: it is in the cell that is written next.
      obtain ⟨c, hc⟩ : ∃ c, hot.count = c + 1 := ⟨hot.count - 1, by have htwo := hbegun.two_le; omega⟩
      have hwindow : hot.window = c + 1 := by omega
      have hcell : hot.head % hot.window = (hot.head - (c + 1)) % hot.window := by
        rw [hwindow, ← Nat.mod_eq_sub_mod (by omega)]
      rw [if_pos (by omega), if_neg hlt, hcell, hc, hfilled.errors _ (by omega) (by omega),
        recent_cons (by omega), recent_succ (by omega), List.sum_cons, List.sum_append, List.sum_singleton,
        add_sub_cancel_left]

theorem Filled.errors_perm (hfilled : Filled values hot s) (htracks : Tracks values hot s) (hbegun : hot.Begun)
    (hfitted : hot.Fitted) :
    s.scorer.rmse.errors.Perm (recent hot.head hot.count fun k => pairError (values k)) := by
  rw [RollingRMSE.errors, htracks.errors]
  exact hfilled.errors.cells_perm hfitted.aligned hbegun.le_head hfitted.room

theorem Filled.restart (hfilled : Filled values hot s) (htracks : Tracks values hot s) (hbegun : hot.Begun)
    (hfitted : hot.Fitted) {window : ℤ} (hfits : RestartFits hot (effectiveWindow window)) :
    Filled values (hot.step (.restart window)) (s.step values (.restart window)) := by
  have hagree := HotCluster.mod_eq_of_restartFits hfitted hbegun hfits
  have hnew := hfitted.restart hfits
  have herrors : RingCursor.Holds (effectiveWindow window) hot.head hot.count s.scorer.rmse.window.samples
      fun k => pairError (values k) := hfilled.errors.rewindow hagree
  refine ⟨hfilled.pairs.rewindow hagree, herrors, ?_⟩
  show ((List.range s.scorer.rmse.window.count).map s.scorer.rmse.window.samples).sum = _
  rw [htracks.errors]
  exact (herrors.cells_perm hnew.aligned hbegun.le_head hnew.room).sum_eq

theorem Filled.holdsLast (hfilled : Filled values hot s) (htracks : Tracks values hot s) (hbegun : hot.Begun)
    (hfitted : hot.Fitted) : HoldsLast hot.count s := by
  have hle := hbegun.le_head
  have hlast : Lib.window hot.count s.pushed = recent hot.head hot.count values := by
    rw [htracks.pushed, recent_eq_window hle]
  refine ⟨?_, ?_, ?_, ?_, ?_⟩
  · rw [htracks.predictions]
    exact hfitted.room
  · rw [htracks.length_pushed]
    exact hle
  · rw [RollingIC.pairs_eq (by rw [htracks.predictions]; exact hle), htracks.predictions, hlast]
    exact (read_eq_iff hle).2 hfilled.pairs
  · rw [hlast, map_recent]
    exact hfilled.errors_perm htracks hbegun hfitted
  · rw [hlast, map_recent]
    exact hfilled.sum

end Tracks

/-! ### Runs of restarts that fit -/

variable {values : ℕ → K × K} {window0 : ℤ} {steps : List ConfidenceStep}

theorem cursorRun_snoc (window0 : ℤ) (steps : List ConfidenceStep) (a : ConfidenceStep) :
    cursorRun window0 (steps ++ [a]) = (cursorRun window0 steps).step a := by
  rw [cursorRun, List.foldl_append]
  rfl

theorem scorerRun_snoc (values : ℕ → K × K) (window0 : ℤ) (steps : List ConfidenceStep) (a : ConfidenceStep) :
    scorerRun values window0 (steps ++ [a]) = (scorerRun values window0 steps).step values a := by
  rw [scorerRun, List.foldl_append]
  rfl

theorem begun_run (window0 : ℤ) (steps : List ConfidenceStep) : (cursorRun window0 steps).Begun := by
  induction steps using List.reverseRecOn with
  | nil => exact HotCluster.begun_init _
  | append_singleton steps a ih =>
    rw [cursorRun_snoc]
    exact ih.step a

theorem tracks_run (values : ℕ → K × K) (window0 : ℤ) (steps : List ConfidenceStep) :
    Tracks values (cursorRun window0 steps) (scorerRun values window0 steps) := by
  induction steps using List.reverseRecOn with
  | nil => exact ⟨rfl, rfl, rfl, rfl⟩
  | append_singleton steps a ih =>
    rw [cursorRun_snoc, scorerRun_snoc]
    exact ih.step a

theorem restartsFit_snoc {a : ConfidenceStep} : RestartsFit window0 (steps ++ [a]) ↔
    RestartsFit window0 steps ∧
      ∀ window, a = .restart window → RestartFits (cursorRun window0 steps) (effectiveWindow window) := by
  constructor
  · intro h
    refine ⟨fun done window hdone => h done window (hdone.trans (List.prefix_append ..)), ?_⟩
    rintro window rfl
    exact h steps window (List.prefix_refl _)
  · rintro ⟨hsteps, hlast⟩ done window hdone
    rcases List.prefix_concat_iff.1 hdone with heq | hbefore
    · obtain ⟨rfl, hsingle⟩ := List.append_inj' heq rfl
      exact hlast window (List.singleton_inj.1 hsingle).symm
    · exact hsteps done window hbefore

theorem fitted_run (h : RestartsFit window0 steps) : (cursorRun window0 steps).Fitted := by
  induction steps using List.reverseRecOn with
  | nil => exact HotCluster.fitted_init _
  | append_singleton steps a ih =>
    obtain ⟨hsteps, hlast⟩ := restartsFit_snoc.1 h
    rw [cursorRun_snoc]
    cases a with
    | update => exact (ih hsteps).advance
    | restart window => exact (ih hsteps).restart (hlast window rfl)

theorem filled_run (values : ℕ → K × K) (h : RestartsFit window0 steps) :
    Filled values (cursorRun window0 steps) (scorerRun values window0 steps) := by
  induction steps using List.reverseRecOn with
  | nil => exact ⟨RingCursor.Holds.zero _ _ _, RingCursor.Holds.zero _ _ _, rfl⟩
  | append_singleton steps a ih =>
    obtain ⟨hsteps, hlast⟩ := restartsFit_snoc.1 h
    have htracks := tracks_run values window0 steps
    have hbegun := begun_run window0 steps
    have hfitted := fitted_run hsteps
    rw [cursorRun_snoc, scorerRun_snoc]
    cases a with
    | update => exact (ih hsteps).update htracks hbegun hfitted
    | restart window => exact (ih hsteps).restart htracks hbegun hfitted (hlast window rfl)

/-- Under one window the rings hold as many as there is room for. -/
theorem cursorRun_of_same_window
    (h : ∀ window, .restart window ∈ steps → effectiveWindow window = effectiveWindow window0) :
    (cursorRun window0 steps).window = effectiveWindow window0 ∧
      (cursorRun window0 steps).count = min (cursorRun window0 steps).head (effectiveWindow window0) := by
  induction steps using List.reverseRecOn with
  | nil => exact ⟨rfl, (Nat.zero_min _).symm⟩
  | append_singleton steps a ih =>
    obtain ⟨hwindow, hcount⟩ := ih fun window hmem => h window (List.mem_append_left _ hmem)
    rw [cursorRun_snoc]
    cases a with
    | update =>
      refine ⟨hwindow, ?_⟩
      show (if (cursorRun window0 steps).count < (cursorRun window0 steps).window then
        (cursorRun window0 steps).count + 1 else (cursorRun window0 steps).count) =
        min ((cursorRun window0 steps).head + 1) _
      rw [hwindow]
      split <;> omega
    | restart window => exact ⟨h window (List.mem_append_right _ List.mem_cons_self), hcount⟩

theorem keepsPairs_of_restartsFit (values : ℕ → K × K) (h : RestartsFit window0 steps) :
    KeepsPairs values window0 steps := by
  intro done hdone
  have hfit : RestartsFit window0 done := fun before window hbefore => h before window (hbefore.trans hdone)
  have htracks := tracks_run values window0 done
  refine ⟨(cursorRun window0 done).count, ?_, fun hsame => ?_⟩
  · exact (filled_run values hfit).holdsLast htracks (begun_run window0 done) (fitted_run hfit)
  · rw [htracks.length_pushed]
    exact (cursorRun_of_same_window hsame).2

/-! ### Restarts that do not fit -/

/-- Pairs that tell where they were pushed. -/
def numbered (k : ℕ) : K × K := (((k + 1 : ℕ) : K), 0)

theorem numbered_injective [CharZero K] : (numbered : ℕ → K × K).Injective := by
  intro j k heq
  have hcast : ((j + 1 : ℕ) : K) = ((k + 1 : ℕ) : K) := congrArg Prod.fst heq
  exact Nat.succ_injective (Nat.cast_injective hcast)

/-- A pair of the numbered ones is in one cell only, as long as it is held. -/
theorem alone_run [CharZero K] (h : RestartsFit window0 steps) :
    Alone (cursorRun window0 steps).window (cursorRun window0 steps).head (cursorRun window0 steps).count
      (scorerRun (numbered : ℕ → K × K) window0 steps).scorer.ic.cells numbered := by
  induction steps using List.reverseRecOn with
  | nil =>
    intro j k heq
    exact absurd (congrArg Prod.fst heq).symm (Nat.cast_ne_zero.2 (Nat.succ_ne_zero k))
  | append_singleton steps a ih =>
    obtain ⟨hsteps, hlast⟩ := restartsFit_snoc.1 h
    have htracks := tracks_run (numbered : ℕ → K × K) window0 steps
    have hbegun := begun_run window0 steps
    have hfitted := fitted_run hsteps
    rw [cursorRun_snoc, scorerRun_snoc]
    cases a with
    | update =>
      show Alone _ ((cursorRun window0 steps).head + 1)
        (if (cursorRun window0 steps).count < (cursorRun window0 steps).window then
          (cursorRun window0 steps).count + 1 else (cursorRun window0 steps).count)
        (RollingIC.push _ (numbered _).1 (numbered _).2).cells _
      rw [RollingIC.cells_push (htracks.actuals.trans htracks.predictions.symm), htracks.predictions,
        htracks.length_pushed]
      exact (ih hsteps).push numbered_injective (by split <;> omega)
    | restart window =>
      exact (ih hsteps).rewindow (HotCluster.mod_eq_of_restartFits hfitted hbegun (hlast window rfl))

/-- After a restart the last numbered pairs are read only if it fits. -/
theorem restartFits_of_holdsLast [CharZero K] (h : RestartsFit window0 steps) {window : ℤ} {n : ℕ}
    (hholds : HoldsLast n (scorerRun (numbered : ℕ → K × K) window0 (steps ++ [.restart window]))) :
    RestartFits (cursorRun window0 steps) (effectiveWindow window) := by
  have htracks := tracks_run (numbered : ℕ → K × K) window0 (steps ++ [.restart window])
  have hbegun := begun_run window0 steps
  have hn := hholds.count_eq
  obtain ⟨hroom, hwithin, hpairs, -, -⟩ := hholds
  rw [htracks.length_pushed] at hwithin
  rw [htracks.predictions] at hroom hn
  rw [RollingIC.pairs_eq (by rw [htracks.predictions, cursorRun_snoc]; exact hbegun.le_head), htracks.predictions,
    htracks.pushed, ← recent_eq_window hwithin] at hpairs
  rw [cursorRun_snoc] at hpairs hroom hn
  subst hn
  have hin := (read_eq_iff hbegun.le_head).1 hpairs
  rw [scorerRun_snoc] at hin
  exact HotCluster.restartFits_of_mod_eq (fitted_run h) hbegun hroom ((alone_run h).agree_of_holds hin)

theorem restartsFit_of_keepsPairs [CharZero K] (h : KeepsPairs (numbered : ℕ → K × K) window0 steps) :
    RestartsFit window0 steps := by
  induction steps using List.reverseRecOn with
  | nil =>
    intro done window hdone
    simp at hdone
  | append_singleton steps a ih =>
    have hsteps := ih fun done hdone => h done (hdone.trans (List.prefix_append ..))
    refine restartsFit_snoc.2 ⟨hsteps, ?_⟩
    rintro window rfl
    obtain ⟨n, hholds, -⟩ := h _ (List.prefix_refl _)
    exact restartFits_of_holdsLast hsteps hholds

/-- A run keeps the last pairs whatever they are if and only if all its restarts fit. -/
theorem keepsPairs_iff [CharZero K] (window0 : ℤ) (steps : List ConfidenceStep) :
    (∀ values : ℕ → K × K, KeepsPairs values window0 steps) ↔ RestartsFit window0 steps :=
  ⟨fun h => restartsFit_of_keepsPairs (h numbered), fun h values => keepsPairs_of_restartsFit values h⟩

/-- Two pairs, and room for four. -/
theorem keepsPairs_widened : (∀ values : ℕ → ℚ × ℚ, KeepsPairs values 2 [.update, .update, .restart 4, .update]) ↔
    RestartsFit 2 [.update, .update, .restart 4, .update] :=
  keepsPairs_iff 2 [.update, .update, .restart 4, .update]

/-- The first of three pairs is gone, and the third is where the first of a window of three would be. -/
theorem not_keepsPairs_dropped : ¬KeepsPairs (fun k => (((k + 1 : ℕ) : ℚ), ((k + 1 : ℕ) : ℚ))) 2
    [.update, .update, .update, .restart 3] := by
  intro h
  obtain ⟨n, hholds, -⟩ := h _ (List.prefix_refl _)
  have hpairs := hholds.pairs
  rw [← hholds.count_eq] at hpairs
  revert hpairs
  decide +kernel

end FoxTrader
