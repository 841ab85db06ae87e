import FoxTrader.LabelFunctions

/-! # Folds and the purge gap

    A walk-forward run drops the samples without a label, cuts the others into folds and trains each fold
    on the samples before it, less a gap. The gap is computed in samples: the horizon and the reach of
    the features are divided by the mean distance of the samples, and the result is scaled by the share
    of the samples that are kept. -/

namespace FoxTrader

namespace Backtest

variable {π ℓ : Type}

/-! ### The reach of the features -/

/-- The columns of `FEATURE_LOOKBACKS` that are read. -/
structure FeatureLookback where
  lookbackTicks : Nat
  halfLifeUs : Nat
  minHistoryUs : Nat
  enabled : Bool

/-- A feature over a window of ticks. -/
def windowFeature (lookbackTicks : Nat) : FeatureLookback :=
  { lookbackTicks, halfLifeUs := 0, minHistoryUs := 0, enabled := true }

/-- A feature over time: its half-life and its warm-up floor. -/
def timeFeature (halfLifeUs minHistoryUs : Nat) : FeatureLookback :=
  { lookbackTicks := 0, halfLifeUs, minHistoryUs, enabled := true }

/-- `FEATURE_LOOKBACKS`, in the order of the registry. -/
def featureLookbacks : List FeatureLookback :=
  [ -- short_slope … vwap_dev
    windowFeature 128, windowFeature 128, windowFeature 128, windowFeature 512, windowFeature 512, windowFeature 512,
    windowFeature 512, windowFeature 512, windowFeature 128, windowFeature 128, windowFeature 512, windowFeature 128,
    -- price_stddev … vol_regime_rat
    windowFeature 128, windowFeature 128, windowFeature 128, windowFeature 512, windowFeature 256, windowFeature 256,
    windowFeature 1024, windowFeature 1, windowFeature 1, windowFeature 1024,
    -- tick_rate_z … book_imb_drift
    windowFeature 1024, windowFeature 1024, windowFeature 1024, windowFeature 64, windowFeature 1024,
      windowFeature 1024,
    -- flow_10s … spread_zscore
    timeFeature 10000000 0, timeFeature 60000000 0, timeFeature 300000000 0, windowFeature 1024, windowFeature 1,
    windowFeature 1024,
    -- regime_trend_strength … frac_diff_price_d06
    windowFeature 128, windowFeature 512, windowFeature 1024, windowFeature 50, windowFeature 50, windowFeature 50,
    -- ret_ema_30m … flow_2h
    timeFeature 1800000000 5400000000, timeFeature 7200000000 21600000000, timeFeature 28800000000 86400000000,
    timeFeature 86400000000 259200000000, timeFeature 1800000000 5400000000, timeFeature 7200000000 21600000000,
    -- rvol_1h … range_pos_24h
    timeFeature 3600000000 10800000000, timeFeature 28800000000 86400000000, timeFeature 28800000000 86400000000,
    timeFeature 86400000000 259200000000, timeFeature 0 86400000000, timeFeature 0 86400000000,
      timeFeature 0 86400000000,
    -- frac_diff_bars_d04 … funding_phase_cos
    timeFeature 0 15000000000, timeFeature 0 15000000000, timeFeature 0 15000000000, timeFeature 0 0, timeFeature 0 0,
    timeFeature 0 0, timeFeature 0 0]

/-- The largest entry of a column over the enabled features. -/
def featureMax (column : FeatureLookback → Nat) (features : List FeatureLookback) : Nat :=
  features.foldl (fun m f => if f.enabled && column f > m then column f else m) 0

def featureLookbackMaxTicks : Nat := featureMax (·.lookbackTicks) featureLookbacks

def featureHalfLifeMaxUs : Nat := featureMax (·.halfLifeUs) featureLookbacks

def featureMinHistoryMaxUs : Nat := featureMax (·.minHistoryUs) featureLookbacks

/-- `FEATURE_EWMA_REACH_HALF_LIVES`. -/
def featureEwmaReachHalfLives : Nat := 3

def ceilDiv (a b : Nat) : Nat := (a + b - 1) / b

def int32Max : Nat := 2147483647

def featureReachMaxSamples (ticksPerSample samplePeriodUs : Nat) : Nat :=
  let ticksPerSample := if ticksPerSample < 1 then 1 else ticksPerSample
  let winSamples := ceilDiv featureLookbackMaxTicks ticksPerSample
  let reachUs := featureHalfLifeMaxUs * featureEwmaReachHalfLives
  let reachUs := if featureMinHistoryMaxUs > reachUs then featureMinHistoryMaxUs else reachUs
  let timeSamples :=
    if samplePeriodUs > 0 && reachUs > 0 then
      let n := ceilDiv reachUs samplePeriodUs
      if n > int32Max then int32Max else n
    else 0
  if winSamples > timeSamples then winSamples else timeSamples

/-! ### The gap -/

/-- `FeatureCadence_TicksPerSample`: the mean distance of the samples, at least one tick. -/
def featureCadenceTicksPerSample (sampleTickIndices : List Nat) : Nat :=
  if sampleTickIndices.length < 2 then 1
  else
    let span := sampleTickIndices.getLastD 0 - sampleTickIndices.headD 0
    let tps := span / (sampleTickIndices.length - 1)
    if tps < 1 then 1 else tps

def ticksToSamples (ticks : Int) (ticksPerSample : Nat) : Nat :=
  let ticksPerSample := if ticksPerSample < 1 then 1 else ticksPerSample
  if ticks ≤ 0 then 0 else ceilDiv ticks.toNat ticksPerSample

def purgeGapCompute (horizonTicks bufferTicks : Int) (ticksPerSample samplePeriodUs : Nat) : Nat :=
  let horizonSamples := ticksToSamples horizonTicks ticksPerSample
  let bufferSamples := ticksToSamples bufferTicks ticksPerSample
  let maxReach := featureReachMaxSamples ticksPerSample samplePeriodUs
  (if horizonSamples > maxReach then horizonSamples else maxReach) + bufferSamples

/-! ### The folds -/

structure PurgedSplit where
  trainStart : Nat
  trainEnd : Nat
  testStart : Nat
  testEnd : Nat
  purgeGap : Nat
  trainCount : Nat
  testCount : Nat
  valid : Bool
  deriving DecidableEq

/-- The fold that is tested on the samples from `testStart` to `testEnd`. -/
def purgedSplit (testStart testEnd purgeGap : Nat) (minTrain : Int) : PurgedSplit :=
  let trainEnd : Int := testStart - purgeGap
  if trainEnd ≤ 0 ∨ trainEnd - 0 < minTrain then
    { trainStart := 0, trainEnd := 0, testStart, testEnd, purgeGap, trainCount := 0, testCount := testEnd - testStart, valid := false }
  else
    { trainStart := 0, trainEnd := trainEnd.toNat, testStart, testEnd, purgeGap, trainCount := (trainEnd - 0).toNat,
      testCount := testEnd - testStart, valid := true }

/-- The folds from the number `i` on, `k` of them. -/
def generateFrom (totalSamples foldSize remainder purgeGap : Nat) (minTrain : Int) :
    Nat → Nat → Nat → List PurgedSplit
  | 0, _, _ => []
  | k + 1, i, current =>
    let thisFoldSize := foldSize + if i < remainder then 1 else 0
    let testEnd := if current + thisFoldSize > totalSamples then totalSamples else current + thisFoldSize
    purgedSplit current testEnd purgeGap minTrain :: generateFrom totalSamples foldSize remainder purgeGap minTrain k (i + 1) testEnd

/-- `VALIDATION_MAX_FOLDS`. -/
def validationMaxFolds : Int := 20

/-- The number of folds as `ValidationSplit_GenerateExplicit` bounds it. -/
def boundedSplits (nSplits : Int) : Nat :=
  (if nSplits < 2 then 2 else if nSplits > validationMaxFolds then validationMaxFolds else nSplits).toNat

def validationSplitGenerateExplicit (totalSamples : Nat) (nSplits : Int) (explicitPurgeGap : Nat)
    (minTrain : Int) : List PurgedSplit :=
  let nSplits := boundedSplits nSplits
  if totalSamples < nSplits * 2 then []
  else generateFrom totalSamples (totalSamples / nSplits)
    (totalSamples % nSplits) explicitPurgeGap minTrain nSplits 0 0

/-! ### The data set -/

/-- The ticks of each file, and the samples collected on them in their order. -/
structure DataSet (F : Floats π ℓ) where
  files : List (List (HistoricalTick π))
  samples : List (Sample (SampleNote π))
  firstTickUs : Nat
  lastTickUs : Nat
  positive : ∀ file ∈ files, ∀ t ∈ file, F.positive t.price
  sorted : samples.Pairwise fun s s' => s.tickIndex ≤ s'.tickIndex
  collectedOn : ∀ s ∈ samples, s.localIdx < ((files[s.file]?).getD []).length ∧
    s.tickIndex = ((files.take s.file).map List.length).sum + s.localIdx ∧ F.positive s.noted.price

variable {F : Floats π ℓ}

/-- `BacktestResults_MeanSamplePeriodUs`. -/
def DataSet.meanSamplePeriodUs (ds : DataSet F) : Nat :=
  if ds.samples.length ≤ 1 then 0
  else if ds.lastTickUs ≤ ds.firstTickUs then 0
  else (ds.lastTickUs - ds.firstTickUs) / ds.samples.length

/-- The ticks of a file; none behind the last one. -/
def fileTicks (files : List (List (HistoricalTick π))) (f : Nat) : List (HistoricalTick π) := (files[f]?).getD []

/-- The label of a sample: that of the tick it was collected on, in the ticks of its file and the next. -/
def sampleLabel (F : Floats π ℓ) (target : LabelTarget π (SampleNote π) ℓ) (files : List (List (HistoricalTick π)))
    (s : Sample (SampleNote π)) : ℓ :=
  storedLabel F.labelNumbers target s (.call s.file s.localIdx (fileTicks files s.file ++ fileTicks files (s.file + 1)))

/-! ### A walk-forward run -/

/-- What `Backtest_RunWalkForward` is called with. -/
structure WalkForwardRun (π : Type) where
  nSplits : Int
  horizonTicks : Int
  bufferTicks : Int
  minTrainSamples : Int
  target : LabelBatchTarget π
  roundtripFeePct : π

/-- `PURGE_BUFFER_DEFAULT`. -/
def purgeBufferDefault : Int := 512

def WalkForwardRun.label (run : WalkForwardRun π) (F : Floats π ℓ) :
    List (List (HistoricalTick π)) → Sample (SampleNote π) → ℓ :=
  sampleLabel F (run.target.resolved F run.roundtripFeePct)

/-- A label a binary run does not drop as neutral, nor a multiclass run as missing. -/
def keepsLabel (F : Floats π ℓ) (kind : LabelKind) (l : ℓ) : Bool :=
  match kind with
  | .binary => !F.eq l (F.num (1 / 2))
  | .multiclass => !F.isNan l
  | .regression => true

/-- The samples left after the compaction. -/
def WalkForwardRun.compacted (run : WalkForwardRun π) (ds : DataSet F) : List (Sample (SampleNote π)) :=
  ds.samples.filter fun s => keepsLabel F (labelTypeKind F run.target.labelType) (run.label F ds.files s)

/-- Whether every usable label is the same. -/
def WalkForwardRun.uniform (run : WalkForwardRun π) (ds : DataSet F) : Bool :=
  let kind := labelTypeKind F run.target.labelType
  let usable := (ds.samples.map (run.label F ds.files)).filter fun l =>
    !F.isNan l && !((match kind with | .binary => true | _ => false) && F.eq l (F.num (1 / 2)))
  match usable with
  | [] => false
  | first :: rest => rest.all fun l => F.eq l first

/-- The gap among the samples that are left. -/
def WalkForwardRun.purgeGap (run : WalkForwardRun π) (ds : DataSet F) : Nat :=
  let bufferTicks := if run.bufferTicks ≤ 0 then purgeBufferDefault else run.bufferTicks
  let rawPurge :=
    purgeGapCompute run.horizonTicks bufferTicks (featureCadenceTicksPerSample (ds.samples.map (·.tickIndex)))
    ds.meanSamplePeriodUs
  let density := F.div (F.ofInt (run.compacted ds).length) (F.ofInt ds.samples.length)
  let purge := F.toInt (F.add (F.mul (F.ofInt rawPurge) density) (F.lit (1 / 2)))
  if purge < 1 then 1 else purge.toNat

/-- The folds; none if the run is refused. -/
def WalkForwardRun.folds (run : WalkForwardRun π) (ds : DataSet F) : List PurgedSplit :=
  if ds.samples.length < 100 then []
  else
    let nSplits := if run.nSplits < 2 then 5 else run.nSplits
    let minTrainSamples := if run.minTrainSamples < 50 then 50 else run.minTrainSamples
    let total := (run.compacted ds).length
    if total < 100 then []
    else if run.uniform ds then []
    else if run.purgeGap ds * nSplits ≥ total then []
    else validationSplitGenerateExplicit total nSplits (run.purgeGap ds) minTrainSamples

/-- The samples a fold is trained on. -/
def WalkForwardRun.trainSamples (run : WalkForwardRun π) (ds : DataSet F) (fold : PurgedSplit) :
    List (Sample (SampleNote π)) :=
  ((run.compacted ds).take fold.trainEnd).drop fold.trainStart

/-- The number of the tick of the first sample a fold is tested on. -/
def WalkForwardRun.testTick (run : WalkForwardRun π) (ds : DataSet F) (fold : PurgedSplit) : Nat :=
  match (run.compacted ds)[fold.testStart]? with
  | some s => s.tickIndex
  | none => (ds.files.map List.length).sum

/-! ### What a fold is -/

/-- A fold trains on samples before the gap and tests on some. -/
structure PurgedSplit.Apart (fold : PurgedSplit) (total : Nat) : Prop where
  gap : fold.trainEnd + fold.purgeGap ≤ fold.testStart
  tested : fold.testStart < total

theorem purgedSplit_gap {testStart testEnd purgeGap : Nat} {minTrain : Int}
    (h : (purgedSplit testStart testEnd purgeGap minTrain).valid) :
    (purgedSplit testStart testEnd purgeGap minTrain).trainEnd + purgeGap ≤ testStart := by
  simp only [purgedSplit] at h ⊢
  by_cases htrain : (testStart : Int) - purgeGap ≤ 0 ∨ (testStart : Int) - purgeGap - 0 < minTrain
  · rw [if_pos htrain] at h
    nomatch h
  · rw [if_neg htrain]
    simp only [not_or] at htrain ⊢
    omega

theorem purgedSplit_testStart (testStart testEnd purgeGap : Nat) (minTrain : Int) :
    (purgedSplit testStart testEnd purgeGap minTrain).testStart = testStart ∧
      (purgedSplit testStart testEnd purgeGap minTrain).purgeGap = purgeGap := by
  simp only [purgedSplit]
  split <;> exact ⟨rfl, rfl⟩

/-- The folds left to generate fit exactly: their common size each, and one sample more for each of the
    first ones. -/
theorem generateFrom_apart {totalSamples foldSize remainder purgeGap : Nat} {minTrain : Int} (hsize : 0 < foldSize) :
    ∀ (k i current : Nat), current + k * foldSize + (remainder - i) = totalSamples →
      ∀ fold ∈ generateFrom totalSamples foldSize remainder purgeGap minTrain k i current, fold.valid →
        fold.Apart totalSamples
  | 0, _, _, _, _, hfold, _ => absurd hfold List.not_mem_nil
  | k + 1, i, current, hroom, fold, hfold, hvalid => by
    rw [Nat.succ_mul] at hroom
    rw [generateFrom] at hfold
    rcases List.mem_cons.1 hfold with rfl | hfold
    · obtain ⟨hstart, hgap⟩ := purgedSplit_testStart current _ purgeGap minTrain
      exact ⟨by rw [hstart, hgap]; exact purgedSplit_gap hvalid, by rw [hstart]; omega⟩
    · refine generateFrom_apart hsize k (i + 1) _ ?_ fold hfold hvalid
      by_cases hfirst : i < remainder
      · rw [if_pos hfirst, if_neg (by omega)]
        omega
      · rw [if_neg hfirst, if_neg (by omega)]
        omega

theorem boundedSplits_pos (nSplits : Int) : 0 < boundedSplits nSplits := by
  unfold boundedSplits validationMaxFolds
  split
  · decide
  · split <;> omega

theorem validationSplit_apart {total purgeGap : Nat} {nSplits minTrain : Int} {fold : PurgedSplit}
    (hfold : fold ∈ validationSplitGenerateExplicit total nSplits purgeGap minTrain) (hvalid : fold.valid) :
    fold.Apart total := by
  have hpos := boundedSplits_pos nSplits
  simp only [validationSplitGenerateExplicit] at hfold
  by_cases hroom : total < boundedSplits nSplits * 2
  · rw [if_pos hroom] at hfold
    exact absurd hfold List.not_mem_nil
  · rw [if_neg hroom] at hfold
    have hsize : 0 < total / boundedSplits nSplits := Nat.div_pos (by omega) hpos
    have hexact : boundedSplits nSplits * (total / boundedSplits nSplits) + total % boundedSplits nSplits = total :=
      Nat.div_add_mod ..
    exact generateFrom_apart hsize _ 0 0 (by omega) fold hfold hvalid

theorem WalkForwardRun.folds_apart (run : WalkForwardRun π) (ds : DataSet F) {fold : PurgedSplit}
    (hfold : fold ∈ run.folds ds)
    (hvalid : fold.valid) : fold.Apart (run.compacted ds).length := by
  -- A run that is refused has no folds.
  have hnone : ∀ {p : Prop} [Decidable p] {folds : List PurgedSplit}, fold ∈ (if p then [] else folds) →
    fold ∈ folds := by
    intro p _ folds h
    by_cases hp : p
    · rw [if_pos hp] at h
      exact absurd h List.not_mem_nil
    · rwa [if_neg hp] at h
  exact validationSplit_apart (hnone (hnone (hnone (hnone hfold)))) hvalid

/-- What a fold is trained on was collected no later than the first sample it is tested on. -/
theorem WalkForwardRun.trainSamples_before (run : WalkForwardRun π) (ds : DataSet F) {fold : PurgedSplit}
    (hfold : fold ∈ run.folds ds) (hvalid : fold.valid) {s : Sample (SampleNote π)}
    (hs : s ∈ run.trainSamples ds fold) :
    s ∈ ds.samples ∧ s.tickIndex ≤ run.testTick ds fold := by
  obtain ⟨hgap, htested⟩ := run.folds_apart ds hfold hvalid
  have htrained : s ∈ (run.compacted ds).take fold.trainEnd := List.mem_of_mem_drop hs
  obtain ⟨i, hi, rfl⟩ := List.getElem_of_mem htrained
  rw [List.length_take] at hi
  rw [List.getElem_take]
  refine ⟨List.mem_of_mem_filter (List.getElem_mem _), ?_⟩
  rw [testTick, List.getElem?_eq_getElem htested]
  exact List.pairwise_iff_getElem.1 (ds.sorted.filter _) i fold.testStart _ htested (by omega)

end Backtest

end FoxTrader
