import Mathlib.Algebra.Order.Ring.Rat
import Mathlib.Data.Rat.Cast.Order

/-! # What a stamp carries

    Three registries feed the body of a model stamp: the constants of the model before and behind the
    configuration (`FOREACH_STAMP_BOUND_MODEL_CONST`), and the configuration fields flagged
    `STAMP_BOUND_CFG_DERIVED`. A row names its wire key, its C type with the `printf` conversion, and
    the presence bit it shares with its group; a configuration row has the range that the reader
    clamps to and the cohort gate that lets the writer emit it. -/

namespace FoxTrader

/-! ### Model constants -/

/-- The C type of a row with the conversion it is printed by. -/
inductive ConstType where
  | int
  | u8
  | u32
  | u64
  /-- `uint64_t` as `%016lx`. -/
  | hash
  /-- `double` as `%.<digits>g`. -/
  | double (digits : Nat)
  /-- `stamp_str_<cap>`. -/
  | str (cap : Nat)
  deriving DecidableEq

/-- `StampHasFlagBit`: a group of rows shares one bit of `has_flags`, any other row has its own. -/
inductive StampHasFlagBit where
  | inferenceCfg | scaler | xgbHyperparams | gridMember | labelParams | environmentMeta
  | trainingPollInterval | modelNumOutputs | buildFlagsHash | labelRegistryHash | featureMask | xgbTrainNthread
  | expectedRole | expectedNumFeatures | expectedFeatureFormatVersion | overlayHash | effectiveHash
  | trainingTimestampUs | runName | scalerFitDataHash | removalReasonsCsv
  deriving DecidableEq

inductive ConstField where
  | trainingPollInterval | featureScalerPresent | scalerSha256 | modelNumOutputs | xgbMaxDepth | xgbLearningRate
  | xgbNEstimators | xgbSubsample | xgbColsampleBytree | xgbMinChildWeight | xgbSeed | xgbTreeMethod | buildFlagsHash
  | gridMemberCount | gridMemberIdx | labelRegistryHash | featureMask | labelLookaheadTicks | labelTpPct | labelSlPct
  | xgbTrainNthread
  | expectedRole | expectedNumFeatures | expectedFeatureFormatVersion | overlayHash | effectiveHash
  | trainingTimestampUs | runName | scalerFitDataHash | removalReasonsCsv | environmentTfVersion
  | environmentPytorchVersion | environmentCudaVersion | environmentCpuModel | environmentLibgompVersion
  | inferenceCfgMlTpPct | inferenceCfgMlSlPct | inferenceCfgBarrierBlendMode | inferenceCfgPerHorizonBarrierBlend
  | inferenceCfgBanditAlgorithm | inferenceCfgThompsonMuPrior | inferenceCfgThompsonPrecisionPrior
  | inferenceCfgThompsonPrecisionObs | inferenceCfgThompsonExp3BlendAlpha
  deriving DecidableEq

/-- A row of `FOREACH_STAMP_BOUND_MODEL_CONST`: its key, the presence bit it is emitted under and
    read into, and its type. -/
structure ConstRow where
  name : String
  bit : StampHasFlagBit
  type : ConstType

def ConstField.row : ConstField → ConstRow
  | .trainingPollInterval => ⟨"training_poll_interval", .trainingPollInterval, .u32⟩
  | .featureScalerPresent => ⟨"feature_scaler_present", .scaler, .u8⟩
  | .scalerSha256 => ⟨"scaler_sha256", .scaler, .str 65⟩
  | .modelNumOutputs => ⟨"model_num_outputs", .modelNumOutputs, .int⟩
  | .xgbMaxDepth => ⟨"xgb_max_depth", .xgbHyperparams, .int⟩
  | .xgbLearningRate => ⟨"xgb_learning_rate", .xgbHyperparams, .double 6⟩
  | .xgbNEstimators => ⟨"xgb_n_estimators", .xgbHyperparams, .int⟩
  | .xgbSubsample => ⟨"xgb_subsample", .xgbHyperparams, .double 6⟩
  | .xgbColsampleBytree => ⟨"xgb_colsample_bytree", .xgbHyperparams, .double 6⟩
  | .xgbMinChildWeight => ⟨"xgb_min_child_weight", .xgbHyperparams, .int⟩
  | .xgbSeed => ⟨"xgb_seed", .xgbHyperparams, .int⟩
  | .xgbTreeMethod => ⟨"xgb_tree_method", .xgbHyperparams, .str 16⟩
  | .buildFlagsHash => ⟨"build_flags_hash", .buildFlagsHash, .hash⟩
  | .gridMemberCount => ⟨"grid_member_count", .gridMember, .int⟩
  | .gridMemberIdx => ⟨"grid_member_idx", .gridMember, .int⟩
  | .labelRegistryHash => ⟨"label_registry_hash", .labelRegistryHash, .hash⟩
  | .featureMask => ⟨"feature_mask", .featureMask, .hash⟩
  | .labelLookaheadTicks => ⟨"label_lookahead_ticks", .labelParams, .int⟩
  | .labelTpPct => ⟨"label_tp_pct", .labelParams, .double 6⟩
  | .labelSlPct => ⟨"label_sl_pct", .labelParams, .double 6⟩
  | .xgbTrainNthread => ⟨"xgb_train_nthread", .xgbTrainNthread, .int⟩
  | .expectedRole => ⟨"expected_role", .expectedRole, .str 16⟩
  | .expectedNumFeatures => ⟨"expected_num_features", .expectedNumFeatures, .int⟩
  | .expectedFeatureFormatVersion => ⟨"expected_feature_format_version", .expectedFeatureFormatVersion, .int⟩
  | .overlayHash => ⟨"overlay_hash", .overlayHash, .str 65⟩
  | .effectiveHash => ⟨"effective_hash", .effectiveHash, .str 65⟩
  | .trainingTimestampUs => ⟨"training_timestamp_us", .trainingTimestampUs, .u64⟩
  | .runName => ⟨"run_name", .runName, .str 64⟩
  | .scalerFitDataHash => ⟨"scaler_fit_data_hash", .scalerFitDataHash, .str 65⟩
  | .removalReasonsCsv => ⟨"removal_reasons_csv", .removalReasonsCsv, .str 1024⟩
  | .environmentTfVersion => ⟨"environment_tf_version", .environmentMeta, .str 32⟩
  | .environmentPytorchVersion => ⟨"environment_pytorch_version", .environmentMeta, .str 32⟩
  | .environmentCudaVersion => ⟨"environment_cuda_version", .environmentMeta, .str 16⟩
  | .environmentCpuModel => ⟨"environment_cpu_model", .environmentMeta, .str 64⟩
  | .environmentLibgompVersion => ⟨"environment_libgomp_version", .environmentMeta, .str 16⟩
  | .inferenceCfgMlTpPct => ⟨"inference_cfg_ml_tp_pct", .inferenceCfg, .double 17⟩
  | .inferenceCfgMlSlPct => ⟨"inference_cfg_ml_sl_pct", .inferenceCfg, .double 17⟩
  | .inferenceCfgBarrierBlendMode => ⟨"inference_cfg_barrier_blend_mode", .inferenceCfg, .int⟩
  | .inferenceCfgPerHorizonBarrierBlend => ⟨"inference_cfg_per_horizon_barrier_blend", .inferenceCfg, .int⟩
  | .inferenceCfgBanditAlgorithm => ⟨"inference_cfg_bandit_algorithm", .inferenceCfg, .int⟩
  | .inferenceCfgThompsonMuPrior => ⟨"inference_cfg_thompson_mu_prior", .inferenceCfg, .double 17⟩
  | .inferenceCfgThompsonPrecisionPrior =>
      ⟨"inference_cfg_thompson_precision_prior", .inferenceCfg, .double 17⟩
  | .inferenceCfgThompsonPrecisionObs => ⟨"inference_cfg_thompson_precision_obs", .inferenceCfg, .double 17⟩
  | .inferenceCfgThompsonExp3BlendAlpha =>
      ⟨"inference_cfg_thompson_exp3_blend_alpha", .inferenceCfg, .double 17⟩

/-- `FOREACH_STAMP_BOUND_MODEL_CONST_PRE_CFG`. -/
def preCfg : List ConstField :=
  [.trainingPollInterval, .featureScalerPresent, .scalerSha256, .modelNumOutputs, .xgbMaxDepth, .xgbLearningRate,
    .xgbNEstimators, .xgbSubsample, .xgbColsampleBytree, .xgbMinChildWeight, .xgbSeed, .xgbTreeMethod,
      .buildFlagsHash,
    .gridMemberCount, .gridMemberIdx, .labelRegistryHash, .featureMask, .labelLookaheadTicks, .labelTpPct,
      .labelSlPct,
    .xgbTrainNthread]

/-- `FOREACH_STAMP_BOUND_MODEL_CONST_POST_CFG`. -/
def postCfg : List ConstField :=
  [.expectedRole, .expectedNumFeatures, .expectedFeatureFormatVersion, .overlayHash, .effectiveHash,
    .trainingTimestampUs, .runName, .scalerFitDataHash, .removalReasonsCsv, .environmentTfVersion,
    .environmentPytorchVersion, .environmentCudaVersion, .environmentCpuModel, .environmentLibgompVersion,
    .inferenceCfgMlTpPct, .inferenceCfgMlSlPct, .inferenceCfgBarrierBlendMode, .inferenceCfgPerHorizonBarrierBlend,
    .inferenceCfgBanditAlgorithm, .inferenceCfgThompsonMuPrior, .inferenceCfgThompsonPrecisionPrior,
    .inferenceCfgThompsonPrecisionObs, .inferenceCfgThompsonExp3BlendAlpha]

/-! ### Configuration fields -/

/-- `FOREACH_ML_CFG_FLAG`, as far as stamps and drift rows read it. -/
inductive MlCfgFlag where
  | banditEnabled | confidenceCompositeEnabled | ridgeWithinHorizon | ridgeAcrossHorizons | exitBlenderMode
  | perHorizonBarrierBlend
  deriving DecidableEq

/-- `FOREACH_GATE_CFG_FLAG`, as far as stamps and drift rows read it. -/
inductive GateCfgFlag where
  | barrierGateEnabled | costGateEnabled
  deriving DecidableEq

/-- The storage type of a configuration field. -/
inductive CfgKind where
  | fpnBinary | money | int | u8
  deriving DecidableEq

inductive CfgScalar where
  | mlBuyThreshold | mlTpPct | mlSlPct | banditBlendRatio | confidenceThresholdScale | ridgeLambda | ridgeCostPenalty
  | ridgeMinIcFloor | winsorPctLow | winsorPctHigh | confidenceFreshnessTauSecs | confidenceCapacityTargetDollars
  | confidenceCapacityKappa | confidenceRmseBaseline | thompsonMuPrior | thompsonPrecisionPrior | thompsonPrecisionObs
  | banditAlgorithm | thompsonExp3BlendAlpha | riskDegradationCurve | riskFullSizeThreshold | riskMinSizeThreshold
  | riskMinSizePct | confidenceHardBlockThreshold | barrierBlendMode | feeRateMaker | feeRateTaker
  | tradingMode | gapAcceptableThreshold | heldOutFraction
  deriving DecidableEq

/-- What the registry says of a field: its key, its type and the range of its descriptor. -/
structure CfgDescriptor where
  name : String
  kind : CfgKind
  clampMin : ℚ
  clampMax : ℚ

def CfgScalar.descriptor : CfgScalar → CfgDescriptor
  | .mlBuyThreshold => ⟨"ml_buy_threshold", .fpnBinary, 0, 1⟩
  | .mlTpPct => ⟨"ml_tp_pct", .money, 0, 100⟩
  | .mlSlPct => ⟨"ml_sl_pct", .money, 0, 100⟩
  | .banditBlendRatio => ⟨"bandit_blend_ratio", .fpnBinary, 0, 1⟩
  | .confidenceThresholdScale => ⟨"confidence_threshold_scale", .fpnBinary, 0, 5⟩
  | .ridgeLambda => ⟨"ridge_lambda", .fpnBinary, 0, 10⟩
  | .ridgeCostPenalty => ⟨"ridge_cost_penalty", .fpnBinary, 0, 100⟩
  | .ridgeMinIcFloor => ⟨"ridge_min_ic_floor", .fpnBinary, 0, 1⟩
  | .winsorPctLow => ⟨"winsor_pct_low", .fpnBinary, 0, 1 / 2⟩
  | .winsorPctHigh => ⟨"winsor_pct_high", .fpnBinary, 1 / 2, 1⟩
  | .confidenceFreshnessTauSecs => ⟨"confidence_freshness_tau_secs", .fpnBinary, 0, 86400⟩
  | .confidenceCapacityTargetDollars => ⟨"confidence_capacity_target_dollars", .fpnBinary, 0, 1000000⟩
  | .confidenceCapacityKappa => ⟨"confidence_capacity_kappa", .fpnBinary, 0, 10⟩
  | .confidenceRmseBaseline => ⟨"confidence_rmse_baseline", .fpnBinary, 0, 100⟩
  | .thompsonMuPrior => ⟨"thompson_mu_prior", .fpnBinary, -1000, 1000⟩
  | .thompsonPrecisionPrior => ⟨"thompson_precision_prior", .fpnBinary, 1 / 10000, 1000⟩
  | .thompsonPrecisionObs => ⟨"thompson_precision_obs", .fpnBinary, 1 / 10000, 1000⟩
  | .banditAlgorithm => ⟨"bandit_algorithm", .int, 0, 4⟩
  | .thompsonExp3BlendAlpha => ⟨"thompson_exp3_blend_alpha", .fpnBinary, 0, 1⟩
  | .riskDegradationCurve => ⟨"risk_degradation_curve", .int, 0, 2⟩
  | .riskFullSizeThreshold => ⟨"risk_full_size_threshold", .fpnBinary, 0, 1⟩
  | .riskMinSizeThreshold => ⟨"risk_min_size_threshold", .fpnBinary, 0, 1⟩
  | .riskMinSizePct => ⟨"risk_min_size_pct", .fpnBinary, 0, 1⟩
  | .confidenceHardBlockThreshold => ⟨"confidence_hard_block_threshold", .fpnBinary, 0, 1⟩
  | .barrierBlendMode => ⟨"barrier_blend_mode", .int, 0, 3⟩
  | .feeRateMaker => ⟨"fee_rate_maker", .money, 0, 5⟩
  | .feeRateTaker => ⟨"fee_rate_taker", .money, 0, 5⟩
  | .tradingMode => ⟨"trading_mode", .u8, 0, 2⟩
  | .gapAcceptableThreshold => ⟨"gap_acceptable_threshold", .fpnBinary, 0, 1⟩
  | .heldOutFraction => ⟨"held_out_fraction", .fpnBinary, 0, 1⟩

/-- A field of the configuration: a scalar, or a bit of a flag word. -/
inductive CfgField where
  | scalar (f : CfgScalar)
  | mlFlag (b : MlCfgFlag)
  | gateFlag (b : GateCfgFlag)
  deriving DecidableEq

def CfgField.name : CfgField → String
  | .scalar f => f.descriptor.name
  | .mlFlag .banditEnabled => "bandit_enabled"
  | .mlFlag .confidenceCompositeEnabled => "confidence_composite_enabled"
  | .mlFlag .ridgeWithinHorizon => "ridge_within_horizon"
  | .mlFlag .ridgeAcrossHorizons => "ridge_across_horizons"
  | .mlFlag .exitBlenderMode => "exit_blender_mode"
  | .mlFlag .perHorizonBarrierBlend => "per_horizon_barrier_blend"
  | .gateFlag .barrierGateEnabled => "barrier_gate_enabled"
  | .gateFlag .costGateEnabled => "cost_gate_enabled"

/-- `FOREACH_STAMP_BOUND_DERIVED_COHORT`: the rows flagged `STAMP_BOUND_CFG_DERIVED` of the four
    registries, in the order they are walked. -/
def derivedCohort : List CfgField :=
  [.scalar .mlBuyThreshold, .scalar .mlTpPct, .scalar .mlSlPct, .scalar .banditBlendRatio,
    .scalar .confidenceThresholdScale, .scalar .ridgeLambda, .scalar .ridgeCostPenalty, .scalar .ridgeMinIcFloor,
    .scalar .winsorPctLow, .scalar .winsorPctHigh, .scalar .confidenceFreshnessTauSecs,
    .scalar .confidenceCapacityTargetDollars, .scalar .confidenceCapacityKappa, .scalar .confidenceRmseBaseline,
    .scalar .thompsonMuPrior, .scalar .thompsonPrecisionPrior, .scalar .thompsonPrecisionObs,
      .scalar .banditAlgorithm,
    .scalar .thompsonExp3BlendAlpha, .scalar .riskDegradationCurve, .scalar .riskFullSizeThreshold,
    .scalar .riskMinSizeThreshold, .scalar .riskMinSizePct, .scalar .confidenceHardBlockThreshold,
    .scalar .barrierBlendMode, .scalar .feeRateMaker, .scalar .feeRateTaker,
    .scalar .tradingMode, .scalar .gapAcceptableThreshold, .scalar .heldOutFraction,
    .mlFlag .confidenceCompositeEnabled, .mlFlag .ridgeWithinHorizon, .mlFlag .ridgeAcrossHorizons,
    .mlFlag .exitBlenderMode, .mlFlag .perHorizonBarrierBlend,
    .gateFlag .barrierGateEnabled]

/-- The values that the type of a field holds. -/
def CfgKind.Holds : CfgKind → ℚ → Prop
  | .fpnBinary, _ => True
  | .money, _ => True
  | .int, q => ∃ n : Int32, q = n.toInt
  | .u8, q => ∃ n : UInt8, q = n.toNat

/-- `ControllerConfig`, as far as stamps and drift rows read it. -/
structure ControllerConfig where
  scalar : CfgScalar → ℚ
  mlCfgFlags : MlCfgFlag → Bool
  gateCfgFlags : GateCfgFlag → Bool
  pollInterval : UInt32
  xgbSubsample : ℚ
  xgbColsampleBytree : ℚ
  xgbMinChildWeight : Int32
  xgbSeed : Int32
  xgbTreeMethod : List Char
  xgbTrainNthread : Int32
  /-- `MASK_OPS_CFG_ACKNOWLEDGE_INFERENCE_CFG_DRIFT` and its sister. -/
  acknowledgeInferenceCfgDrift : Bool
  acknowledgeCrossBinaryDrift : Bool
  holds : ∀ f : CfgScalar, f.descriptor.kind.Holds (scalar f)

/-- The value of a field; a flag is 0 or 1. -/
def ControllerConfig.value (cfg : ControllerConfig) : CfgField → ℚ
  | .scalar f => cfg.scalar f
  | .mlFlag b => if cfg.mlCfgFlags b then 1 else 0
  | .gateFlag b => if cfg.gateCfgFlags b then 1 else 0

/-! ### Cohort gates -/

def cohortGateBanditThompson (cfg : ControllerConfig) : Bool := cfg.scalar .banditAlgorithm ≠ 0

def cohortGateBanditBlendState4 (cfg : ControllerConfig) : Bool := cfg.scalar .banditAlgorithm = 4

def cohortGateRidgeAny (cfg : ControllerConfig) : Bool :=
  cfg.mlCfgFlags .ridgeWithinHorizon || cfg.mlCfgFlags .ridgeAcrossHorizons

def cohortGateCompositeConfidence (cfg : ControllerConfig) : Bool := cfg.mlCfgFlags .confidenceCompositeEnabled

def cohortGateSoftriskEnabled (cfg : ControllerConfig) : Bool := cfg.scalar .riskDegradationCurve ≠ 0

def cohortGatePerHorizonBarrier (cfg : ControllerConfig) : Bool := cfg.mlCfgFlags .perHorizonBarrierBlend

def cohortGateBanditEnabled (cfg : ControllerConfig) : Bool := cfg.mlCfgFlags .banditEnabled

def cohortGateCostGateEnabled (cfg : ControllerConfig) : Bool := cfg.gateCfgFlags .costGateEnabled

/-- `cfg_gate::lookup_populate` over `FOREACH_CFG_GATE_PER_NODE`: whether the writer emits a field. -/
def lookupPopulate (cfg : ControllerConfig) : CfgField → Bool
  | .scalar .banditAlgorithm | .scalar .thompsonMuPrior | .scalar .thompsonPrecisionPrior
  | .scalar .thompsonPrecisionObs => cohortGateBanditThompson cfg
  | .scalar .thompsonExp3BlendAlpha => cohortGateBanditBlendState4 cfg
  | .scalar .confidenceFreshnessTauSecs | .scalar .confidenceCapacityTargetDollars
  | .scalar .confidenceCapacityKappa | .scalar .confidenceRmseBaseline => cohortGateCompositeConfidence cfg
  | .scalar .ridgeLambda | .scalar .ridgeCostPenalty | .scalar .ridgeMinIcFloor => cohortGateRidgeAny cfg
  | .scalar .riskDegradationCurve | .scalar .riskFullSizeThreshold | .scalar .riskMinSizeThreshold
  | .scalar .riskMinSizePct => cohortGateSoftriskEnabled cfg
  | _ => true

/-! ### Keys -/

/-- The keys the writer prints before the registries. -/
inductive HeaderKey where
  | modelFormatVersion | modelSha256 | trainedOn | wfMeanVal | heldOutMetric | gap | gapThreshold
  | featureRegistryHash | engineVersion | stampFormatVersion
  deriving DecidableEq

def HeaderKey.name : HeaderKey → String
  | .modelFormatVersion => "model_format_version"
  | .modelSha256 => "model_sha256"
  | .trainedOn => "trained_on"
  | .wfMeanVal => "wf_mean_val"
  | .heldOutMetric => "held_out_metric"
  | .gap => "gap"
  | .gapThreshold => "gap_threshold"
  | .featureRegistryHash => "feature_registry_hash"
  | .engineVersion => "engine_version"
  | .stampFormatVersion => "stamp_format_version"

/-- A key of a stamp line. -/
inductive StampKey where
  | header (k : HeaderKey)
  | const (f : ConstField)
  | cfg (f : CfgField)
  deriving DecidableEq

def StampKey.name : StampKey → List Char
  | .header k => k.name.toList
  | .const f => f.row.name.toList
  | .cfg f => f.name.toList

/-- All keys, in the order in which the writer prints them and the reader compares them. -/
def stampKeys : List StampKey :=
  [.header .modelFormatVersion, .header .modelSha256, .header .trainedOn, .header .wfMeanVal, .header .heldOutMetric,
    .header .gap, .header .gapThreshold, .header .featureRegistryHash, .header .engineVersion,
    .header .stampFormatVersion]
    ++ preCfg.map .const ++ derivedCohort.map .cfg ++ postCfg.map .const

/-- The chain of `strcmp`s: the row that a key names. -/
def StampKey.ofName (key : List Char) : Option StampKey := stampKeys.find? fun k => k.name = key

theorem StampKey.ofName_name {k : StampKey} (h : k ∈ stampKeys) : StampKey.ofName k.name = some k := by
  revert k
  decide +kernel

theorem nodup_stampKeys : stampKeys.Nodup := by decide +kernel

/-- A key fits its line and is none of the reader's marks. -/
structure StampKey.Plain (k : StampKey) : Prop where
  noEquals : '=' ∉ k.name
  noNewline : '\n' ∉ k.name
  noNul : '\x00' ∉ k.name
  notSignature : k.name ≠ "signature".toList
  short : k.name.length ≤ 40

theorem StampKey.plain {k : StampKey} (h : k ∈ stampKeys) : k.Plain := by
  have hall : ∀ k ∈ stampKeys, '=' ∉ k.name ∧ '\n' ∉ k.name ∧ '\x00' ∉ k.name ∧ k.name ≠ "signature".toList ∧
      k.name.length ≤ 40 := by decide +kernel
  obtain ⟨heq, hnl, hnul, hsig, hlen⟩ := hall k h
  exact ⟨heq, hnl, hnul, hsig, hlen⟩

end FoxTrader
