import FoxTrader.Lib.KeyValueLines
import FoxTrader.StampText
import Mathlib.Logic.Function.Basic

/-! # Model stamps

    `stamp_write_for_model` prints what a model was trained with as `key=value` lines, signs them with
    the operator's secret and writes both beside the model. `verify_model_stamp` reads the file again
    through buffers of fixed size: it rebuilds the signed text from the lines it parsed, takes every
    field from those lines, and accepts when the registries, the gap, the hash of the model file and
    the signature agree. -/

namespace FoxTrader

open Lib

/-! ### Digests -/

/-- Sixty-four hexadecimal digits. -/
structure HexDigest where
  text : List Char
  length : text.length = 64
  digits : ∀ ch ∈ text, isHexDigit ch = true

/-- `sha256_file_hex` and `hmac_sha256_hex`. -/
structure Digests where
  sha256 : List UInt8 → HexDigest
  hmac : (secret body : List Char) → HexDigest

/-! ### The writer -/

/-- `StampInferenceCfgInputs`. -/
structure StampInferenceCfgInputs where
  hasFlags : StampHasFlagBit → Bool
  const : (f : ConstField) → f.row.type.Carrier
  plain : ∀ f : ConstField, f.row.type.Plain (const f)

/-- The arguments of `stamp_write_for_model`, with the model file it reads. A null pointer to the
    engine version is the empty text. -/
structure StampRequest where
  model : List UInt8
  secret : List Char
  formatVersion : Int32
  trainedOn : List Char
  wfMeanVal : ℚ
  heldOutMetric : ℚ
  gapThreshold : ℚ
  force : Bool
  featureRegistryHash : UInt64
  engineVersion : List Char
  inf : Option StampInferenceCfgInputs
  cfg : Option ControllerConfig
  plain_trainedOn : PlainText trainedOn
  plain_engineVersion : PlainText engineVersion

/-- `|wf_mean_val - held_out_metric|`. -/
def StampRequest.gap (D : Doubles) (w : StampRequest) : ℚ :=
  let gap := D.sub w.wfMeanVal w.heldOutMetric
  if gap < 0 then -gap else gap

/-- A key with the text of its value. -/
abbrev StampLine := StampKey × List Char

def StampLine.keyValue (line : StampLine) : KeyValue := ⟨line.1.name, line.2⟩

/-- What the walk over a model-constant registry emits: the rows whose presence bit is set. -/
def StampInferenceCfgInputs.rows (D : Doubles) (inf : StampInferenceCfgInputs) (fields : List ConstField) :
    List StampLine :=
  (fields.filter fun f => inf.hasFlags f.row.bit).map fun f => (.const f, f.row.type.print D (inf.const f))

/-- The text of a configuration field: `cfg_emit_field`, or `%d` of a flag. -/
def ControllerConfig.emit (D : Doubles) (cfg : ControllerConfig) : CfgField → List Char
  | .scalar f => f.emit D (cfg.scalar f)
  | .mlFlag b => decimalInt (if cfg.mlCfgFlags b then 1 else 0)
  | .gateFlag b => decimalInt (if cfg.gateCfgFlags b then 1 else 0)

/-- `populate_stamp_cfg_from_derived`: the fields whose cohort gate is open. -/
def ControllerConfig.rows (D : Doubles) (cfg : ControllerConfig) : List StampLine :=
  (derivedCohort.filter fun f => lookupPopulate cfg f).map fun f => (.cfg f, cfg.emit D f)

/-- The rows of the constants that the request carries. -/
def StampRequest.constRows (D : Doubles) (w : StampRequest) (fields : List ConstField) : List StampLine :=
  match w.inf with
  | none => []
  | some inf => inf.rows D fields

/-- The rows of the configuration that the request carries. -/
def StampRequest.cfgRows (D : Doubles) (w : StampRequest) : List StampLine :=
  match w.cfg with
  | none => []
  | some cfg => cfg.rows D

/-- The lines that every body starts with. -/
def StampRequest.headerLines (D : Doubles) (C : Digests) (w : StampRequest) : List StampLine :=
  [(.header .modelFormatVersion, decimalInt w.formatVersion.toInt),
    (.header .modelSha256, (C.sha256 w.model).text),
    (.header .trainedOn, w.trainedOn),
    (.header .wfMeanVal, D.print (.significant 6) w.wfMeanVal),
    (.header .heldOutMetric, D.print (.significant 6) w.heldOutMetric),
    (.header .gap, D.print (.fixed 6) (w.gap D)),
    (.header .gapThreshold, D.print (.significant 6) w.gapThreshold)]

/-- `has_hash`. -/
def StampRequest.hashLine (w : StampRequest) : List StampLine :=
  if 5 ≤ w.formatVersion ∧ w.featureRegistryHash ≠ 0 then
    [(.header .featureRegistryHash, hex16 w.featureRegistryHash)] else []

/-- `has_engver`. -/
def StampRequest.engineVersionLine (w : StampRequest) : List StampLine :=
  if 5 ≤ w.formatVersion ∧ w.engineVersion ≠ [] then [(.header .engineVersion, w.engineVersion)] else []

/-- `has_stamp_ver`, with `STAMP_FORMAT_VERSION_CURRENT`. -/
def StampRequest.stampVersionLine (w : StampRequest) : List StampLine :=
  if 5 ≤ w.formatVersion then [(.header .stampFormatVersion, decimalInt 3)] else []

/-- The calls of the writer that append to the body, in their order: the header is one `snprintf`,
    every row of the constants its own, and the configuration one call. -/
def StampRequest.chunks (D : Doubles) (C : Digests) (w : StampRequest) : List (List StampLine) :=
  [w.headerLines D C, w.hashLine, w.engineVersionLine, w.stampVersionLine]
    ++ (w.constRows D preCfg).map (fun line => [line])
    ++ [w.cfgRows D]
    ++ (w.constRows D postCfg).map (fun line => [line])

/-- The lines of the body. -/
def StampRequest.body (D : Doubles) (C : Digests) (w : StampRequest) : List StampLine := (w.chunks D C).flatten

def bodyCapacity : Nat := 4096

/-- `n += snprintf(canonical + n, sizeof(canonical) - n, ...)`, skipped once the body is full. -/
def appendChunk (canonical : List Char) (chunk : List StampLine) : List Char :=
  if canonical.length < bodyCapacity then canonical ++ render (chunk.map StampLine.keyValue) else canonical

/-- Why no stamp was written. -/
inductive StampWriteError where
  /-- `REFUSE: gap > threshold`. -/
  | refused (gap gapThreshold : ℚ)
  /-- `canonical body overflow`. -/
  | overflow (n : Nat)

def signatureKey : List Char := "signature".toList

/-- The signature of a body; an empty secret leaves a placeholder. -/
def signature (C : Digests) (secret canonical : List Char) : List Char :=
  if secret = [] then "devmode-no-secret-no-signature".toList else (C.hmac secret canonical).text

/-- `stamp_write_for_model`: the content of the stamp file. -/
def stampWriteForModel (D : Doubles) (C : Digests) (w : StampRequest) : Except StampWriteError (List Char) :=
  if w.gapThreshold < w.gap D ∧ w.force = false then .error (.refused (w.gap D) w.gapThreshold)
  else
    let canonical := (w.chunks D C).foldl appendChunk []
    if bodyCapacity ≤ canonical.length then .error (.overflow canonical.length)
    else .ok (canonical ++ render [⟨signatureKey, signature C w.secret canonical⟩])

/-! ### The reader -/

/-- What the line loop takes from a stamp. -/
structure StampFields where
  modelSha : List Char
  modelFormatVersion : Int32
  generalizationGap : ℚ
  gapThreshold : ℚ
  featureRegistryHash : UInt64
  engineVersion : List Char
  stampFormatVersion : Int32
  hasFlags : StampHasFlagBit → Bool
  const : (f : ConstField) → f.row.type.Carrier
  hasCfg : CfgField → Bool
  cfg : CfgField → ℚ

def StampFields.labelRegistryHash (r : StampFields) : UInt64 := r.const .labelRegistryHash

def StampFields.featureMask (r : StampFields) : UInt64 := r.const .featureMask

/-- `ModelStampResult r{}`, with the threshold of the caller. -/
def StampFields.init (gapThreshold : ℚ) : StampFields where
  modelSha := []
  modelFormatVersion := 0
  generalizationGap := 0
  gapThreshold := gapThreshold
  featureRegistryHash := 0
  engineVersion := []
  stampFormatVersion := 0
  hasFlags := fun _ => false
  const := fun f => f.row.type.zero
  hasCfg := fun _ => false
  cfg := fun _ => 0

/-- A field before the registries; `trained_on`, `wf_mean_val` and `held_out_metric` are not kept. -/
def StampFields.captureHeader (D : Doubles) (r : StampFields) (k : HeaderKey) (val : List Char) : StampFields :=
  match k with
  | .modelFormatVersion => { r with modelFormatVersion := atoi val }
  | .modelSha256 => { r with modelSha := val.take 79 }
  | .gap => { r with generalizationGap := D.parse val }
  | .gapThreshold => { r with gapThreshold := D.parse val }
  | .featureRegistryHash => { r with featureRegistryHash := strtoullHex val }
  | .engineVersion => { r with engineVersion := val.take 15 }
  | .stampFormatVersion => { r with stampFormatVersion := atoi val }
  | .trainedOn | .wfMeanVal | .heldOutMetric => r

/-- The value of a model constant; any scaler flag but zero is read as one. -/
def ConstField.parse (D : Doubles) (f : ConstField) (val : List Char) : f.row.type.Carrier :=
  match f with
  | .featureScalerPresent => if atoi val ≠ 0 then (1 : UInt8) else (0 : UInt8)
  | f => f.row.type.parse D val

/-- `parse_stamp_cfg_to_derived`: the value of a configuration field. -/
def CfgField.parse (D : Doubles) (f : CfgField) (val : List Char) : ℚ :=
  match f with
  | .scalar f => f.parse D val
  | .mlFlag _ | .gateFlag _ => (atoi val).toInt

def StampFields.captureRow (D : Doubles) (r : StampFields) (k : StampKey) (val : List Char) : StampFields :=
  match k with
  | .header k => r.captureHeader D k val
  | .const f =>
    { r with
      const := Function.update r.const f (f.parse D val)
      hasFlags := Function.update r.hasFlags f.row.bit true }
  | .cfg f => { r with cfg := Function.update r.cfg f (f.parse D val), hasCfg := Function.update r.hasCfg f true }

/-- The chain of branches over the key of a line; a key that no row has changes nothing. -/
def StampFields.capture (D : Doubles) (r : StampFields) (kv : KeyValue) : StampFields :=
  match StampKey.ofName kv.key with
  | none => r
  | some k => r.captureRow D k kv.value

/-- The buffer that the signed text is rebuilt in: a line that does not fit is left behind the text,
    cut off, and is written over by the next. -/
structure CanonicalBuf where
  text : List Char
  clipped : List Char

def CanonicalBuf.append (b : CanonicalBuf) (line : List Char) : CanonicalBuf :=
  if line.length < bodyCapacity - b.text.length then ⟨b.text ++ line, []⟩
  else ⟨b.text, line.take (bodyCapacity - b.text.length - 1)⟩

/-- The C string in the buffer. -/
def CanonicalBuf.content (b : CanonicalBuf) : List Char := b.text ++ b.clipped

/-- The variables of the line loop. -/
structure StampScan where
  canonical : CanonicalBuf
  fields : StampFields
  stampSig : List Char
  /-- The loop has left at the signature. -/
  done : Bool

/-- One turn of the line loop; a line longer than the copy is cut. -/
def StampScan.readLine (D : Doubles) (s : StampScan) (line : List Char) : StampScan :=
  if s.done then s
  else
    match keyValue (line.take 511) with
    | none => s
    | some kv =>
      if kv.key = signatureKey then { s with stampSig := kv.value.take 127, done := true }
      else
        { s with canonical := s.canonical.append (kv.line ++ ['\n'])
                 fields := s.fields.capture D kv }

/-- What the read buffer holds of a file, as a C string. -/
def readBuffer (file : List Char) : List Char := (file.take (bodyCapacity - 1)).takeWhile (· ≠ '\x00')

def StampScan.start (gapThreshold : ℚ) : StampScan :=
  { canonical := ⟨[], []⟩, fields := .init gapThreshold, stampSig := [], done := false }

def readStamp (D : Doubles) (gapThreshold : ℚ) (file : List Char) : StampScan :=
  (lines (readBuffer file)).foldl (StampScan.readLine D) (.start gapThreshold)

/-! ### The verdict -/

/-- `ENGINE_VERSION_STRING`. -/
def engineVersionString : List Char := "5.15.5.F.4d.1.E.1.2.G".toList

/-- The major of a version; a `v` in front is accepted. -/
def versionMajor : List Char → Int32
  | 'v' :: version => atoi version
  | 'V' :: version => atoi version
  | version => atoi version

def crossMajorEngine (engineVersion : List Char) : Bool :=
  engineVersion ≠ [] ∧ versionMajor engineVersion ≠ versionMajor engineVersionString ∧
    0 < versionMajor engineVersion ∧ 0 < versionMajor engineVersionString

/-- The reason of a verdict. -/
inductive StampReason where
  | stampFileMissing
  | emptyStampFile
  | stampFormatVersionTooNew (stamp : Int32)
  | preEpochStamp (stamp : Int32)
  | formatVersionMismatch (stamp engine : Int32)
  | featureRegistryHashMismatch (stamp engine : UInt64)
  | labelRegistryHashMismatch (stamp engine : UInt64)
  | featureMaskMismatch (stamp engine : UInt64)
  | gapExceedsThreshold (gap gapThreshold : ℚ)
  | couldNotComputeSha256
  | modelFileHashDiffers (actual stamp : List Char)
  | devMode
  | signatureVerified
  | signatureMismatch (stamp computed : List Char)
  deriving DecidableEq

/-- `ModelStampResult`. -/
structure ModelStampResult where
  valid : Int
  reason : StampReason
  modelSha256 : List Char
  crossMajorEngine : Bool
  fields : StampFields

/-- What the loader expects of a stamp; zero skips a registry check. -/
structure StampExpectation where
  formatVersion : Int32
  featureRegistryHash : UInt64
  labelRegistryHash : UInt64
  featureMask : UInt64

/-- The checks before the signature, in their order. -/
def stampFault (C : Digests) (e : StampExpectation) (model : Option (List UInt8)) (r : StampFields) :
    Option StampReason :=
  if 3 < r.stampFormatVersion.toUInt32 then some (.stampFormatVersionTooNew r.stampFormatVersion)
  else if r.stampFormatVersion.toUInt32 < 3 then some (.preEpochStamp r.stampFormatVersion)
  else if r.modelFormatVersion ≠ e.formatVersion then
    some (.formatVersionMismatch r.modelFormatVersion e.formatVersion)
  else if e.featureRegistryHash ≠ 0 ∧ r.featureRegistryHash ≠ 0 ∧ r.featureRegistryHash ≠ e.featureRegistryHash then
    some (.featureRegistryHashMismatch r.featureRegistryHash e.featureRegistryHash)
  else if e.labelRegistryHash ≠ 0 ∧ r.labelRegistryHash ≠ 0 ∧ r.labelRegistryHash ≠ e.labelRegistryHash then
    some (.labelRegistryHashMismatch r.labelRegistryHash e.labelRegistryHash)
  else if e.featureMask ≠ 0 ∧ r.hasFlags .featureMask = true ∧ r.featureMask ≠ e.featureMask then
    some (.featureMaskMismatch r.featureMask e.featureMask)
  -- a threshold of zero marks a stamp of training alone
  else if r.gapThreshold ≠ 0 ∧ r.gapThreshold < r.generalizationGap then
    some (.gapExceedsThreshold r.generalizationGap r.gapThreshold)
  else
    match model with
    | none => some .couldNotComputeSha256
    | some bytes =>
      if r.modelSha ≠ [] ∧ r.modelSha ≠ (C.sha256 bytes).text then
        some (.modelFileHashDiffers (C.sha256 bytes).text r.modelSha)
      else none

/-- The verdict on the signature; an empty secret accepts any. -/
def signatureVerdict (C : Digests) (secret : List Char) (s : StampScan) : Int × StampReason :=
  if secret = [] then (1, .devMode)
  else if (C.hmac secret s.canonical.content).text = s.stampSig then (1, .signatureVerified)
  else (0, .signatureMismatch s.stampSig (C.hmac secret s.canonical.content).text)

/-- What the reader makes of a stamp it has parsed. -/
def StampScan.judge (C : Digests) (e : StampExpectation) (model : Option (List UInt8)) (secret : List Char)
    (s : StampScan) : ModelStampResult :=
  let cross := crossMajorEngine s.fields.engineVersion
  match stampFault C e model s.fields with
  | some reason => { valid := 0, reason, modelSha256 := [], crossMajorEngine := cross, fields := s.fields }
  | none =>
    { valid := (signatureVerdict C secret s).1, reason := (signatureVerdict C secret s).2
      modelSha256 := s.fields.modelSha, crossMajorEngine := cross, fields := s.fields }

/-- `verify_model_stamp`: the stamp file and the model file are `none` when they cannot be read. -/
def verifyModelStamp (D : Doubles) (C : Digests) (stamp : Option (List Char)) (model : Option (List UInt8))
    (secret : List Char) (gapThreshold : ℚ) (e : StampExpectation) : ModelStampResult :=
  match stamp with
  | none =>
    { valid := -1, reason := .stampFileMissing, modelSha256 := [], crossMajorEngine := false
      fields := .init gapThreshold }
  | some file =>
    if file = [] then
      { valid := 0, reason := .emptyStampFile, modelSha256 := [], crossMajorEngine := false
        fields := .init gapThreshold }
    else (readStamp D gapThreshold file).judge C e model secret

end FoxTrader
