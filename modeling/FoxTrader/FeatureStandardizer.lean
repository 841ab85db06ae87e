import FoxTrader.Lib.Checked
import FoxTrader.Lib.Codec
import FoxTrader.Lib.Extended
import Mathlib.Algebra.Order.Floor.Ring
import Mathlib.Data.List.Sort

/-! # The feature standardizer and its file

    Features are clipped to bounds, centred and scaled before a model sees them. The scaler is fitted where
    the model is trained and read from a file where it is served: the numbers are stored as they are, the
    least scale as a 32-bit fraction.

    The reader fills the scaler before it knows whether the file is whole; what it refuses is never put to
    use (`apply_of_refused`). -/

namespace FoxTrader

open Lib

def numRegisteredFeatures : ℕ := 60
def scalerMagic : BitVec 32 := 0xFE5C1AE3
def winsorSampleCap : ℤ := 8192

/-- The bytes of a double in memory and the number they are. -/
structure DoubleImage (K : Type) where
  bits : Extended K → BitVec 64
  value : BitVec 64 → Extended K

/-- `sha256_bytes`, which may fail. -/
abbrev Sha256Bytes := List UInt8 → Option { digest : List UInt8 // digest.length = 32 }

structure FeatureStandardizer (K : Type) where
  hasScaler : Bool
  registryHash : BitVec 64
  numFeatures : BitVec 32
  stddevFloor : K
  mean : ℕ → Extended K
  stddev : ℕ → Extended K
  hasWinsorBounds : BitVec 8
  winsorLow : ℕ → Extended K
  winsorHigh : ℕ → Extended K

variable {K : Type} [Field K]

def scalerStddevFloor : K := 1 / ((10 ^ 9 : ℕ) : K)

/-- A 32-bit fraction. -/
def scalerQ32ToFloor (q : BitVec 32) : K := ((q.toNat : ℕ) : K) / ((2 ^ 32 : ℕ) : K)

/-- Truncated to a 32-bit fraction. What a number that is too large becomes is up to the machine. -/
def scalerFloorToQ32 [LinearOrder K] [FloorRing K] (wild : K → BitVec 32) (f : K) : BitVec 32 :=
  if f ≤ 0 then 0
  else
    let scaled := f * ((2 ^ 32 : ℕ) : K)
    if scaled < ((2 ^ 32 : ℕ) : K) then .ofNat 32 ⌊scaled⌋.toNat else wild scaled

namespace FeatureStandardizer

def init : FeatureStandardizer K where
  hasScaler := false
  registryHash := 0
  numFeatures := 0
  stddevFloor := scalerStddevFloor
  mean _ := .finite 0
  stddev _ := .finite 1
  hasWinsorBounds := 0
  winsorLow _ := .negInf
  winsorHigh _ := .posInf

/-! ### Applying -/

section Apply

variable [LinearOrder K]

/-- A least scale that is not positive is replaced. -/
def floorOr (floor : K) : K := if floor > 0 then floor else scalerStddevFloor

omit [Field K] in
/-- Inside the bounds of a feature. -/
def clip (sc : FeatureStandardizer K) (i : ℕ) (x : Extended K) : Extended K :=
  (x.fmax (sc.winsorLow i)).fmin (sc.winsorHigh i)

def standardize (sc : FeatureStandardizer K) (floor : K) (i : ℕ) (x : Extended K) : Extended K :=
  (sc.clip i x - sc.mean i) / (sc.stddev i).fmax (.finite floor)

/-- The features in place, and whether all of them are numbers. -/
def apply (sc : FeatureStandardizer K) (features : ℕ → Extended K) (n : ℤ) : ℤ × (ℕ → Extended K) :=
  if sc.hasScaler = false then (0, features)
  else if n ≤ 0 ∨ n > numRegisteredFeatures then (-1, features)
  else
    let out := fun i : ℕ => if i < n.toNat then sc.standardize (floorOr sc.stddevFloor) i (features i) else features i
    (if ((List.range n.toNat).all fun i => (out i).isFinite) = true then 0 else -1, out)

end Apply

/-! ### Fitting -/

section Fit

/-- A feature of the samples, one after the other. -/
def column (matrix : ℕ → K) (numSamples : ℤ) (f : ℕ) : List K :=
  (List.range numSamples.toNat).map fun s => matrix (s * numRegisteredFeatures + f)

variable [LinearOrder K]

def compute (sqrt : K → K) (featureRegistryHash : BitVec 64) (matrix : ℕ → K) (numSamples : ℤ) (stddevFloor : K) :
    FeatureStandardizer K :=
  let sc : FeatureStandardizer K :=
    { init with
      numFeatures := .ofNat 32 numRegisteredFeatures, registryHash := featureRegistryHash,
      stddevFloor := floorOr stddevFloor, hasScaler := true }
  if numSamples ≤ 0 then sc
  else
    let mean := fun f => (column matrix numSamples f).sum / ((numSamples : ℤ) : K)
    let sumSq := fun f => ((column matrix numSamples f).map fun x => (x - mean f) * (x - mean f)).sum
    { sc with
      mean := fun f => .finite (mean f),
      stddev := if numSamples > 1 then fun f => .finite (sqrt (sumSq f / ((numSamples - 1 : ℤ) : K))) else sc.stddev }

/-- A call of `FitWinsor`. -/
structure WinsorCall (K : Type) where
  matrix : ℕ → K
  numSamples : ℤ
  pctLow : K
  pctHigh : K

variable [FloorRing K]

/-- The cells of a sorted column that become its bounds. -/
def WinsorCall.cells (call : WinsorCall K) : ℕ × ℕ :=
  let idxLow := ⌊call.pctLow * ((call.numSamples : ℤ) : K)⌋
  let idxHigh := ⌊call.pctHigh * ((call.numSamples : ℤ) : K)⌋
  let idxLow := if idxLow < 0 then 0 else idxLow
  let idxHigh := if idxHigh ≥ call.numSamples then call.numSamples - 1 else idxHigh
  let idxLow := if idxLow > idxHigh then idxHigh else idxLow
  (idxLow.toNat, idxHigh.toNat)

/-- The bounds of all features, unless the percentiles are off or the samples too many. -/
def fitWinsor (sc : FeatureStandardizer K) (call : WinsorCall K) : FeatureStandardizer K :=
  if call.numSamples ≤ 0 then sc
  else if call.pctLow ≤ 0 ∨ call.pctHigh ≥ 1 ∨ call.pctLow ≥ call.pctHigh then { sc with hasWinsorBounds := 0 }
  else if call.numSamples > winsorSampleCap then { sc with hasWinsorBounds := 0 }
  else
    let sorted := fun f => (column call.matrix call.numSamples f).insertionSort (· ≤ ·)
    { sc with
      winsorLow := fun f => .finite ((sorted f).getD call.cells.1 0),
      winsorHigh := fun f => .finite ((sorted f).getD call.cells.2 0),
      hasWinsorBounds := 1 }

end Fit

/-! ### The file -/

theorem bits_of_byte : 8 = 8 * 1 := rfl
theorem bits_of_word : 32 = 8 * 4 := rfl
theorem bits_of_double : 64 = 8 * 8 := rfl
theorem word_pos : 0 < 4 := Nat.succ_pos 3
theorem double_pos : 0 < 8 := Nat.succ_pos 7

def u8 : Codec (BitVec 8) := .uint 8 1 bits_of_byte Nat.one_pos
def u32 : Codec (BitVec 32) := .uint 32 4 bits_of_word word_pos
def u64 : Codec (BitVec 64) := .uint 64 8 bits_of_double double_pos

omit [Field K] in
/-- An array of doubles, one for each feature. -/
def arrayBytes (image : DoubleImage K) (values : ℕ → Extended K) : List UInt8 :=
  u64.encAll ((List.range numRegisteredFeatures).map fun i => image.bits (values i))

/-- What the digest of the file is taken of. -/
def body [LinearOrder K] [FloorRing K] (image : DoubleImage K) (wild : K → BitVec 32) (sc : FeatureStandardizer K) :
    List UInt8 :=
  u32.enc scalerMagic ++ (u32.enc sc.numFeatures ++ (u64.enc sc.registryHash ++
    (u32.enc (scalerFloorToQ32 wild sc.stddevFloor) ++ (arrayBytes image sc.mean ++ (arrayBytes image sc.stddev ++
      (u8.enc sc.hasWinsorBounds ++ (arrayBytes image sc.winsorLow ++ arrayBytes image sc.winsorHigh)))))))

/-- The file of a scaler, if there is to be one. -/
def persist [LinearOrder K] [FloorRing K] (image : DoubleImage K) (sha256 : Sha256Bytes) (wild : K → BitVec 32)
    (sc : FeatureStandardizer K) : Option (List UInt8) :=
  if sc.hasScaler = false then none
  else (sha256 (sc.body image wild)).map fun sha => sc.body image wild ++ sha.1

section Load

/-- The bytes of an array of doubles. -/
def arrayWidth : ℕ := 8 * numRegisteredFeatures

omit [Field K] in
/-- Some bytes and those after them, or the scaler as it is. -/
def fread (sc : FeatureStandardizer K) (n : ℕ) (bytes : List UInt8) :
    Except (FeatureStandardizer K) (List UInt8 × List UInt8) :=
  if bytes.length < n then .error sc else .ok (bytes.take n, bytes.drop n)

omit [Field K] in
/-- The doubles of an array as far as there are any, over what was in it. -/
def freadDoubles (image : DoubleImage K) (bytes : List UInt8) (old : ℕ → Extended K) (i : ℕ) : Extended K :=
  ((u64.frames (bytes.take arrayWidth))[i]?).elim (old i) image.value

omit [Field K] in
/-- The scaler goes on if the file meets a condition. -/
def refuseUnless (sc : FeatureStandardizer K) (ok : Bool) : Except (FeatureStandardizer K) Unit :=
  if ok then .ok () else .error sc

variable [LinearOrder K]

/-- The scaler of a file, or as much of it as was read before the file was refused. -/
def loadBytes (image : DoubleImage K) (sha256 : Sha256Bytes) (bytes : List UInt8) :
    Except (FeatureStandardizer K) (FeatureStandardizer K) := do
  let sc : FeatureStandardizer K := init
  let magic ← sc.fread 4 bytes
  sc.refuseUnless (u32.dec magic.1 = scalerMagic)
  let nfeat ← sc.fread 4 magic.2
  sc.refuseUnless (u32.dec nfeat.1 = .ofNat 32 numRegisteredFeatures)
  let hash ← sc.fread 8 nfeat.2
  let sc := { sc with registryHash := u64.dec hash.1 }
  let floorQ ← sc.fread 4 hash.2
  let floor : K := scalerQ32ToFloor (u32.dec floorQ.1)
  let sc := { sc with
    numFeatures := u32.dec nfeat.1, stddevFloor := if floor ≤ 0 then scalerStddevFloor else floor,
    mean := freadDoubles image floorQ.2 sc.mean }
  let mean ← sc.fread arrayWidth floorQ.2
  let sc := { sc with stddev := freadDoubles image mean.2 sc.stddev }
  let stddev ← sc.fread arrayWidth mean.2
  let hwb ← sc.fread 1 stddev.2
  let sc := { sc with
    hasWinsorBounds := u8.dec hwb.1, winsorLow := freadDoubles image hwb.2 sc.winsorLow }
  let low ← sc.fread arrayWidth hwb.2
  let sc := { sc with winsorHigh := freadDoubles image low.2 sc.winsorHigh }
  let high ← sc.fread arrayWidth low.2
  let embedded ← sc.fread 32 high.2
  -- What was read into memory has the bytes it was read from.
  let body := u32.enc scalerMagic ++ (u32.enc (u32.dec nfeat.1) ++ (u64.enc sc.registryHash ++
    (u32.enc (u32.dec floorQ.1) ++ (mean.1 ++ (stddev.1 ++ (u8.enc sc.hasWinsorBounds ++ (low.1 ++ high.1)))))))
  let computed ← (sha256 body).elim (.error sc) .ok
  sc.refuseUnless (computed.1 = embedded.1)
  return { sc with hasScaler := true }

/-- Loaded, no file, or refused; and the scaler. -/
def load (image : DoubleImage K) (sha256 : Sha256Bytes) : Option (List UInt8) → ℤ × FeatureStandardizer K
  | none => (0, init)
  | some bytes =>
    match loadBytes image sha256 bytes with
    | .ok sc => (1, sc)
    | .error sc => (-1, sc)

end Load

/-! ### What is refused -/

omit [Field K] in
theorem fread_ne_error {sc e : FeatureStandardizer K} (hsc : sc.hasScaler = false) (he : e.hasScaler = true) (n : ℕ)
    (bytes : List UInt8) : sc.fread n bytes ≠ .error e := by
  unfold fread
  split
  · rintro ⟨⟩
    exact absurd (hsc.symm.trans he) Bool.false_ne_true
  · exact ok_ne_error _ _

omit [Field K] in
theorem refuseUnless_ne_error {sc e : FeatureStandardizer K} (hsc : sc.hasScaler = false) (he : e.hasScaler = true)
    (ok : Bool) : sc.refuseUnless ok ≠ .error e := by
  unfold refuseUnless
  split
  · exact ok_ne_error _ _
  · rintro ⟨⟩
    exact absurd (hsc.symm.trans he) Bool.false_ne_true

variable [LinearOrder K]

/-- Only a scaler that was loaded is put to use. -/
theorem loadBytes_ne_error (image : DoubleImage K) (sha256 : Sha256Bytes) (bytes : List UInt8)
    {e : FeatureStandardizer K} (he : e.hasScaler = true) : loadBytes image sha256 bytes ≠ .error e := by
  unfold loadBytes
  refine bind_ne_error (fread_ne_error rfl he _ _) fun magic _ => ?_
  refine bind_ne_error (refuseUnless_ne_error rfl he _) fun _ _ => ?_
  refine bind_ne_error (fread_ne_error rfl he _ _) fun nfeat _ => ?_
  refine bind_ne_error (refuseUnless_ne_error rfl he _) fun _ _ => ?_
  refine bind_ne_error (fread_ne_error rfl he _ _) fun hash _ => ?_
  refine bind_ne_error (fread_ne_error rfl he _ _) fun floorQ _ => ?_
  refine bind_ne_error (fread_ne_error rfl he _ _) fun mean _ => ?_
  refine bind_ne_error (fread_ne_error rfl he _ _) fun stddev _ => ?_
  refine bind_ne_error (fread_ne_error rfl he _ _) fun hwb _ => ?_
  refine bind_ne_error (fread_ne_error rfl he _ _) fun low _ => ?_
  refine bind_ne_error (fread_ne_error rfl he _ _) fun high _ => ?_
  refine bind_ne_error (fread_ne_error rfl he _ _) fun embedded _ => ?_
  refine bind_ne_error ?_ fun computed _ => ?_
  · cases sha256 _ with
    | none =>
      rintro ⟨⟩
      exact absurd he Bool.false_ne_true
    | some digest => exact ok_ne_error _ _
  · exact bind_ne_error (refuseUnless_ne_error rfl he _) fun _ _ => ok_ne_error _ _

theorem apply_of_refused (image : DoubleImage K) (sha256 : Sha256Bytes) {content : Option (List UInt8)}
    (h : (load image sha256 content).1 ≠ 1) (features : ℕ → Extended K) (n : ℤ) :
    (load image sha256 content).2.apply features n = (0, features) := by
  have hoff : (load image sha256 content).2.hasScaler = false := by
    cases content with
    | none => rfl
    | some bytes =>
      rw [load] at h ⊢
      cases hload : loadBytes image sha256 bytes with
      | ok sc => exact absurd (by rw [hload]) h
      | error sc =>
        show sc.hasScaler = false
        by_contra hon
        exact loadBytes_ne_error image sha256 bytes (Bool.eq_true_of_not_eq_false hon) hload
  rw [apply, if_pos hoff]

/-! ### What is read back -/

/-- The image of every double of a scaler is its own. -/
structure Lossless (image : DoubleImage K) (sc : FeatureStandardizer K) : Prop where
  mean : ∀ i < numRegisteredFeatures, image.value (image.bits (sc.mean i)) = sc.mean i
  stddev : ∀ i < numRegisteredFeatures, image.value (image.bits (sc.stddev i)) = sc.stddev i
  winsorLow : ∀ i < numRegisteredFeatures, image.value (image.bits (sc.winsorLow i)) = sc.winsorLow i
  winsorHigh : ∀ i < numRegisteredFeatures, image.value (image.bits (sc.winsorHigh i)) = sc.winsorHigh i

variable [FloorRing K]

/-- The least scale that comes back from the file. -/
def floorBack (wild : K → BitVec 32) (floor : K) : K :=
  let back : K := scalerQ32ToFloor (scalerFloorToQ32 wild floor)
  if back ≤ 0 then scalerStddevFloor else back

/-- Everything but the least scale comes back as it was. -/
structure ReadBack (wild : K → BitVec 32) (sc loaded : FeatureStandardizer K) : Prop where
  hasScaler : loaded.hasScaler = true
  stddevFloor : loaded.stddevFloor = floorBack wild sc.stddevFloor
  hasWinsorBounds : loaded.hasWinsorBounds = sc.hasWinsorBounds
  mean : ∀ i < numRegisteredFeatures, loaded.mean i = sc.mean i
  stddev : ∀ i < numRegisteredFeatures, loaded.stddev i = sc.stddev i
  winsorLow : ∀ i < numRegisteredFeatures, loaded.winsorLow i = sc.winsorLow i
  winsorHigh : ∀ i < numRegisteredFeatures, loaded.winsorHigh i = sc.winsorHigh i

omit [Field K] [LinearOrder K] [FloorRing K] in
theorem length_arrayBytes (image : DoubleImage K) (values : ℕ → Extended K) :
    (arrayBytes image values).length = arrayWidth := by
  rw [arrayBytes, Codec.encAll_length, List.length_map, List.length_range]
  rfl

omit [Field K] [LinearOrder K] [FloorRing K] in
theorem fread_append (sc : FeatureStandardizer K) {n : ℕ} {a : List UInt8} (h : a.length = n) (rest : List UInt8) :
    sc.fread n (a ++ rest) = .ok (a, rest) := by
  have hlen : ¬(a ++ rest).length < n := by
    rw [List.length_append]
    omega
  rw [fread, if_neg hlen, List.take_left' h, List.drop_left' h]

omit [Field K] [LinearOrder K] [FloorRing K] in
theorem freadDoubles_append (image : DoubleImage K) (values old : ℕ → Extended K) (rest : List UInt8) {i : ℕ}
    (hi : i < numRegisteredFeatures) :
    freadDoubles image (arrayBytes image values ++ rest) old i = image.value (image.bits (values i)) := by
  rw [freadDoubles, List.take_left' (length_arrayBytes image values), arrayBytes, Codec.frames_encAll,
    List.getElem?_map, List.getElem?_range hi]
  rfl

omit [Field K] [LinearOrder K] [FloorRing K] in
theorem refuseUnless_of (sc : FeatureStandardizer K) {p : Prop} [Decidable p] (hp : p) :
    sc.refuseUnless (decide p) = .ok () := by
  rw [refuseUnless, decide_eq_true hp, if_pos rfl]

theorem persist_eq {image : DoubleImage K} {sha256 : Sha256Bytes} {wild : K → BitVec 32}
    {sc : FeatureStandardizer K} {sha : { digest : List UInt8 // digest.length = 32 }} (hon : sc.hasScaler = true)
    (hsha : sha256 (sc.body image wild) = some sha) :
    sc.persist image sha256 wild = some (sc.body image wild ++ sha.1) := by
  have hnot : ¬sc.hasScaler = false := by rw [hon]; decide
  rw [persist, if_neg hnot, hsha, Option.map_some]

theorem loadBytes_body {image : DoubleImage K} {sha256 : Sha256Bytes} {wild : K → BitVec 32}
    {sc : FeatureStandardizer K} {sha : { digest : List UInt8 // digest.length = 32 }}
    (hnum : sc.numFeatures = .ofNat 32 numRegisteredFeatures) (hlossless : Lossless image sc)
    (hsha : sha256 (sc.body image wild) = some sha) :
    ∃ loaded, loadBytes image sha256 (sc.body image wild ++ sha.1) = .ok loaded ∧ ReadBack wild sc loaded := by
  have h1 : ∀ x, (u8.enc x).length = 1 := u8.enc_length
  have h4 : ∀ x, (u32.enc x).length = 4 := u32.enc_length
  have h8 : ∀ x, (u64.enc x).length = 8 := u64.enc_length
  have harray := length_arrayBytes image
  have hend (sc' : FeatureStandardizer K) : sc'.fread 32 sha.1 = .ok (sha.1, []) := by
    have happend := fread_append sc' sha.2 []
    rwa [List.append_nil] at happend
  have hdigest := hsha
  rw [body, hnum] at hdigest
  unfold loadBytes
  simp only [body, List.append_assoc, fread_append _ (h1 _), fread_append _ (h4 _), fread_append _ (h8 _),
    fread_append _ (harray _), hend, ok_bind, Codec.dec_enc, hnum, refuseUnless_of, hdigest, Option.elim_some]
  refine ⟨_, rfl, rfl, rfl, rfl, ?_, ?_, ?_, ?_⟩
  · intro i hi
    exact (freadDoubles_append image _ _ _ hi).trans (hlossless.mean i hi)
  · intro i hi
    exact (freadDoubles_append image _ _ _ hi).trans (hlossless.stddev i hi)
  · intro i hi
    exact (freadDoubles_append image _ _ _ hi).trans (hlossless.winsorLow i hi)
  · intro i hi
    exact (freadDoubles_append image _ _ _ hi).trans (hlossless.winsorHigh i hi)

theorem load_persist {image : DoubleImage K} {sha256 : Sha256Bytes} {wild : K → BitVec 32}
    {sc : FeatureStandardizer K} {content : List UInt8} (hnum : sc.numFeatures = .ofNat 32 numRegisteredFeatures)
    (hlossless : Lossless image sc) (hwritten : sc.persist image sha256 wild = some content) :
    ∃ loaded, load image sha256 (some content) = (1, loaded) ∧ ReadBack wild sc loaded := by
  rw [persist] at hwritten
  split at hwritten
  · cases hwritten
  · obtain ⟨sha, hsha, rfl⟩ := Option.map_eq_some_iff.1 hwritten
    obtain ⟨loaded, hok, hback⟩ := loadBytes_body hnum hlossless hsha
    exact ⟨loaded, by rw [load, hok], hback⟩

end FeatureStandardizer

end FoxTrader
