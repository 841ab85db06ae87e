import Mathlib.Algebra.GroupWithZero.Nat
import Mathlib.Data.List.Basic
import Mathlib.Data.List.TakeWhile

/-! # Labels for the collected ticks

    A backtest numbers the ticks twice. `BacktestSharded_Run` counts the ticks it replays, that is the
    rows its loader accepts, and notes the number with every sample. `Backtest_ComputeLabelsBatch` takes
    the number apart again: it gives each file as many numbers as it has lines but one, and slides a
    window of two loaded files along. The label of a sample is that of the tick it was collected on
    exactly when the lines before the tick's file, counted from the last file that could not be opened,
    are as many as the ticks accepted before it, and no stretch of files before reaches past it. -/

namespace FoxTrader

namespace Backtest

variable {π δ σ ℓ : Type}

/-! ### Data files -/

structure HistoricalTick (π : Type) where
  timestampUs : Int
  price : π
  qty : π
  isBuyerMaker : Int
  deriving DecidableEq

/-- How a row is read in either format, and which prices and quantities are positive. -/
structure CsvReader (π : Type) where
  parse : Bool → List Char → HistoricalTick π
  positive : π → Bool

/-- The lines as `fgets` hands them out; `none` if the file cannot be opened. -/
abbrev DataFile : Type := Option (List (List Char))

/-- Whether a file is one of the tick recorder's. -/
def detectFormat (header : List Char) : Bool := "timestamp_us".toList.isPrefixOf header

/-- `MIN_VALID_TS`: recorder files are in microseconds, the others in milliseconds. -/
def minValidTs (recorder : Bool) : Int := if recorder then 1500000000000000 else 1500000000000

def CsvReader.accepts (r : CsvReader π) (recorder : Bool) (t : HistoricalTick π) : Bool :=
  r.positive t.price && r.positive t.qty && t.timestampUs ≥ minValidTs recorder

/-- The ticks of the accepted rows. -/
def CsvReader.accepted (r : CsvReader π) : DataFile → List (HistoricalTick π)
  | some (header :: rows) => (rows.map (r.parse (detectFormat header))).filter (r.accepts (detectFormat header))
  | _ => []

/-- `BacktestData_Load`. -/
def dataLoad (r : CsvReader π) (maxTicks : Nat) (file : DataFile) : List (HistoricalTick π) :=
  (r.accepted file).take maxTicks

/-- The lines of a file but its header. -/
def dataRows : DataFile → Nat
  | none => 0
  | some lines => lines.length - 1

def maxPerFile (files : List DataFile) : Nat := (files.map dataRows).foldl max 0

/-- The room for the ticks of one file. -/
def perFileCap (files : List DataFile) : Nat := max (maxPerFile files + 1024) 1024

/-! ### Collecting samples -/

/-- A sample: the tick number it notes, the file and the position of the tick it was collected on, and
    what else is noted with it. -/
structure Sample (σ : Type) where
  tickIndex : Nat
  file : Nat
  localIdx : Nat
  noted : σ

/-- What the engine does with a tick: it may collect a sample, and it may have been cancelled. -/
structure Driver (π δ σ : Type) where
  cancelled : δ → Bool
  runTick : δ → HistoricalTick π → Nat → δ × Option σ

/-- A tick where it was loaded. -/
structure LoadedTick (π : Type) where
  file : Nat
  localIdx : Nat
  tick : HistoricalTick π

def loadedFile (r : CsvReader π) (maxTicks f : Nat) (file : DataFile) : List (LoadedTick π) :=
  (dataLoad r maxTicks file).zipIdx.map fun t => { file := f, localIdx := t.2, tick := t.1 }

/-- The ticks of all files, loaded one after the other. -/
def loadedTicks (r : CsvReader π) (files : List DataFile) : List (LoadedTick π) :=
  (List.range files.length).flatMap fun f => loadedFile r (perFileCap files) f (files[f]?).join

def replay (D : Driver π δ σ) : δ → Nat → List (LoadedTick π) → List (Sample σ)
  | _, _, [] => []
  | d, totalProcessed, t :: ts =>
    if D.cancelled d then []
    else
      let r := D.runTick d t.tick totalProcessed
      let rest := replay D r.1 (totalProcessed + 1) ts
      match r.2 with
      | none => rest
      | some noted => { tickIndex := totalProcessed, file := t.file, localIdx := t.localIdx, noted } :: rest

/-- The samples `BacktestSharded_Run` collects. -/
def collected (r : CsvReader π) (files : List DataFile) (D : Driver π δ σ) (d : δ) : List (Sample σ) :=
  replay D d 0 (loadedTicks r files)

/-! ### Labelling them -/

/-- `file_offsets`: a file that cannot be opened leaves the entry behind it at zero. -/
def fileOffset (files : List DataFile) : Nat → Nat
  | 0 => 0
  | f + 1 =>
    match (files[f]?).join with
    | none => 0
    | some lines => fileOffset files f + dataRows (some lines)

/-- The two files in the buffer. -/
structure TickWindow (π : Type) where
  buf : List (HistoricalTick π)
  prevFileCount : Nat

/-- The window moves on to the file `f`. -/
def slide (r : CsvReader π) (files : List DataFile) (w : TickWindow π) (f : Nat) : TickWindow π :=
  let bufCap := perFileCap files * 2
  let first := if f = 0 then dataLoad r (perFileCap files) (files[0]?).join else w.buf.drop w.prevFileCount
  let next := if f + 1 < files.length then dataLoad r (bufCap - first.length) (files[f + 1]?).join else []
  { buf := first ++ next, prevFileCount := first.length }

/-- What the label pass does for a sample: nothing, a neutral label for a sample out of order, or the
    label function at a position of the window of a file. -/
inductive LabelCall (π : Type) where
  | untouched
  | skipped
  | call (file localTidx : Nat) (window : List (HistoricalTick π))

/-- The samples of one file, and those left for the files behind. -/
def labelFile (files : List DataFile) (f : Nat) (buf : List (HistoricalTick π)) :
    List (Sample σ) → List (LabelCall π) × List (Sample σ)
  | [] => ([], [])
  | s :: rest =>
    if s.tickIndex ≥ fileOffset files (f + 1) then ([], s :: rest)
    else
      let r := labelFile files f buf rest
      let c := if s.tickIndex < fileOffset files f then .skipped else .call f (s.tickIndex - fileOffset files f) buf
      (c :: r.1, r.2)

def labelFrom (r : CsvReader π) (files : List DataFile) :
    List Nat → TickWindow π → List (Sample σ) → List (LabelCall π)
  | [], _, rest => rest.map fun _ => .untouched
  | f :: fs, w, rest =>
    let w := slide r files w f
    let done := labelFile files f w.buf rest
    done.1 ++ labelFrom r files fs w done.2

def labelCalls (r : CsvReader π) (files : List DataFile) (samples : List (Sample σ)) : List (LabelCall π) :=
  labelFrom r files (List.range files.length) { buf := [], prevFileCount := 0 } samples

inductive LabelKind where
  | multiclass | regression | binary

/-- The numbers a label is stored as. -/
structure LabelNumbers (ℓ : Type) where
  nan : ℓ
  zero : ℓ
  half : ℓ
  isBad : ℓ → Bool

/-- A target: its label function with its thresholds, and its kind. -/
structure LabelTarget (π σ ℓ : Type) where
  fn : List (HistoricalTick π) → Nat → σ → ℓ
  kind : LabelKind

def LabelNumbers.neutral (N : LabelNumbers ℓ) : LabelKind → ℓ
  | .multiclass => N.nan
  | .regression => N.zero
  | .binary => N.half

def storedLabel (N : LabelNumbers ℓ) (t : LabelTarget π σ ℓ) (s : Sample σ) : LabelCall π → ℓ
  | .untouched => N.nan
  | .skipped => N.neutral t.kind
  | .call _ localTidx window =>
    let lbl := t.fn window localTidx s.noted
    if N.isBad lbl then N.neutral t.kind else lbl

/-- `Backtest_ComputeLabelsBatch`: the labels of each target. -/
def computeLabelsBatch (r : CsvReader π) (files : List DataFile) (N : LabelNumbers ℓ)
    (targets : List (LabelTarget π σ ℓ))
    (samples : List (Sample σ)) : List (List ℓ) :=
  targets.map fun t => (samples.zip (labelCalls r files samples)).map fun sc => storedLabel N t sc.1 sc.2

/-! ### The ticks of a file -/

/-- The ticks of the file `f`; none behind the last file. -/
def ticksOf (r : CsvReader π) (files : List DataFile) (f : Nat) : List (HistoricalTick π) :=
  r.accepted (files[f]?).join

theorem accepted_length_le (r : CsvReader π) : ∀ file : DataFile, (r.accepted file).length ≤ dataRows file
  | none => Nat.zero_le _
  | some [] => Nat.zero_le _
  | some (header :: rows) => (List.length_filter_le ..).trans (by rw [List.length_map]; exact Nat.le_refl _)

theorem foldl_max_le (l : List Nat) : ∀ m : Nat, m ≤ l.foldl max m ∧ ∀ x ∈ l, x ≤ l.foldl max m := by
  induction l with
  | nil => exact fun m => ⟨Nat.le_refl m, fun _ hx => absurd hx List.not_mem_nil⟩
  | cons y l ih =>
    intro m
    obtain ⟨hm, hl⟩ := ih (max m y)
    refine ⟨(Nat.le_max_left ..).trans hm, fun x hx => ?_⟩
    rcases List.mem_cons.1 hx with rfl | hx
    · exact (Nat.le_max_right ..).trans hm
    · exact hl x hx

theorem ticksOf_length_le (r : CsvReader π) (files : List DataFile) (f : Nat) :
    (ticksOf r files f).length ≤ maxPerFile files := by
  refine (accepted_length_le r _).trans ?_
  cases hf : files[f]? with
  | none => exact Nat.zero_le _
  | some file => exact (foldl_max_le _ 0).2 _ (List.mem_map_of_mem (List.mem_of_getElem? hf))

/-- The room is never short. -/
theorem dataLoad_ticks (r : CsvReader π) (files : List DataFile) {f cap : Nat} (hcap : maxPerFile files ≤ cap) :
    dataLoad r cap (files[f]?).join = ticksOf r files f :=
  List.take_of_length_le ((ticksOf_length_le r files f).trans hcap)

/-- The ticks accepted in the files before `f`. -/
def ticksBefore (r : CsvReader π) (files : List DataFile) (f : Nat) : Nat :=
  ((files.take f).map fun file => (r.accepted file).length).sum

/-- The rows of the files before `f` down to the last one that cannot be opened. -/
def rowsSince (files : List DataFile) (f : Nat) : Nat :=
  (((files.take f).reverse.takeWhile (·.isSome)).map dataRows).sum

theorem fileOffset_eq (files : List DataFile) : ∀ {f : Nat}, f ≤ files.length → fileOffset files f = rowsSince files f
  | 0, _ => rfl
  | f + 1, hf => by
    have htake : (files.take (f + 1)).reverse = files[f] :: (files.take f).reverse := by
      rw [List.take_succ_eq_append_getElem hf, List.reverse_append]
      rfl
    rw [fileOffset, rowsSince, htake, List.getElem?_eq_getElem hf, Option.join_some]
    cases hfile : files[f] with
    | none => rfl
    | some lines =>
      rw [List.takeWhile_cons_of_pos rfl, List.map_cons, List.sum_cons, Nat.add_comm (dataRows _)]
      exact congrArg (· + dataRows (some lines)) (fileOffset_eq files (Nat.le_of_succ_le hf))

/-! ### Where a sample was collected -/

/-- A tick of the replay is at its place, and its number is that of the ticks before it. -/
structure LoadedTick.At (r : CsvReader π) (files : List DataFile) (t : LoadedTick π) (n : Nat) : Prop where
  tick : (ticksOf r files t.file)[t.localIdx]? = some t.tick
  number : n = ticksBefore r files t.file + t.localIdx

theorem loadedFile_length {r : CsvReader π} {files : List DataFile} {f cap : Nat} (hcap : maxPerFile files ≤ cap) :
    (loadedFile r cap f (files[f]?).join).length = (ticksOf r files f).length := by
  rw [loadedFile, dataLoad_ticks r files hcap, List.length_map, List.length_zipIdx]

theorem loadedFile_at {r : CsvReader π} {files : List DataFile} {f cap i : Nat} {t : LoadedTick π}
    (hcap : maxPerFile files ≤ cap)
    (h : (loadedFile r cap f (files[f]?).join)[i]? = some t) :
    t.At r files (ticksBefore r files f + i) ∧ t.file = f := by
  rw [loadedFile, dataLoad_ticks r files hcap, List.getElem?_map, List.getElem?_zipIdx, Nat.zero_add] at h
  cases htick : (ticksOf r files f)[i]? with
  | none => rw [htick] at h; exact absurd h.symm (Option.some_ne_none _)
  | some tick =>
    rw [htick] at h
    obtain rfl := Option.some.inj h
    exact ⟨⟨htick, rfl⟩, rfl⟩

theorem ticksBefore_succ (r : CsvReader π) (files : List DataFile) {f : Nat} (hf : f < files.length) :
    ticksBefore r files (f + 1) = ticksBefore r files f + (ticksOf r files f).length := by
  rw [ticksBefore, List.take_succ_eq_append_getElem hf, List.map_append, List.sum_append, ticksOf,
    List.getElem?_eq_getElem hf]
  rfl

/-- The ticks of the replay are numbered by the ticks before them. -/
theorem loadedTicks_at (r : CsvReader π) (files : List DataFile) {n : Nat} {t : LoadedTick π}
    (h : (loadedTicks r files)[n]? = some t) : t.At r files n ∧ t.file < files.length := by
  have hcap : maxPerFile files ≤ perFileCap files := by
    unfold perFileCap
    omega
  have hupto : ∀ k ≤ files.length,
      ((List.range k).flatMap fun f => loadedFile r (perFileCap files) f (files[f]?).join).length =
        ticksBefore r files k ∧
      ∀ {n : Nat} {t : LoadedTick π},
        ((List.range k).flatMap fun f => loadedFile r (perFileCap files) f (files[f]?).join)[n]? = some t →
          t.At r files n ∧ t.file < files.length := by
    intro k
    induction k with
    | zero => exact fun _ => ⟨rfl, fun h => absurd h.symm (Option.some_ne_none _)⟩
    | succ k ih =>
      intro hk
      obtain ⟨hlength, hat⟩ := ih (Nat.le_of_succ_le hk)
      rw [List.range_succ, List.flatMap_append, List.flatMap_singleton]
      refine ⟨by rw [List.length_append, hlength, loadedFile_length hcap, ticksBefore_succ r files hk],
        fun {n t} h => ?_⟩
      rcases Nat.lt_or_ge n (ticksBefore r files k) with hlt | hge
      · exact hat (by rwa [List.getElem?_append_left (by rwa [hlength])] at h)
      · rw [List.getElem?_append_right (by rwa [hlength]), hlength] at h
        obtain ⟨hplace, rfl⟩ := loadedFile_at hcap h
        rw [Nat.add_sub_cancel' hge] at hplace
        exact ⟨hplace, hk⟩
  exact (hupto files.length (Nat.le_refl _)).2 h

/-- A sample notes the number of the tick it was collected on. -/
structure Sample.At (r : CsvReader π) (files : List DataFile) (s : Sample σ) : Prop where
  file : s.file < files.length
  localIdx : s.localIdx < (ticksOf r files s.file).length
  number : s.tickIndex = ticksBefore r files s.file + s.localIdx

/-- The samples of a replay from the tick number `n` on: each at its place, in the order of the ticks. -/
theorem replay_at (r : CsvReader π) (files : List DataFile) (D : Driver π δ σ) :
    ∀ (ts : List (LoadedTick π)) (d : δ) (n : Nat),
    (loadedTicks r files).drop n = ts →
      (∀ s ∈ replay D d n ts, s.At r files ∧ n ≤ s.tickIndex) ∧
        (replay D d n ts).Pairwise fun s s' => s.tickIndex ≤ s'.tickIndex
  | [], _, _, _ => ⟨fun _ hs => absurd hs List.not_mem_nil, .nil⟩
  | t :: ts, d, n, hts => by
    have hget : (loadedTicks r files)[n]? = some t := by
      rw [← List.head?_drop, hts]
      rfl
    have hdrop : (loadedTicks r files).drop (n + 1) = ts := by rw [← List.tail_drop, hts, List.tail_cons]
    obtain ⟨⟨htick, hnumber⟩, hfile⟩ := loadedTicks_at r files hget
    obtain ⟨hrest, hsorted⟩ := replay_at r files D ts (D.runTick d t.tick n).1 (n + 1) hdrop
    have hrest' : ∀ s ∈ replay D (D.runTick d t.tick n).1 (n + 1) ts, s.At r files ∧ n ≤ s.tickIndex := fun s hs =>
      ⟨(hrest s hs).1, Nat.le_of_succ_le (hrest s hs).2⟩
    rw [replay]
    by_cases hcancel : D.cancelled d
    · rw [if_pos hcancel]
      exact ⟨fun _ hs => absurd hs List.not_mem_nil, .nil⟩
    · rw [if_neg hcancel]
      cases hnoted : (D.runTick d t.tick n).2 with
      | none => simpa only [hnoted] using ⟨hrest', hsorted⟩
      | some noted =>
        simp only [hnoted]
        refine ⟨fun s hs => ?_, List.pairwise_cons.2 ⟨fun s hs => (hrest' s hs).2, hsorted⟩⟩
        rcases List.mem_cons.1 hs with rfl | hs
        · exact ⟨⟨hfile, (List.getElem?_eq_some_iff.1 htick).1, hnumber⟩, Nat.le_refl n⟩
        · exact hrest' s hs

/-! ### The window and the walk -/

/-- At the file `f` the window holds its ticks and those of the next file. -/
structure TickWindow.Holds (r : CsvReader π) (files : List DataFile) (w : TickWindow π) (f : Nat) : Prop where
  buf : w.buf = ticksOf r files f ++ ticksOf r files (f + 1)
  prevFileCount : w.prevFileCount = (ticksOf r files f).length

theorem slide_holds (r : CsvReader π) (files : List DataFile) {w : TickWindow π} {f : Nat}
    (h : f ≠ 0 → w.Holds r files (f - 1)) : (slide r files w f).Holds r files f := by
  have hcap : perFileCap files = max (maxPerFile files + 1024) 1024 := rfl
  have hfirst : (if f = 0 then dataLoad r (perFileCap files) (files[0]?).join else w.buf.drop w.prevFileCount) =
      ticksOf r files f := by
    by_cases hf : f = 0
    · rw [if_pos hf, hf]
      exact dataLoad_ticks r files (by omega)
    · rw [if_neg hf, (h hf).buf, (h hf).prevFileCount, List.drop_left', Nat.sub_add_cancel (Nat.pos_of_ne_zero hf)]
      rfl
  have hnext : (if f + 1 < files.length then
      dataLoad r (perFileCap files * 2 - (ticksOf r files f).length) (files[f + 1]?).join
        else []) = ticksOf r files (f + 1) := by
    by_cases hlast : f + 1 < files.length
    · rw [if_pos hlast]
      have hle := ticksOf_length_le r files f
      exact dataLoad_ticks r files (by omega)
    · rw [if_neg hlast, ticksOf, List.getElem?_eq_none (by omega)]
      rfl
  exact ⟨by simp only [slide, hfirst, hnext], by simp only [slide, hfirst]⟩

/-- What becomes of a sample alone: the first file whose numbers reach past it has it. -/
def resolve (r : CsvReader π) (files : List DataFile) (fs : List Nat) (s : Sample σ) : LabelCall π :=
  match fs.find? fun f => s.tickIndex < fileOffset files (f + 1) with
  | none => .untouched
  | some f =>
    if s.tickIndex < fileOffset files f then .skipped
    else .call f (s.tickIndex - fileOffset files f) (ticksOf r files f ++ ticksOf r files (f + 1))

/-- The walk over one file splits off the samples whose numbers it reaches past. -/
theorem labelFile_eq (r : CsvReader π) (files : List DataFile) (f : Nat) (fs : List Nat) (samples : List (Sample σ))
    (hsorted : samples.Pairwise fun s s' => s.tickIndex ≤ s'.tickIndex) :
    ∃ done rest, samples = done ++ rest ∧
      labelFile files f (ticksOf r files f ++ ticksOf r files (f + 1)) samples =
        (done.map (resolve r files (f :: fs)), rest) ∧
      ∀ s ∈ rest, ¬s.tickIndex < fileOffset files (f + 1) := by
  induction samples with
  | nil => exact ⟨[], [], rfl, rfl, fun _ hs => absurd hs List.not_mem_nil⟩
  | cons s samples ih =>
    obtain ⟨hle, hsorted⟩ := List.pairwise_cons.1 hsorted
    rw [labelFile]
    by_cases hstop : s.tickIndex ≥ fileOffset files (f + 1)
    · rw [if_pos hstop]
      refine ⟨[], s :: samples, rfl, rfl, fun s' hs' => ?_⟩
      rcases List.mem_cons.1 hs' with rfl | hs'
      · exact Nat.not_lt.2 hstop
      · exact Nat.not_lt.2 (hstop.trans (hle s' hs'))
    · obtain ⟨done, rest, rfl, hdone, hrest⟩ := ih hsorted
      have hfind : (f :: fs).find? (fun f => s.tickIndex < fileOffset files (f + 1)) = some f :=
        List.find?_cons_of_pos (decide_eq_true (Nat.not_le.1 hstop))
      refine ⟨s :: done, rest, rfl, ?_, hrest⟩
      rw [if_neg hstop, hdone, List.map_cons, resolve, hfind]

/-- The walk treats each sample alone. -/
theorem labelFrom_eq (r : CsvReader π) (files : List DataFile) :
    ∀ (k f : Nat) (w : TickWindow π) (samples : List (Sample σ)),
    (f ≠ 0 → w.Holds r files (f - 1)) → (samples.Pairwise fun s s' => s.tickIndex ≤ s'.tickIndex) →
      labelFrom r files (List.range' f k) w samples = samples.map (resolve r files (List.range' f k))
  | 0, _, _, _, _, _ => rfl
  | k + 1, f, w, samples, hw, hsorted => by
    have hslid := slide_holds r files hw
    obtain ⟨done, rest, rfl, hdone, hrest⟩ := labelFile_eq r files f (List.range' (f + 1) k) samples hsorted
    have hlater :=
      labelFrom_eq r files k (f + 1) (slide r files w f) rest (fun _ => hslid)
        (List.pairwise_append.1 hsorted).2.1
    simp only [List.range'_succ, labelFrom, hslid.buf, hdone, hlater]
    rw [List.map_append]
    refine congrArg _ (List.map_congr_left fun s hs => ?_)
    rw [resolve, resolve, List.find?_cons_of_neg (by simpa using hrest s hs)]

theorem labelCalls_eq (r : CsvReader π) (files : List DataFile) {samples : List (Sample σ)}
    (hsorted : samples.Pairwise fun s s' => s.tickIndex ≤ s'.tickIndex) :
    labelCalls r files samples = samples.map (resolve r files (List.range files.length)) := by
  rw [labelCalls, List.range_eq_range']
  exact labelFrom_eq r files _ 0 _ samples (fun h => absurd rfl h) hsorted

/-! ### When the two numberings agree -/

/-- The label function at the tick of the sample, in the ticks of its file and the next. -/
def Sample.ownCall (r : CsvReader π) (files : List DataFile) (s : Sample σ) : LabelCall π :=
  .call s.file s.localIdx (ticksOf r files s.file ++ ticksOf r files (s.file + 1))

/-- The rows of the files before that of the sample, down to the last one that cannot be opened, are as
    many as the ticks accepted before it, and no stretch of files before it reaches past the sample. -/
structure Sample.Undisturbed (r : CsvReader π) (files : List DataFile) (s : Sample σ) : Prop where
  level : rowsSince files s.file = ticksBefore r files s.file
  past : ∀ f < s.file, rowsSince files (f + 1) ≤ s.tickIndex

theorem resolve_own_iff (r : CsvReader π) (files : List DataFile) {s : Sample σ} (h : s.At r files) :
    resolve r files (List.range files.length) s = s.ownCall r files ↔ s.Undisturbed r files := by
  obtain ⟨hfile, hlocal, hnumber⟩ := h
  have hoffset : ∀ {f}, f ≤ files.length → fileOffset files f = rowsSince files f := fileOffset_eq files
  constructor
  · intro hown
    unfold resolve at hown
    split at hown
    · nomatch hown
    next f hf =>
      split at hown
      · nomatch hown
      next hstart =>
        obtain ⟨rfl, hidx, -⟩ := LabelCall.call.inj hown
        obtain ⟨-, -, hbefore⟩ := List.find?_range_eq_some.1 hf
        refine ⟨by rw [← hoffset hfile.le]; omega, fun f hlt => ?_⟩
        rw [← hoffset (by omega)]
        simpa using hbefore f hlt
  · intro hund
    have hlevel : fileOffset files s.file = ticksBefore r files s.file := (hoffset hfile.le).trans hund.level
    have hrows := accepted_length_le r (files[s.file]?).join
    have hstop : s.tickIndex < fileOffset files (s.file + 1) := by
      rw [fileOffset]
      cases hopen : (files[s.file]?).join with
      | none => rw [ticksOf, hopen] at hlocal; exact absurd hlocal (Nat.not_lt_zero _)
      | some lines =>
        rw [ticksOf, hopen] at hlocal
        rw [hopen] at hrows
        simp only []
        omega
    have hfind : (List.range files.length).find? (fun f => s.tickIndex < fileOffset files (f + 1)) = some s.file := by
      refine List.find?_range_eq_some.2 ⟨decide_eq_true hstop, List.mem_range.2 hfile, fun f hf => ?_⟩
      have hpast := hund.past f hf
      rw [← hoffset (by omega)] at hpast
      simpa using hpast
    rw [resolve, hfind]
    simp only [Sample.ownCall]
    rw [if_neg (by omega), hlevel, hnumber, Nat.add_sub_cancel_left]

/-- A reader of plain decimal rows. -/
def sampleCsvReader : CsvReader Int :=
  { parse := fun _ row =>
      let digits := fun field : List Char => ((field.foldl (fun n c => 10 * n + (c.toNat - 48)) 0 : Nat) : Int)
      match row.splitOn ',' with
      | [timestampUs, price, qty, isBuyerMaker] =>
        { timestampUs := digits timestampUs, price := digits price, qty := digits qty, isBuyerMaker := digits isBuyerMaker }
      | _ => { timestampUs := 0, price := 0, qty := 0, isBuyerMaker := 0 }
    positive := fun x => x > 0 }

/-- Two recorded files; the second row of the first one was cut off. -/
def sampleFiles : List DataFile :=
  let header := "timestamp_us,price,quantity,is_buyer_maker".toList
  [some [header, "1714348800000000,100,1,0".toList, "17143".toList],
    some [header, "1714348801000000,101,1,0".toList, "1714348802000000,102,1,0".toList]]

def sampleDriver : Driver Int Unit Unit := { cancelled := fun _ => false, runTick := fun _ _ _ => ((), some ()) }

/-- The label is the price at the position. -/
def samplePriceTarget : LabelTarget Int Unit Int :=
  { fn := fun window i _ => ((window[i]?).map (·.price)).getD 0, kind := .regression }

def sampleLabelNumbers : LabelNumbers Int := { nan := -1, zero := 0, half := 0, isBad := fun _ => false }

end Backtest

end FoxTrader
