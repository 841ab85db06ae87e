import Mathlib.Logic.Function.Basic
import Mathlib.Data.List.Basic
import FoxTrader.Lib.Run
import FoxTrader.Lib.Calendar

/-! # The recorded tape and its coverage

    The recorder appends every pushed tick to the tape of its day, through stdio, and seals a session
    with a line in the coverage sidecar of the day: the reader takes such a window as recorded. One step
    is one file operation; a crash between two of them loses what stdio still holds.

    `TickRecorder_CoverageSeal` comes before the tape is flushed or closed. So a window is backed by its
    tape unless the crash falls in between, or `TickRecorder_PruneOld` has taken the tape away while its
    day is being recorded. -/

namespace FoxTrader

open Lib Function

variable {π : Type}

structure RecordedTick (π : Type) where
  timestampUs : Int
  price : π
  qty : π
  isBuyerMaker : Int
  deriving DecidableEq

inductive TapeLine (π : Type) where
  | header
  | row (tick : RecordedTick π)
  deriving DecidableEq

/-- A line of a sidecar, with the ticks its session has pushed for the day. -/
structure CoverageWindow (π : Type) where
  openUs : Int
  lastUs : Int
  count : Nat
  session : List (RecordedTick π)
  deriving DecidableEq

/-- What is on disk: the tape and the windows of each day. -/
structure TapeDisk (π : Type) where
  csv : Int → Option (List (TapeLine π))
  coverage : Int → List (CoverageWindow π)

/-- The open tape: what stdio still holds, whether the directory still has the file, and whether its
    session has been sealed. -/
structure OpenTape (π : Type) where
  day : Int
  buffered : List (TapeLine π)
  linked : Bool
  sealed : Bool

/-- The path of the sidecar is that of its day. `session` is what the session has pushed. -/
structure TickRecorder (π : Type) where
  file : Option (OpenTape π)
  count : Nat
  enabled : Bool
  currentDay : Int
  maxDays : Nat
  sessionOpenUs : Int
  sessionLastUs : Int
  coveragePath : Option Int
  session : List (RecordedTick π)

/-- The operations the functions are made of, in the order they are called. -/
inductive TapeOp (π : Type) where
  | sealOpen
  | openFile (day : Int)
  | pruneOld
  | pruneCoverage (day : Int)
  | write (tick : RecordedTick π)
  | closeFlush
  | closeFile

/-- The operation that follows at once on one that went through. -/
inductive TapeFollowUp where
  | sealClose
  | csvOpen (day : Int)
  | csvHeader
  | pruneCsv (day : Int)
  | flush

structure TapeState (π : Type) where
  disk : TapeDisk π
  recorder : TickRecorder π
  followUp : Option TapeFollowUp
  todo : List (TapeOp π)
  alive : Bool

/-- How the file system answers: whether a file can be opened, what the directory lists, and which days
    are older than the cutoff. -/
structure TapeAnswer where
  opens : Bool
  entries : List Int
  old : Int → Bool

inductive TapeAct (π : Type) where
  | start (enabled : Bool) (maxDays : Nat)
  | push (tick : RecordedTick π)
  | close
  | go (answer : TapeAnswer)
  | crash

namespace TapeDisk

/-- The lines stdio holds go to the tape, if the directory still has it. -/
def flush (d : TapeDisk π) (tape : OpenTape π) : TapeDisk π :=
  if tape.linked then { d with csv := update d.csv tape.day ((d.csv tape.day).map (· ++ tape.buffered)) } else d

def rows (d : TapeDisk π) (day : Int) : List (TapeLine π) := (d.csv day).getD []

end TapeDisk

namespace TickRecorder

/-- `TickRecorder_Init`, as far as its memory goes. -/
def init (enabled : Bool) (maxDays : Nat) : TickRecorder π :=
  { file := none, count := 0, enabled, currentDay := 0, maxDays, sessionOpenUs := 0, sessionLastUs := 0,
    coveragePath := none
    session := [] }

/-- A file is opened for the day. -/
def opened (recorder : TickRecorder π) (day : Int) : TickRecorder π :=
  { recorder with
    file := some { day, buffered := [], linked := true, sealed := false }, currentDay := day, sessionOpenUs := 0
    sessionLastUs := 0, coveragePath := some day, session := [] }

/-- No file could be opened: there is no sidecar to seal into. -/
def notOpened (recorder : TickRecorder π) : TickRecorder π :=
  { recorder with coveragePath := none, sessionOpenUs := 0, sessionLastUs := 0, session := [] }

def written (recorder : TickRecorder π) (tape : OpenTape π) (tick : RecordedTick π) : TickRecorder π :=
  { recorder with
    file := some { tape with buffered := tape.buffered ++ [.row tick] }, count := recorder.count + 1
    sessionOpenUs := if recorder.sessionOpenUs = 0 then tick.timestampUs else recorder.sessionOpenUs
    sessionLastUs := tick.timestampUs, session := recorder.session ++ [tick] }

def window (recorder : TickRecorder π) : CoverageWindow π :=
  { openUs := recorder.sessionOpenUs, lastUs := recorder.sessionLastUs, count := recorder.count,
    session := recorder.session }

end TickRecorder

namespace TapeState

/-- Before the first process: tapes of any origin, and no windows. -/
def initial (csv : Int → Option (List (TapeLine π))) : TapeState π :=
  { disk := { csv, coverage := fun _ => [] }, recorder := .init false 0, followUp := none, todo := [],
    alive := false }

/-- What stdio holds goes to the tape. -/
def flushed (s : TapeState π) : TapeState π :=
  match s.recorder.file with
  | none => s
  | some tape => { s with disk := s.disk.flush tape, recorder := { s.recorder with file := some { tape with buffered := [] } } }

/-- The tape is closed. -/
def closed (s : TapeState π) : TapeState π :=
  match s.recorder.file with
  | none => s
  | some tape => { s with disk := s.disk.flush tape, recorder := { s.recorder with file := none } }

/-- The window goes to the sidecar. -/
def coverageSeal (s : TapeState π) : TapeState π :=
  match s.recorder.coveragePath with
  | none => s
  | some day =>
    { s with disk := { s.disk with coverage := update s.disk.coverage day (s.disk.coverage day ++ [s.recorder.window]) }
             recorder := { s.recorder with
               sessionOpenUs := 0, file := s.recorder.file.map fun tape => { tape with sealed := true } } }

/-- `fopen` of the tape of the day, to append to it. -/
def openCsv (s : TapeState π) (day : Int) : TapeState π :=
  { s with disk := { s.disk with csv := update s.disk.csv day (some (s.disk.rows day)) }, recorder := s.recorder.opened day
           followUp := if s.disk.rows day = [] then some .csvHeader else none }

def writeHeader (s : TapeState π) : TapeState π :=
  match s.recorder.file with
  | none => s
  | some tape => { s with disk := s.disk.flush { tape with buffered := [.header] } }

def removeCsv (s : TapeState π) (day : Int) : TapeState π :=
  { s with disk := { s.disk with csv := update s.disk.csv day none }
           recorder := { s.recorder with
             file := s.recorder.file.map fun tape => if tape.day = day then { tape with linked := false } else tape } }

def removeCoverage (s : TapeState π) (day : Int) : TapeState π :=
  { s with disk := { s.disk with coverage := update s.disk.coverage day [] }, followUp := some (.pruneCsv day) }

/-- A row goes to stdio. -/
def writeRow (s : TapeState π) (tick : RecordedTick π) : TapeState π :=
  match s.recorder.file with
  | none => s
  | some tape =>
    { s with recorder := s.recorder.written tape tick, followUp := if (s.recorder.count + 1) &&& 0x3FF = 0 then some .flush else none }

/-- The operations that follow at once. -/
def follow (e : TapeAnswer) (s : TapeState π) : TapeFollowUp → TapeState π
  | .sealClose => s.coverageSeal
  | .csvOpen day => if e.opens then s.openCsv day else { s with recorder := s.recorder.notOpened }
  | .csvHeader => s.writeHeader
  | .pruneCsv day => s.removeCsv day
  | .flush => s.flushed

/-- One operation of the call in progress. -/
def perform (e : TapeAnswer) (s : TapeState π) : TapeOp π → TapeState π
  | .sealOpen =>
    if !s.recorder.enabled || s.recorder.coveragePath.isNone || s.recorder.sessionOpenUs = 0 || !e.opens then s
    else { s with followUp := some .sealClose }
  | .openFile day => { s.closed with followUp := some (.csvOpen day) }
  | .pruneOld =>
    if s.recorder.maxDays = 0 then s
    else { s with todo := ((e.entries.filter fun day => (s.disk.csv day).isSome && e.old day).map .pruneCoverage) ++ s.todo }
  | .pruneCoverage day => s.removeCoverage day
  | .write tick => s.writeRow tick
  | .closeFlush => s.flushed
  | .closeFile => { s.closed with alive := false }

/-- The next operation of the call in progress, if there is one. -/
def go (e : TapeAnswer) (s : TapeState π) : TapeState π :=
  match s.followUp with
  | some f => { s with followUp := none }.follow e f
  | none =>
    match s.todo with
    | [] => s
    | op :: todo => { s with todo }.perform e op

def idle (s : TapeState π) : Bool := s.alive && s.followUp.isNone && s.todo.isEmpty

/-- `dateInt` is `TickRecorder_DateInt`. -/
def step (dateInt : Int → Int) (s : TapeState π) : TapeAct π → TapeState π
  | .start enabled maxDays =>
    if s.alive then s
    else { s with recorder := .init enabled maxDays, followUp := none, todo := if enabled then [.pruneOld] else [], alive := true }
  | .push tick =>
    if !s.idle || !s.recorder.enabled then s
    else
      let today := dateInt tick.timestampUs
      let rotation : List (TapeOp π) := if today = s.recorder.currentDay then []
        else [.sealOpen, .openFile today, .pruneOld]
      { s with todo := rotation ++ [.write tick] }
  | .close => if !s.idle then s else { s with todo := [.sealOpen, .closeFlush, .closeFile] }
  | .go e => if s.alive then s.go e else s
  | .crash => { s with recorder := .init false 0, followUp := none, todo := [], alive := false }

end TapeState

/-! ### Windows and tapes -/

def CoverageWindow.within (w : CoverageWindow π) (t : RecordedTick π) : Bool :=
  w.openUs ≤ t.timestampUs && t.timestampUs ≤ w.lastUs

/-- Every window is backed: what its session has pushed inside it are rows of the tape. -/
def TapeDisk.Backed (d : TapeDisk π) : Prop :=
  ∀ day, ∀ w ∈ d.coverage day, ((w.session.filter w.within).map TapeLine.row).Sublist (d.rows day)

/-- A session is sealed while stdio still holds lines of its tape. -/
def TapeState.exposed (s : TapeState π) : Bool :=
  s.recorder.file.any fun tape => tape.sealed && !tape.buffered.isEmpty

/-- No crash while a sealed session is not on its tape, and no tape pruned while its day is recorded. -/
def TapeState.Careful (s : TapeState π) : TapeAct π → Prop
  | .crash => s.exposed = false
  | .go _ =>
    match s.followUp with
    | some (.pruneCsv day) => s.recorder.coveragePath ≠ some day
    | _ => True
  | _ => True

instance (s : TapeState π) : ∀ a, Decidable (s.Careful a)
  | .crash => inferInstanceAs (Decidable (s.exposed = false))
  | .go _ =>
    match h : s.followUp with
    | some (.pruneCsv day) => decidable_of_iff (s.recorder.coveragePath ≠ some day) (by rw [TapeState.Careful, h])
    | some .sealClose | some (.csvOpen _) | some .csvHeader | some .flush | none =>
      isTrue (by rw [TapeState.Careful, h]; trivial)
  | .start .. | .push _ | .close => isTrue trivial

/-! ### What every careful run keeps -/

/-- The lines for the open tape of a day that stdio still holds. -/
def TickRecorder.buffered (recorder : TickRecorder π) (day : Int) : List (TapeLine π) :=
  match recorder.file with
  | none => []
  | some tape => if tape.day = day then tape.buffered else []

/-- The tape of a day with the lines to come. -/
def TapeState.tape (s : TapeState π) (day : Int) : List (TapeLine π) := s.disk.rows day ++ s.recorder.buffered day

/-- The open tape is that of the day being recorded and has a file; the session's ticks are on it, and
    those of every window are on disk, or on a sealed tape that is still open. -/
structure TapeState.Kept (s : TapeState π) : Prop where
  path : ∀ tape, s.recorder.file = some tape → s.recorder.coveragePath = some tape.day
  linked : ∀ tape, s.recorder.file = some tape → tape.linked = true ∧ (s.disk.csv tape.day).isSome = true
  live : ∀ day, s.recorder.coveragePath = some day → (s.recorder.session.map TapeLine.row).Sublist (s.tape day)
  windows : ∀ day, ∀ w ∈ s.disk.coverage day, (w.session.map TapeLine.row).Sublist (s.disk.rows day) ∨
    ∃ tape, s.recorder.file = some tape ∧ tape.sealed = true ∧ (w.session.map TapeLine.row).Sublist (s.tape day)
  pruning : ∀ day, s.followUp = some (.pruneCsv day) → s.disk.coverage day = []
  opening : ∀ day, s.followUp = some (.csvOpen day) → s.recorder.file = none
  gone : s.alive = false → s.recorder.file = none

theorem TickRecorder.buffered_of_some {recorder : TickRecorder π} {tape : OpenTape π}
    (h : recorder.file = some tape) (day : Int) :
    recorder.buffered day = if tape.day = day then tape.buffered else [] := by
  rw [TickRecorder.buffered, h]

theorem TickRecorder.buffered_of_none {recorder : TickRecorder π} (h : recorder.file = none) (day : Int) :
    recorder.buffered day = [] := by
  rw [TickRecorder.buffered, h]

theorem TapeDisk.flush_coverage (d : TapeDisk π) (tape : OpenTape π) : (d.flush tape).coverage = d.coverage := by
  unfold TapeDisk.flush
  split <;> rfl

theorem TapeDisk.rows_flush {d : TapeDisk π} {tape : OpenTape π} (hlinked : tape.linked = true)
    (hpresent : (d.csv tape.day).isSome = true) (day : Int) :
    (d.flush tape).rows day = d.rows day ++ if tape.day = day then tape.buffered else [] := by
  obtain ⟨lines, hlines⟩ := Option.isSome_iff_exists.1 hpresent
  rw [TapeDisk.flush, if_pos hlinked]
  by_cases hday : tape.day = day
  · subst hday
    simp only [TapeDisk.rows, update_self, hlines, Option.map_some, Option.getD_some, if_true]
  · simp only [TapeDisk.rows, update_of_ne (Ne.symm hday), if_neg hday, List.append_nil]

theorem TapeDisk.isSome_flush {d : TapeDisk π} {tape : OpenTape π} (day : Int) (h : (d.csv day).isSome = true) :
    ((d.flush tape).csv day).isSome = true := by
  unfold TapeDisk.flush
  split
  · by_cases hday : day = tape.day
    · subst hday
      simp only [update_self, Option.isSome_map, h]
    · simp only [update_of_ne hday, h]
  · exact h

theorem TapeState.closed_file (s : TapeState π) : s.closed.recorder.file = none := by
  unfold TapeState.closed
  split
  next hfile => exact hfile
  next => rfl

namespace TapeState.Kept

variable {s : TapeState π}

/-- Of every window, what is on the tape to come. -/
theorem window_on_tape (h : s.Kept) {day : Int} {w : CoverageWindow π} (hw : w ∈ s.disk.coverage day) :
    (w.session.map TapeLine.row).Sublist (s.tape day) := by
  rcases h.windows day w hw with hdisk | ⟨-, -, -, htape⟩
  · exact hdisk.trans (List.sublist_append_left ..)
  · exact htape

/-- The calls to come are not part of it. -/
theorem todo (h : s.Kept) (todo : List (TapeOp π)) : Kept { s with todo } :=
  ⟨h.path, h.linked, h.live, h.windows, h.pruning, h.opening, h.gone⟩

/-- An operation may be followed by one that needs nothing. -/
theorem followUp (h : s.Kept) {f : Option TapeFollowUp} (hprune : ∀ day, f ≠ some (.pruneCsv day))
    (hopen : ∀ day, f ≠ some (.csvOpen day)) : Kept { s with followUp := f } :=
  ⟨h.path, h.linked, h.live, h.windows, fun day hday => absurd hday (hprune day), fun day hday =>
    absurd hday (hopen day), h.gone⟩

theorem noFollowUp (h : s.Kept) : Kept { s with followUp := none } :=
  h.followUp (fun _ => Option.some_ne_none _ |>.symm) fun _ => Option.some_ne_none _ |>.symm

theorem flushed (h : s.Kept) : Kept s.flushed := by
  unfold TapeState.flushed
  split
  · exact h
  next tape hfile =>
    obtain ⟨hlinked, hpresent⟩ := h.linked tape hfile
    have hrows : ∀ day, (s.disk.flush tape).rows day = s.tape day := fun day => by
      rw [TapeDisk.rows_flush hlinked hpresent, TapeState.tape, TickRecorder.buffered_of_some hfile]
    have htape : ∀ day, TapeState.tape { s with disk := s.disk.flush tape, recorder := { s.recorder with file := some { tape with buffered := [] } } } day = s.tape day := by
      intro day
      rw [TapeState.tape, hrows, TickRecorder.buffered]
      simp
    refine ⟨fun t ht => ?_, fun t ht => ?_, fun day hday => ?_, fun day w hw => ?_, fun day hday =>
      ?_, fun day hday => ?_,
      fun hgone => ?_⟩
    · rw [← Option.some.inj ht]
      exact h.path tape hfile
    · rw [← Option.some.inj ht]
      exact ⟨hlinked, TapeDisk.isSome_flush _ hpresent⟩
    · rw [htape]
      exact h.live day hday
    · rw [TapeDisk.flush_coverage] at hw
      exact .inl (by rw [hrows]; exact h.window_on_tape hw)
    · rw [TapeDisk.flush_coverage]
      exact h.pruning day hday
    · rw [h.opening day hday] at hfile
      exact absurd hfile.symm (Option.some_ne_none _)
    · rw [h.gone hgone] at hfile
      exact absurd hfile.symm (Option.some_ne_none _)

theorem closed (h : s.Kept) : Kept s.closed := by
  unfold TapeState.closed
  split
  · exact h
  next tape hfile =>
    obtain ⟨hlinked, hpresent⟩ := h.linked tape hfile
    have hrows : ∀ day, (s.disk.flush tape).rows day = s.tape day := fun day => by
      rw [TapeDisk.rows_flush hlinked hpresent, TapeState.tape, TickRecorder.buffered_of_some hfile]
    refine ⟨fun _ ht => absurd ht.symm (Option.some_ne_none _), fun _ ht =>
      absurd ht.symm (Option.some_ne_none _), fun day hday => ?_,
      fun day w hw => ?_, fun day hday => ?_, fun _ _ => rfl, fun _ => rfl⟩
    · rw [TapeState.tape, hrows, TickRecorder.buffered_of_none rfl, List.append_nil]
      exact h.live day hday
    · rw [TapeDisk.flush_coverage] at hw
      exact .inl (by rw [hrows]; exact h.window_on_tape hw)
    · rw [TapeDisk.flush_coverage]
      exact h.pruning day hday

/-- What a session has pushed is on its tape when it is sealed. -/
theorem sealed (h : s.Kept) (hfollow : s.followUp = none) : Kept s.coverageSeal := by
  unfold TapeState.coverageSeal
  split
  · exact h
  next sealedDay hpath =>
    have hfile : ∀ {tape}, (s.recorder.file.map fun tape => { tape with sealed := true }) = some tape →
        ∃ t, s.recorder.file = some t ∧ { t with sealed := true } = tape := fun ht => Option.map_eq_some_iff.1 ht
    have hseal : ∀ {tape}, s.recorder.file = some tape →
        (s.recorder.file.map fun tape => { tape with sealed := true }) =
          some { tape with sealed := true } := fun ht => by
      rw [ht]
      rfl
    have htape : ∀ day, TapeState.tape { s with
        disk := { s.disk with coverage := update s.disk.coverage sealedDay (s.disk.coverage sealedDay ++ [s.recorder.window]) }
        recorder := { s.recorder with
          sessionOpenUs := 0,
            file := s.recorder.file.map fun tape => { tape with sealed := true } } } day = s.tape day := by
      intro day
      unfold TapeState.tape TickRecorder.buffered
      cases s.recorder.file <;> rfl
    refine ⟨fun tape ht => ?_, fun tape ht => ?_, fun day hday => ?_, fun day w hw => ?_, fun day hday =>
      ?_, fun day hday => ?_,
      fun hgone => ?_⟩
    · obtain ⟨t, ht', rfl⟩ := hfile ht
      exact h.path t ht'
    · obtain ⟨t, ht', rfl⟩ := hfile ht
      exact h.linked t ht'
    · rw [htape]
      exact h.live day hday
    · have hw' : w ∈ s.disk.coverage day ∨ day = sealedDay ∧ w = s.recorder.window := by
        replace hw : w ∈ update s.disk.coverage sealedDay (s.disk.coverage sealedDay ++ [s.recorder.window]) day := hw
        by_cases hday : day = sealedDay
        · subst hday
          rw [update_self] at hw
          exact (List.mem_append.1 hw).imp_right fun hw => ⟨rfl, List.mem_singleton.1 hw⟩
        · rw [update_of_ne hday] at hw
          exact .inl hw
      rw [htape]
      rcases hw' with hw | ⟨rfl, rfl⟩
      · refine (h.windows day w hw).imp_right ?_
        rintro ⟨tape, ht, -, hon⟩
        exact ⟨{ tape with sealed := true }, hseal ht, rfl, hon⟩
      · have hlive := h.live day hpath
        cases ht : s.recorder.file with
        | none => exact .inl (by rwa [TapeState.tape, TickRecorder.buffered_of_none ht, List.append_nil] at hlive)
        | some tape => exact .inr ⟨{ tape with sealed := true }, rfl, rfl, hlive⟩
    · rw [hfollow] at hday
      exact absurd hday.symm (Option.some_ne_none _)
    · rw [hfollow] at hday
      exact absurd hday.symm (Option.some_ne_none _)
    · rw [h.gone hgone]
      rfl

theorem headed (h : s.Kept) : Kept s.writeHeader := by
  unfold TapeState.writeHeader
  split
  · exact h
  next tape hfile =>
    obtain ⟨hlinked, hpresent⟩ := h.linked tape hfile
    have hrows : ∀ day,
      (s.disk.rows day).Sublist ((s.disk.flush { tape with buffered := [.header] }).rows day) := fun day => by
      have hlinked' : ({ tape with buffered := [.header] } : OpenTape π).linked = true := hlinked
      rw [TapeDisk.rows_flush hlinked' hpresent]
      exact List.sublist_append_left ..
    have htape : ∀ day, (s.tape day).Sublist
        (TapeState.tape { s with disk := s.disk.flush { tape with buffered := [.header] } } day) := fun day =>
      (hrows day).append_right _
    refine ⟨h.path, fun t ht => ?_, fun day hday => (h.live day hday).trans (htape day), fun day w hw =>
      ?_, fun day hday => ?_,
      h.opening, h.gone⟩
    · obtain ⟨hlinked, hpresent⟩ := h.linked t ht
      exact ⟨hlinked, TapeDisk.isSome_flush _ hpresent⟩
    · rw [TapeDisk.flush_coverage] at hw
      refine (h.windows day w hw).imp (·.trans (hrows day)) ?_
      rintro ⟨t, ht, hsealed, hon⟩
      exact ⟨t, ht, hsealed, hon.trans (htape day)⟩
    · rw [TapeDisk.flush_coverage]
      exact h.pruning day hday

/-- A tape that is not the one being recorded is removed, its windows before it. -/
theorem csvRemoved (h : s.Kept) (hfollow : s.followUp = none) {day : Int} (hempty : s.disk.coverage day = [])
    (hpath : s.recorder.coveragePath ≠ some day) : Kept (s.removeCsv day) := by
  have hother : ∀ tape, s.recorder.file = some tape → tape.day ≠ day :=
    fun tape hfile heq => hpath (heq ▸ h.path tape hfile)
  have hfile : (s.recorder.file.map fun tape => if tape.day = day then { tape with linked := false }
    else tape) = s.recorder.file := by
    cases hf : s.recorder.file with
    | none => rfl
    | some tape => exact congrArg some (if_neg (hother tape hf))
  have hsame : s.removeCsv day = { s with disk := { s.disk with csv := update s.disk.csv day none } } := by
    simp only [TapeState.removeCsv, hfile]
  have hrows : ∀ d, d ≠ day → TapeDisk.rows { s.disk with csv := update s.disk.csv day none } d =
    s.disk.rows d := fun d hne => by
    simp only [TapeDisk.rows, update_of_ne hne]
  rw [hsame]
  refine ⟨h.path, fun tape ht => ?_, fun d hd => ?_, fun d w hw => ?_, fun d hd => ?_, fun d hd => ?_, h.gone⟩
  · obtain ⟨hlinked, hpresent⟩ := h.linked tape ht
    exact ⟨hlinked, by simp only [update_of_ne (hother tape ht), hpresent]⟩
  · have hne : d ≠ day := fun heq => hpath (heq ▸ hd)
    rw [TapeState.tape, hrows d hne]
    exact h.live d hd
  · have hne : d ≠ day := fun heq => by
      rw [heq] at hw
      exact absurd (hempty ▸ hw) List.not_mem_nil
    rw [TapeState.tape, hrows d hne]
    exact h.windows d w hw
  · rw [show _ = none from hfollow] at hd
    exact absurd hd.symm (Option.some_ne_none _)
  · rw [show _ = none from hfollow] at hd
    exact absurd hd.symm (Option.some_ne_none _)

theorem written (h : s.Kept) (tick : RecordedTick π) : Kept (s.writeRow tick) := by
  unfold TapeState.writeRow
  split
  · exact h
  next tape hfile =>
    have hbuffered : ∀ day, (s.recorder.written tape tick).buffered day =
        s.recorder.buffered day ++ if tape.day = day then [.row tick] else [] := fun day => by
      rw [TickRecorder.buffered_of_some hfile]
      unfold TickRecorder.buffered TickRecorder.written
      by_cases hday : tape.day = day
      · simp only [if_pos hday]
      · simp only [if_neg hday, List.append_nil]
    have htape : ∀ (f : Option TapeFollowUp) day,
        TapeState.tape { s with recorder := s.recorder.written tape tick, followUp := f } day =
          s.tape day ++ if tape.day = day then [.row tick] else [] := fun f day => by
      simp only [TapeState.tape, hbuffered, List.append_assoc]
    have hfollow : ∀ {n : Nat} {f : TapeFollowUp}, (if n &&& 0x3FF = 0 then some .flush else none) = some f →
      f = .flush := by
      intro n f hf
      split at hf
      · exact (Option.some.inj hf).symm
      · exact absurd hf.symm (Option.some_ne_none _)
    refine ⟨fun t ht => ?_, fun t ht => ?_, fun day hday => ?_, fun day w hw => ?_, fun day hday =>
      ?_, fun day hday => ?_,
      fun hgone => ?_⟩
    · rw [← Option.some.inj ht]
      exact h.path tape hfile
    · rw [← Option.some.inj ht]
      exact h.linked tape hfile
    · have hown : tape.day = day := Option.some.inj ((h.path tape hfile).symm.trans hday)
      rw [htape, if_pos hown]
      change ((s.recorder.session ++ [tick]).map TapeLine.row).Sublist _
      rw [List.map_append]
      exact (h.live day hday).append_right _
    · refine (h.windows day w hw).imp_right ?_
      rintro ⟨t, ht, hsealed, hon⟩
      obtain rfl := Option.some.inj (hfile.symm.trans ht)
      exact ⟨_, rfl, hsealed, by rw [htape]; exact hon.trans (List.sublist_append_left ..)⟩
    · nomatch hfollow hday
    · nomatch hfollow hday
    · exact absurd ((h.gone hgone).symm.trans hfile).symm (Option.some_ne_none _)

theorem opened (h : s.Kept) (halive : s.alive = true) (hclosed : s.recorder.file = none) (day : Int) :
    Kept (s.openCsv day) := by
  have hrows : ∀ d, TapeDisk.rows { s.disk with csv := update s.disk.csv day (some (s.disk.rows day)) } d =
    s.disk.rows d := by
    intro d
    by_cases hd : d = day
    · subst hd
      simp only [TapeDisk.rows, update_self, Option.getD_some]
    · simp only [TapeDisk.rows, update_of_ne hd]
  have hfollow : ∀ {f}, (s.openCsv day).followUp = some f → f = .csvHeader := by
    intro f hf
    simp only [TapeState.openCsv] at hf
    split at hf
    · exact (Option.some.inj hf).symm
    · exact absurd hf.symm (Option.some_ne_none _)
  refine ⟨fun tape ht => ?_, fun tape ht => ?_, fun d hd => ?_, fun d w hw => ?_, fun d hd => ?_, fun d hd =>
    ?_, fun hgone => ?_⟩
  · rw [← Option.some.inj ht]
    rfl
  · rw [← Option.some.inj ht]
    exact ⟨rfl, by simp only [TapeState.openCsv, update_self, Option.isSome_some]⟩
  · exact List.nil_sublist _
  · refine .inl ?_
    rcases h.windows d w hw with hdisk | ⟨tape, ht, -⟩
    · exact (hrows d).symm ▸ hdisk
    · rw [hclosed] at ht
      exact absurd ht.symm (Option.some_ne_none _)
  · nomatch hfollow hd
  · nomatch hfollow hd
  · exact nomatch halive.symm.trans hgone

theorem notOpened (h : s.Kept) (hclosed : s.recorder.file = none) :
    Kept { s with recorder := s.recorder.notOpened } := by
  refine ⟨fun tape ht => ?_, fun tape ht => ?_, fun _ hd =>
    absurd hd.symm (Option.some_ne_none _), fun d w hw => ?_, h.pruning,
    fun _ _ => hclosed, fun _ => hclosed⟩
  · exact absurd (hclosed.symm.trans ht).symm (Option.some_ne_none _)
  · exact absurd (hclosed.symm.trans ht).symm (Option.some_ne_none _)
  · refine (h.windows d w hw).imp_right ?_
    rintro ⟨tape, ht, -⟩
    exact absurd (hclosed.symm.trans ht).symm (Option.some_ne_none _)

theorem coverageRemoved (h : s.Kept) (day : Int) : Kept (s.removeCoverage day) := by
  have hsub : ∀ {d w}, w ∈ update s.disk.coverage day [] d → w ∈ s.disk.coverage d := by
    intro d w hw
    by_cases hd : d = day
    · subst hd
      rw [update_self] at hw
      exact absurd hw List.not_mem_nil
    · rwa [update_of_ne hd] at hw
  refine ⟨h.path, h.linked, h.live, fun d w hw => h.windows d w (hsub hw), fun d hd => ?_, fun d hd => ?_, h.gone⟩
  · obtain rfl := TapeFollowUp.pruneCsv.inj (Option.some.inj hd)
    simp only [TapeState.removeCoverage, update_self]
  · nomatch Option.some.inj hd

/-- The operations that follow at once. -/
theorem follow (h : s.Kept) (e : TapeAnswer) (halive : s.alive = true) {f : TapeFollowUp} (hf : s.followUp = some f)
    (hcareful : s.Careful (.go e)) : Kept ({ s with followUp := none }.follow e f) := by
  have hnone := h.noFollowUp
  cases f with
  | sealClose => exact hnone.sealed rfl
  | csvOpen day =>
    have hclosed := h.opening day hf
    by_cases hopens : e.opens = true
    · rw [TapeState.follow, if_pos hopens]
      exact hnone.opened halive hclosed day
    · rw [TapeState.follow, if_neg hopens]
      exact hnone.notOpened hclosed
  | csvHeader => exact hnone.headed
  | pruneCsv day =>
    rw [TapeState.Careful, hf] at hcareful
    exact hnone.csvRemoved rfl (h.pruning day hf) hcareful
  | flush => exact hnone.flushed

/-- One operation of a call. -/
theorem perform (h : s.Kept) (e : TapeAnswer) (op : TapeOp π) : Kept (s.perform e op) := by
  cases op with
  | sealOpen =>
    rw [TapeState.perform]
    split
    · exact h
    · exact h.followUp (fun _ hf => nomatch Option.some.inj hf) fun _ hf => nomatch Option.some.inj hf
  | openFile day =>
    have hclosed := h.closed
    exact ⟨hclosed.path, hclosed.linked, hclosed.live, hclosed.windows, fun _ hd => (nomatch Option.some.inj hd),
      fun _ _ => s.closed_file, hclosed.gone⟩
  | pruneOld =>
    rw [TapeState.perform]
    split
    · exact h
    · exact h.todo _
  | pruneCoverage day => exact h.coverageRemoved day
  | write tick => exact h.written tick
  | closeFlush => exact h.flushed
  | closeFile =>
    have hclosed := h.closed
    exact ⟨hclosed.path, hclosed.linked, hclosed.live, hclosed.windows, hclosed.pruning, hclosed.opening,
      fun _ => s.closed_file⟩

/-- Another process starts, or the one there was is gone: nothing is open. -/
theorem restarted (hdisk : ∀ day, ∀ w ∈ s.disk.coverage day, (w.session.map TapeLine.row).Sublist (s.disk.rows day))
    (enabled : Bool) (maxDays : Nat) (todo : List (TapeOp π)) (alive : Bool) :
    Kept { s with recorder := .init enabled maxDays, followUp := none, todo, alive } :=
  ⟨fun _ ht => absurd ht.symm (Option.some_ne_none _), fun _ ht => absurd ht.symm (Option.some_ne_none _),
    fun _ hd => absurd hd.symm (Option.some_ne_none _), fun day w hw => .inl (hdisk day w hw),
    fun _ hf => absurd hf.symm (Option.some_ne_none _), fun _ hf =>
      absurd hf.symm (Option.some_ne_none _), fun _ => rfl⟩

/-- Unless a sealed session is not on its tape yet, every window is on disk. -/
theorem on_disk (h : s.Kept) (hsafe : s.exposed = false) {day : Int} {w : CoverageWindow π}
    (hw : w ∈ s.disk.coverage day) :
    (w.session.map TapeLine.row).Sublist (s.disk.rows day) := by
  rcases h.windows day w hw with hdisk | ⟨tape, hfile, hsealed, htape⟩
  · exact hdisk
  · have hempty : tape.buffered = [] := by
      rw [TapeState.exposed, hfile, Option.any_some, hsealed, Bool.true_and, Bool.not_eq_false'] at hsafe
      exact List.isEmpty_iff.1 hsafe
    rwa [TapeState.tape, TickRecorder.buffered_of_some hfile, hempty, ite_self, List.append_nil] at htape

theorem step (h : s.Kept) (dateInt : Int → Int) (a : TapeAct π) (hcareful : s.Careful a) :
    Kept (s.step dateInt a) := by
  cases a with
  | start enabled maxDays =>
    by_cases halive : s.alive = true
    · rwa [TapeState.step, if_pos halive]
    · rw [TapeState.step, if_neg halive]
      have hnone := h.gone (Bool.eq_false_iff.2 halive)
      exact restarted (fun day w hw => h.on_disk (by rw [TapeState.exposed, hnone]; rfl) hw) ..
  | push tick =>
    rw [TapeState.step]
    split
    · exact h
    · exact h.todo _
  | close =>
    rw [TapeState.step]
    split
    · exact h
    · exact h.todo _
  | go e =>
    by_cases halive : s.alive = true
    · rw [TapeState.step, if_pos halive, TapeState.go]
      split
      next f hf => exact h.follow e halive hf hcareful
      next =>
        split
        · exact h
        next op todo _ => exact (h.todo todo).perform e op
    · rwa [TapeState.step, if_neg halive]
  | crash => exact restarted (fun day w hw => h.on_disk hcareful hw) ..

end TapeState.Kept

theorem TapeState.kept_initial (csv : Int → Option (List (TapeLine π))) : (initial csv).Kept :=
  ⟨fun _ ht => absurd ht.symm (Option.some_ne_none _), fun _ ht => absurd ht.symm (Option.some_ne_none _),
    fun _ hd => absurd hd.symm (Option.some_ne_none _), fun _ _ hw => absurd hw List.not_mem_nil,
    fun _ hf => absurd hf.symm (Option.some_ne_none _), fun _ hf =>
      absurd hf.symm (Option.some_ne_none _), fun _ => rfl⟩

/-- In every run that crashes only when no sealed session is still to reach its tape, and prunes no tape
    whose day is being recorded, the windows on disk are backed by the tapes at every such point. -/
theorem coverage_backed (dateInt : Int → Int) (csv : Int → Option (List (TapeLine π))) (acts : List (TapeAct π))
    (hcareful : Steps (TapeState.step dateInt) TapeState.Careful (.initial csv) acts)
    (hsafe : (run (TapeState.step dateInt) (.initial csv) acts).exposed = false) :
    (run (TapeState.step dateInt) (.initial csv) acts).disk.Backed := by
  have hkept :=
    run_inv_of_steps (fun s a (h : s.Kept) hok => h.step dateInt a hok) acts
      (TapeState.kept_initial csv) hcareful
  intro day w hw
  exact ((List.filter_sublist).map _).trans (hkept.on_disk hsafe hw)

def sampleDateInt (timestampUs : Int) : Int := (Date.afterEpoch (timestampUs.toNat / 1000000 / 86400)).toInt

/-- A tick of the first day, and one of the second. -/
def sampleDays : RecordedTick Int × RecordedTick Int :=
  ({ timestampUs := 10, price := 100, qty := 1, isBuyerMaker := 0 },
    { timestampUs := 86400000005, price := 101, qty := 1, isBuyerMaker := 0 })

/-- The calls up to the push of the second day, with `n` of its operations, and a crash. -/
def sampleRotation (n : Nat) : List (TapeAct Int) :=
  let go : TapeAct Int := .go { opens := true, entries := [], old := fun _ => false }
  [.start true 7, go, .push sampleDays.1] ++ List.replicate 6 go ++ [.push sampleDays.2] ++
    List.replicate n go ++ [.crash]

theorem coverage_backed_after_rotation :
    (run (TapeState.step sampleDateInt) (.initial fun _ => none) (sampleRotation 7)).disk.Backed :=
  coverage_backed sampleDateInt (fun _ => none) (sampleRotation 7) (by decide +kernel) (by decide +kernel)

/-- A crash behind the seal of the first day: its window is on disk, its tick is not. -/
theorem coverage_not_backed :
    ¬(run (TapeState.step sampleDateInt) (.initial fun _ => none) (sampleRotation 2)).disk.Backed := by
  intro h
  have hwindow := h 19700101 { openUs := 10, lastUs := 10, count := 1, session := [sampleDays.1] } (by decide +kernel)
  revert hwindow
  decide +kernel

end FoxTrader
