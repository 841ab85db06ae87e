import FoxTrader.Lib.CString
import FoxTrader.SnapshotRoundTrip

/-! # Saving over a snapshot

    `ShardedSnapshot_Save` writes a temporary file next to the snapshot and renames it over it. However
    its attempts end, and wherever the process is killed, the snapshot is the one the last complete
    attempt wrote, or the one there was before. The name of the temporary file is cut to fit a buffer:
    for a path of 511 characters it is the path itself, and that is the one length for which an attempt
    writes over the snapshot in place. -/

namespace FoxTrader

open Lib Function

/-- The contents of the files by their paths. -/
abbrev Disk := List Char → Option (List UInt8)

/-- `snprintf(tmppath, 512, "%s.tmp", filepath)`. -/
def tmpPath (filepath : List Char) : List Char := printed 512 (filepath ++ ['.', 't', 'm', 'p'])

/-- How an attempt to save ends: nothing opened, a write or the flush failed, the process killed with some bytes
    written, the rename failed, or the file renamed. -/
inductive SaveOutcome where
  | openFails
  | writeFails
  | killedAfter (written : ℕ)
  | renameFails
  | completes
  deriving DecidableEq

/-- `ShardedSnapshot_Save` on the files: a failed write or rename removes the temporary file. -/
def saveFile (filepath : List Char) (image : List UInt8) (disk : Disk) : SaveOutcome → Disk
  | .openFails => disk
  | .writeFails => update disk (tmpPath filepath) none
  | .killedAfter written => update disk (tmpPath filepath) (some (image.take written))
  | .renameFails => update disk (tmpPath filepath) none
  | .completes => update (update disk (tmpPath filepath) none) filepath (some image)

/-- An attempt: the state, the clock, and how it ends. -/
structure SaveAttempt (ρ : Type) where
  state : SnapshotState ρ
  timestampUs : BitVec 64
  outcome : SaveOutcome

namespace SaveAttempt

variable {ρ : Type}

def image (partialOn : Bool) (a : SaveAttempt ρ) : List UInt8 := a.state.image a.timestampUs partialOn

def completed (a : SaveAttempt ρ) : Bool := a.outcome = .completes

def step (filepath : List Char) (partialOn : Bool) (disk : Disk) (a : SaveAttempt ρ) : Disk :=
  saveFile filepath (a.image partialOn) disk a.outcome

/-- The last attempt that completed. -/
def lastCompleted (as : List (SaveAttempt ρ)) : Option (SaveAttempt ρ) := (as.filter completed).getLast?

end SaveAttempt

theorem tmpPath_eq_iff (filepath : List Char) : tmpPath filepath = filepath ↔ filepath.length = 511 := by
  constructor
  · intro h
    have hlen := congrArg List.length h
    rw [tmpPath, printed, List.length_take, List.length_append] at hlen
    simp only [List.length_cons, List.length_nil] at hlen
    omega
  · intro h
    rw [tmpPath, printed, List.take_left' h]

variable {ρ : Type} {filepath : List Char} {partialOn : Bool}

/-- An attempt leaves the snapshot alone until it completes. -/
theorem saveFile_filepath (hpath : filepath.length ≠ 511) (image : List UInt8) (disk : Disk) (outcome : SaveOutcome) :
    saveFile filepath image disk outcome filepath = if outcome = .completes then some image else disk filepath := by
  have hne : filepath ≠ tmpPath filepath := fun heq => hpath ((tmpPath_eq_iff filepath).1 heq.symm)
  cases outcome with
  | openFails => rfl
  | completes => exact Function.update_self ..
  | _ => exact Function.update_of_ne hne ..

theorem run_saves (hpath : filepath.length ≠ 511) (disk : Disk) (as : List (SaveAttempt ρ)) :
    run (SaveAttempt.step filepath partialOn) disk as filepath =
      ((SaveAttempt.lastCompleted as).map (SaveAttempt.image partialOn)).or (disk filepath) := by
  induction as using List.reverseRecOn with
  | nil => rfl
  | append_singleton as a ih =>
    rw [run_append, run_cons, run_nil, SaveAttempt.step, saveFile_filepath hpath, SaveAttempt.lastCompleted,
      List.filter_append]
    by_cases hdone : a.outcome = .completes
    · have hlast : [a].filter SaveAttempt.completed = [a] := by simp [SaveAttempt.completed, hdone]
      rw [if_pos hdone, hlast, List.getLast?_concat]
      rfl
    · have hlast : [a].filter SaveAttempt.completed = [] := by simp [SaveAttempt.completed, hdone]
      rw [if_neg hdone, hlast, List.append_nil, ih]
      rfl

/-- A killed attempt on a path of 511 characters leaves what it had written in place of the snapshot. -/
theorem saveFile_in_place (hpath : filepath.length = 511) (image : List UInt8) (disk : Disk) (written : ℕ) :
    saveFile filepath image disk (.killedAfter written) filepath = some (image.take written) := by
  rw [saveFile, (tmpPath_eq_iff filepath).2 hpath]
  exact Function.update_self ..

/-- After any number of attempts to save, however each of them ends, the snapshot is that of the last one that
    completed, or the one from before; loading it gives back the state of that attempt. So it is for every path but
    those of 511 characters. -/
theorem snapshot_survives (filepath : List Char) (partialOn : Bool) (exits : RestoredExits) (t : SnapshotState ρ) :
    (∀ (disk : Disk) (as : List (SaveAttempt ρ)),
        run (SaveAttempt.step filepath partialOn) disk as filepath =
            ((SaveAttempt.lastCompleted as).map (SaveAttempt.image partialOn)).or (disk filepath) ∧
          ∀ a, SaveAttempt.lastCompleted as = some a → a.state.registeredCount = t.registeredCount →
            ∃ t', t.load partialOn exits (run (SaveAttempt.step filepath partialOn) disk as filepath) = (true, t') ∧
              SnapshotState.Restored partialOn exits a.state t t') ↔
      filepath.length ≠ 511 := by
  constructor
  · intro h hpath
    have hkill := (h (fun _ => none) [⟨t, 0, .killedAfter 0⟩]).1
    rw [run_cons, run_nil, SaveAttempt.step, saveFile_in_place hpath] at hkill
    exact nomatch hkill
  · intro hpath disk as
    have hfile : run (SaveAttempt.step filepath partialOn) disk as filepath =
        ((SaveAttempt.lastCompleted as).map (SaveAttempt.image partialOn)).or (disk filepath) :=
      run_saves hpath disk as
    refine ⟨hfile, fun a ha hcount => ?_⟩
    rw [hfile, ha]
    have hread : (some (a.image partialOn)).bind (readSnapshot t.registeredCount partialOn) =
        some (a.state.toWire a.timestampUs) := by
      rw [← hcount]
      exact SnapshotState.readSnapshot_image a.timestampUs partialOn a.state
    refine ⟨t.restore partialOn exits (a.state.toWire a.timestampUs), ?_,
      SnapshotState.restored a.timestampUs partialOn exits a.state t hcount⟩
    rw [Option.map_some, Option.some_or]
    simp only [SnapshotState.load, hread]

end FoxTrader
