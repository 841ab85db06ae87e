import Mathlib.Data.List.TakeWhile
import Mathlib.Data.List.Induction
import FoxTrader.Lib.Calendar

/-! # The replay of the recorded book

    The recorder writes one file of book rows a day. `DepthReplayState_Advance` loads the file of the
    day a target time falls on and walks on to the last row not later than the target; whatever is left
    unread of the day before is dropped with its buffer. After a call the snapshot is the row due, that
    is the latest row not later than the target in the files of all days visited, exactly when some
    target on the day of that row has come at or after it. -/

namespace FoxTrader

open Lib

variable {φ ρ : Type}

/-! ### Rows -/

/-- A book at its top level. -/
structure BookSnapshot (φ : Type) where
  bidPrice : φ
  bidQty : φ
  askPrice : φ
  askQty : φ
  spread : φ
  midPrice : φ
  imbalance : φ
  topImbalance : φ
  updateCount : Nat
  lastUpdateId : Nat
  timestampUs : Nat
  deriving DecidableEq

/-- The columns of a row. -/
structure DepthCsvRow (ρ : Type) where
  timestampUs : Nat
  lastUpdateId : Nat
  bidPrice : ρ
  bidQty : ρ
  askPrice : ρ
  askQty : ρ

/-- How a line is read, and the arithmetic of the derived columns. -/
structure DepthFormat (φ ρ : Type) where
  parse : List Char → DepthCsvRow ρ
  zero : φ
  two : φ
  fromDouble : ρ → φ
  sub : φ → φ → φ
  addSat : φ → φ → φ
  divNoAssert : φ → φ → φ
  isZero : φ → Bool

/-- `BookSnapshot_Init`. -/
def DepthFormat.initial (F : DepthFormat φ ρ) : BookSnapshot φ :=
  { bidPrice := F.zero, bidQty := F.zero, askPrice := F.zero, askQty := F.zero, spread := F.zero, midPrice := F.zero
    imbalance := F.zero, topImbalance := F.zero, updateCount := 0, lastUpdateId := 0, timestampUs := 0 }

/-- The `n`-th row of a file. -/
def DepthFormat.row (F : DepthFormat φ ρ) (n : Nat) (line : List Char) : BookSnapshot φ :=
  let r := F.parse line
  let bidPrice := F.fromDouble r.bidPrice
  let bidQty := F.fromDouble r.bidQty
  let askPrice := F.fromDouble r.askPrice
  let askQty := F.fromDouble r.askQty
  let topTotal := F.addSat bidQty askQty
  let topImbalance := if F.isZero topTotal then F.zero else F.divNoAssert (F.sub bidQty askQty) topTotal
  { bidPrice, bidQty, askPrice, askQty, spread := F.sub askPrice bidPrice
    midPrice := F.divNoAssert (F.addSat bidPrice askPrice) F.two, imbalance := topImbalance, topImbalance
    updateCount := n + 1, lastUpdateId := r.lastUpdateId, timestampUs := r.timestampUs }

/-- The lines of a file but its comments and its header. -/
def depthLines (lines : List (List Char)) : List (List Char) := (lines.filter fun line => line.head? ≠ some '#').drop 1

/-- The rows of a file; none if it is missing. -/
def DepthFormat.fileRows (F : DepthFormat φ ρ) : Option (List (List Char)) → List (BookSnapshot φ)
  | none => []
  | some lines => (depthLines lines).mapIdx F.row

/-- `DepthReplay_DateInt`. -/
def depthDateInt (timestampUs : Nat) : Nat := (Date.afterEpoch (timestampUs / 1000000 / 86400)).toInt

/-! ### The replay -/

/-- The files by the date in their names. -/
abbrev DepthFiles : Type := Nat → Option (List (List Char))

structure DepthReplayState (φ : Type) where
  current : BookSnapshot φ
  rows : List (BookSnapshot φ)
  cursor : Nat
  currentDayInt : Int
  filePresent : Bool

namespace DepthReplayState

variable (F : DepthFormat φ ρ) (files : DepthFiles)

/-- `DepthReplayState_Init`. -/
def init : DepthReplayState φ :=
  { current := F.initial, rows := [], cursor := 0, currentDayInt := -1, filePresent := false }

/-- `DepthReplayState_LoadDay`. -/
def loadDay (s : DepthReplayState φ) (dateInt : Nat) : DepthReplayState φ :=
  { s with rows := F.fileRows (files dateInt), cursor := 0, currentDayInt := dateInt, filePresent := (files dateInt).isSome }

/-- The walk over the rows from the cursor on. -/
def walkForward (targetUs : Nat) : List (BookSnapshot φ) → DepthReplayState φ → DepthReplayState φ
  | [], s => s
  | r :: rest, s =>
    if r.timestampUs ≤ targetUs then walkForward targetUs rest { s with current := r, cursor := s.cursor + 1 } else s

/-- `DepthReplayState_Advance`. -/
def advance (s : DepthReplayState φ) (targetUs : Nat) : DepthReplayState φ :=
  let targetDay := depthDateInt targetUs
  let s := if (targetDay : Int) ≠ s.currentDayInt then s.loadDay F files targetDay else s
  walkForward targetUs (s.rows.drop s.cursor) s

/-- The state after the calls with the targets. -/
def replayed (targets : List Nat) : DepthReplayState φ := targets.foldl (advance F files) (init F)

end DepthReplayState

/-! ### The row due -/

/-- The days visited, in their order. -/
def visitedDays (targets : List Nat) : List Nat :=
  targets.foldl (fun days t => if depthDateInt t ∈ days then days else days ++ [depthDateInt t]) []

def visitedRows (F : DepthFormat φ ρ) (files : DepthFiles) (targets : List Nat) : List (BookSnapshot φ) :=
  (visitedDays targets).flatMap fun day => F.fileRows (files day)

/-- The latest row not later than the time in the files of the days visited. -/
def rowDue (F : DepthFormat φ ρ) (files : DepthFiles) (targets : List Nat) (targetUs : Nat) :
    Option (BookSnapshot φ) :=
  ((visitedRows F files targets).filter fun r => r.timestampUs ≤ targetUs).getLast?

/-- Some target on the day of the row has come at or after it. -/
def Reached (targets : List Nat) (r : BookSnapshot φ) : Prop :=
  ∃ t ∈ targets, depthDateInt t = depthDateInt r.timestampUs ∧ r.timestampUs ≤ t

instance (targets : List Nat) (r : BookSnapshot φ) : Decidable (Reached targets r) :=
  inferInstanceAs (Decidable (∃ t ∈ targets, depthDateInt t = depthDateInt r.timestampUs ∧ r.timestampUs ≤ t))

/-- The files are those of a recorder: sorted, and each with the rows of its day. -/
structure DepthFiles.Recorded (F : DepthFormat φ ρ) (files : DepthFiles) : Prop where
  daily : ∀ day, ∀ r ∈ F.fileRows (files day), depthDateInt r.timestampUs = day
  sorted : ∀ day, (F.fileRows (files day)).Pairwise fun r r' => r.timestampUs ≤ r'.timestampUs

theorem depthDateInt_mono {t t' : Nat} (h : t ≤ t') : depthDateInt t ≤ depthDateInt t' :=
  Date.toInt_strictMono.monotone (Nat.div_le_div_right (Nat.div_le_div_right h))

/-! ### The walk -/

abbrev NotLater (targetUs : Nat) (r : BookSnapshot φ) : Bool := r.timestampUs ≤ targetUs

theorem notLater_of_le {t : Nat} {r : BookSnapshot φ} (h : r.timestampUs ≤ t) :
    NotLater t r = true := decide_eq_true h

theorem not_notLater {t : Nat} {r : BookSnapshot φ} (h : ¬r.timestampUs ≤ t) : ¬NotLater t r = true := by
  rwa [decide_eq_true_eq]

/-- A walk on from where an earlier one stopped. -/
theorem takeWhile_walk {t t' : Nat} (h : t ≤ t') : ∀ rows : List (BookSnapshot φ),
    rows.takeWhile (NotLater t') =
      rows.takeWhile (NotLater t) ++ (rows.drop (rows.takeWhile (NotLater t)).length).takeWhile (NotLater t')
  | [] => rfl
  | r :: rows => by
    by_cases hr : r.timestampUs ≤ t
    · rw [List.takeWhile_cons_of_pos (notLater_of_le (hr.trans h)), List.takeWhile_cons_of_pos (notLater_of_le hr),
        List.length_cons, List.drop_succ_cons, List.cons_append, ← takeWhile_walk h rows]
    · rw [List.takeWhile_cons_of_neg (not_notLater hr)]
      rfl

/-- In sorted rows the walk meets exactly the rows not later than the target. -/
theorem filter_eq_takeWhile {t : Nat} :
    ∀ {rows : List (BookSnapshot φ)}, (rows.Pairwise fun r r' => r.timestampUs ≤ r'.timestampUs) →
    rows.filter (NotLater t) = rows.takeWhile (NotLater t)
  | [], _ => rfl
  | r :: rows, h => by
    obtain ⟨hle, hrows⟩ := List.pairwise_cons.1 h
    by_cases hr : r.timestampUs ≤ t
    · rw [List.filter_cons_of_pos (notLater_of_le hr), List.takeWhile_cons_of_pos (notLater_of_le hr),
        filter_eq_takeWhile hrows]
    · rw [List.takeWhile_cons_of_neg (not_notLater hr)]
      refine List.filter_eq_nil_iff.2 fun r' hr' => ?_
      rcases List.mem_cons.1 hr' with rfl | hr'
      · exact not_notLater hr
      · have hlater := hle r' hr'
        exact not_notLater (by omega)

theorem getLast?_append_getD (a b : List (BookSnapshot φ)) (x : BookSnapshot φ) :
    (a ++ b).getLast?.getD x = b.getLast?.getD (a.getLast?.getD x) := by
  rw [List.getLast?_append]
  cases b.getLast? <;> rfl

namespace DepthReplayState

theorem walkForward_eq (t : Nat) : ∀ (rows : List (BookSnapshot φ)) (s : DepthReplayState φ),
    walkForward t rows s = { s with current := (rows.takeWhile (NotLater t)).getLast?.getD s.current
                                    cursor := s.cursor + (rows.takeWhile (NotLater t)).length }
  | [], s => rfl
  | r :: rows, s => by
    rw [walkForward]
    by_cases hr : r.timestampUs ≤ t
    · rw [if_pos hr, walkForward_eq t rows, List.takeWhile_cons_of_pos (notLater_of_le hr), List.length_cons,
        Nat.add_right_comm,
        List.getLast?_cons, Option.getD_some]
      rfl
    · rw [if_neg hr, List.takeWhile_cons_of_neg (not_notLater hr)]
      rfl

end DepthReplayState

/-! ### The rows read -/

theorem visitedDays_concat (targets : List Nat) (t : Nat) :
    visitedDays (targets ++ [t]) =
      if depthDateInt t ∈ visitedDays targets then visitedDays targets
        else visitedDays targets ++ [depthDateInt t] := by
  rw [visitedDays, List.foldl_append]
  rfl

variable {F : DepthFormat φ ρ} {files : DepthFiles}

/-- The rows reached: of the days before as they were left, of the last day those not later than its last
    target. -/
theorem reached_rows (hfiles : files.Recorded F) {targets before : List Nat} {t : Nat}
    (hvisited : visitedDays targets = before ++ [depthDateInt t]) (hmem : t ∈ targets)
    (hlatest : ∀ t' ∈ targets, t' ≤ t) :
    (visitedRows F files targets).filter (fun r => Reached targets r) =
      (before.flatMap fun day => F.fileRows (files day)).filter (fun r => Reached targets r) ++
        (F.fileRows (files (depthDateInt t))).takeWhile (NotLater t) := by
  rw [visitedRows, hvisited, List.flatMap_append, List.flatMap_singleton, List.filter_append,
    ← filter_eq_takeWhile (hfiles.sorted _)]
  refine congrArg _ (List.filter_congr fun r hr => decide_eq_decide.2 ⟨?_, fun hle => ?_⟩)
  · rintro ⟨t', ht', -, hle⟩
    exact hle.trans (hlatest t' ht')
  · exact ⟨t, hmem, (hfiles.daily _ r hr).symm, hle⟩

/-- A target on another day reaches nothing more of the days before. -/
theorem reached_concat (hfiles : files.Recorded F) {targets before : List Nat} {t : Nat}
    (hbefore : ∀ day ∈ before, day < depthDateInt t) :
    (before.flatMap fun day => F.fileRows (files day)).filter (fun r => Reached (targets ++ [t]) r) =
      (before.flatMap fun day => F.fileRows (files day)).filter (fun r => Reached targets r) := by
  refine List.filter_congr fun r hr => decide_eq_decide.2 ⟨?_, ?_⟩
  · rintro ⟨t', ht', hday, hle⟩
    rcases List.mem_append.1 ht' with ht' | ht'
    · exact ⟨t', ht', hday, hle⟩
    · obtain ⟨day, hmem, hrow⟩ := List.mem_flatMap.1 hr
      have hlt := hbefore day hmem
      rw [List.mem_singleton.1 ht', hfiles.daily day r hrow] at hday
      omega
  · rintro ⟨t', ht', hrest⟩
    exact ⟨t', List.mem_append_left _ ht', hrest⟩

/-- The state after targets with `t` as the last one. -/
structure Follows (F : DepthFormat φ ρ) (files : DepthFiles) (targets : List Nat) (t : Nat)
    (s : DepthReplayState φ) : Prop where
  day : s.currentDayInt = depthDateInt t
  rows : s.rows = F.fileRows (files (depthDateInt t))
  cursor : s.cursor = (s.rows.takeWhile (NotLater t)).length
  current : s.current = ((visitedRows F files targets).filter fun r => Reached targets r).getLast?.getD F.initial
  visited : ∃ before, visitedDays targets = before ++ [depthDateInt t] ∧ ∀ day ∈ before, day < depthDateInt t
  mem : t ∈ targets
  latest : ∀ t' ∈ targets, t' ≤ t

/-- The first target on a day loads its file, and what is reached of the days before stays the current row. -/
theorem follows_new_day (hfiles : files.Recorded F) {targets : List Nat} {s : DepthReplayState φ} {t : Nat}
    (hday : s.currentDayInt ≠ depthDateInt t) (hbefore : ∀ day ∈ visitedDays targets, day < depthDateInt t)
    (hlatest : ∀ t' ∈ targets, t' ≤ t)
    (hcurrent : s.current = ((visitedRows F files targets).filter fun r => Reached targets r).getLast?.getD F.initial) :
    Follows F files (targets ++ [t]) t (s.advance F files t) := by
  have hvisited : visitedDays (targets ++ [t]) = visitedDays targets ++ [depthDateInt t] := by
    rw [visitedDays_concat, if_neg fun hmem => Nat.lt_irrefl _ (hbefore _ hmem)]
  have hmem : t ∈ targets ++ [t] := List.mem_append_right _ (List.mem_singleton_self t)
  have hlatest' : ∀ t' ∈ targets ++ [t], t' ≤ t := by
    intro t' ht'
    rcases List.mem_append.1 ht' with ht' | ht'
    · exact hlatest t' ht'
    · exact (List.mem_singleton.1 ht').le
  rw [DepthReplayState.advance, if_pos (Ne.symm hday), DepthReplayState.walkForward_eq]
  refine ⟨rfl, rfl, ?_, ?_, ⟨_, hvisited, hbefore⟩, hmem, hlatest'⟩
  · exact Nat.zero_add _
  · rw [reached_rows hfiles hvisited hmem hlatest', reached_concat hfiles hbefore, getLast?_append_getD]
    rw [visitedRows] at hcurrent
    rw [← hcurrent]
    rfl

/-- A later target on the same day walks on. -/
theorem Follows.same_day (hfiles : files.Recorded F) {targets : List Nat} {s : DepthReplayState φ} {t t' : Nat}
    (h : Follows F files targets t s) (hle : t ≤ t') (hday : depthDateInt t' = depthDateInt t) :
    Follows F files (targets ++ [t']) t' (s.advance F files t') := by
  obtain ⟨before, hvisited, hbefore⟩ := h.visited
  have hvisited' : visitedDays (targets ++ [t']) = before ++ [depthDateInt t'] := by
    rw [visitedDays_concat, hday, hvisited, if_pos (List.mem_append_right _ (List.mem_singleton_self _))]
  have hmem : t' ∈ targets ++ [t'] := List.mem_append_right _ (List.mem_singleton_self t')
  have hlatest : ∀ x ∈ targets ++ [t'], x ≤ t' := by
    intro x hx
    rcases List.mem_append.1 hx with hx | hx
    · exact (h.latest x hx).trans hle
    · exact (List.mem_singleton.1 hx).le
  have hbefore' : ∀ day ∈ before, day < depthDateInt t' := by rwa [hday]
  have hwalk := takeWhile_walk hle s.rows
  rw [DepthReplayState.advance,
    if_neg (by rw [h.day, hday]; exact fun hne => hne rfl), DepthReplayState.walkForward_eq]
  refine ⟨by rw [hday]; exact h.day, by rw [hday]; exact h.rows, ?_, ?_, ⟨before, hvisited', hbefore'⟩, hmem, hlatest⟩
  · simp only [hwalk, List.length_append, h.cursor]
  · rw [reached_rows hfiles hvisited' hmem hlatest, reached_concat hfiles hbefore', hday, ← h.rows, hwalk,
      ← List.append_assoc,
      getLast?_append_getD, h.rows, ← reached_rows hfiles hvisited h.mem h.latest, ← h.current, h.cursor, h.rows]

theorem Follows.advance (hfiles : files.Recorded F) {targets : List Nat} {s : DepthReplayState φ} {t t' : Nat}
    (h : Follows F files targets t s) (hle : t ≤ t') :
    Follows F files (targets ++ [t']) t' (s.advance F files t') := by
  by_cases hday : depthDateInt t' = depthDateInt t
  · exact h.same_day hfiles hle hday
  · have hlater : depthDateInt t < depthDateInt t' := lt_of_le_of_ne (depthDateInt_mono hle) (Ne.symm hday)
    obtain ⟨before, hvisited, hbefore⟩ := h.visited
    refine follows_new_day hfiles (by rw [h.day]; omega) (fun day hmem => ?_)
      (fun x hx => (h.latest x hx).trans hle) h.current
    rw [hvisited] at hmem
    rcases List.mem_append.1 hmem with hmem | hmem
    · exact (hbefore day hmem).trans hlater
    · rwa [List.mem_singleton.1 hmem]

/-- After every call of a run the state follows the targets. -/
theorem follows_replayed (hfiles : files.Recorded F) (targets : List Nat) (t : Nat)
    (hsorted : (targets ++ [t]).Pairwise (· ≤ ·)) :
    Follows F files (targets ++ [t]) t (DepthReplayState.replayed F files (targets ++ [t])) := by
  induction targets using List.reverseRecOn generalizing t with
  | nil =>
    exact follows_new_day hfiles (by simp only [DepthReplayState.init]; omega) (fun _ h => absurd h List.not_mem_nil)
      (fun _ h => absurd h List.not_mem_nil) rfl
  | append_singleton targets t₀ ih =>
    obtain ⟨hbefore, -, hle⟩ := List.pairwise_append.1 hsorted
    rw [DepthReplayState.replayed, List.foldl_append]
    exact (ih t₀ hbefore).advance hfiles
      (hle t₀ (List.mem_append_right _ (List.mem_singleton_self t₀)) t (List.mem_singleton_self t))

theorem updateCount_pos {day : Nat} {r : BookSnapshot φ} (h : r ∈ F.fileRows (files day)) : 0 < r.updateCount := by
  cases hfile : files day with
  | none => rw [hfile] at h; exact absurd h List.not_mem_nil
  | some lines =>
    rw [hfile] at h
    obtain ⟨i, hi, rfl⟩ := List.mem_mapIdx.1 h
    exact Nat.succ_pos i

theorem rowDue_updateCount_pos {targets : List Nat} {t : Nat} {r : BookSnapshot φ}
    (h : rowDue F files targets t = some r) :
    0 < r.updateCount := by
  obtain ⟨day, -, hrow⟩ := List.mem_flatMap.1 (List.mem_filter.1 (List.mem_of_getLast? h)).1
  exact updateCount_pos hrow

/-- After every call the snapshot is the row due if and only if some target on the day of that row has
    come at or after it. -/
theorem current_is_row_due (hfiles : files.Recorded F) (targets : List Nat) (t : Nat)
    (hsorted : (targets ++ [t]).Pairwise (· ≤ ·)) :
    (DepthReplayState.replayed F files (targets ++ [t])).current =
      (rowDue F files (targets ++ [t]) t).getD F.initial ↔
      ∀ r, rowDue F files (targets ++ [t]) t = some r → Reached (targets ++ [t]) r := by
  have h := follows_replayed hfiles targets t hsorted
  have hreached : (visitedRows F files (targets ++ [t])).filter (fun r => Reached (targets ++ [t]) r) =
      ((visitedRows F files (targets ++ [t])).filter (NotLater t)).filter fun r => Reached (targets ++ [t]) r := by
    rw [List.filter_filter]
    refine List.filter_congr fun r _ => Bool.eq_iff_iff.2 ?_
    rw [Bool.and_eq_true, decide_eq_true_eq, decide_eq_true_eq]
    refine ⟨fun hr => ⟨hr, ?_⟩, And.left⟩
    obtain ⟨t', ht', -, hle⟩ := hr
    exact hle.trans (h.latest t' ht')
  rw [h.current, hreached]
  rcases List.eq_nil_or_concat ((visitedRows F files (targets ++ [t])).filter (NotLater t)) with hnil |
    ⟨rows, r, hconcat⟩
  · have hdue : rowDue F files (targets ++ [t]) t = none := congrArg List.getLast? hnil
    rw [hnil, hdue]
    exact ⟨fun _ r hr => absurd hr.symm (Option.some_ne_none r), fun _ => rfl⟩
  · have hrows := hconcat.trans (List.concat_eq_append ..)
    have hdue : rowDue F files (targets ++ [t]) t = some r :=
      (congrArg List.getLast? hrows).trans List.getLast?_concat
    rw [hrows, hdue, List.filter_append, Option.getD_some]
    constructor
    · intro heq r' hr'
      obtain rfl := Option.some.inj hr'
      by_contra hmissed
      rw [List.filter_cons_of_neg (by simpa using hmissed), List.filter_nil, List.append_nil] at heq
      cases hlast : (rows.filter fun r => Reached (targets ++ [t]) r).getLast? with
      | none =>
        rw [hlast, Option.getD_none] at heq
        have hpos := rowDue_updateCount_pos hdue
        rw [← heq] at hpos
        exact Nat.lt_irrefl 0 hpos
      | some r' =>
        rw [hlast, Option.getD_some] at heq
        have hr'' := (List.mem_filter.1 (List.mem_of_getLast? hlast)).2
        rw [heq] at hr''
        exact hmissed (of_decide_eq_true hr'')
    · intro hr
      rw [List.filter_cons_of_pos (by simpa using hr r rfl), List.filter_nil, List.getLast?_concat, Option.getD_some]

/-- A format of plain decimal rows. -/
def sampleDepthFormat : DepthFormat Int Int :=
  { parse := fun line =>
      let digits := fun field : List Char => field.foldl (fun n c => 10 * n + (c.toNat - 48)) 0
      match line.splitOn ',' with
      | [timestampUs, lastUpdateId, bidPrice, bidQty, askPrice, askQty] =>
        { timestampUs := digits timestampUs, lastUpdateId := digits lastUpdateId, bidPrice := digits bidPrice
          bidQty := digits bidQty, askPrice := digits askPrice, askQty := digits askQty }
      | _ => { timestampUs := 0, lastUpdateId := 0, bidPrice := 0, bidQty := 0, askPrice := 0, askQty := 0 }
    zero := 0, two := 2, fromDouble := id, sub := fun x y => x - y, addSat := fun x y => x + y
    divNoAssert := fun x y => x / y, isZero := fun x => x = 0 }

/-- One recorded day with rows at 10 and 50 microseconds, and no file for any other. -/
def sampleDepthFiles : DepthFiles := fun day =>
  if day = 19700101 then
    some ["timestamp_us,last_update_id,bid_price,bid_qty,ask_price,ask_qty".toList, "10,1,100,3,102,1".toList,
      "# GAP at_us=30 reason=wallclock_gap last_seen_id=1".toList, "50,2,104,1,106,1".toList]
  else none

theorem sampleDepthFiles_recorded : sampleDepthFiles.Recorded sampleDepthFormat := by
  have hday : (∀ r ∈ sampleDepthFormat.fileRows (sampleDepthFiles 19700101), depthDateInt r.timestampUs = 19700101) ∧
      (sampleDepthFormat.fileRows (sampleDepthFiles 19700101)).Pairwise fun r r' =>
        r.timestampUs ≤ r'.timestampUs := by
    decide +kernel
  have hnone : ∀ day, day ≠ 19700101 → sampleDepthFormat.fileRows (sampleDepthFiles day) = [] := fun day hne =>
    congrArg sampleDepthFormat.fileRows (if_neg hne)
  constructor
  · intro day r hr
    by_cases heq : day = 19700101
    · rw [heq] at hr ⊢
      exact hday.1 r hr
    · rw [hnone day heq] at hr
      exact absurd hr List.not_mem_nil
  · intro day
    by_cases heq : day = 19700101
    · rw [heq]
      exact hday.2
    · rw [hnone day heq]
      exact .nil

theorem current_is_row_due_next_day :
    (DepthReplayState.replayed sampleDepthFormat sampleDepthFiles ([60] ++ [86400000000])).current =
        (rowDue sampleDepthFormat sampleDepthFiles ([60] ++ [86400000000]) 86400000000).getD sampleDepthFormat.initial ↔
      ∀ r, rowDue sampleDepthFormat sampleDepthFiles ([60] ++ [86400000000]) 86400000000 = some r →
        Reached ([60] ++ [86400000000]) r :=
  current_is_row_due sampleDepthFiles_recorded [60] 86400000000 (by decide)

/-- The row at 50 microseconds is never shown if the last target of its day came before it. -/
theorem current_is_not_row_due :
    (DepthReplayState.replayed sampleDepthFormat sampleDepthFiles [20, 86400000000]).current.timestampUs = 10 ∧
      (rowDue sampleDepthFormat sampleDepthFiles [20, 86400000000] 86400000000).map (·.timestampUs) = some 50 := by
  decide +kernel

end FoxTrader
