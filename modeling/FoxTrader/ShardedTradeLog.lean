import FoxTrader.Lib.AppendOnly
import FoxTrader.Lib.Run

/-! # The trade log and its mirrors

    Every fill is a row of the aggregate file and of the mirror of its node. `ShardedTradeLog_Rotate`
    closes all seventeen files, gives each a backup name with the time in it, and opens them afresh.

    Opens and renames may fail, each for itself, and the clock may show the same time twice. A rename
    that fails leaves the mirrors closed, and one to a name that is taken overwrites the file there.

    The files are those of the directory by symbol, kind and time in the name, and a row is in its file as
    soon as it is written. -/

namespace FoxTrader

open Lib Function

variable {α : Type}

/-- `MAX_EXECUTION_NODES`. -/
abbrev logNodes : Nat := 16

/-- The aggregate file and the mirrors. -/
inductive LogFile where
  | aggregate
  | node (c : Nat)
  deriving DecidableEq

/-- What `localtime` shows. -/
structure LogTime where
  year : Nat
  mon : Nat
  mday : Nat
  hour : Nat
  min : Nat
  sec : Nat
  deriving DecidableEq

/-- `logging/SYMBOL_order_history.csv` or `logging/SYMBOL_node_N_order_history.csv`; a backup has the
    time before the extension. -/
structure LogPath where
  symbol : List Char
  file : LogFile
  time : Option LogTime
  deriving DecidableEq

/-- The part of a name between the symbol and the time. -/
def LogFile.middle : LogFile → List Char
  | aggregate => "_order_history".toList
  | node c => "_node_".toList ++ Nat.toDigits 10 c ++ "_order_history".toList

/-- The name of a file that is no backup. -/
def logName (symbol : List Char) (file : LogFile) : List Char :=
  "logging/".toList ++ symbol ++ file.middle ++ ".csv".toList

/-- Whether `snprintf` has room for the name. -/
def nameFits (symbol : List Char) (file : LogFile) : Bool := (logName symbol file).length < 256

/-- The columns of `FOREACH_TRADE_LOG_COL`. -/
structure TradeRow (α : Type) where
  timestampUs : Nat
  nodeId : Nat
  strategyId : Nat
  eventType : Char
  price : α
  entryPrice : α
  exitPrice : α
  pnl : α
  fees : α
  balanceAfter : α
  tradeSize : α
  regime : Int
  regimeName : String
  slotId : Nat
  leg : Nat
  deriving DecidableEq

/-- The two lines at the top, and the rows. -/
inductive LogLine (α : Type) where
  | comment (file : LogFile) (symbol : List Char)
  | columns
  | row (r : TradeRow α)
  deriving DecidableEq

def LogLine.row? : LogLine α → Option (TradeRow α)
  | row r => some r
  | _ => none

abbrev LogDisk (α : Type) : Type := LogPath → Option (List (LogLine α))

/-- The symbol as the log keeps it: as much of it as 31 characters. -/
structure LogSymbol where
  text : List Char
  short : text.length ≤ 31

def LogSymbol.of (symbol : List Char) : LogSymbol := ⟨symbol.take 31, List.length_take_le 31 symbol⟩

/-- The open files are known by their names. -/
structure ShardedTradeLog where
  file : Option LogPath
  rowCount : Nat
  writesTruncated : Nat
  partialExitEnabled : Bool
  symbol : LogSymbol
  perNodeFiles : Nat → Option LogPath

/-- The directory and the log. Beside them stand the times in the names of the backups of each file, in
    the order in which the backups were made. -/
structure LogWorld (α : Type) where
  disk : LogDisk α
  log : ShardedTradeLog
  backups : List Char → LogFile → List LogTime

/-- How the opens of a file end: the probe for content, and the one to append. -/
structure OpenAnswer where
  probe : Bool
  opens : Bool

/-- The clock, and how the file operations of a rotation end. -/
structure RotateAnswer where
  now : LogTime
  renames : LogFile → Bool
  reopens : Bool
  opens : LogFile → OpenAnswer

/-- What a fill brings: `fees` is the entry fee of an entry and the total of an exit. -/
structure LoggedFill (α : Type) where
  timestamp : Nat
  price : α
  slot : Int
  strategyId : Nat
  entryPrice : α
  exitPrice : α
  tradeSize : α
  netPnl : α
  fees : α
  balanceAfter : α
  regime : Int

namespace ShardedTradeLog

/-! ### Files -/

/-- The file of a kind that is being written. -/
def current (symbol : List Char) (file : LogFile) : LogPath := ⟨symbol, file, none⟩

def backup (symbol : List Char) (file : LogFile) (time : LogTime) : LogPath := ⟨symbol, file, some time⟩

/-- The lines are put behind those the file has; a file that is not there is made. -/
def append (disk : LogDisk α) (path : LogPath) (lines : List (LogLine α)) : LogDisk α :=
  update disk path (some ((disk path).getD [] ++ lines))

/-- The file is opened to append. It gets its top lines if the probe found nothing in it. -/
def openFile (disk : LogDisk α) (path : LogPath) (answer : OpenAnswer) : Option (LogDisk α) :=
  let hasContent := answer.probe && (disk path).any fun lines => !lines.isEmpty
  if answer.opens then
    some (append disk path (if hasContent then [] else [.comment path.file path.symbol, .columns])) else none

def rename (disk : LogDisk α) (ok : Bool) (src dst : LogPath) : Option (LogDisk α) :=
  match disk src with
  | none => none
  | some lines => if ok then some (update (update disk dst (some lines)) src none) else none

/-! ### The operations -/

/-- The mirrors opened so far. -/
structure Mirrors (α : Type) where
  disk : LogDisk α
  files : Nat → Option LogPath

def openMirror (symbol : List Char) (opens : LogFile → OpenAnswer) (m : Mirrors α) (c : Nat) : Mirrors α :=
  if nameFits symbol (.node c) then
    match openFile m.disk (current symbol (.node c)) (opens (.node c)) with
    | none => m
    | some disk => { disk, files := update m.files c (some (current symbol (.node c))) }
  else m

/-- `ShardedTradeLog_Init`. -/
def init (symbol : List Char) (partialExitEnabled : Bool) (opens : LogFile → OpenAnswer) (w : LogWorld α) :
    Bool × LogWorld α :=
  let log : ShardedTradeLog :=
    { file := none, rowCount := 0, writesTruncated := 0, partialExitEnabled, symbol := .of symbol,
      perNodeFiles := fun _ => none }
  if nameFits symbol .aggregate then
    match openFile w.disk (current symbol .aggregate) (opens .aggregate) with
    | none => (false, { w with log })
    | some disk =>
      let mirrors := (List.range logNodes).foldl (openMirror symbol opens) { disk, files := fun _ => none }
      (true, { w with
        disk := mirrors.disk,
          log := { log with file := some (current symbol .aggregate), perNodeFiles := mirrors.files } })
  else (false, { w with log })

/-- `ShardedTradeLog_Close`. -/
def close (w : LogWorld α) : LogWorld α :=
  { w with log := { w.log with file := none, perNodeFiles := fun _ => none } }

/-- The file gets its backup name, if the system does it. -/
def rotateFile (symbol : List Char) (answer : RotateAnswer) (w : LogWorld α) (file : LogFile) : Option (LogWorld α) :=
  match rename w.disk (answer.renames file) (current symbol file) (backup symbol file answer.now) with
  | none => none
  | some disk =>
    some { w with
      disk, backups := update w.backups symbol
        (update (w.backups symbol) file ((w.backups symbol file).filter (· ≠ answer.now) ++ [answer.now])) }

/-- `ShardedTradeLog_Rotate`. The names of a symbol that the log keeps have room. -/
def rotate (answer : RotateAnswer) (w : LogWorld α) : Bool × LogWorld α :=
  if w.log.file = none ∨ w.log.symbol.text = [] then (false, w)
  else
    let symbol := w.log.symbol.text
    match rotateFile symbol answer (close w) .aggregate with
    | none =>
      if answer.reopens then
        let log := { w.log with file := some (current symbol .aggregate), perNodeFiles := fun _ => none }
        (false, { w with disk := append w.disk (current symbol .aggregate) [], log })
      else (false, close w)
    | some w' =>
      let rotated := (List.range logNodes).foldl (fun w c => (rotateFile symbol answer w (.node c)).getD w) w'
      init symbol w.log.partialExitEnabled answer.opens rotated

/-- The names of `REGIME_INFO`. -/
def regimeNames : List String := ["RANGING", "TRENDING", "VOLATILE", "TRENDING_DOWN", "MILD_TREND"]

def regimeName (regime : Int) : String :=
  if 0 ≤ regime then regimeNames.getD regime.toNat "UNKNOWN" else "UNKNOWN"

/-- `BITMAP_SLOT_NODE`, as an unsigned word. -/
def slotNode (partialExitEnabled : Bool) (slot : Int) : Nat :=
  ((if partialExitEnabled then slot / 2 else slot) % 4294967296).toNat

def slotWord (slot : Int) : Nat := (slot % 4294967296).toNat

/-- The leg of a slot. -/
def slotLeg (partialExitEnabled : Bool) (slot : Int) : Nat := if partialExitEnabled then slotWord slot % 2 else 0

/-- The row of an entry: what only an exit has is 0. -/
def entryRow [Zero α] (log : ShardedTradeLog) (fill : LoggedFill α) : TradeRow α :=
  { timestampUs := fill.timestamp, nodeId := slotNode log.partialExitEnabled fill.slot, strategyId := fill.strategyId
    eventType := 'E', price := fill.price, entryPrice := fill.entryPrice, exitPrice := 0, pnl := 0, fees := fill.fees
    balanceAfter := fill.balanceAfter, tradeSize := fill.tradeSize, regime := fill.regime
    regimeName := regimeName fill.regime, slotId := slotWord fill.slot,
      leg := slotLeg log.partialExitEnabled fill.slot }

def exitRow (log : ShardedTradeLog) (fill : LoggedFill α) : TradeRow α :=
  { timestampUs := fill.timestamp, nodeId := slotNode log.partialExitEnabled fill.slot, strategyId := fill.strategyId
    eventType := 'X', price := fill.price, entryPrice := fill.entryPrice, exitPrice := fill.exitPrice, pnl := fill.netPnl
    fees := fill.fees, balanceAfter := fill.balanceAfter, tradeSize := fill.tradeSize, regime := fill.regime
    regimeName := regimeName fill.regime, slotId := slotWord fill.slot,
      leg := slotLeg log.partialExitEnabled fill.slot }

/-- `ShardedTradeLog_WriteRow`. -/
def writeRow (file : LogPath) (row : TradeRow α) (w : LogWorld α) : LogWorld α :=
  let disk := append w.disk file [.row row]
  let disk := if row.nodeId < logNodes then
      match w.log.perNodeFiles row.nodeId with
      | none => disk
      | some mirror => append disk mirror [.row row]
    else disk
  { w with disk, log := { w.log with rowCount := w.log.rowCount + 1 } }

/-- A row is written if its text has room, else counted. -/
def record (fits : TradeRow α → Bool) (row : TradeRow α) (w : LogWorld α) : LogWorld α :=
  match w.log.file with
  | none => w
  | some file =>
    if fits row then writeRow file row w
    else { w with log := { w.log with writesTruncated := w.log.writesTruncated + 1 } }

end ShardedTradeLog

inductive TradeLogAct (α : Type) where
  | init (symbol : List Char) (partialExitEnabled : Bool) (opens : LogFile → OpenAnswer)
  | recordEntry (fill : LoggedFill α)
  | recordExit (fill : LoggedFill α)
  | rotate (answer : RotateAnswer)
  | close

namespace LogWorld

open ShardedTradeLog

/-- The log before its first `init`, in a directory with any files. -/
def start (disk : LogDisk α) : LogWorld α :=
  { disk, backups := fun _ _ => []
    log :=
      { file := none, rowCount := 0, writesTruncated := 0, partialExitEnabled := false, symbol := .of []
        perNodeFiles := fun _ => none } }

variable [Zero α] (fits : TradeRow α → Bool)

def step (w : LogWorld α) : TradeLogAct α → LogWorld α
  | .init symbol partialExitEnabled opens => (ShardedTradeLog.init symbol partialExitEnabled opens w).2
  | .recordEntry fill => record fits (entryRow w.log fill) w
  | .recordExit fill => record fits (exitRow w.log fill) w
  | .rotate answer => (ShardedTradeLog.rotate answer w).2
  | .close => ShardedTradeLog.close w

end LogWorld

namespace ShardedTradeLog

/-! ### What the files hold -/

/-- The rows of each file. -/
def rows (disk : LogDisk α) (path : LogPath) : List (TradeRow α) := ((disk path).getD []).filterMap LogLine.row?

/-- All rows of a file: those of its backups, in the order in which they were made, and then its own. -/
def content (w : LogWorld α) (symbol : List Char) (file : LogFile) : List (TradeRow α) :=
  (w.backups symbol file).flatMap (fun time => rows w.disk (backup symbol file time)) ++ rows w.disk
    (current symbol file)

/-- What the aggregate file has got from one state to the other, each mirror has got of its node. -/
def Mirrored (w w' : LogWorld α) : Prop :=
  ∀ symbol c, c < logNodes → ∃ more, content w' symbol .aggregate = content w symbol .aggregate ++ more ∧
    content w' symbol (.node c) = content w symbol (.node c) ++ more.filter fun row => row.nodeId = c

/-- Every row is where it was, or in the backup of its file. -/
structure Carried (w w' : LogWorld α) : Prop where
  kept : AppendOnly.Kept (rows w.disk) (rows w'.disk)
  content : content w' = content w

/-- What was promised of the log, in a run from a directory with any files. -/
structure Holds [Zero α] (fits : TradeRow α → Bool) (disk : LogDisk α) (acts : List (TradeLogAct α)) : Prop where
  kept : ∀ before after, acts = before ++ after →
    AppendOnly.Kept (rows (run (LogWorld.step fits) (.start disk) before).disk)
      (rows (run (LogWorld.step fits) (.start disk) acts).disk)
  refused : ∀ before answer after, acts = before ++ .rotate answer :: after →
    (rotate answer (run (LogWorld.step fits) (.start disk) before)).1 = false →
    (rotate answer (run (LogWorld.step fits) (.start disk) before)).2.log.file =
        (run (LogWorld.step fits) (.start disk) before).log.file ∧
      ∀ c, (run (LogWorld.step fits) (.start disk) before).log.perNodeFiles c ≠ none →
        (rotate answer (run (LogWorld.step fits) (.start disk) before)).2.log.perNodeFiles c =
          (run (LogWorld.step fits) (.start disk) before).log.perNodeFiles c
  mirrored : Mirrored (.start disk) (run (LogWorld.step fits) (.start disk) acts)

/-! ### When it holds -/

/-- The rotation gives the file its backup name. -/
def Goes (answer : RotateAnswer) (w : LogWorld α) (file : LogFile) : Prop :=
  w.disk (current w.log.symbol.text file) ≠ none ∧ answer.renames file = true

/-- No backup is overwritten, and the log goes on: in a new aggregate file, or in the old one if there was
    no mirror. -/
structure CalmRotate (answer : RotateAnswer) (w : LogWorld α) : Prop where
  aggregate : Goes answer w .aggregate → rows w.disk (backup w.log.symbol.text .aggregate answer.now) = []
  mirrors : Goes answer w .aggregate → ∀ c < logNodes, Goes answer w (.node c) →
    rows w.disk (backup w.log.symbol.text (.node c) answer.now) = []
  goesOn : (Goes answer w .aggregate ∧ (answer.opens .aggregate).opens = true) ∨
    (¬Goes answer w .aggregate ∧ answer.reopens = true ∧ w.log.file = some (current w.log.symbol.text .aggregate) ∧
      ∀ c, w.log.perNodeFiles c = none)

/-- A row that is written has an open mirror. -/
def CalmRecord (fits : TradeRow α → Bool) (row : TradeRow α) (w : LogWorld α) : Prop :=
  w.log.file ≠ none → fits row = true → row.nodeId < logNodes → w.log.perNodeFiles row.nodeId ≠ none

def Calm [Zero α] (fits : TradeRow α → Bool) (w : LogWorld α) : TradeLogAct α → Prop
  | .init .. => True
  | .recordEntry fill => CalmRecord fits (entryRow w.log fill) w
  | .recordExit fill => CalmRecord fits (exitRow w.log fill) w
  | .rotate answer => w.log.file ≠ none → w.log.symbol.text ≠ [] → CalmRotate answer w
  | .close => True

/-! ### Files -/

section Files

variable {disk disk' : LogDisk α} {w w' w'' : LogWorld α} {symbol : List Char} {file : LogFile}

theorem Carried.refl (w : LogWorld α) : Carried w w := ⟨.refl _, rfl⟩

theorem Carried.trans (h : Carried w w') (h' : Carried w' w'') : Carried w w'' :=
  ⟨h.kept.trans h'.kept, h'.content.trans h.content⟩

theorem Carried.mirrored (h : Carried w w') : Mirrored w w' :=
  fun symbol c _ => ⟨[], by rw [h.content, List.append_nil], by rw [h.content, List.filter_nil, List.append_nil]⟩

theorem Mirrored.trans (h : Mirrored w w') (h' : Mirrored w' w'') : Mirrored w w'' := by
  intro symbol c hc
  obtain ⟨more, haggregate, hnode⟩ := h symbol c hc
  obtain ⟨more', haggregate', hnode'⟩ := h' symbol c hc
  refine ⟨more ++ more', ?_, ?_⟩
  · rw [haggregate', haggregate, List.append_assoc]
  · rw [hnode', hnode, List.filter_append, List.append_assoc]

theorem rows_append (disk : LogDisk α) (path : LogPath) (lines : List (LogLine α)) :
    rows (append disk path lines) = update (rows disk) path (rows disk path ++ lines.filterMap LogLine.row?) := by
  funext p
  rcases eq_or_ne p path with rfl | hne
  · rw [update_self, rows, append, update_self, Option.getD_some, List.filterMap_append]
    rfl
  · rw [update_of_ne hne, rows, append, update_of_ne hne]
    rfl

/-- Lines that are no rows change no rows. -/
theorem rows_append_lines {path : LogPath} {lines : List (LogLine α)} (h : lines.filterMap LogLine.row? = []) :
    rows (append disk path lines) = rows disk := by
  rw [rows_append, h, List.append_nil, update_eq_self]

theorem rows_openFile {path : LogPath} {answer : OpenAnswer} (h : openFile disk path answer = some disk') :
    rows disk' = rows disk := by
  unfold openFile at h
  split at h
  · rw [← Option.some.inj h]
    refine rows_append_lines ?_
    split <;> rfl
  · cases h

/-- A world with the same rows and backups holds the same. -/
theorem carried_of_rows (hrows : rows w'.disk = rows w.disk) (hbackups : w'.backups = w.backups) : Carried w w' := by
  refine ⟨by rw [hrows]; exact .refl _, ?_⟩
  funext symbol file
  simp only [content, hrows, hbackups]

theorem rows_rename {ok : Bool} {src dst : LogPath} (hne : src ≠ dst) (h : rename disk ok src dst = some disk') :
    rows disk' = AppendOnly.moved (rows disk) src dst := by
  unfold rename at h
  split at h
  · cases h
  next lines hlines =>
    split at h
    · rw [← Option.some.inj h]
      funext p
      rcases eq_or_ne p src with rfl | hsrc
      · rw [AppendOnly.moved_src, rows, update_self]
        rfl
      · rcases eq_or_ne p dst with rfl | hdst
        · rw [AppendOnly.moved_dst hne, rows, update_of_ne hsrc, update_self, rows, hlines]
        · rw [AppendOnly.moved_of_ne hsrc hdst, rows, update_of_ne hsrc, update_of_ne hdst]
          rfl
    · cases h

theorem current_ne_backup (symbol symbol' : List Char) (file file' : LogFile) (time : LogTime) :
    current symbol file ≠ backup symbol' file' time := by
  intro h
  cases h

end Files

/-! ### Rotation -/

section Rotation

variable {answer : RotateAnswer} {w w' : LogWorld α} {symbol : List Char} {file : LogFile}

/-- A file that moves to a free name takes its rows with it. -/
theorem carried_rotateFile (h : rotateFile symbol answer w file = some w')
    (hfree : rows w.disk (backup symbol file answer.now) = []) : Carried w w' := by
  unfold rotateFile at h
  split at h
  · cases h
  next disk hdisk =>
    obtain rfl := Option.some.inj h
    have hne := current_ne_backup symbol symbol file file answer.now
    have hrows := rows_rename hne hdisk
    refine ⟨?_, ?_⟩
    · simp only [hrows]
      exact AppendOnly.kept_moved hne hfree
    funext symbol' file'
    by_cases hthis : symbol' = symbol ∧ file' = file
    · obtain ⟨rfl, rfl⟩ := hthis
      have hcurrent : rows disk (current symbol' file') = [] := by rw [hrows, AppendOnly.moved_src]
      have hbackup : rows disk (backup symbol' file' answer.now) = rows w.disk (current symbol' file') := by
        rw [hrows, AppendOnly.moved_dst hne]
      have hothers : ∀ times : List LogTime, (times.filter (· ≠ answer.now)).flatMap
        (fun time => rows disk (backup symbol' file' time)) =
          times.flatMap fun time => rows w.disk (backup symbol' file' time) := by
        intro times
        induction times with
        | nil => rfl
        | cons time times ih =>
          by_cases htime : time = answer.now
          · subst htime
            rw [List.filter_cons_of_neg (by simp), ih, List.flatMap_cons, hfree, List.nil_append]
          · have hpath : backup symbol' file' time ≠ backup symbol' file' answer.now := by
              intro hpath
              exact htime (Option.some.inj (congrArg LogPath.time hpath))
            rw [List.filter_cons_of_pos (by simpa using htime), List.flatMap_cons, List.flatMap_cons, ih, hrows,
              AppendOnly.moved_of_ne (Ne.symm (current_ne_backup _ _ _ _ _)) hpath]
      simp only [content, update_self, List.flatMap_append, hothers, hcurrent, List.flatMap_cons, hbackup,
        List.flatMap_nil,
        List.append_nil]
    · have hbackups : update w.backups symbol (update (w.backups symbol) file ((w.backups symbol file).filter (· ≠ answer.now) ++
          [answer.now])) symbol' file' = w.backups symbol' file' := by
        rcases eq_or_ne symbol' symbol with rfl | hsymbol
        · rw [update_self, update_of_ne fun hfile => hthis ⟨rfl, hfile⟩]
        · rw [update_of_ne hsymbol]
      have hother : ∀ time, rows disk ⟨symbol', file', time⟩ = rows w.disk ⟨symbol', file', time⟩ := by
        intro time
        rw [hrows, AppendOnly.moved_of_ne (fun hpath => ?_) (fun hpath => ?_)]
        · exact hthis ⟨congrArg LogPath.symbol hpath, congrArg LogPath.file hpath⟩
        · exact hthis ⟨congrArg LogPath.symbol hpath, congrArg LogPath.file hpath⟩
      simp only [content, hbackups, current, backup, hother]

theorem rotateFile_log (h : rotateFile symbol answer w file = some w') : w'.log = w.log := by
  unfold rotateFile at h
  split at h
  · cases h
  · rw [← Option.some.inj h]

/-- A rotated file does not touch the others. -/
theorem rotateFile_disk (h : rotateFile symbol answer w file = some w') {path : LogPath} (hfile : path.file ≠ file) :
    w'.disk path = w.disk path := by
  unfold rotateFile rename at h
  split at h
  · cases h
  next disk hdisk =>
    rw [← Option.some.inj h]
    split at hdisk
    · cases hdisk
    split at hdisk
    · rw [← Option.some.inj hdisk]
      dsimp only
      rw [update_of_ne fun hpath => hfile (congrArg LogPath.file hpath), update_of_ne fun hpath =>
        hfile (congrArg LogPath.file hpath)]
    · cases hdisk

/-- A file is rotated just if it is there and the system does it. -/
theorem rotateFile_eq_some_iff : (∃ w', rotateFile symbol answer w file = some w') ↔
    w.disk (current symbol file) ≠ none ∧ answer.renames file = true := by
  unfold rotateFile rename
  cases w.disk (current symbol file) with
  | none => simp
  | some lines => cases answer.renames file <;> simp

theorem carried_getD_rotateFile (hfree : w.disk (current symbol file) ≠ none → answer.renames file = true →
    rows w.disk (backup symbol file answer.now) = []) : Carried w ((rotateFile symbol answer w file).getD w) := by
  cases h : rotateFile symbol answer w file with
  | none => exact .refl w
  | some w' =>
    obtain ⟨hthere, hok⟩ := rotateFile_eq_some_iff.1 ⟨w', h⟩
    exact carried_rotateFile h (hfree hthere hok)

/-- The mirrors are rotated one after the other. -/
theorem carried_rotateMirrors : ∀ {cs : List Nat} {w : LogWorld α}, cs.Nodup →
    (∀ c ∈ cs, w.disk (current symbol (.node c)) ≠ none → answer.renames (.node c) = true →
      rows w.disk (backup symbol (.node c) answer.now) = []) →
    Carried w (cs.foldl (fun w c => (rotateFile symbol answer w (.node c)).getD w) w) := by
  intro cs
  induction cs with
  | nil => exact fun _ _ => .refl _
  | cons c cs ih =>
    intro w hnodup hfree
    obtain ⟨hnot, hnodup⟩ := List.nodup_cons.1 hnodup
    have hfirst : Carried w ((rotateFile symbol answer w (.node c)).getD w) :=
      carried_getD_rotateFile (hfree c List.mem_cons_self)
    have hothers : ∀ path : LogPath, path.file ≠ .node c →
      ((rotateFile symbol answer w (.node c)).getD w).disk path = w.disk path := by
      intro path hpath
      cases h : rotateFile symbol answer w (.node c) with
      | none => rfl
      | some w' => exact rotateFile_disk h hpath
    refine hfirst.trans (ih hnodup fun c' hc' hthere hok => ?_)
    have hne : LogFile.node c' ≠ .node c := fun h => hnot (LogFile.node.inj h ▸ hc')
    rw [hothers _ hne] at hthere
    rw [rows, hothers _ hne]
    exact hfree c' (List.mem_cons_of_mem _ hc') hthere hok

end Rotation

/-! ### Opening -/

section Opening

variable {w : LogWorld α} {symbol : List Char} {partialExitEnabled : Bool} {opens : LogFile → OpenAnswer}

/-- The mirrors that are open have their names, and no rows are changed. -/
theorem openMirrors_spec (symbol : List Char) (opens : LogFile → OpenAnswer) (cs : List Nat) (m : Mirrors α)
    (hm : ∀ c q, m.files c = some q → q = current symbol (.node c)) :
    rows (cs.foldl (openMirror symbol opens) m).disk = rows m.disk ∧
      ∀ c q, (cs.foldl (openMirror symbol opens) m).files c = some q → q = current symbol (.node c) := by
  induction cs generalizing m with
  | nil => exact ⟨rfl, hm⟩
  | cons c cs ih =>
    have hone : rows (openMirror symbol opens m c).disk = rows m.disk ∧
        ∀ c' q, (openMirror symbol opens m c).files c' = some q → q = current symbol (.node c') := by
      unfold openMirror
      split
      · split
        · exact ⟨rfl, hm⟩
        next disk hdisk =>
          refine ⟨rows_openFile hdisk, fun c' q hq => ?_⟩
          dsimp only at hq
          rcases eq_or_ne c' c with rfl | hne
          · rw [update_self] at hq
            exact (Option.some.inj hq).symm
          · rw [update_of_ne hne] at hq
            exact hm c' q hq
      · exact ⟨rfl, hm⟩
    obtain ⟨hrows, hnames⟩ := ih _ hone.2
    exact ⟨hrows.trans hone.1, hnames⟩

/-- The open files have the names of one symbol. -/
def Wired (log : ShardedTradeLog) : Prop :=
  match log.file with
  | none => ∀ c, log.perNodeFiles c = none
  | some path =>
    path = current path.symbol .aggregate ∧ ∀ c q, log.perNodeFiles c = some q →
      q = current path.symbol (.node c)

theorem init_spec (symbol : List Char) (partialExitEnabled : Bool) (opens : LogFile → OpenAnswer) (w : LogWorld α) :
    Carried w (init symbol partialExitEnabled opens w).2 ∧ Wired (init symbol partialExitEnabled opens w).2.log := by
  unfold init
  split
  · simp only []
    split
    · exact ⟨carried_of_rows rfl rfl, fun _ => rfl⟩
    next disk hdisk =>
      obtain ⟨hrows, hnames⟩ := openMirrors_spec symbol opens (List.range logNodes)
        { disk, files := fun _ => none } (fun _ _ hq => absurd hq.symm (Option.some_ne_none _))
      exact ⟨carried_of_rows (hrows.trans (rows_openFile hdisk)) rfl, rfl, hnames⟩
  · exact ⟨carried_of_rows rfl rfl, fun _ => rfl⟩

/-- The names of a symbol the log keeps have room. -/
theorem nameFits_aggregate (symbol : LogSymbol) : nameFits symbol.text .aggregate = true := by
  have hlength : (logName symbol.text .aggregate).length = symbol.text.length + 26 := by
    have hfolder : "logging/".toList.length = 8 := by decide
    have hmiddle : "_order_history".toList.length = 14 := by decide
    have hextension : ".csv".toList.length = 4 := by decide
    unfold logName LogFile.middle
    rw [List.length_append, List.length_append, List.length_append, hfolder, hmiddle, hextension]
    omega
  have hshort := symbol.short
  simp only [nameFits, decide_eq_true_eq]
  omega

/-- An `init` on a symbol the log keeps goes through if the aggregate file opens. -/
theorem init_opens (symbol : LogSymbol) (h : (opens .aggregate).opens = true) :
    (init symbol.text partialExitEnabled opens w).1 = true := by
  unfold init
  rw [if_pos (nameFits_aggregate symbol)]
  simp only [openFile, h, if_true]

end Opening

/-! ### One step -/

section Step

variable {w : LogWorld α} {answer : RotateAnswer} {row : TradeRow α} {fits : TradeRow α → Bool}

theorem rotateFile_aggregate_iff :
    (∃ w', rotateFile w.log.symbol.text answer (close w) .aggregate = some w') ↔ Goes answer w .aggregate :=
  rotateFile_eq_some_iff

/-- A rotation that the file system allows keeps all rows. -/
theorem carried_rotate (h : w.log.file ≠ none → w.log.symbol.text ≠ [] → CalmRotate answer w) :
    Carried w (rotate answer w).2 := by
  unfold rotate
  split
  · exact .refl w
  next hopen =>
    obtain ⟨hfile, hsymbol⟩ := not_or.1 hopen
    obtain ⟨haggregate, hmirrors, -⟩ := h hfile hsymbol
    simp only []
    split
    · split
      · exact carried_of_rows (rows_append_lines rfl) rfl
      · exact carried_of_rows rfl rfl
    next w' hw' =>
      have hgoes : Goes answer w .aggregate := rotateFile_aggregate_iff.1 ⟨w', hw'⟩
      have hclose : Carried w (close w) := carried_of_rows rfl rfl
      have hfirst : Carried w w' := hclose.trans (carried_rotateFile hw' (haggregate hgoes))
      have hdisk : ∀ c time, w'.disk ⟨w.log.symbol.text, .node c, time⟩ = w.disk ⟨w.log.symbol.text, .node c, time⟩ :=
        fun c time => rotateFile_disk hw' LogFile.noConfusion
      refine (hfirst.trans (carried_rotateMirrors List.nodup_range fun c hc hthere hok => ?_)).trans
        (init_spec _ _ _ _).1
      rw [current, hdisk] at hthere
      rw [rows, backup, hdisk]
      exact hmirrors hgoes c (List.mem_range.1 hc) ⟨hthere, hok⟩

theorem wired_rotate (answer : RotateAnswer) (h : Wired w.log) : Wired (rotate answer w).2.log := by
  unfold rotate
  split
  · exact h
  · simp only []
    split
    · split
      · exact ⟨rfl, fun _ _ hq => absurd hq.symm (Option.some_ne_none _)⟩
      · exact fun _ => rfl
    · exact (init_spec _ _ _ _).2

/-- A rotation that is refused leaves the open files open. -/
theorem rotate_refused (h : w.log.file ≠ none → w.log.symbol.text ≠ [] → CalmRotate answer w)
    (hrefused : (rotate answer w).1 = false) :
    (rotate answer w).2.log.file = w.log.file ∧
      ∀ c, w.log.perNodeFiles c ≠ none → (rotate answer w).2.log.perNodeFiles c = w.log.perNodeFiles c := by
  unfold rotate at hrefused ⊢
  split at hrefused
  next hclosed =>
    rw [if_pos hclosed]
    exact ⟨rfl, fun _ _ => rfl⟩
  next hopen =>
    obtain ⟨hfile, hsymbol⟩ := not_or.1 hopen
    rw [if_neg hopen]
    simp only [] at hrefused ⊢
    cases hrotated : rotateFile w.log.symbol.text answer (close w) .aggregate with
    | none =>
      have hgoes : ¬Goes answer w .aggregate := fun hgoes => by
        obtain ⟨w', hw'⟩ := rotateFile_aggregate_iff.2 hgoes
        exact absurd (hrotated.symm.trans hw') (Option.some_ne_none _).symm
      rcases (h hfile hsymbol).goesOn with ⟨hgoes', -⟩ | ⟨-, hreopens, hcurrent, hmirrors⟩
      · exact absurd hgoes' hgoes
      · simp only [hreopens, if_true]
        exact ⟨hcurrent.symm, fun c hc => absurd (hmirrors c) hc⟩
    | some w' =>
      rw [hrotated] at hrefused
      have hgoes : Goes answer w .aggregate := rotateFile_aggregate_iff.1 ⟨w', hrotated⟩
      rcases (h hfile hsymbol).goesOn with ⟨-, hopens⟩ | ⟨hstays, -⟩
      · exact absurd (hrefused.symm.trans (init_opens _ hopens)) Bool.false_ne_true
      · exact absurd hgoes hstays

/-- A row that is appended is the last of its file, and of no other. -/
theorem content_append {w' : LogWorld α} {symbol : List Char} {file : LogFile}
    (hdisk : w'.disk = append w.disk (current symbol file) [.row row]) (hbackups : w'.backups = w.backups)
    (symbol' : List Char) (file' : LogFile) : content w' symbol' file' =
      content w symbol' file' ++ if symbol' = symbol ∧ file' = file then [row] else [] := by
  have hbackup : ∀ time, rows w'.disk (backup symbol' file' time) = rows w.disk (backup symbol' file' time) := by
    intro time
    rw [hdisk, rows_append, update_of_ne (Ne.symm (current_ne_backup _ _ _ _ _))]
  simp only [content, hbackups, hbackup, List.append_assoc]
  congr 1
  rw [hdisk, rows_append]
  by_cases hthis : symbol' = symbol ∧ file' = file
  · obtain ⟨rfl, rfl⟩ := hthis
    rw [update_self, if_pos ⟨rfl, rfl⟩]
    rfl
  · have hne : current symbol' file' ≠ current symbol file := fun h =>
      hthis ⟨congrArg LogPath.symbol h, congrArg LogPath.file h⟩
    rw [update_of_ne hne, if_neg hthis, List.append_nil]

/-- A row goes to the file and to the mirror of its node. -/
theorem mirrored_writeRow {owner : List Char}
    (hmirror : row.nodeId < logNodes → w.log.perNodeFiles row.nodeId = some (current owner (.node row.nodeId))) :
    Mirrored w (writeRow (current owner .aggregate) row w) := by
  intro symbol c hc
  let w₁ : LogWorld α := { w with disk := append w.disk (current owner .aggregate) [.row row] }
  have haggregate : ∀ symbol' file', content w₁ symbol' file' =
      content w symbol' file' ++ if symbol' = owner ∧ file' = .aggregate then [row] else [] := content_append rfl rfl
  have hapart : ∀ c, ¬(symbol = owner ∧ LogFile.node c = .aggregate) := fun c h => LogFile.noConfusion h.2
  have hapart' : ∀ c, ¬(symbol = owner ∧ LogFile.aggregate = .node c) := fun c h => LogFile.noConfusion h.2
  refine ⟨if symbol = owner then [row] else [], ?_⟩
  by_cases hnode : row.nodeId < logNodes
  · have hdisk : (writeRow (current owner .aggregate) row w).disk =
      append w₁.disk (current owner (.node row.nodeId)) [.row row] := by
      simp only [writeRow, hmirror hnode, if_pos hnode]
      rfl
    have hmirrored := content_append hdisk rfl
    constructor
    · rw [hmirrored, haggregate, if_neg (hapart' _), List.append_nil]
      simp only [and_true]
    · rw [hmirrored, haggregate, if_neg (hapart c), List.append_nil]
      by_cases hsymbol : symbol = owner
      · by_cases hthis : row.nodeId = c
        · simp [hsymbol, hthis]
        · simp [hsymbol, hthis, Ne.symm hthis]
      · simp [hsymbol]
  · have hsame : content (writeRow (current owner .aggregate) row w) = content w₁ := by
      funext symbol file
      simp only [content, writeRow, if_neg hnode]
      rfl
    have hnot : row.nodeId ≠ c := by omega
    rw [hsame, haggregate, haggregate, if_neg (hapart c), List.append_nil]
    refine ⟨by simp only [and_true], ?_⟩
    split
    · rw [List.filter_cons_of_neg (by simpa using hnot), List.filter_nil, List.append_nil]
    · rw [List.filter_nil, List.append_nil]

/-- What a record does to the rows: nothing, or one more in the aggregate file and perhaps one in a mirror. -/
theorem kept_record (fits : TradeRow α → Bool) (row : TradeRow α) (w : LogWorld α) :
    AppendOnly.Kept (rows w.disk) (rows (record fits row w).disk) := by
  have happend : ∀ (disk : LogDisk α) path, AppendOnly.Kept (rows disk) (rows (append disk path [.row row])) := by
    intro disk path
    refine AppendOnly.kept_of_grows fun p => ?_
    rw [rows_append]
    rcases eq_or_ne p path with rfl | hne
    · rw [update_self]
      exact List.prefix_append ..
    · rw [update_of_ne hne]
  unfold record
  split
  · exact .refl _
  split
  · simp only [writeRow]
    split
    · split
      · exact happend _ _
      · exact (happend _ _).trans (happend _ _)
    · exact happend _ _
  · exact .refl _

theorem mirrored_record (hwired : Wired w.log) (hcalm : CalmRecord fits row w) : Mirrored w (record fits row w) := by
  unfold record
  cases hfile : w.log.file with
  | none => exact (Carried.refl w).mirrored
  | some path =>
    simp only []
    split
    next hfits =>
      simp only [Wired, hfile] at hwired
      obtain ⟨hpath, hmirrors⟩ := hwired
      rw [hpath]
      refine mirrored_writeRow fun hnode => ?_
      obtain ⟨mirror, hmirror⟩ :=
        Option.ne_none_iff_exists'.1 (hcalm (by rw [hfile]; exact Option.some_ne_none _) hfits hnode)
      rw [hmirror, hmirrors _ _ hmirror]
    next => exact (carried_of_rows rfl rfl).mirrored

theorem wired_record (fits : TradeRow α → Bool) (row : TradeRow α) (h : Wired w.log) :
    Wired (record fits row w).log := by
  unfold record
  split
  · exact h
  split
  · exact h
  · exact h

variable [Zero α]

/-- What one step that meets the condition leaves behind. -/
theorem step_calm (hwired : Wired w.log) {act : TradeLogAct α} (hcalm : Calm fits w act) :
    Wired (w.step fits act).log ∧ Mirrored w (w.step fits act) ∧
      AppendOnly.Kept (rows w.disk) (rows (w.step fits act).disk) := by
  cases act with
  | init symbol partialExitEnabled opens =>
    obtain ⟨hcarried, hwired'⟩ := init_spec symbol partialExitEnabled opens w
    exact ⟨hwired', hcarried.mirrored, hcarried.kept⟩
  | recordEntry fill => exact ⟨wired_record _ _ hwired, mirrored_record hwired hcalm, kept_record _ _ _⟩
  | recordExit fill => exact ⟨wired_record _ _ hwired, mirrored_record hwired hcalm, kept_record _ _ _⟩
  | rotate answer =>
    have hcarried := carried_rotate hcalm
    exact ⟨wired_rotate answer hwired, hcarried.mirrored, hcarried.kept⟩
  | close =>
    have hcarried : Carried w (close w) := carried_of_rows rfl rfl
    exact ⟨fun _ => rfl, hcarried.mirrored, hcarried.kept⟩

/-- What a run of such steps leaves behind. -/
theorem run_calm {acts : List (TradeLogAct α)} (hwired : Wired w.log)
    (hcalm : Steps (LogWorld.step fits) (Calm fits) w acts) :
    Wired (run (LogWorld.step fits) w acts).log ∧ Mirrored w (run (LogWorld.step fits) w acts) ∧
      AppendOnly.Kept (rows w.disk) (rows (run (LogWorld.step fits) w acts).disk) := by
  let Inv : LogWorld α → Prop := fun w' => Wired w'.log ∧ Mirrored w w' ∧ AppendOnly.Kept (rows w.disk) (rows w'.disk)
  have hstep : ∀ w' act, Inv w' → Calm fits w' act → Inv (w'.step fits act) := by
    rintro w' act ⟨hwired, hmirrored, hkept⟩ hact
    obtain ⟨hwired', hmirrored', hkept'⟩ := step_calm hwired hact
    exact ⟨hwired', hmirrored.trans hmirrored', hkept.trans hkept'⟩
  exact run_inv_of_steps hstep acts ⟨hwired, (Carried.refl w).mirrored, .refl _⟩ hcalm

end Step

/-- In a run whose rows all find the mirrors of their nodes open, and whose rotations overwrite no backup
    and go through, or are refused with the aggregate file reopened and no mirror lost, no row is lost,
    a refused rotation leaves the files open, and each mirror gets what the aggregate file gets of its
    node, in the same order. -/
theorem tradeLog_holds [Zero α] {fits : TradeRow α → Bool} {disk : LogDisk α} {acts : List (TradeLogAct α)}
    (hcalm : Steps (LogWorld.step fits) (Calm fits) (.start disk) acts) : Holds fits disk acts := by
  have hstart : Wired (LogWorld.start disk).log := fun _ => rfl
  refine ⟨?_, ?_, (run_calm hstart hcalm).2.1⟩
  · rintro before after rfl
    obtain ⟨hbefore, hafter⟩ := steps_append.1 hcalm
    rw [run_append]
    exact (run_calm (run_calm hstart hbefore).1 hafter).2.2
  · rintro before answer after rfl hrefused
    obtain ⟨-, hrotate, -⟩ := steps_append.1 hcalm
    exact rotate_refused hrotate hrefused

def sampleFill : LoggedFill Float :=
  { timestamp := 1000, price := 50, slot := 3, strategyId := 1, entryPrice := 50, exitPrice := 52,
    tradeSize := 2, netPnl := 4
    fees := 1, balanceAfter := 103, regime := 1 }

def sampleAnswer (renames : Bool) : RotateAnswer :=
  { now := { year := 2026, mon := 8, mday := 26, hour := 9, min := 30, sec := 0 }, renames := fun _ => renames, reopens := true
    opens := fun _ => { probe := true, opens := true } }

/-- A log with partial exits gets an entry, and an exit behind a rotation. -/
def sampleDay (renames : Bool) : List (TradeLogAct Float) :=
  [.init "BTCUSDT".toList true fun _ => { probe := true, opens := true }, .recordEntry sampleFill,
    .rotate (sampleAnswer renames), .recordExit sampleFill, .close]

theorem tradeLog_holds_day : Holds (fun _ => true) (fun _ => none) (sampleDay true) := by
  refine tradeLog_holds ⟨trivial, fun _ _ _ => ?_, fun _ _ => ⟨fun _ => ?_, fun _ c hc hgoes => ?_, .inl ⟨⟨?_, rfl⟩, rfl⟩⟩,
    fun _ _ _ => ?_, trivial, trivial⟩
  · decide +kernel
  · decide +kernel
  · clear hgoes
    revert c
    decide +kernel
  · decide +kernel
  · decide +kernel

/-- The rename fails, the log goes on in its old file, and the mirrors stay closed. -/
theorem rotate_closes_mirrors : ¬Holds (fun _ => true) (fun _ => none) (sampleDay false) := by
  intro h
  have hmirror := (h.refused [_, _] (sampleAnswer false) _ rfl (by decide +kernel)).2 1 (by decide +kernel)
  revert hmirror
  decide +kernel

end ShardedTradeLog

end FoxTrader
