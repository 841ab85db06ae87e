import FoxTrader.OrderEventLog

/-! # Restarting on a torn log

    A crash in the middle of a write leaves whole records and a torn one at the end of the file.
    The loader drops the torn bytes; `InitWithFile` opens the same file for append and leaves them
    in place. `restart_torn_iff` is the exact account of what the next load then sees: the records
    appended behind a torn tail survive only if their bytes happen to repeat it. -/

namespace FoxTrader

open Lib OrderEventLogFileHeader

namespace OrderEventLog

abbrev codec : Codec OrderEventImage := OrderEventImage.codec

/-- What `LoadFromDisk` puts into a fresh log. -/
def reload (file : List UInt8) : List OrderEventImage := (loadFromDisk init (some file)).2.entries

/-- A start of the engine on a file: load it, then open it for append. -/
def boot (file : List UInt8) : OrderEventLog OrderEventImage :=
  (initWithFile (loadFromDisk init (some file)).2 (some file)).1

/-- Events as `Append` numbers them, from the id it is at. -/
def stamp {ε : Type} [LogRecord ε] : BitVec 64 → List ε → List ε
  | _, [] => []
  | id, e :: es => LogRecord.setEventId id e :: stamp (id + 1) es

@[simp] theorem stamp_length {ε : Type} [LogRecord ε] : ∀ (id : BitVec 64) (es : List ε),
    (stamp id es).length = es.length
  | _, [] => rfl
  | id, _ :: es => by rw [stamp, List.length_cons, List.length_cons, stamp_length (id + 1) es]

/-! ### Loading -/

/-- The loop keeps the oldest records up to the capacity. -/
theorem foldl_loadRecord : ∀ (es : List OrderEventImage) (log : OrderEventLog OrderEventImage),
    log.entries.length ≤ log.capacity →
      (es.foldl loadRecord log).entries =
          log.entries ++ es.take (log.capacity - log.entries.length) ∧
        (es.foldl loadRecord log).capacity = log.capacity
  | [], log, _ => by simp
  | e :: es, log, hle => by
    rw [List.foldl_cons]
    by_cases hfull : log.entries.length ≥ log.capacity
    · have hstay : loadRecord log e = log := if_pos hfull
      have hzero : log.capacity - log.entries.length = 0 := by omega
      rw [hstay, (foldl_loadRecord es log hle).1, (foldl_loadRecord es log hle).2, hzero]
      simp
    · have hgo : (loadRecord log e).entries = log.entries ++ [e] ∧
          (loadRecord log e).capacity = log.capacity := by rw [loadRecord, if_neg hfull]; exact ⟨rfl, rfl⟩
      have hlen : (loadRecord log e).entries.length = log.entries.length + 1 := by simp [hgo.1]
      obtain ⟨hent, hcap⟩ := foldl_loadRecord es (loadRecord log e) (by rw [hlen, hgo.2]; omega)
      have hsucc : log.capacity - log.entries.length = (log.capacity - (log.entries.length + 1)) + 1 := by
        omega
      rw [hent, hcap, hlen, hgo.1, hgo.2, hsucc, List.take_succ_cons, List.append_assoc]
      exact ⟨rfl, rfl⟩

theorem loadFromDisk_current (rest : List UInt8) :
    (loadFromDisk init (some (currentBytes ++ rest))).2.entries =
        (codec.frames rest).take orderEventLogMaxCapacity ∧
      (loadFromDisk init (some (currentBytes ++ rest))).2.capacity = orderEventLogMaxCapacity := by
  have hdrop : (currentBytes ++ rest).drop OrderEventLogFileHeader.codec.width = rest :=
    List.drop_left' (currentBytes_length.trans codec_width.symm)
  simp only [loadFromDisk, gate_currentBytes, hdrop]
  exact foldl_loadRecord _ init (Nat.zero_le _)

theorem reload_current (rest : List UInt8) :
    reload (currentBytes ++ rest) = (codec.frames rest).take orderEventLogMaxCapacity :=
  (loadFromDisk_current rest).1

theorem reload_length_le (file : List UInt8) : (reload file).length ≤ orderEventLogMaxCapacity := by
  cases hg : gate file with
  | error r =>
    simp only [reload, loadFromDisk, hg]
    exact Nat.zero_le _
  | ok _ =>
    simp only [reload, loadFromDisk, hg, (foldl_loadRecord _ init (Nat.zero_le _)).1]
    exact (List.length_take_le ..).trans (Nat.sub_le ..)

/-- A boot on a current file keeps its bytes as they are. -/
theorem boot_current (rest : List UInt8) :
    (boot (currentBytes ++ rest)).entries = (codec.frames rest).take orderEventLogMaxCapacity ∧
      (boot (currentBytes ++ rest)).capacity = orderEventLogMaxCapacity ∧
      (boot (currentBytes ++ rest)).diskFile = some (currentBytes ++ rest) := by
  simp only [boot, initWithFile, isCurrent_currentBytes, if_true]
  exact ⟨(loadFromDisk_current rest).1, (loadFromDisk_current rest).2, trivial⟩

/-! ### Appending -/

/-- With room for all of them, appended events land in the file one after the other. -/
theorem foldl_append_diskFile : ∀ (es : List OrderEventImage) (log : OrderEventLog OrderEventImage),
    log.entries.length + es.length ≤ log.capacity →
      (es.foldl append log).diskFile = log.diskFile.map (· ++ codec.encAll (stamp log.nextEventId es))
  | [], log, _ => by simp [stamp]
  | e :: es, log, hroom => by
    rw [List.length_cons] at hroom
    have hgo : append log e =
        { log with
          nextEventId := log.nextEventId + 1
          entries := log.entries ++ [LogRecord.setEventId log.nextEventId e]
          diskFile := log.diskFile.map
            (· ++ codec.enc (LogRecord.setEventId log.nextEventId e)) } := by
      rw [append, applyEvent, if_neg (by simp only; omega)]
      rfl
    rw [List.foldl_cons, foldl_append_diskFile es (append log e) (by
      rw [hgo, List.length_append, List.length_singleton]; simp only; omega), hgo, stamp, Codec.encAll_cons]
    simp only [Option.map_map, Function.comp_def, List.append_assoc]

theorem foldl_append_isSome (es : List OrderEventImage) (log : OrderEventLog OrderEventImage)
    (h : log.diskFile.isSome = true) : (es.foldl append log).diskFile.isSome = true := by
  induction es generalizing log with
  | nil => exact h
  | cons e es ih =>
    refine ih _ ?_
    unfold append applyEvent
    split
    · exact h
    · simpa using h

/-! ### The restart -/

/-- A file of whole records ending in a torn one. -/
def tornFile (recs : List OrderEventImage) (torn : List UInt8) : List UInt8 :=
  currentBytes ++ (codec.encAll recs ++ torn)

/-- Restarting on the file, appending the events and loading again yields the whole records and the
    appended ones, as `Append` numbered them. -/
def RestartKeepsAll (recs : List OrderEventImage) (torn : List UInt8) (es : List OrderEventImage) : Prop :=
  ((es.foldl append (boot (tornFile recs torn))).diskFile.map reload) =
    some (recs ++ stamp (boot (tornFile recs torn)).nextEventId es)

/-- After a restart on a torn file the ledger reads back exactly when everything fits and the bytes
    of the appended records repeat the torn tail over and over. -/
theorem restart_torn_iff (recs : List OrderEventImage) (torn : List UInt8) (es : List OrderEventImage)
    (hpos : 0 < torn.length) (hlt : torn.length < 144) :
    RestartKeepsAll recs torn es ↔
      recs.length + es.length ≤ orderEventLogMaxCapacity ∧
      ∀ i (h : i < (codec.encAll (stamp (boot (tornFile recs torn)).nextEventId es)).length),
        (codec.encAll (stamp (boot (tornFile recs torn)).nextEventId es))[i] =
          torn.get ⟨i % torn.length, Nat.mod_lt _ hpos⟩ := by
  obtain ⟨hent, hcap, hdisk⟩ := boot_current (codec.encAll recs ++ torn)
  rw [← tornFile] at hent hcap hdisk
  rw [codec.frames_encAll_append recs hlt] at hent
  rw [← codec.frames_torn_append_iff _ hpos hlt]
  generalize hnew : stamp (boot (tornFile recs torn)).nextEventId es = new
  have hnewlen : new.length = es.length := by rw [← hnew, stamp_length]
  by_cases hfits : recs.length + es.length ≤ orderEventLogMaxCapacity
  · -- everything is written behind the torn tail, and the reader starts its frames at that tail
    have hentlen : (boot (tornFile recs torn)).entries.length = recs.length := by
      rw [hent, List.length_take]; omega
    have hfile := foldl_append_diskFile es (boot (tornFile recs torn)) (by rw [hentlen, hcap]; exact hfits)
    have hbytes : tornFile recs torn ++ codec.encAll new =
        currentBytes ++ (codec.encAll recs ++ (torn ++ codec.encAll new)) := by
      rw [tornFile, List.append_assoc, List.append_assoc]
    rw [hdisk, Option.map_some, hnew, hbytes] at hfile
    rw [RestartKeepsAll, hnew, hfile, Option.map_some, Option.some_inj, reload_current,
      codec.frames_append]
    have hframes : (codec.frames (torn ++ codec.encAll new)).length ≤ es.length := by
      obtain ⟨tail, heq, -⟩ := codec.frames_spec (torn ++ codec.encAll new)
      have := congrArg List.length heq
      simp only [List.length_append, Codec.encAll_length, hnewlen] at this
      have hw : codec.width = 144 := rfl
      rw [hw] at this
      omega
    rw [List.take_of_length_le (by rw [List.length_append]; omega), List.append_cancel_left_eq]
    exact ⟨fun h => ⟨hfits, h⟩, fun h => h.2⟩
  · -- more records than the array holds: the load stops short of them
    refine ⟨fun h => absurd ?_ hfits, fun h => absurd h.1 hfits⟩
    obtain ⟨file, hfile⟩ := Option.isSome_iff_exists.1
      (foldl_append_isSome es (boot (tornFile recs torn)) (by rw [hdisk]; rfl))
    rw [RestartKeepsAll, hnew, hfile, Option.map_some, Option.some_inj] at h
    have hlen := reload_length_le file
    rwa [h, List.length_append, hnewlen] at hlen

/-- An event with only an order id. -/
def sampleEvent (orderId : BitVec 64) : OrderEventImage :=
  { eventId := 0, orderId := orderId, timestampUs := 0, type := OrderEventType.fullFill.code, orderType := 0
    nodeId := 0, pad := 0, price := 0, qty := 0, tp := 0, sl := 0, fee := 0
    reason := OrderEventImage.noReason }

theorem restart_torn_idle : RestartKeepsAll [sampleEvent 5] [2, 0, 0] [] :=
  (restart_torn_iff [sampleEvent 5] [2, 0, 0] [] (by decide) (by decide)).2
    ⟨by decide, fun i h => absurd h (Nat.not_lt_zero i)⟩

/-- A crash after three bytes of a record, a restart and one appended event: the next load reads a
    record framed three bytes too early. -/
theorem restart_torn_misframes : ¬ RestartKeepsAll [sampleEvent 5] [2, 0, 0] [sampleEvent 6] := by
  intro h
  have hids := congrArg (Option.map (List.map fun e : OrderEventImage => e.orderId)) h
  revert hids
  decide +kernel

end OrderEventLog

end FoxTrader
