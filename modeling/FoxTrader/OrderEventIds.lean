import FoxTrader.OrderEventLogRestart

/-! # Event ids across restarts

    A start takes the records of the file as they are and sets the id counter one past the largest id it
    has kept; nothing looks at the order of the ids. So what is appended is numbered upwards and past
    everything loaded, and the ids of a log increase after a restart exactly if they did in the file.
    Records past the capacity are not counted, but then nothing is appended either. The counter is 64
    bits wide and goes round. -/

namespace FoxTrader

open Lib OrderEventLogFileHeader

namespace OrderEventLog

def ids (es : List OrderEventImage) : List Nat := es.map (·.eventId.toNat)

/-- The whole records of a file, past the capacity too. -/
def records (file : List UInt8) : List OrderEventImage := codec.frames (file.drop OrderEventLogFileHeader.codec.width)

/-- The ids of what a start has loaded and of the events appended since are strictly increasing. -/
def IdsIncreasing (file : List UInt8) (es : List OrderEventImage) : Prop :=
  (ids (reload file ++ stamp (boot file).nextEventId es)).Pairwise (· < ·)

/-- No id occurs twice in the file once the events are appended. -/
def IdsOnce (file : List UInt8) (es : List OrderEventImage) : Prop :=
  ∀ written, (es.foldl append (boot file)).diskFile = some written → (ids (records written)).Nodup

/-! ### The counter -/

/-- The counter is past every id in the log, and past one of them only just. -/
structure PastIds (log : OrderEventLog OrderEventImage) : Prop where
  past : ∀ id ∈ ids log.entries, id < log.nextEventId.toNat
  next : ∃ id ∈ 0 :: ids log.entries, log.nextEventId.toNat = id + 1

theorem pastIds_init : PastIds init :=
  ⟨fun _ hid => absurd hid List.not_mem_nil, 0, List.mem_singleton_self 0, rfl⟩

theorem PastIds.loadRecord {log : OrderEventLog OrderEventImage} (h : PastIds log) (e : OrderEventImage)
    (hwrap : ∀ id ∈ ids (log.loadRecord e).entries, id + 1 < 2 ^ 64) : PastIds (log.loadRecord e) := by
  unfold OrderEventLog.loadRecord at hwrap ⊢
  split
  · exact h
  next hroom =>
    rw [if_neg hroom] at hwrap
    have hids : ids (log.entries ++ [e]) = ids log.entries ++ [e.eventId.toNat] := List.map_append ..
    have hself : e.eventId.toNat + 1 < 2 ^ 64 := hwrap _ (by rw [hids]; simp)
    have hsucc : (e.eventId + 1).toNat = e.eventId.toNat + 1 := by bv_omega
    obtain ⟨top, htop, hnext⟩ := h.next
    refine ⟨fun id hid => ?_, ?_⟩
    · rw [hids, List.mem_append, List.mem_singleton] at hid
      dsimp only
      split
      next hge =>
        rw [hsucc]
        rcases hid with hold | rfl
        · have hlt := h.past id hold
          have hle : log.nextEventId.toNat ≤ e.eventId.toNat := hge
          omega
        · omega
      next hlt =>
        rcases hid with hold | rfl
        · exact h.past id hold
        · exact Nat.lt_of_not_le hlt
    · dsimp only
      split
      · exact ⟨e.eventId.toNat, by rw [hids]; simp, hsucc⟩
      · refine ⟨top, ?_, hnext⟩
        rw [hids]
        rcases List.mem_cons.1 htop with rfl | hold
        · exact List.mem_cons_self
        · exact List.mem_cons_of_mem _ (List.mem_append_left _ hold)

theorem loadRecord_entries (log : OrderEventLog OrderEventImage) (e : OrderEventImage) :
    log.entries <+: (log.loadRecord e).entries := by
  unfold OrderEventLog.loadRecord
  split
  · exact List.prefix_rfl
  · exact List.prefix_append ..

theorem foldl_loadRecord_entries (es : List OrderEventImage) (log : OrderEventLog OrderEventImage) :
    log.entries <+: (es.foldl loadRecord log).entries := by
  induction es generalizing log with
  | nil => exact List.prefix_rfl
  | cons e es ih => exact (loadRecord_entries log e).trans (ih _)

theorem PastIds.foldl_loadRecord {log : OrderEventLog OrderEventImage} (h : PastIds log) (es : List OrderEventImage)
    (hwrap : ∀ id ∈ ids (es.foldl OrderEventLog.loadRecord log).entries, id + 1 < 2 ^ 64) :
    PastIds (es.foldl OrderEventLog.loadRecord log) := by
  induction es generalizing log with
  | nil => exact h
  | cons e es ih =>
    rw [List.foldl_cons] at hwrap ⊢
    refine ih (h.loadRecord e fun id hid => hwrap id ?_) hwrap
    exact ((foldl_loadRecord_entries es _).map _).subset hid

/-- A start leaves the counter past the ids it has loaded, unless it has gone round. -/
theorem pastIds_boot (file : List UInt8) (hwrap : ∀ id ∈ ids (reload file), id + 1 < 2 ^ 64) :
    PastIds (boot file) := by
  have hloaded : PastIds (loadFromDisk init (some file)).2 := by
    rw [reload] at hwrap
    unfold loadFromDisk at hwrap ⊢
    dsimp only at hwrap ⊢
    split at hwrap
    · exact pastIds_init
    · exact pastIds_init.foldl_loadRecord _ hwrap
  unfold boot initWithFile
  dsimp only
  split
  · exact ⟨hloaded.past, hloaded.next⟩
  · exact ⟨hloaded.past, hloaded.next⟩

theorem boot_entries (file : List UInt8) : (boot file).entries = reload file := by
  unfold boot initWithFile
  dsimp only
  split <;> rfl

/-! ### Appending -/

/-- What is appended is numbered one by one. -/
theorem ids_stamp (n : BitVec 64) (es : List OrderEventImage) (hwrap : n.toNat + es.length ≤ 2 ^ 64) :
    ids (stamp n es) = List.range' n.toNat es.length := by
  induction es generalizing n with
  | nil => rfl
  | cons e es ih =>
    rw [List.length_cons] at hwrap
    rw [stamp, List.length_cons, List.range'_succ, ids, List.map_cons]
    refine congrArg (n.toNat :: ·) ?_
    rcases es with _ | ⟨e', es⟩
    · rfl
    · rw [List.length_cons] at hwrap
      have hsucc : (n + 1).toNat = n.toNat + 1 := by bv_omega
      rw [← hsucc]
      exact ih (n + 1) (by rw [hsucc, List.length_cons]; omega)

/-- What of the events appended finds room, as `Append` numbers it. -/
def written (log : OrderEventLog OrderEventImage) (es : List OrderEventImage) : List OrderEventImage :=
  (stamp log.nextEventId es).take (log.capacity - log.entries.length)

theorem foldl_append_written (es : List OrderEventImage) (log : OrderEventLog OrderEventImage) :
    (es.foldl append log).diskFile = log.diskFile.map (· ++ codec.encAll (written log es)) := by
  induction es generalizing log with
  | nil => simp [written, stamp]
  | cons e es ih =>
    rw [List.foldl_cons, ih]
    by_cases hfull : log.entries.length ≥ log.capacity
    · have hdrop : append log e =
        { log with nextEventId := log.nextEventId + 1, logFullDrops := log.logFullDrops + 1 } := by
        rw [append, applyEvent, if_pos hfull]
      have hnone : log.capacity - log.entries.length = 0 := by omega
      rw [hdrop, written, written]
      simp only [hnone, List.take_zero]
    · have hgo : append log e =
          { log with
            nextEventId := log.nextEventId + 1
            entries := log.entries ++ [LogRecord.setEventId log.nextEventId e]
            diskFile := log.diskFile.map (· ++ codec.enc (LogRecord.setEventId log.nextEventId e)) } := by
        rw [append, applyEvent, if_neg hfull]
        rfl
      have hroom : log.capacity - log.entries.length = log.capacity - (log.entries.length + 1) + 1 := by omega
      rw [hgo, written, written, stamp, hroom, List.take_succ_cons, Codec.encAll_cons, List.length_append,
        List.length_singleton]
      simp only [Option.map_map, Function.comp_def, List.append_assoc]

/-! ### A restart -/

/-- Ids below the counter's end, with room for so many more. -/
def RoomForIds (file : List UInt8) (count : Nat) : Prop := ∀ id ∈ 0 :: ids (reload file), id + count < 2 ^ 64

/-- What is appended is numbered upwards, from past everything loaded on. -/
theorem ids_stamp_boot {file : List UInt8} {es : List OrderEventImage} (hroom : RoomForIds file es.length) :
    (ids (stamp (boot file).nextEventId es)).Pairwise (· < ·) ∧
      ∀ id ∈ ids (reload file), ∀ id' ∈ ids (stamp (boot file).nextEventId es), id < id' := by
  rcases es with _ | ⟨e, es⟩
  · exact ⟨List.Pairwise.nil, fun _ _ _ hid' => absurd hid' List.not_mem_nil⟩
  have hpast := pastIds_boot file fun id hid => by
    have hlt := hroom id (List.mem_cons_of_mem 0 hid)
    rw [List.length_cons] at hlt
    omega
  obtain ⟨top, htop, hnext⟩ := hpast.next
  rw [boot_entries] at htop
  have htopRoom := hroom top htop
  have hids : ids (stamp (boot file).nextEventId (e :: es)) =
    List.range' (boot file).nextEventId.toNat (e :: es).length :=
    ids_stamp _ _ (by omega)
  rw [hids]
  refine ⟨List.pairwise_lt_range', fun id hid id' hid' => ?_⟩
  rw [← boot_entries file] at hid
  exact Nat.lt_of_lt_of_le (hpast.past id hid) ((List.mem_range'_1.1 hid').1)

/-- After a restart the ids increase exactly if those in the file did, and with no torn tail none occurs twice in
    the file exactly if none did. -/
theorem restart_ids (file : List UInt8) (es : List OrderEventImage) (hroom : RoomForIds file es.length) :
    (IdsIncreasing file es ↔ (ids (reload file)).Pairwise (· < ·)) ∧
      ∀ recs, file = currentBytes ++ codec.encAll recs → (IdsOnce file es ↔ (ids recs).Nodup) := by
  obtain ⟨hup, hpast⟩ := ids_stamp_boot hroom
  refine ⟨?_, fun recs hfile => ?_⟩
  · rw [IdsIncreasing, ids, List.map_append, List.pairwise_append]
    exact ⟨fun h => h.1, fun h => ⟨h, hup, hpast⟩⟩
  · have hboot := boot_current (codec.encAll recs)
    rw [← hfile] at hboot
    obtain ⟨hentries, hcapacity, hdisk⟩ := hboot
    have hafter : ∀ f, (es.foldl append (boot file)).diskFile = some f ↔
        currentBytes ++ codec.encAll (recs ++ written (boot file) es) = f := by
      intro f
      rw [foldl_append_written, hdisk, Option.map_some, Option.some_inj, hfile, List.append_assoc,
        Codec.encAll_append]
    have hrecords : records (currentBytes ++ codec.encAll (recs ++ written (boot file) es)) =
      recs ++ written (boot file) es := by
      rw [records, List.drop_left' (currentBytes_length.trans codec_width.symm), Codec.frames_encAll]
    have honce : IdsOnce file es ↔ (ids (recs ++ written (boot file) es)).Nodup := by
      refine ⟨fun h => ?_, fun h f hf => ?_⟩
      · have hnodup := h _ ((hafter _).2 rfl)
        rwa [hrecords] at hnodup
      · rwa [← (hafter f).1 hf, hrecords]
    rw [honce, ids, List.map_append, List.nodup_append]
    refine ⟨fun h => h.1, fun h => ⟨h, ?_, ?_⟩⟩
    · exact (hup.sublist ((List.take_sublist ..).map _)).imp fun hlt => Nat.ne_of_lt hlt
    · -- where there is room for an event, every record of the file is loaded
      intro id hid id' hid'
      rw [Codec.frames_encAll] at hentries
      by_cases hfull : recs.length ≥ orderEventLogMaxCapacity
      · have hlen : (boot file).entries.length = orderEventLogMaxCapacity := by
          rw [hentries, List.length_take]
          omega
        rw [written, hcapacity, hlen, Nat.sub_self, List.take_zero] at hid'
        exact absurd hid' List.not_mem_nil
      · have hall : reload file = recs := by
          rw [← boot_entries, hentries, List.take_of_length_le (by omega)]
        rw [hall] at hpast
        exact Nat.ne_of_lt (hpast id hid id' (((List.take_sublist ..).map _).subset hid'))

/-- Records with the given ids. -/
def sampleIds (eventIds : List (BitVec 64)) : List OrderEventImage :=
  eventIds.map fun eventId => { sampleEvent 1 with eventId }

theorem restart_ids_three :
    (IdsIncreasing (currentBytes ++ codec.encAll (sampleIds [3, 5, 9])) [sampleEvent 1, sampleEvent 2] ↔
        (ids (reload (currentBytes ++ codec.encAll (sampleIds [3, 5, 9])))).Pairwise (· < ·)) ∧
      ∀ recs, currentBytes ++ codec.encAll (sampleIds [3, 5, 9]) = currentBytes ++ codec.encAll recs →
        (IdsOnce (currentBytes ++ codec.encAll (sampleIds [3, 5, 9])) [sampleEvent 1, sampleEvent 2] ↔
          (ids recs).Nodup) :=
  restart_ids (currentBytes ++ codec.encAll (sampleIds [3, 5, 9])) [sampleEvent 1, sampleEvent 2]
    (by unfold RoomForIds; decide +kernel)

/-- Ids that are twice in the file stay so, and behind the last id of all the counter goes round. -/
theorem restart_ids_any :
    ¬IdsIncreasing (currentBytes ++ codec.encAll (sampleIds [5, 5])) [] ∧
      ¬IdsOnce (currentBytes ++ codec.encAll (sampleIds [5, 5])) [] ∧
      ¬IdsIncreasing (currentBytes ++ codec.encAll (sampleIds [BitVec.allOnes 64])) [sampleEvent 1] := by
  refine ⟨by unfold IdsIncreasing; decide +kernel, fun h => ?_, by unfold IdsIncreasing; decide +kernel⟩
  have hnodup := h (currentBytes ++ codec.encAll (sampleIds [5, 5])) (by decide +kernel)
  revert hnodup
  decide +kernel

end OrderEventLog

end FoxTrader
