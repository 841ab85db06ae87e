import FoxTrader.Lib.Codec
import FoxTrader.Money

/-! # The order event log

    The append-only ledger of order lifecycle events: a bounded array in memory, written through to
    a disk file of one 32-byte header and raw 144-byte records. The log is generic in its record:
    the ledger folds over `OrderEvent`, the disk sees its `OrderEventImage`, whose `Codec` is the
    wire format. File operations are taken to succeed; a file is its bytes, a missing one `none`. -/

namespace FoxTrader

open Lib

/-! ### Events -/

inductive OrderEventType where
  | submitted | acknowledged | partialFill | fullFill | rejected | canceled | reconciled
  | ctrlTruncate | terminalIncomplete | ringFullFatal
  deriving DecidableEq

/-- The persisted codes. -/
def OrderEventType.code : OrderEventType → BitVec 8
  | .submitted => 0
  | .acknowledged => 1
  | .partialFill => 2
  | .fullFill => 3
  | .rejected => 4
  | .canceled => 5
  | .reconciled => 6
  | .ctrlTruncate => 7
  | .terminalIncomplete => 8
  | .ringFullFatal => 9

inductive OrderType where
  | marketBuy | marketSell | limitBuy | limitSell
  deriving DecidableEq

def OrderType.code : OrderType → BitVec 8
  | .marketBuy => 0
  | .marketSell => 1
  | .limitBuy => 2
  | .limitSell => 3

/-- One lifecycle event. `nodeId` is the portfolio slot, `-1` for an event of no slot. -/
structure OrderEvent where
  eventId : BitVec 64
  orderId : Nat
  timestampUs : Nat
  type : OrderEventType
  orderType : OrderType
  nodeId : Int
  price : Money
  qty : Money
  tp : Money
  sl : Money
  fee : Money
  reason : String

/-- The 144 bytes of a record, field by field. -/
structure OrderEventImage where
  eventId : BitVec 64
  orderId : BitVec 64
  timestampUs : BitVec 64
  type : BitVec 8
  orderType : BitVec 8
  nodeId : BitVec 16
  pad : BitVec 32
  price : BitVec 128
  qty : BitVec 128
  tp : BitVec 128
  sl : BitVec 128
  fee : BitVec 128
  reason : { bs : List UInt8 // bs.length = 32 }

namespace OrderEventImage

/-- A zeroed `reason`. -/
def noReason : { bs : List UInt8 // bs.length = 32 } := ⟨List.replicate 32 0, List.length_replicate⟩

def u8 : Codec (BitVec 8) := .uint 8 1 rfl (by decide)
def u16 : Codec (BitVec 16) := .uint 16 2 rfl (by decide)
def u32 : Codec (BitVec 32) := .uint 32 4 rfl (by decide)
def u64 : Codec (BitVec 64) := .uint 64 8 rfl (by decide)
def i128 : Codec (BitVec 128) := .uint 128 16 rfl (by decide)

/-- The record's wire format: its fields in order, explicit padding included. -/
def codec : Codec OrderEventImage :=
  (u64.prod <| u64.prod <| u64.prod <| u8.prod <| u8.prod <| u16.prod <| u32.prod <| i128.prod <|
    i128.prod <| i128.prod <| i128.prod <| i128.prod <| .raw 32 (by decide)).map
    { toFun := fun ⟨a, b, c, d, e, f, g, h, i, j, k, l, m⟩ => ⟨a, b, c, d, e, f, g, h, i, j, k, l, m⟩
      invFun := fun ⟨a, b, c, d, e, f, g, h, i, j, k, l, m⟩ => ⟨a, b, c, d, e, f, g, h, i, j, k, l, m⟩
      left_inv := fun _ => rfl
      right_inv := fun _ => rfl }

/-- `sizeof(OrderEvent<64>) == 144`. -/
theorem codec_width : codec.width = 144 := rfl

end OrderEventImage

/-- `strncpy` into `reason[32]`: at most 31 bytes, zero-filled. -/
def reasonBytes (reason : String) : { bs : List UInt8 // bs.length = 32 } :=
  let bs := reason.toUTF8.toList.take 31
  ⟨bs ++ List.replicate (32 - bs.length) 0, by
    have : bs.length ≤ 31 := by simp [bs]
    rw [List.length_append, List.length_replicate]; omega⟩

def OrderEvent.image (e : OrderEvent) : OrderEventImage where
  eventId := e.eventId
  orderId := .ofNat 64 e.orderId
  timestampUs := .ofNat 64 e.timestampUs
  type := e.type.code
  orderType := e.orderType.code
  nodeId := .ofInt 16 e.nodeId
  pad := 0
  price := .ofInt 128 e.price.v
  qty := .ofInt 128 e.qty.v
  tp := .ofInt 128 e.tp.v
  sl := .ofInt 128 e.sl.v
  fee := .ofInt 128 e.fee.v
  reason := reasonBytes e.reason

/-- What the log needs of a record: its id can be set, and it has bytes to write. -/
class LogRecord (ε : Type) where
  setEventId : BitVec 64 → ε → ε
  bytes : ε → List UInt8

instance : LogRecord OrderEvent where
  setEventId id e := { e with eventId := id }
  bytes e := OrderEventImage.codec.enc e.image

instance : LogRecord OrderEventImage where
  setEventId id e := { e with eventId := id }
  bytes := OrderEventImage.codec.enc

/-! ### The file header -/

structure OrderEventLogFileHeader where
  magic : { bs : List UInt8 // bs.length = 8 }
  fpnWidth : BitVec 32
  entrySize : BitVec 32
  formatVersion : BitVec 64
  reserved : BitVec 64

namespace OrderEventLogFileHeader

open OrderEventImage in
def codec : Codec OrderEventLogFileHeader :=
  ((Codec.raw 8 (by decide)).prod <| u32.prod <| u32.prod <| u64.prod u64).map
    { toFun := fun ⟨a, b, c, d, e⟩ => ⟨a, b, c, d, e⟩
      invFun := fun ⟨a, b, c, d, e⟩ => ⟨a, b, c, d, e⟩
      left_inv := fun _ => rfl
      right_inv := fun _ => rfl }

/-- `"OMSEL01"` and `"OMSEL02"` with the terminating zero. -/
def magic01 : List UInt8 := [79, 77, 83, 69, 76, 48, 49, 0]
def magic02 : List UInt8 := [79, 77, 83, 69, 76, 48, 50, 0]

/-- The header this build writes. -/
def current : OrderEventLogFileHeader :=
  { magic := ⟨magic02, rfl⟩, fpnWidth := 64, entrySize := 144, formatVersion := 2, reserved := 0 }

def currentBytes : List UInt8 := codec.enc current

theorem codec_width : codec.width = 32 := rfl

theorem currentBytes_length : currentBytes.length = 32 := codec.enc_length current

/-- Why `LoadFromDisk` refuses a file. -/
inductive Refusal where
  | tooSmall | preEpoch | badMagic | formatVersion | fpnWidth | entrySize

/-- The header gate of `LoadFromDisk`, in its order. -/
def gate (bs : List UInt8) : Except Refusal Unit :=
  if bs.length < codec.width then .error .tooSmall
  else
    let hdr := codec.dec (bs.take codec.width)
    if hdr.magic.1 = magic01 then .error .preEpoch
    else if hdr.magic.1 ≠ magic02 then .error .badMagic
    else if hdr.formatVersion ≠ 2 then .error .formatVersion
    else if hdr.fpnWidth ≠ 64 then .error .fpnWidth
    else if hdr.entrySize ≠ 144 then .error .entrySize
    else .ok ()

/-- `InitWithFile`'s probe: whether the file's header is the current epoch's. -/
def isCurrent (bs : List UInt8) : Bool :=
  if bs.length < codec.width then false
  else
    let hdr := codec.dec (bs.take codec.width)
    hdr.magic.1 = magic02 && hdr.formatVersion = 2 && hdr.fpnWidth = 64 && hdr.entrySize = 144

theorem gate_currentBytes (rest : List UInt8) : gate (currentBytes ++ rest) = .ok () := by
  have hlen : ¬(currentBytes ++ rest).length < codec.width := by
    rw [List.length_append, currentBytes_length, codec_width]; omega
  rw [gate, if_neg hlen, List.take_left' (currentBytes_length.trans codec_width.symm), currentBytes,
    codec.dec_enc]
  rfl

theorem isCurrent_currentBytes (rest : List UInt8) : isCurrent (currentBytes ++ rest) = true := by
  have hlen : ¬(currentBytes ++ rest).length < codec.width := by
    rw [List.length_append, currentBytes_length, codec_width]; omega
  rw [isCurrent, if_neg hlen, List.take_left' (currentBytes_length.trans codec_width.symm), currentBytes,
    codec.dec_enc]
  rfl

end OrderEventLogFileHeader

/-! ### The log -/

/-- `ORDER_EVENT_LOG_MAX_CAPACITY`. -/
abbrev orderEventLogMaxCapacity : Nat := 32768

/-- `entries` are the first `count` slots of the array; `diskFile` is what the open write-through
    stream holds, `none` without persistence. -/
structure OrderEventLog (ε : Type) where
  entries : List ε
  capacity : Nat
  nextEventId : BitVec 64
  diskFile : Option (List UInt8)
  logFullDrops : Nat

namespace OrderEventLog

variable {ε : Type} [LogRecord ε]

def init : OrderEventLog ε :=
  { entries := [], capacity := orderEventLogMaxCapacity, nextEventId := 1, diskFile := none
    logFullDrops := 0 }

/-- Memory and disk together: a full log drops the event from both. -/
def applyEvent (log : OrderEventLog ε) (event : ε) : OrderEventLog ε :=
  if log.entries.length ≥ log.capacity then { log with logFullDrops := log.logFullDrops + 1 }
  else
    { log with
      entries := log.entries ++ [event]
      diskFile := log.diskFile.map (· ++ LogRecord.bytes event) }

/-- `OrderEventLog_Append` with no writer thread: assign the id and apply. -/
def append (log : OrderEventLog ε) (event : ε) : OrderEventLog ε :=
  applyEvent { log with nextEventId := log.nextEventId + 1 } (LogRecord.setEventId log.nextEventId event)

/-- `OrderEventLog_TruncateDisk`: the file is recreated with the header alone. -/
def truncateDisk (log : OrderEventLog ε) : OrderEventLog ε :=
  { log with diskFile := log.diskFile.map fun _ => OrderEventLogFileHeader.currentBytes }

/-- `OrderEventLog_Reset`. -/
def reset (log : OrderEventLog ε) : OrderEventLog ε :=
  truncateDisk { log with entries := [], nextEventId := 1 }

/-- One record of `LoadFromDisk`'s loop: records past the capacity are read and left out. -/
def loadRecord (log : OrderEventLog OrderEventImage) (event : OrderEventImage) :
    OrderEventLog OrderEventImage :=
  if log.entries.length ≥ log.capacity then log
  else
    { log with
      entries := log.entries ++ [event]
      nextEventId := if event.eventId ≥ log.nextEventId then event.eventId + 1 else log.nextEventId }

/-- `OrderEventLog_LoadFromDisk`: how many records were loaded, `-1` for a refused file. -/
def loadFromDisk (log : OrderEventLog OrderEventImage) (file : Option (List UInt8)) :
    Int × OrderEventLog OrderEventImage :=
  match file with
  | none => (0, log)
  | some bs =>
    match OrderEventLogFileHeader.gate bs with
    | .error _ => (-1, log)
    | .ok _ =>
      let loaded := (OrderEventImage.codec.frames (bs.drop OrderEventLogFileHeader.codec.width)).foldl
        loadRecord log
      (loaded.entries.length - log.entries.length, loaded)

/-- `OrderEventLog_InitWithFile`: a current file is opened for append, any other is rotated away
    and a header-only one started. Returns the rotated file too. -/
def initWithFile (log : OrderEventLog ε) (file : Option (List UInt8)) :
    OrderEventLog ε × Option (List UInt8) :=
  match file with
  | none => ({ log with diskFile := some OrderEventLogFileHeader.currentBytes }, none)
  | some bs =>
    if OrderEventLogFileHeader.isCurrent bs then ({ log with diskFile := some bs }, none)
    else ({ log with diskFile := some OrderEventLogFileHeader.currentBytes }, some bs)

end OrderEventLog

end FoxTrader
