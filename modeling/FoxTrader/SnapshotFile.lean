import FoxTrader.EventDrain
import FoxTrader.Lib.RecordReader
import FoxTrader.Lib.Run
import FoxTrader.OrderEventLog

/-! # The bytes of a snapshot

    `ShardedSnapshot` says what a snapshot keeps of the accounts; here is the file, row by row as the
    field registries have it, and what loading does to the state in memory. The loader reads the whole
    file into locals before it touches anything, so a file it refuses, for its header or for missing
    bytes, leaves the state as it was. The writer goes through a temporary file and renames it.

    Amounts, predictions and the windows of the delegates are kept as the bytes they are. The exit
    levels a leg is armed with come from the configuration and are handed in. -/

namespace FoxTrader

open Lib Function
open OrderEventImage (u8 u16 u32 u64 i128)

/-! ### Rows -/

/-- The `PERSIST` rows of `FOREACH_OMS_FIELD`, in order. -/
structure OmsWire where
  balance : BitVec 128
  realizedPnl : BitVec 128
  ksPeakBalance : BitVec 128
  killSwitchTripped : BitVec 32
  totalFees : BitVec 128
  totalMakerFees : BitVec 128
  totalTakerFees : BitVec 128
  makerFillsCount : BitVec 32
  takerFillsCount : BitVec 32
  paperSessionStartUs : BitVec 64

def OmsWire.codec : Codec OmsWire :=
  (i128.prod <| i128.prod <| i128.prod <| u32.prod <| i128.prod <| i128.prod <| i128.prod <| u32.prod <|
    u32.prod u64).map
    { toFun := fun ⟨a, b, c, d, e, f, g, h, i, j⟩ => ⟨a, b, c, d, e, f, g, h, i, j⟩
      invFun := fun ⟨a, b, c, d, e, f, g, h, i, j⟩ => ⟨a, b, c, d, e, f, g, h, i, j⟩
      left_inv := fun _ => rfl
      right_inv := fun _ => rfl }

/-- `Position`, all of its 128 bytes. -/
structure PositionImage where
  takeProfitPrice : BitVec 128
  stopLossPrice : BitVec 128
  quantity : BitVec 128
  entryPrice : BitVec 128
  entryFee : BitVec 128
  originalTp : BitVec 128
  originalSl : BitVec 128
  entryTimestampUs : BitVec 64
  pairIndex : BitVec 8
  padPos : { bs : List UInt8 // bs.length = 7 }

theorem seven_pos : 0 < 7 := by decide

def PositionImage.codec : Codec PositionImage :=
  (i128.prod <| i128.prod <| i128.prod <| i128.prod <| i128.prod <| i128.prod <| i128.prod <| u64.prod <|
    u8.prod <| .raw 7 seven_pos).map
    { toFun := fun ⟨a, b, c, d, e, f, g, h, i, j⟩ => ⟨a, b, c, d, e, f, g, h, i, j⟩
      invFun := fun ⟨a, b, c, d, e, f, g, h, i, j⟩ => ⟨a, b, c, d, e, f, g, h, i, j⟩
      left_inv := fun _ => rfl
      right_inv := fun _ => rfl }

/-- `FOREACH_REGIME_PERSIST_FIELD`. -/
structure RegimePersist where
  currentRegime : BitVec 32
  proposedRegime : BitVec 32
  hysteresisCount : BitVec 32
  hysteresisThreshold : BitVec 32
  lastStrategyId : BitVec 32
  regimeStartTick : BitVec 64
  regimeStartTime : BitVec 64

def RegimePersist.codec : Codec RegimePersist :=
  (u32.prod <| u32.prod <| u32.prod <| u32.prod <| u32.prod <| u64.prod u64).map
    { toFun := fun ⟨a, b, c, d, e, f, g⟩ => ⟨a, b, c, d, e, f, g⟩
      invFun := fun ⟨a, b, c, d, e, f, g⟩ => ⟨a, b, c, d, e, f, g⟩
      left_inv := fun _ => rfl
      right_inv := fun _ => rfl }

/-- `FOREACH_FEEDER_PERSIST_FIELD`: eight samples of 16 bytes and the cursor. -/
structure FeederPersist where
  priceSamples : { bs : List UInt8 // bs.length = 128 }
  head : BitVec 32
  count : BitVec 32

theorem feederSamples_pos : 0 < 128 := by decide

def FeederPersist.codec : Codec FeederPersist :=
  ((Codec.raw 128 feederSamples_pos).prod <| u32.prod u32).map
    { toFun := fun ⟨a, b, c⟩ => ⟨a, b, c⟩
      invFun := fun ⟨a, b, c⟩ => ⟨a, b, c⟩
      left_inv := fun _ => rfl
      right_inv := fun _ => rfl }

/-- `FOREACH_CONFIDENCE_PERSIST_FIELD`: three windows of 64 doubles and their cursors. -/
structure ConfidencePersist where
  icPredictions : { bs : List UInt8 // bs.length = 512 }
  icActuals : { bs : List UInt8 // bs.length = 512 }
  icCount : BitVec 32
  icHead : BitVec 32
  rmseWindow : { bs : List UInt8 // bs.length = 512 }
  rmseCount : BitVec 32
  rmseHead : BitVec 32

theorem icWindow_pos : 0 < 512 := by decide

def ConfidencePersist.codec : Codec ConfidencePersist :=
  ((Codec.raw 512 icWindow_pos).prod <| (Codec.raw 512 icWindow_pos).prod <| u32.prod <| u32.prod <|
    (Codec.raw 512 icWindow_pos).prod <| u32.prod u32).map
    { toFun := fun ⟨a, b, c, d, e, f, g⟩ => ⟨a, b, c, d, e, f, g⟩
      invFun := fun ⟨a, b, c, d, e, f, g⟩ => ⟨a, b, c, d, e, f, g⟩
      left_inv := fun _ => rfl
      right_inv := fun _ => rfl }

/-- The rows of `FOREACH_NODE_PERSIST_FIELD`, in order. -/
structure NodeWire where
  strategyId : BitVec 8
  resolvedStrategyId : BitVec 8
  strategyStateKind : BitVec 8
  padIds : BitVec 8
  allocatedBalance : BitVec 128
  entriesProcessed : BitVec 64
  exitsProcessed : BitVec 64
  nodeRealized : BitVec 128
  nodeFees : BitVec 128
  nodeOpenNotional : BitVec 128
  nodeWins : BitVec 32
  nodeLosses : BitVec 32
  nodeGrossWins : BitVec 128
  nodeGrossLosses : BitVec 128
  partnerPendingPnl : BitVec 128
  idleCycles : BitVec 32
  lastEntryPrice : BitVec 128
  lastEntryTick : BitVec 64
  slCooldownRemaining : BitVec 32
  nodePeakBalance : BitVec 128
  nodeKillTripped : BitVec 8
  padKill : { bs : List UInt8 // bs.length = 3 }
  nodeKsTripsTotal : BitVec 32
  regimeState : RegimePersist
  pnlFeeder : FeederPersist
  stagedPrediction : BitVec 64
  activePrediction : BitVec 64
  lastConfidence : BitVec 64
  confidence : ConfidencePersist

theorem three_pos : 0 < 3 := by decide

def NodeWire.codec : Codec NodeWire :=
  (u8.prod <| u8.prod <| u8.prod <| u8.prod <| i128.prod <| u64.prod <| u64.prod <| i128.prod <| i128.prod <|
    i128.prod <| u32.prod <| u32.prod <| i128.prod <| i128.prod <| i128.prod <| u32.prod <| i128.prod <|
    u64.prod <| u32.prod <| i128.prod <| u8.prod <| (Codec.raw 3 three_pos).prod <| u32.prod <|
    RegimePersist.codec.prod <| FeederPersist.codec.prod <| u64.prod <| u64.prod <| u64.prod
    ConfidencePersist.codec).map
    { toFun := fun ⟨a, b, c, d, e, f, g, h, i, j, k, l, m, n, o, p, q, r, s, t, u, v, w, x, y, z, a', b', c'⟩ =>
        ⟨a, b, c, d, e, f, g, h, i, j, k, l, m, n, o, p, q, r, s, t, u, v, w, x, y, z, a', b', c'⟩
      invFun := fun ⟨a, b, c, d, e, f, g, h, i, j, k, l, m, n, o, p, q, r, s, t, u, v, w, x, y, z, a', b', c'⟩ =>
        ⟨a, b, c, d, e, f, g, h, i, j, k, l, m, n, o, p, q, r, s, t, u, v, w, x, y, z, a', b', c'⟩
      left_inv := fun _ => rfl
      right_inv := fun _ => rfl }

/-- 116 bytes of accounts, `sizeof(Position<64>) == 128`, and 1944 bytes a node. -/
theorem row_widths : OmsWire.codec.width = 116 ∧ PositionImage.codec.width = 128 ∧ NodeWire.codec.width = 1944 := by
  decide +kernel

/-! ### What is in memory -/

/-- Set or clear the bits of a mask. -/
def withMask (mask : BitVec 8) (isSet : Bool) (flags : BitVec 8) : BitVec 8 :=
  if isSet then flags ||| mask else flags &&& ~~~mask

def hasMask (mask flags : BitVec 8) : Bool := flags &&& mask != 0

/-- `MASK_OMS_STATE_KILL_SWITCH_TRIPPED` and `MASK_NODE_STATE_KILL_TRIPPED`. -/
abbrev maskOmsKill : BitVec 8 := 4
abbrev maskNodeKill : BitVec 8 := 2

/-- The persisted members of `OrderManagerState`, and the word the kill bit is in. -/
structure OmsMembers where
  omsStateFlags : BitVec 8
  balance : BitVec 128
  realizedPnl : BitVec 128
  ksPeakBalance : BitVec 128
  totalFees : BitVec 128
  totalMakerFees : BitVec 128
  totalTakerFees : BitVec 128
  makerFillsCount : BitVec 32
  takerFillsCount : BitVec 32
  paperSessionStartUs : BitVec 64

/-- The persisted members of `NodeContext`, and the word the kill bit is in. -/
structure NodeMembers where
  nodeStateFlags : BitVec 8
  strategyId : BitVec 8
  resolvedStrategyId : BitVec 8
  strategyStateKind : BitVec 8
  allocatedBalance : BitVec 128
  entriesProcessed : BitVec 64
  exitsProcessed : BitVec 64
  nodeRealized : BitVec 128
  nodeFees : BitVec 128
  nodeOpenNotional : BitVec 128
  nodeWins : BitVec 32
  nodeLosses : BitVec 32
  nodeGrossWins : BitVec 128
  nodeGrossLosses : BitVec 128
  partnerPendingPnl : BitVec 128
  idleCycles : BitVec 32
  lastEntryPrice : BitVec 128
  lastEntryTick : BitVec 64
  slCooldownRemaining : BitVec 32
  nodePeakBalance : BitVec 128
  nodeKsTripsTotal : BitVec 32
  regimeState : RegimePersist
  pnlFeeder : FeederPersist
  stagedPrediction : BitVec 64
  activePrediction : BitVec 64
  lastConfidence : BitVec 64
  confidence : ConfidencePersist

/-- The gates a leg of an `ExecutionCore` is watched with. -/
structure LegGates where
  active : Bool
  entryPrice : BitVec 128
  liveTp : BitVec 128
  liveSl : BitVec 128

/-- The state a snapshot is taken of and loaded into. A node has no core before it is registered; `rest` is all that
    loading does not touch. -/
structure SnapshotState (ρ : Type) where
  registeredCount : ℕ
  registered_le : registeredCount ≤ 16
  oms : OmsMembers
  activeBitmap : BitVec 16
  positions : SlotIdx → PositionImage
  nodes : NodeIdx → NodeMembers
  cores : NodeIdx → Option (Leg → LegGates)
  partnerPendingBitmap : BitVec 16
  rest : ρ

/-! ### The file -/

def OmsMembers.toWire (m : OmsMembers) : OmsWire :=
  { balance := m.balance, realizedPnl := m.realizedPnl, ksPeakBalance := m.ksPeakBalance
    killSwitchTripped := if hasMask maskOmsKill m.omsStateFlags then 1 else 0
    totalFees := m.totalFees, totalMakerFees := m.totalMakerFees, totalTakerFees := m.totalTakerFees
    makerFillsCount := m.makerFillsCount, takerFillsCount := m.takerFillsCount
    paperSessionStartUs := m.paperSessionStartUs }

/-- `OMS_PROJECT_PERSIST_COMMIT`. -/
def OmsWire.commit (w : OmsWire) (m : OmsMembers) : OmsMembers :=
  { omsStateFlags := withMask maskOmsKill (w.killSwitchTripped != 0) m.omsStateFlags
    balance := w.balance, realizedPnl := w.realizedPnl, ksPeakBalance := w.ksPeakBalance
    totalFees := w.totalFees, totalMakerFees := w.totalMakerFees, totalTakerFees := w.totalTakerFees
    makerFillsCount := w.makerFillsCount, takerFillsCount := w.takerFillsCount
    paperSessionStartUs := w.paperSessionStartUs }

theorem length_zeros (n : ℕ) : (List.replicate n (0 : UInt8)).length = n := List.length_replicate

/-- Padding. -/
def zeros (n : ℕ) : { bs : List UInt8 // bs.length = n } := ⟨List.replicate n 0, length_zeros n⟩

/-- `NPF_PROJECT_SAVE`. -/
def NodeMembers.toWire (m : NodeMembers) : NodeWire :=
  { strategyId := m.strategyId, resolvedStrategyId := m.resolvedStrategyId
    strategyStateKind := m.strategyStateKind, padIds := 0, allocatedBalance := m.allocatedBalance
    entriesProcessed := m.entriesProcessed, exitsProcessed := m.exitsProcessed, nodeRealized := m.nodeRealized
    nodeFees := m.nodeFees, nodeOpenNotional := m.nodeOpenNotional, nodeWins := m.nodeWins, nodeLosses := m.nodeLosses
    nodeGrossWins := m.nodeGrossWins, nodeGrossLosses := m.nodeGrossLosses, partnerPendingPnl := m.partnerPendingPnl
    idleCycles := m.idleCycles, lastEntryPrice := m.lastEntryPrice, lastEntryTick := m.lastEntryTick
    slCooldownRemaining := m.slCooldownRemaining, nodePeakBalance := m.nodePeakBalance
    nodeKillTripped := if hasMask maskNodeKill m.nodeStateFlags then 1 else 0, padKill := zeros 3
    nodeKsTripsTotal := m.nodeKsTripsTotal, regimeState := m.regimeState, pnlFeeder := m.pnlFeeder
    stagedPrediction := m.stagedPrediction, activePrediction := m.activePrediction
    lastConfidence := m.lastConfidence, confidence := m.confidence }

/-- `NPF_PROJECT_COMMIT`: the configured strategy and the kind of its state are not taken from the file. -/
def NodeWire.commit (w : NodeWire) (m : NodeMembers) : NodeMembers :=
  { nodeStateFlags := withMask maskNodeKill (w.nodeKillTripped != 0) m.nodeStateFlags
    strategyId := m.strategyId, resolvedStrategyId := w.resolvedStrategyId, strategyStateKind := m.strategyStateKind
    allocatedBalance := w.allocatedBalance, entriesProcessed := w.entriesProcessed
    exitsProcessed := w.exitsProcessed, nodeRealized := w.nodeRealized, nodeFees := w.nodeFees
    nodeOpenNotional := w.nodeOpenNotional, nodeWins := w.nodeWins, nodeLosses := w.nodeLosses
    nodeGrossWins := w.nodeGrossWins, nodeGrossLosses := w.nodeGrossLosses, partnerPendingPnl := w.partnerPendingPnl
    idleCycles := w.idleCycles, lastEntryPrice := w.lastEntryPrice, lastEntryTick := w.lastEntryTick
    slCooldownRemaining := w.slCooldownRemaining, nodePeakBalance := w.nodePeakBalance
    nodeKsTripsTotal := w.nodeKsTripsTotal, regimeState := w.regimeState, pnlFeeder := w.pnlFeeder
    stagedPrediction := w.stagedPrediction, activePrediction := w.activePrediction
    lastConfidence := w.lastConfidence, confidence := w.confidence }

/-- What the file has behind its four checked header fields. -/
structure SnapshotWire where
  timestampUs : BitVec 64
  padHeader : { bs : List UInt8 // bs.length = 3 }
  oms : OmsWire
  activeBitmap : BitVec 16
  padBitmap : BitVec 16
  positions : List PositionImage
  nodes : List NodeWire

/-- `SHARDED_SNAPSHOT_MAGIC` and `SHARDED_SNAPSHOT_VERSION`. -/
abbrev snapshotMagic : BitVec 32 := 0x53484430
abbrev snapshotVersion : BitVec 32 := 11

def pad3 : Codec { bs : List UInt8 // bs.length = 3 } := .raw 3 three_pos

/-- The bytes from the number of nodes on. -/
def SnapshotWire.bytes (numNodes : BitVec 32) (partialsByte : BitVec 8) (w : SnapshotWire) : List UInt8 :=
  u32.enc snapshotMagic ++ (u32.enc snapshotVersion ++ (u32.enc numNodes ++ (u64.enc w.timestampUs ++
    (u8.enc partialsByte ++ (pad3.enc w.padHeader ++ (OmsWire.codec.enc w.oms ++ (u16.enc w.activeBitmap ++
      (u16.enc w.padBitmap ++ (PositionImage.codec.encAll w.positions ++ NodeWire.codec.encAll w.nodes)))))))))

/-- What `ShardedSnapshot_Save` writes of a state. -/
def SnapshotState.toWire {ρ : Type} (timestampUs : BitVec 64) (s : SnapshotState ρ) : SnapshotWire :=
  { timestampUs, padHeader := zeros 3, oms := s.oms.toWire, activeBitmap := s.activeBitmap, padBitmap := 0
    positions := (List.finRange 16).map s.positions
    nodes := ((List.finRange 16).take s.registeredCount).map fun n => (s.nodes n).toWire }

/-- The image `ShardedSnapshot_Save` writes. -/
def SnapshotState.image {ρ : Type} (timestampUs : BitVec 64) (partialExitEnabled : Bool) (s : SnapshotState ρ) :
    List UInt8 :=
  (s.toWire timestampUs).bytes (BitVec.ofNat 32 s.registeredCount) (if partialExitEnabled then 1 else 0)

/-- The reading half of `ShardedSnapshot_Load`. The magic of the legacy format is refused like any other. -/
def readSnapshot (registeredCount : ℕ) (partialExitEnabled : Bool) (file : List UInt8) : Option SnapshotWire := do
  let magic ← u32.fread file
  guard (magic.1 = snapshotMagic)
  let version ← u32.fread magic.2
  guard (version.1 = snapshotVersion)
  let fileNumNodes ← u32.fread version.2
  guard (fileNumNodes.1.toNat = registeredCount)
  let timestampUs ← u64.fread fileNumNodes.2
  let filePartials ← u8.fread timestampUs.2
  let padHeader ← pad3.fread filePartials.2
  guard ((filePartials.1 != 0) = partialExitEnabled)
  let oms ← OmsWire.codec.fread padHeader.2
  let bitmap ← u16.fread oms.2
  let padBitmap ← u16.fread bitmap.2
  let positions ← PositionImage.codec.freadN 16 padBitmap.2
  let nodes ← NodeWire.codec.freadN registeredCount positions.2
  return { timestampUs := timestampUs.1, padHeader := padHeader.1, oms := oms.1, activeBitmap := bitmap.1
           padBitmap := padBitmap.1, positions := positions.1, nodes := nodes.1 }

/-! ### Loading -/

/-- The take profit and stop loss of a leg restored with a position, under the strategy its node runs. -/
abbrev RestoredExits := NodeIdx → Leg → BitVec 8 → PositionImage → BitVec 128 × BitVec 128

namespace SnapshotState

variable {ρ : Type}

/-- The bit of a slot in `active_bitmap`. -/
def held (s : SnapshotState ρ) (slot : SlotIdx) : Bool := s.activeBitmap.getLsbD slot.val

/-- One turn of the loop that arms the cores. -/
def armSlot (partialOn : Bool) (exits : RestoredExits) (s : SnapshotState ρ) (slot : SlotIdx) : SnapshotState ρ :=
  let node := slotNode partialOn slot
  let leg := slotLeg partialOn slot
  if s.held slot ∧ node.val < s.registeredCount then
    match s.cores node with
    | none => s
    | some core =>
      let pos := s.positions slot
      let levels := exits node leg (s.nodes node).resolvedStrategyId pos
      let gates : LegGates := { active := true, entryPrice := pos.entryPrice, liveTp := levels.1, liveSl := levels.2 }
      { s with cores := update s.cores node (some (update core leg gates)) }
  else s

/-- The parity of a node's two legs. -/
def legParityBit (s : SnapshotState ρ) (n : ℕ) : Bool :=
  xor (s.activeBitmap.getLsbD (2 * n)) (s.activeBitmap.getLsbD (2 * n + 1))

/-- `partner_pending_bitmap`, derived again. -/
def pendingBitmap (partialOn : Bool) (s : SnapshotState ρ) : BitVec 16 :=
  if partialOn then
    (List.range s.registeredCount).foldl
      (fun bitmap n => bitmap ||| ((BitVec.ofBool (s.legParityBit n)).zeroExtend 16 <<< n)) 0
  else 0

/-- The commits, before any core is armed. -/
def commit (w : SnapshotWire) (s : SnapshotState ρ) : SnapshotState ρ :=
  { s with
    oms := w.oms.commit s.oms
    activeBitmap := w.activeBitmap
    positions := fun slot => w.positions.getD slot.val (s.positions slot)
    nodes := fun n => match w.nodes[n.val]? with
      | some row => row.commit (s.nodes n)
      | none => s.nodes n }

/-- All that `ShardedSnapshot_Load` does with a file it accepts. -/
def restore (partialOn : Bool) (exits : RestoredExits) (w : SnapshotWire) (s : SnapshotState ρ) : SnapshotState ρ :=
  let armed := (List.finRange 16).foldl (armSlot partialOn exits) (s.commit w)
  { armed with partnerPendingBitmap := armed.pendingBitmap partialOn }

/-- `ShardedSnapshot_Load`: what it returns, and the state after it. -/
def load (partialOn : Bool) (exits : RestoredExits) (file : Option (List UInt8)) (s : SnapshotState ρ) :
    Bool × SnapshotState ρ :=
  match file.bind (readSnapshot s.registeredCount partialOn) with
  | none => (false, s)
  | some w => (true, s.restore partialOn exits w)

end SnapshotState

end FoxTrader
