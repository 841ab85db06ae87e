import FoxTrader.EventDrain

/-! # Snapshot, restart and paper reset

    A paper session is saved as its ledger, its positions and the rows of the registered nodes. What
    the composer keeps beside them is not in the file: loading derives the pairing bit of a node from
    the legs that are held, and `AggregatorState_Seed` derives each slot's notional from its position.
    A paper reset seeds the same way, from a portfolio wiped empty, and leaves the order table and
    everything queued as it is. -/

namespace FoxTrader

open Lib Function

/-- What a paper session is booted with. -/
structure SessionConfig where
  oms : OmsConfig
  registeredCount : Nat
  startingBalance : Money

namespace SessionConfig

def registered (sc : SessionConfig) (n : NodeIdx) : Bool := n.val < sc.registeredCount

end SessionConfig

/-! ### Seeding -/

/-- What a slot's tracker is seeded with: the entry basis times the quantity it holds. -/
def Portfolio.seedNotional (p : Portfolio) (slot : SlotIdx) : Flagged 64 Money :=
  if p.active slot then (p.positions slot).entryPrice.mul (p.positions slot).quantity else pure .zero

namespace AggregatorState

/-- One turn of `AggregatorState_Seed`'s loop. -/
def seedSlot (p : Portfolio) (agg : AggregatorState) (slot : SlotIdx) : Flagged 64 AggregatorState := do
  let notional ← p.seedNotional slot
  return { agg with
    slotNotional := update agg.slotNotional slot notional
    pendingTradeNet := update agg.pendingTradeNet slot .zero }

/-- `AggregatorState_Seed`. -/
def seed (agg : AggregatorState) (p : Portfolio) : Flagged 64 AggregatorState :=
  (List.finRange 16).foldlM (seedSlot p) agg

/-- What a loop over some of the slots has seeded. -/
theorem foldlM_seedSlot (p : Portfolio) (slots : List SlotIdx) (agg : AggregatorState) :
    (slots.foldlM (seedSlot p) agg).val =
      { agg with
        slotNotional := fun i => if i ∈ slots then (p.seedNotional i).val else agg.slotNotional i
        pendingTradeNet := fun i => if i ∈ slots then .zero else agg.pendingTradeNet i } := by
  induction slots generalizing agg with
  | nil => rfl
  | cons slot slots ih =>
    have hlane : ∀ (f : SlotIdx → Money) (x y : SlotIdx → Money), x slot = y slot →
        (fun i => if i ∈ slots then x i else update f slot (y slot) i) =
          fun i => if i ∈ slot :: slots then x i else f i := by
      intro f x y hxy
      funext i
      rcases eq_or_ne i slot with rfl | hne
      · simp [hxy]
      · simp [hne]
    rw [List.foldlM_cons, Flagged.bind_val, ih, seedSlot, Flagged.bind_val, Flagged.pure_val]
    simp only [hlane agg.slotNotional (fun i => (p.seedNotional i).val) (fun i => (p.seedNotional i).val) rfl,
      hlane agg.pendingTradeNet (fun _ => .zero) (fun _ => .zero) rfl]

/-- Seeding writes the two trackers of every slot. -/
theorem seed_val (agg : AggregatorState) (p : Portfolio) :
    (agg.seed p).val =
      { agg with slotNotional := fun i => (p.seedNotional i).val, pendingTradeNet := fun _ => .zero } := by
  rw [seed, foldlM_seedSlot]
  simp only [List.mem_finRange, if_true]

end AggregatorState

theorem Portfolio.seedNotional_of_flat {p : Portfolio} {slot : SlotIdx} (h : p.active slot = false) :
    p.seedNotional slot = pure .zero :=
  if_neg (ne_true_of_eq_false h)

/-! ### The snapshot file -/

/-- `SHARDED_SNAPSHOT_MAGIC` and `SHARDED_SNAPSHOT_VERSION`. -/
abbrev shardedSnapshotMagic : Nat := 0x53484430
abbrev shardedSnapshotVersion : Nat := 11

/-- What a snapshot file holds of the accounts; of the rows, those of the registered nodes. -/
structure ShardedSnapshot where
  magic : Nat
  version : Nat
  numNodes : Nat
  partialsByte : Bool
  ledger : Ledger
  portfolio : Portfolio
  nodes : NodeIdx → NodeContext

namespace ShardedSnapshot

/-- `ShardedSnapshot_Save`. -/
def save (sc : SessionConfig) (b : Books) : ShardedSnapshot :=
  { magic := shardedSnapshotMagic, version := shardedSnapshotVersion, numNodes := sc.registeredCount
    partialsByte := sc.oms.partialExitEnabled, ledger := b.composer.ledger, portfolio := b.portfolio
    nodes := b.composer.els.nodes }

/-- The load gates: another format, another number of nodes or another slot geometry is refused. -/
def accepts (sc : SessionConfig) (snap : ShardedSnapshot) : Bool :=
  snap.magic = shardedSnapshotMagic && snap.version = shardedSnapshotVersion && snap.numNodes = sc.registeredCount &&
    snap.partialsByte = sc.oms.partialExitEnabled

/-- Whether a leg of a node is held, under the geometry of partial exits. -/
def legHeld (p : Portfolio) (n : NodeIdx) (leg : Leg) : Bool := (legSlot true n leg).any p.active

/-- The pairing bit of a node as it is derived on load: exactly one of its legs is held. -/
def legParity (sc : SessionConfig) (p : Portfolio) (n : NodeIdx) : Bool :=
  sc.oms.partialExitEnabled && sc.registered n && xor (legHeld p n .a) (legHeld p n .b)

/-- `ShardedSnapshot_Load`, on what the accounts are. -/
def load (sc : SessionConfig) (snap : ShardedSnapshot) (b : Books) : Books :=
  if !snap.accepts sc then b
  else
    { b with
      portfolio := snap.portfolio
      composer := { b.composer with
        ledger := snap.ledger
        els := { b.composer.els with
          nodes := fun n => if sc.registered n then snap.nodes n else b.composer.els.nodes n
          partnerPendingBitmap := legParity sc snap.portfolio } } }

theorem accepts_save (sc : SessionConfig) (b : Books) : (save sc b).accepts sc = true := by
  simp only [accepts, save, decide_true, Bool.and_self]

end ShardedSnapshot

/-! ### Restart and reset -/

namespace Books

/-- The composer's trackers seeded from the positions. -/
def seed (b : Books) : Flagged 64 Books := do
  let agg ← b.composer.els.agg.seed b.portfolio
  return { b with composer := { b.composer with els := { b.composer.els with agg } } }

/-- The books `b'` are those of `b` with the trackers seeded. -/
structure Seeded (b b' : Books) : Prop where
  portfolio : b'.portfolio = b.portfolio
  fillEmitSeq : b'.fillEmitSeq = b.fillEmitSeq
  ledger : b'.composer.ledger = b.composer.ledger
  fillRings : b'.composer.els.agg.fillRings = b.composer.els.agg.fillRings
  nodes : b'.composer.els.nodes = b.composer.els.nodes
  partnerPendingBitmap : b'.composer.els.partnerPendingBitmap = b.composer.els.partnerPendingBitmap
  slotNotional : b'.composer.els.agg.slotNotional = fun slot => (b.portfolio.seedNotional slot).val
  pendingTradeNet : b'.composer.els.agg.pendingTradeNet = fun _ => .zero

theorem seed_seeded (b : Books) : Seeded b b.seed.val := by
  rw [seed, Flagged.bind_val, Flagged.pure_val, AggregatorState.seed_val]
  exact ⟨rfl, rfl, rfl, rfl, rfl, rfl, rfl, rfl⟩

end Books

/-- A turn of a session: one of the order manager, a stop and a start, or a paper reset. -/
inductive SessionAct where
  | own (a : OrderManagerState.Act)
  | restart
  | paperReset

namespace SessionConfig

open OrderManagerState

/-- A paper session stopped and started again: the composer's last pass, the final save, a fresh boot, the
    load and the seed. The new process starts its logs anew. -/
def restart (sc : SessionConfig) (s : OrderManagerState) : Flagged 64 OrderManagerState := do
  let stopped ← s.fillRingsApply sc.oms
  let fresh := init sc.startingBalance (stopped.books.composer.tradeLog.map fun _ => [])
  let books ← ((ShardedSnapshot.save sc stopped.books).load sc fresh.books).seed
  return { fresh with nowUs := s.nowUs, books }

/-- The DO_RESET rows of `FOREACH_OMS_FIELD` that are on the ledger. -/
def resetLedger (sc : SessionConfig) : Ledger :=
  { balance := sc.startingBalance, realizedPnl := .zero, ksPeakBalance := sc.startingBalance
    totalFees := .zero, totalMakerFees := .zero, totalTakerFees := .zero
    makerFillsCount := 0, takerFillsCount := 0 }

/-- `NODE_CTX_RESET_AUTOPOPULATE` for every registered node, and the session totals. -/
def resetRows (sc : SessionConfig) (els : EventLoopState) : EventLoopState :=
  { els with
    nodes := fun n => if sc.registered n then .zero else els.nodes n
    partnerPendingBitmap := fun n => if sc.registered n then false else els.partnerPendingBitmap n
    totalEntries := 0, totalExits := 0, totalEventsProcessed := 0 }

/-- The books once the registry resets are through and the portfolio is wiped. -/
def wipe (sc : SessionConfig) (b : Books) : Books :=
  { b with
    portfolio := .init
    composer := { b.composer with ledger := sc.resetLedger, els := sc.resetRows b.composer.els } }

/-- What `EngineSharded_ExecutePaperReset` does to the order manager and the composer: the registry resets,
    the seed of the wiped portfolio, the rotated trade log, the truncated event log. -/
def executePaperReset (sc : SessionConfig) (s : OrderManagerState) : Flagged 64 OrderManagerState := do
  let seeded ← (sc.wipe s.books).seed
  return { s with
    totalSubmitted := 0, totalFilled := 0, totalRejected := 0
    books := { seeded with
      composer := { seeded.composer with
        tradeLog := seeded.composer.tradeLog.map fun _ => []
        eventLog := seeded.composer.eventLog.reset } } }

/-- The reset as the composer runs it, behind its pass. -/
def paperReset (sc : SessionConfig) (s : OrderManagerState) : Flagged 64 OrderManagerState := do
  sc.executePaperReset (← s.fillRingsApply sc.oms)

def act (sc : SessionConfig) (s : OrderManagerState) : SessionAct → Flagged 64 OrderManagerState
  | .own a => s.act sc.oms a
  | .restart => sc.restart s
  | .paperReset => sc.paperReset s

def step (sc : SessionConfig) (s : OrderManagerState) (a : SessionAct) : OrderManagerState := (sc.act s a).val

end SessionConfig

end FoxTrader
