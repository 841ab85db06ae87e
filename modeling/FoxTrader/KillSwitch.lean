import FoxTrader.Lib.RequestWord
import FoxTrader.OrderManager

/-! # The kill switches

    Every pass of `EngineCommon_ComposeAndKillEval` takes the reset requests, then the trip requests,
    then values every node and the account against their drawdown limits, and publishes the flags it
    ends with as the kill word. Only the composer writes a kill flag; any other thread asks through
    the two request words, which it may do between any two turns of the pass. -/

namespace FoxTrader

open Lib Function OrderManagerState

/-! ### Lanes of the request words -/

/-- `KILL_TRIP_LANE_NODE`. -/
def killTripLaneNode (n : NodeIdx) : BitVec 32 := 1#32 <<< n.val

/-- `KILL_TRIP_LANE_GLOBAL`. -/
def killTripLaneGlobal (site : Fin 16) : BitVec 32 := 1#32 <<< (16 + site.val)

/-- `KillTripSite_Name`. -/
def killTripSiteName (site : Fin 16) : String :=
  match site.val with
  | 0 => "WS_RING_FULL"
  | 1 => "REST_RING_FULL"
  | 2 => "PAPER_SYNTH_RING_FULL"
  | 3 => "BUCKET_OVERFLOW"
  | _ => "UNKNOWN_SITE"

/-- The fatal sites of a trip word, lowest lane first. -/
def globalLanes (word : BitVec 32) : List (Fin 16) :=
  (List.finRange 16).filter fun site => word.getLsbD (16 + site.val)

/-! ### State -/

/-- What the kill switches read of the configuration. -/
structure KillConfig where
  registeredCount : Nat
  mtmKillSwitchEnabled : Bool
  maxDrawdownPct : Money
  nodeMaxDrawdownPct : NodeIdx → Money
  minKillLoss : Money
  ksMinBalance : Money
  ksMaxDrawdownPct : Money

/-- The kill fields of one node. -/
structure KillNode where
  killTripped : Bool
  driftKillTripped : Bool
  nodePeakBalance : Money
  nodeDdPct : Money
  nodeUnrealizedView : Money
  allocatedBalance : Money
  nodeKsTripsTotal : Nat

/-- `MoneySnapshotNodeRow`. -/
structure MoneySnapshotNodeRow where
  alloc : Money
  realized : Money
  fees : Money
  peak : Money
  dd : Money
  unrealized : Money

/-- `MoneySnapshot`. -/
structure MoneySnapshot where
  generation : Nat
  killWordCopy : BitVec 64
  balance : Money
  realized : Money
  ksPeak : Money
  totalFees : Money
  totalMakerFees : Money
  totalTakerFees : Money
  rows : NodeIdx → MoneySnapshotNodeRow

/-- Where the composer stands in its pass. -/
inductive ComposePhase where
  | idle
  | resetsTaken
  | tripsTaken
  deriving DecidableEq

structure KillState where
  oms : OrderManagerState
  nodes : NodeIdx → KillNode
  killSwitchTripped : Bool
  ksTripsTotal : Nat
  permission : NodeIdx → BitVec 8
  killResetMask : BitVec 32
  killTripRequest : BitVec 32
  killWord : BitVec 64
  publish : Option MoneySnapshot
  phase : ComposePhase

namespace KillState

variable (cfg : KillConfig) (c : OmsConfig)

/-! ### The requests -/

/-- Step 0 on one node: a reset clears the flag, the peak, the drawdown and the drift latch. -/
def resetNode (k : KillNode) : KillNode :=
  { k with killTripped := false, nodePeakBalance := .zero, nodeDdPct := .zero, driftKillTripped := false }

/-- The pending fills, then step 0: take the reset requests. -/
def takeResets (s : KillState) : Flagged 64 KillState := do
  let oms ← s.oms.fillRingsApply c
  return { s with
    oms
    nodes := fun n => if s.killResetMask.getLsbD n.val then resetNode (s.nodes n) else s.nodes n
    killResetMask := 0
    phase := .resetsTaken }

/-- A trip by request; nothing on a node that is tripped. -/
def tripNode (k : KillNode) : KillNode :=
  if k.killTripped then k else { k with killTripped := true, nodeKsTripsTotal := k.nodeKsTripsTotal + 1 }

/-- `EventLoop_ClearAllPermissions`. -/
def clearAllPermissions (s : KillState) : KillState :=
  { s with permission := fun n => if n.val < cfg.registeredCount then 0 else s.permission n }

/-- `EventLoop_KillSwitchTrip`. -/
def killSwitchTrip (s : KillState) : KillState :=
  (if s.killSwitchTripped then s else { s with killSwitchTripped := true, ksTripsTotal := s.ksTripsTotal + 1 }).clearAllPermissions
    cfg

/-- One fatal lane: the global trip and its marker. -/
def fatalLane (s : KillState) (site : Fin 16) : Flagged 64 KillState := do
  let s := s.killSwitchTrip cfg
  let composer ← s.oms.books.composer.fatalMarker c (killTripSiteName site)
  return { s with oms := { s.oms with books := { s.oms.books with composer } } }

/-- Step 0a: take the trip requests. A lane that names no registered node is dropped. -/
def takeTrips (s : KillState) : Flagged 64 KillState := do
  let nodes := fun n =>
    if n.val < cfg.registeredCount ∧ s.killTripRequest.getLsbD n.val then tripNode (s.nodes n) else s.nodes n
  (globalLanes s.killTripRequest).foldlM (fatalLane cfg c) { s with nodes, killTripRequest := 0, phase := .tripsTaken }

/-! ### The evaluation -/

/-- The held slots of a node, lowest first. -/
def heldSlots (s : KillState) (n : NodeIdx) : List SlotIdx :=
  (List.finRange 16).filter fun slot => s.oms.books.portfolio.active slot && c.slotNode slot = n

/-- What a node's positions would gain at `currentPrice`. -/
def unrealized (s : KillState) (n : NodeIdx) (currentPrice : Money) : Flagged 64 Money :=
  if cfg.mtmKillSwitchEnabled && !currentPrice.isZero then
    (s.heldSlots c n).foldlM (fun sum slot => do
      let pos := s.oms.books.portfolio.positions slot
      sum.add (← Money.fillGross pos.entryPrice currentPrice pos.quantity)) .zero
  else pure .zero

/-- The trip of a node past its drawdown limit that lost enough. -/
def judgeNode (threshold minKillLoss dd drop : Money) (k : KillNode) : KillNode :=
  if dd.gt threshold && drop.gt minKillLoss then tripNode k else k

/-- Step 1 on one node: its value, its peak, its drawdown, and the trip. -/
def evalNode (s : KillState) (currentPrice : Money) (n : NodeIdx) : Flagged 64 KillNode := do
  let k := s.nodes n
  let unrealized ← s.unrealized cfg c n currentPrice
  let gain ← (s.oms.books.composer.els.nodes n).nodeRealized.add unrealized
  let currentValue ← k.allocatedBalance.add gain
  let peak := (if k.nodePeakBalance.isZero then k.allocatedBalance else k.nodePeakBalance).max currentValue
  let drop ← peak.sub currentValue
  let dd ← (if drop.gt .zero && peak.gt .zero then drop.div peak else pure .zero)
  let threshold := if !(cfg.nodeMaxDrawdownPct n).isZero then cfg.nodeMaxDrawdownPct n else cfg.maxDrawdownPct
  let k := { k with nodeUnrealizedView := unrealized, nodePeakBalance := peak, nodeDdPct := dd }
  return judgeNode threshold cfg.minKillLoss dd drop k

/-- One turn of the loop over the nodes. -/
def evalNodeTurn (currentPrice : Money) (s : KillState) (n : NodeIdx) : Flagged 64 KillState := do
  let k ← s.evalNode cfg c currentPrice n
  return { s with nodes := update s.nodes n k }

/-- The nodes below the registered count. -/
def registered : List NodeIdx := (List.finRange 16).filter fun n => n.val < cfg.registeredCount

/-- Step 1. -/
def evalNodes (s : KillState) (currentPrice : Money) : Flagged 64 KillState :=
  (registered cfg).foldlM (evalNodeTurn cfg c currentPrice) s

/-- The account is below its floor or its drawdown limit. -/
def accountBreached (s : KillState) : Flagged 64 Bool := do
  let ledger := s.oms.books.composer.ledger
  let floor := !cfg.ksMinBalance.isZero && ledger.balance.lt cfg.ksMinBalance
  if !cfg.ksMaxDrawdownPct.isZero && !ledger.ksPeakBalance.isZero then
    let drop ← ledger.ksPeakBalance.sub ledger.balance
    if drop.gt .zero then
      let dd ← drop.div ledger.ksPeakBalance
      return floor || dd.gt cfg.ksMaxDrawdownPct
    else return floor
  else return floor

/-- `EventLoop_KillSwitchEvaluate`. -/
def killSwitchEvaluate (s : KillState) : Flagged 64 KillState :=
  if s.killSwitchTripped then pure s
  else do
    let breached ← s.accountBreached cfg
    return if breached then s.killSwitchTrip cfg else s

/-- `KILLWORD_MASK_GLOBAL`, `KILLWORD_NODE_MASK`. -/
def killwordMaskGlobal : BitVec 64 := 1#64

def killwordNodeMask (n : NodeIdx) : BitVec 64 := 1#64 <<< (16 + n.val)

/-- Step 3: the flags of the account and of the registered nodes in one word. -/
def composeKillWord (s : KillState) : BitVec 64 :=
  (List.finRange 16).foldl
    (fun kw n => if n.val < cfg.registeredCount ∧ (s.nodes n).killTripped then kw ||| killwordNodeMask n else kw)
    (if s.killSwitchTripped then killwordMaskGlobal else 0)

/-- Steps 3 and 4: store the kill word and publish the money fields with it. -/
def publishPack (s : KillState) : KillState :=
  let kw := s.composeKillWord cfg
  let ledger := s.oms.books.composer.ledger
  let rows := s.oms.books.composer.els.nodes
  { s with
    killWord := kw
    publish := some {
      generation := ((s.publish.map (·.generation)).getD 0) + 1
      killWordCopy := kw
      balance := ledger.balance
      realized := ledger.realizedPnl
      ksPeak := ledger.ksPeakBalance
      totalFees := ledger.totalFees
      totalMakerFees := ledger.totalMakerFees
      totalTakerFees := ledger.totalTakerFees
      rows := fun n =>
        { alloc := (s.nodes n).allocatedBalance, realized := (rows n).nodeRealized, fees := (rows n).nodeFees
          peak := (s.nodes n).nodePeakBalance, dd := (s.nodes n).nodeDdPct
          unrealized := (s.nodes n).nodeUnrealizedView } } }

/-- The rest of the pass: the drags, both evaluations, the kill word and the pack. -/
def finish (s : KillState) (currentPrice : Money) (drags : List DragCmd) : Flagged 64 KillState := do
  let books := { s.oms.books with portfolio := drags.foldl applyDrag s.oms.books.portfolio }
  let s ← { s with oms := { s.oms with books } }.evalNodes cfg c currentPrice
  let s ← s.killSwitchEvaluate cfg
  return { s.publishPack cfg with phase := .idle }

/-! ### Interleaving -/

/-- A turn of a requester, of the composer, or of the order manager between two passes. -/
inductive Act where
  | requestTrip (lanes : BitVec 32)
  | requestReset (n : NodeIdx)
  | compose (currentPrice : Money) (drags : List DragCmd)
  | own (a : OrderManagerState.Act)

/-- The composer's next turn. -/
def composeTurn (s : KillState) (currentPrice : Money) (drags : List DragCmd) : Flagged 64 KillState :=
  match s.phase with
  | .idle => s.takeResets c
  | .resetsTaken => s.takeTrips cfg c
  | .tripsTaken => s.finish cfg c currentPrice drags

def act (s : KillState) : Act → Flagged 64 KillState
  | .requestTrip lanes => pure { s with killTripRequest := s.killTripRequest ||| lanes }
  | .requestReset n => pure { s with killResetMask := s.killResetMask ||| killTripLaneNode n }
  | .compose currentPrice drags => s.composeTurn cfg c currentPrice drags
  | .own a => if s.phase = .idle then do return { s with oms := (← s.oms.act c a) } else pure s

/-- One turn, its fault bits stuck onto the status word. -/
def step (s : KillState) (a : Act) : KillState :=
  let r := s.act cfg c a
  { r.val with oms := { r.val.oms with moneyOpFlags := s.oms.moneyOpFlags ||| r.flags } }

end KillState

end FoxTrader
