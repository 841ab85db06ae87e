import FoxTrader.Lib.Watermark
import FoxTrader.Reconcile
import FoxTrader.OrderManager
import Mathlib.Data.List.OfFn
import Mathlib.Data.List.FinRange

/-! # Missed fills

    `Reconcile_ApplyMissedFills` books the trades above the watermark that the venue reports, each as
    the fill of an order made up for it, and then moves the watermark. It looks for the trade's own
    order by comparing the venue's order id with the engine's, and books into slot 0 when none is
    equal. The watermark keeps two calls apart; two rows of one reply it does not. -/

namespace FoxTrader

open Lib

/-- A conversion to `uint64_t`. -/
def toU64 (i : Int) : Nat := (i % 2 ^ 64).toNat

/-- One fill handed to the ledger. -/
structure ReplayedFill where
  tradeId : Nat
  orderId : Int
  slot : SlotIdx
  deriving DecidableEq

/-- `booked` records every fill handed to `HandleFill`, oldest first; nothing reads it. -/
structure ReconcileState where
  oms : OrderManagerState
  lastSeenTradeId : Nat
  booked : List ReplayedFill

namespace ReconcileState

/-- `Reconcile_SeedWatermark`. -/
def seedWatermark (s : ReconcileState) (trades : List ReconcileTrade) : ReconcileState :=
  { s with lastSeenTradeId := trades.foldl (fun m t => max m (toU64 t.tradeId)) s.lastSeenTradeId }

/-- An occupied table slot whose order has the id. -/
def Matches (s : OrderManagerState) (orderId : Nat) (i : OrderSlot) : Prop :=
  s.orderBitmap i = true ∧ (s.orders i).id = orderId

instance (s : OrderManagerState) (orderId : Nat) : DecidablePred (Matches s orderId) := fun _ => instDecidableAnd

/-- The portfolio slot a trade goes to: that of the lowest match, or slot 0. -/
def originSlot (s : OrderManagerState) (t : ReconcileTrade) : SlotIdx :=
  match (List.finRange 16).find? fun i => Matches s (toU64 t.orderId) i with
  | some i => (s.orders i).portfolioSlot
  | none => firstIdx

variable (c : OmsConfig) (nodes : Option (NodeIdx → PerNodeCfg)) (stack : Order)

/-- The order made up for a trade, in a record whose bytes were `stack`. -/
def synthOrder (s : OrderManagerState) (t : ReconcileTrade) : Order :=
  let slot := originSlot s t
  let o := stack.init (toU64 t.orderId) slot (if t.isBuyer then .marketBuy else .marketSell)
  let o := { o with isMaker := t.isMaker }.bindPreResolved ((nodes.getD fun _ => .nullStub) (c.slotNode slot))
  { o with requestedQty := moneyFromDoublePayload t.qty, eventPrice := moneyFromDoublePayload t.price }

/-- The locals of the loop. -/
structure Replay where
  books : Books
  replayed : Nat
  maxTradeId : Nat
  booked : List ReplayedFill

/-- One row of the reply. -/
def replayTrade (s : ReconcileState) (l : Replay) (t : ReconcileTrade) : Flagged 64 Replay :=
  if toU64 t.tradeId ≤ s.lastSeenTradeId then pure l
  else do
    let o := synthOrder c nodes stack s.oms t
    let books ← l.books.handleFill c s.oms.nowUs o (moneyFromDoublePayload t.price) (moneyFromDoublePayload t.qty) 0 ""
    return {
      books
      replayed := l.replayed + 1
      maxTradeId := if l.maxTradeId < toU64 t.tradeId then toU64 t.tradeId else l.maxTradeId
      booked := l.booked ++ [{ tradeId := toU64 t.tradeId, orderId := t.orderId, slot := o.portfolioSlot }] }

/-- `Reconcile_ApplyMissedFills`: how many fills it replayed. -/
def applyMissedFills (s : ReconcileState) (trades : List ReconcileTrade) : Flagged 64 (ReconcileState × Nat) := do
  let l ← trades.foldlM (replayTrade c nodes stack s)
    { books := s.oms.books, replayed := 0, maxTradeId := s.lastSeenTradeId, booked := s.booked }
  return ({ oms := { s.oms with books := l.books }, lastSeenTradeId := l.maxTradeId, booked := l.booked }, l.replayed)

/-- One call. -/
def step (s : ReconcileState) (trades : List ReconcileTrade) : ReconcileState :=
  (applyMissedFills c nodes stack s trades).val.1

/-! ### What one call does -/

/-- A trade's id, as the watermark sees it. -/
abbrev key (t : ReconcileTrade) : Nat := toU64 t.tradeId

/-- The fill a trade becomes. -/
def fillOf (s : OrderManagerState) (t : ReconcileTrade) : ReplayedFill :=
  { tradeId := toU64 t.tradeId, orderId := t.orderId, slot := originSlot s t }

theorem replayTrade_val (s : ReconcileState) (l : Replay) (t : ReconcileTrade) :
    (replayTrade c nodes stack s l t).val.maxTradeId =
        (if s.lastSeenTradeId < key t then max l.maxTradeId (key t) else l.maxTradeId) ∧
      (replayTrade c nodes stack s l t).val.booked =
        l.booked ++ (if s.lastSeenTradeId < key t then [fillOf s.oms t] else []) := by
  by_cases hnew : s.lastSeenTradeId < key t
  · rw [if_pos hnew, if_pos hnew, replayTrade, if_neg (Nat.not_le.2 hnew)]
    refine ⟨?_, rfl⟩
    show (if l.maxTradeId < key t then key t else l.maxTradeId) = max l.maxTradeId (key t)
    split <;> omega
  · rw [if_neg hnew, if_neg hnew, replayTrade, if_pos (Nat.not_lt.1 hnew), List.append_nil]
    exact ⟨rfl, rfl⟩

theorem foldlM_replayTrade (s : ReconcileState) : ∀ (trades : List ReconcileTrade) (l : Replay),
    s.lastSeenTradeId ≤ l.maxTradeId →
    (trades.foldlM (replayTrade c nodes stack s) l).val.maxTradeId = watermark key l.maxTradeId trades ∧
      (trades.foldlM (replayTrade c nodes stack s) l).val.booked =
        l.booked ++ (trades.filter fun t => s.lastSeenTradeId < key t).map (fillOf s.oms)
  | [], l, _ => ⟨rfl, (List.append_nil _).symm⟩
  | t :: trades, l, hle => by
    obtain ⟨hmax, hbooked⟩ := replayTrade_val c nodes stack s l t
    have hmax' : (replayTrade c nodes stack s l t).val.maxTradeId = max l.maxTradeId (key t) := by
      rw [hmax]
      split <;> omega
    obtain ⟨ihmax, ihbooked⟩ := foldlM_replayTrade s trades (replayTrade c nodes stack s l t).val (by omega)
    rw [List.foldlM_cons, Flagged.bind_val, ihmax, ihbooked, hmax', hbooked, List.append_assoc]
    refine ⟨rfl, congrArg (l.booked ++ ·) ?_⟩
    rw [List.filter_cons]
    by_cases hnew : s.lastSeenTradeId < key t
    · rw [if_pos hnew, if_pos (decide_eq_true hnew)]
      rfl
    · rw [if_neg hnew, if_neg (by simpa using hnew)]
      rfl

/-- A call moves the watermark over its rows and books those above it; the table stays. -/
theorem step_eq (s : ReconcileState) (trades : List ReconcileTrade) :
    ((step c nodes stack s trades).oms.orders = s.oms.orders ∧ (step c nodes stack s trades).oms.orderBitmap = s.oms.orderBitmap) ∧
      (step c nodes stack s trades).lastSeenTradeId = watermark key s.lastSeenTradeId trades ∧
      (step c nodes stack s trades).booked =
        s.booked ++ (trades.filter fun t => s.lastSeenTradeId < key t).map (fillOf s.oms) :=
  ⟨⟨rfl, rfl⟩, foldlM_replayTrade c nodes stack s trades _ le_rfl⟩

theorem fillOf_congr {s s' : OrderManagerState} (horders : s'.orders = s.orders)
    (hbitmap : s'.orderBitmap = s.orderBitmap) :
    fillOf s' = fillOf s := by
  funext t
  simp only [fillOf, originSlot, Matches, horders, hbitmap]

/-! ### What a sequence of calls does -/

/-- A run moves the watermark over all rows and books what is fresh. -/
theorem run_eq : ∀ (calls : List (List ReconcileTrade)) (s : ReconcileState),
    (run (step c nodes stack) s calls).lastSeenTradeId = watermark key s.lastSeenTradeId calls.flatten ∧
      (run (step c nodes stack) s calls).booked = s.booked ++ (fresh key s.lastSeenTradeId calls).map (fillOf s.oms)
  | [], s => ⟨rfl, (List.append_nil _).symm⟩
  | trades :: calls, s => by
    obtain ⟨⟨horders, hbitmap⟩, hlast, hbooked⟩ := step_eq c nodes stack s trades
    obtain ⟨ihlast, ihbooked⟩ := run_eq calls (step c nodes stack s trades)
    rw [run_cons, ihlast, ihbooked, hlast, hbooked, fillOf_congr horders hbitmap, fresh, List.map_append,
      List.append_assoc,
      List.flatten_cons, watermark_append]
    exact ⟨rfl, rfl⟩

/-- Before any call. -/
def start (oms : OrderManagerState) (lastSeenTradeId : Nat) : ReconcileState := { oms, lastSeenTradeId, booked := [] }

/-- The order in `i` is the one a trade came from, `venueOrderId` being what the venue calls our orders. -/
def Originates (venueOrderId : Nat → Int) (oms : OrderManagerState) (orderId : Int) (i : OrderSlot) : Prop :=
  oms.orderBitmap i = true ∧ venueOrderId (oms.orders i).id = orderId

/-- The search ends in the portfolio slot of the order in `i`. -/
def Finds (oms : OrderManagerState) (orderId : Nat) (i : OrderSlot) : Prop :=
  (∃ j, Matches oms orderId j ∧ (∀ k < j, ¬Matches oms orderId k) ∧
      (oms.orders j).portfolioSlot = (oms.orders i).portfolioSlot) ∨
    ((∀ k, ¬Matches oms orderId k) ∧ (oms.orders i).portfolioSlot = firstIdx)

theorem finds_iff {oms : OrderManagerState} {t : ReconcileTrade} {i : OrderSlot} :
    Finds oms (toU64 t.orderId) i ↔ originSlot oms t = (oms.orders i).portfolioSlot := by
  have hofFn : List.finRange 16 = List.ofFn (id : OrderSlot → OrderSlot) := (List.ofFn_id 16).symm
  rw [originSlot]
  rcases hfind : (List.finRange 16).find? fun k => decide (Matches oms (toU64 t.orderId) k) with _ | j
  · have hnone : ∀ k, ¬Matches oms (toU64 t.orderId) k := fun k hk =>
      List.find?_eq_none.1 hfind k (List.mem_finRange k) (decide_eq_true hk)
    constructor
    · rintro (⟨j, hj, -, -⟩ | ⟨-, hslot⟩)
      · exact absurd hj (hnone j)
      · exact hslot.symm
    · exact fun hslot => .inr ⟨hnone, hslot.symm⟩
  · rw [hofFn, show j = id j from rfl, List.find?_ofFn_eq_some_of_injective Function.injective_id] at hfind
    have hj : Matches oms (toU64 t.orderId) j := of_decide_eq_true hfind.1
    have hbelow : ∀ k < j, ¬Matches oms (toU64 t.orderId) k := fun k hk hmatch => hfind.2 k hk (decide_eq_true hmatch)
    constructor
    · rintro (⟨j', hj', hbelow', hslot⟩ | ⟨hnone, -⟩)
      · rcases lt_trichotomy j j' with hlt | rfl | hlt
        · exact absurd hj (hbelow' j hlt)
        · exact hslot
        · exact absurd hj' (hbelow j' hlt)
      · exact absurd hj (hnone j)
    · exact fun hslot => .inl ⟨j, hj, hbelow, hslot⟩

/-- What a sequence of calls promises: no id twice, a watermark that only rises to the highest id, and every
    fill in the slot of the order it came from. -/
structure ReplaysRight (venueOrderId : Nat → Int) (oms : OrderManagerState) (w : Nat)
    (calls : List (List ReconcileTrade)) :
    Prop where
  once : ((run (step c nodes stack) (start oms w) calls).booked.map (·.tradeId)).Nodup
  rises : ∀ before after, calls = before ++ after →
    (run (step c nodes stack) (start oms w) before).lastSeenTradeId ≤
      (run (step c nodes stack) (start oms w) calls).lastSeenTradeId
  highest : (run (step c nodes stack) (start oms w) calls).lastSeenTradeId = (calls.flatten.map key).foldl max w
  routed : ∀ f ∈ (run (step c nodes stack) (start oms w) calls).booked, ∀ i, Originates venueOrderId oms f.orderId i →
    f.slot = (oms.orders i).portfolioSlot

/-- No reply has a new id twice, and the search finds the order of every new trade that has one. -/
structure Unambiguous (venueOrderId : Nat → Int) (oms : OrderManagerState) (w : Nat)
    (calls : List (List ReconcileTrade)) :
    Prop where
  rows : ∀ before trades after, calls = before ++ trades :: after →
    ((trades.filter fun t => watermark key w before.flatten < key t).map key).Nodup
  ids : ∀ before trades after, calls = before ++ trades :: after →
    ∀ t ∈ trades, watermark key w before.flatten < key t →
    ∀ i, Originates venueOrderId oms t.orderId i → Finds oms (toU64 t.orderId) i

theorem applyMissedFills_right_iff (venueOrderId : Nat → Int) (oms : OrderManagerState) (w : Nat)
    (calls : List (List ReconcileTrade)) :
    ReplaysRight c nodes stack venueOrderId oms w calls ↔ Unambiguous venueOrderId oms w calls := by
  have hrun := run_eq c nodes stack
  have hbooked : (run (step c nodes stack) (start oms w) calls).booked = (fresh key w calls).map (fillOf oms) :=
    (hrun calls (start oms w)).2
  have hids : (run (step c nodes stack) (start oms w) calls).booked.map (·.tradeId) =
    (fresh key w calls).map key := by
    rw [hbooked, List.map_map]
    rfl
  constructor
  · rintro ⟨honce, -, -, hrouted⟩
    refine ⟨nodup_fresh_iff.1 (hids ▸ honce), fun before trades after hcalls t ht hnew i horigin => finds_iff.2 ?_⟩
    have hfresh : t ∈ fresh key w calls := mem_fresh_iff.2 ⟨before, trades, after, hcalls, ht, hnew⟩
    exact hrouted (fillOf oms t) (hbooked ▸ List.mem_map_of_mem hfresh) i horigin
  · rintro ⟨hrows, hfound⟩
    refine ⟨hids ▸ nodup_fresh_iff.2 hrows, ?_, ?_, ?_⟩
    · rintro before after rfl
      rw [(hrun before _).1, (hrun (before ++ after) _).1, List.flatten_append, watermark_append]
      exact le_watermark _ _
    · rw [(hrun calls _).1, List.foldl_map]
      rfl
    · intro f hf i horigin
      obtain ⟨t, hfresh, rfl⟩ := List.mem_map.1 (hbooked ▸ hf)
      obtain ⟨before, trades, after, hcalls, ht, hnew⟩ := mem_fresh_iff.1 hfresh
      exact finds_iff.1 (hfound before trades after hcalls t ht hnew i horigin)

/-- A buy of 5 units at 100 under the venue's order id 28457. -/
def sampleMissed (tradeId : Int) : ReconcileTrade where
  tradeId := tradeId
  orderId := 28457
  price := 100
  qty := 5
  commission := 0
  timeMs := 0
  isBuyer := true
  isMaker := false

/-- A live order for the second slot, not executed yet. -/
def sampleWorking : OrderManagerState :=
  run (OrderManagerState.step (sampleLive [1])) (.init (Money.fromInt 1000).val none) [.submit (sampleOrder nextIdx .marketBuy 5)]

/-- The venue calls that order 28457: its trade goes to the first slot, and twice when the row comes twice. -/
theorem applyMissedFills_misroutes :
    ¬ReplaysRight (sampleLive [1]) none .blank (fun _ => 28457) sampleWorking 0 [[sampleMissed 7]] ∧
      ¬ReplaysRight (sampleLive [1]) none .blank (fun _ => 0) sampleWorking 0 [[sampleMissed 7, sampleMissed 7]] := by
  constructor
  · intro h
    have hbooked : (run (step (sampleLive [1]) none .blank) (start sampleWorking 0) [[sampleMissed 7]]).booked =
        [{ tradeId := 7, orderId := 28457, slot := firstIdx }] := by decide +kernel
    have hslot := h.routed _ (hbooked ▸ List.mem_singleton_self _) firstIdx ⟨by decide +kernel, rfl⟩
    exact absurd hslot (by decide +kernel)
  · intro h
    have honce := h.once
    revert honce
    decide +kernel

end ReconcileState

end FoxTrader
