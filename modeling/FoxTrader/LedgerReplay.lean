import FoxTrader.ComposerTotals
import FoxTrader.OrderOutcomes
import FoxTrader.OrderEventFold

/-! # Replaying what was booked live

    In the appending mode every leg leaves a row behind before it is booked. The rows of one slot go
    through the funnel ring of its node, so whatever the composer's schedule they reach the log in
    the order they were booked; rows of different slots may change places, which the fold does not
    notice. What the live handlers do to a slot is what its book makes of the row, as long as the
    fold books the row's fee: a fee that was booked as zero is indistinguishable from a missing one,
    and is recomputed. -/

namespace FoxTrader

open Lib Function

/-! ### The log under appends -/

/-- A row before the log gives it an id. -/
def OrderEvent.unstamped (e : OrderEvent) : OrderEvent := { e with eventId := 0 }

theorem OrderEvent.booking_unstamped (e : OrderEvent) : e.unstamped.booking = e.booking := rfl

namespace OrderEventLog

/-- An append that drops nothing adds its row. -/
theorem append_room {log : OrderEventLog OrderEvent} {e : OrderEvent} (h : (log.append e).logFullDrops = 0) :
    log.logFullDrops = 0 ∧ (log.append e).entries.map OrderEvent.unstamped =
      log.entries.map OrderEvent.unstamped ++ [e.unstamped] := by
  unfold append applyEvent at h ⊢
  split
  next hfull =>
    rw [if_pos hfull] at h
    exact absurd h (Nat.succ_ne_zero _)
  next hroom =>
    rw [if_neg hroom] at h
    refine ⟨h, ?_⟩
    rw [List.map_append]
    rfl

theorem foldl_append_room : ∀ (es : List OrderEvent) {log : OrderEventLog OrderEvent},
    (es.foldl append log).logFullDrops = 0 →
      log.logFullDrops = 0 ∧ (es.foldl append log).entries.map OrderEvent.unstamped =
        log.entries.map OrderEvent.unstamped ++ es.map OrderEvent.unstamped
  | [], _, h => ⟨h, (List.append_nil _).symm⟩
  | e :: es, log, h => by
    obtain ⟨hroom, hrows⟩ := foldl_append_room es h
    obtain ⟨hroom', hrows'⟩ := append_room hroom
    refine ⟨hroom', ?_⟩
    rw [List.foldl_cons, hrows, hrows', List.append_assoc]
    rfl

end OrderEventLog

/-! ### The trail -/

namespace Composer

variable {c : OmsConfig} {k k' k'' : Composer}

/-- The rows of the log and those still in the funnel. -/
def trail (k : Composer) : List OrderEvent := (k.eventLog.entries ++ k.pendingEvents).map OrderEvent.unstamped

/-- The rows that book on `slot`. -/
def rowsOn (slot : SlotIdx) (rows : List OrderEvent) : List OrderEvent := rows.filter fun e => e.booking = some slot

theorem rowsOn_append (slot : SlotIdx) (xs ys : List OrderEvent) :
    rowsOn slot (xs ++ ys) = rowsOn slot xs ++ rowsOn slot ys := List.filter_append ..

theorem rowsOn_unstamped (slot : SlotIdx) (rows : List OrderEvent) :
    rowsOn slot (rows.map OrderEvent.unstamped) = (rowsOn slot rows).map OrderEvent.unstamped := by
  rw [rowsOn, List.filter_map]
  rfl

/-- A funnel ring holds rows of its node's slots only, and none at all without an aggregator. -/
structure Laned (c : OmsConfig) (k : Composer) : Prop where
  own : ∀ n, ∀ e ∈ (k.oeRings n).items, ∀ slot, e.booking = some slot → c.slotNode slot = n
  direct : c.aggWired = false → ∀ n, (k.oeRings n).items = []

/-- `k'` is `k` with `rows` appended to its trail, as far as each slot can tell, unless a row was dropped. -/
structure Logs (c : OmsConfig) (rows : List OrderEvent) (k k' : Composer) : Prop where
  laned : k.Laned c → k'.Laned c
  room : k'.eventLog.logFullDrops = 0 → k.eventLog.logFullDrops = 0
  rows : k.Laned c → k'.eventLog.logFullDrops = 0 → ∀ slot, rowsOn slot k'.trail = rowsOn slot (k.trail ++ rows)

theorem Logs.of_sameQueues (h : k.SameQueues k') : Logs c [] k k' := by
  have hpending : k'.pendingEvents = k.pendingEvents := by rw [pendingEvents, pendingEvents, h.oeRings]
  refine ⟨fun hl => ⟨?_, ?_⟩, fun hroom => h.eventLog ▸ hroom, fun _ _ slot => ?_⟩
  · rw [h.oeRings]
    exact hl.own
  · rw [h.oeRings]
    exact hl.direct
  · rw [trail, trail, h.eventLog, hpending, List.append_nil]

theorem Logs.trans {rows rows' : List OrderEvent} (h : Logs c rows k k') (h' : Logs c rows' k' k'') :
    Logs c (rows ++ rows') k k'' := by
  refine ⟨h'.laned ∘ h.laned, h.room ∘ h'.room, fun hl hroom slot => ?_⟩
  rw [h'.rows (h.laned hl) hroom slot, rowsOn_append, h.rows hl (h'.room hroom) slot, ← rowsOn_append,
    List.append_assoc]

/-- Draining the funnel moves its rows into the log. -/
theorem logs_eventFunnelDrain (c : OmsConfig) (k : Composer) : Logs c [] k k.eventFunnelDrain := by
  refine ⟨fun _ => ⟨fun _ _ he => absurd he List.not_mem_nil, fun _ _ => rfl⟩,
    fun hroom => (OrderEventLog.foldl_append_room _ hroom).1, fun _ hroom slot => ?_⟩
  have hpending : k.eventFunnelDrain.pendingEvents = [] := lanes_eq_nil fun _ => rfl
  rw [trail, hpending, List.append_nil, List.append_nil]
  exact congrArg (rowsOn slot) ((OrderEventLog.foldl_append_room _ hroom).2.trans (List.map_append ..).symm)

/-- A row appended past the funnel, of no slot or with nothing waiting, is appended to the trail. -/
theorem logs_append {ev : OrderEvent} (hlast : ev.booking = none ∨ c.aggWired = false) :
    Logs c [ev.unstamped] k { k with eventLog := k.eventLog.append ev } := by
  refine ⟨fun hl => ⟨hl.own, hl.direct⟩, fun hroom => (OrderEventLog.append_room hroom).1, fun hl hroom slot => ?_⟩
  have hlog : rowsOn slot (({ k with eventLog := k.eventLog.append ev } : Composer).trail) =
      rowsOn slot (k.eventLog.entries.map OrderEvent.unstamped) ++ rowsOn slot [ev.unstamped] ++
        rowsOn slot (k.pendingEvents.map OrderEvent.unstamped) := by
    rw [← rowsOn_append, ← rowsOn_append, ← (OrderEventLog.append_room hroom).2, trail, List.map_append]
    rfl
  rw [hlog, trail, List.map_append, rowsOn_append, rowsOn_append, List.append_assoc, List.append_assoc]
  rcases hlast with hnone | hdirect
  · have hno : rowsOn slot [ev.unstamped] = [] := by
      simp [rowsOn, OrderEvent.booking_unstamped, hnone]
    rw [hno, List.nil_append, List.append_nil]
  · have hempty : k.pendingEvents = [] := lanes_eq_nil (hl.direct hdirect)
    simp [hempty, rowsOn]

/-- A row pushed onto its node's ring is appended to the trail. -/
theorem logs_pushRing {ev : OrderEvent} {n : NodeIdx} {ring : Fifo OrderEvent oeFunnelRingSize}
    (hwired : c.aggWired = true) (hn : ∀ slot, ev.booking = some slot → c.slotNode slot = n)
    (hring : ring.items = (k.oeRings n).items ++ [ev]) :
    Logs c [ev.unstamped] k { k with oeRings := update k.oeRings n ring } := by
  have hitems : ∀ m, ((update k.oeRings n ring) m).items =
      update (fun m => (k.oeRings m).items) n ((k.oeRings n).items ++ [ev]) m := by
    intro m
    rw [← hring]
    exact apply_update (fun _ => Fifo.items) k.oeRings n ring m
  refine ⟨fun hl =>
    ⟨fun m e he slot hslot => ?_, fun hdirect => absurd (hwired.symm.trans hdirect) Bool.false_ne_true.symm⟩,
    id, fun hl _ slot => ?_⟩
  · rw [hitems] at he
    rcases eq_or_ne m n with rfl | hne
    · rw [update_self] at he
      rcases List.mem_append.1 he with hold | hnew
      · exact hl.own m e hold slot hslot
      · obtain rfl := List.mem_singleton.1 hnew
        exact hn slot hslot
    · rw [update_of_ne hne] at he
      exact hl.own m e he slot hslot
  · have hpending : rowsOn slot (lanes fun m => ((update k.oeRings n ring) m).items) =
        rowsOn slot k.pendingEvents ++ rowsOn slot [ev] := by
      rw [funext hitems]
      refine filter_lanes_push _ n ev _ fun hev m hne e he => decide_eq_false fun hslot => hne ?_
      exact (hl.own m e he slot hslot).symm.trans (hn slot (of_decide_eq_true hev))
    rw [trail, trail, rowsOn_unstamped, rowsOn_append, rowsOn_append, rowsOn_unstamped, rowsOn_append,
      List.map_append,
      List.map_append, List.append_assoc, ← List.map_singleton, rowsOn_unstamped]
    refine congrArg _ ((congrArg (List.map OrderEvent.unstamped) hpending).trans ?_)
    rw [List.map_append]

/-- A row through the funnel is appended to the trail, even if the ring is full and drained first. -/
theorem logs_eventFunnelPush {ev : OrderEvent} {slot : Option SlotIdx}
    (hfiled : ∀ i, ev.booking = some i → slot = some i) :
    Logs c [ev.unstamped] k (k.eventFunnelPush c ev slot) := by
  unfold eventFunnelPush
  rcases hwired : c.aggWired with _ | _
  · simp only [Bool.not_false, if_true]
    exact logs_append (.inr hwired)
  simp only [Bool.not_true, Bool.false_eq_true, if_false]
  have hn : ∀ i, ev.booking = some i → c.slotNode i = (slot.map c.slotNode).getD firstIdx := by
    intro i hi
    rw [hfiled i hi]
    rfl
  generalize (slot.map c.slotNode).getD firstIdx = n at hn ⊢
  rcases hpush : (k.oeRings n).tryPush ev with ⟨_ | _, ring⟩
  · -- full: what is drained comes before the row
    have hring : ((k.eventFunnelDrain.oeRings n).tryPush ev).2.items =
      (k.eventFunnelDrain.oeRings n).items ++ [ev] := rfl
    exact (logs_eventFunnelDrain c k).trans (logs_pushRing hwired hn hring)
  · have hring : ring.items = (k.oeRings n).items ++ [ev] := by
      have := Fifo.tryPush_items_of_ok (congrArg Prod.fst hpush)
      rwa [hpush] at this
    exact logs_pushRing hwired hn hring

theorem logs_fillRingsApply (c : OmsConfig) (k : Composer) : Logs c [] k (k.fillRingsApply c).val := by
  have happlied : Logs c [] k (k.pendingFills.foldlM (applyFill c) k.clearFillRings).val :=
    Flagged.foldlM_keeps (fun k' => Logs c [] k k')
      (fun k' fe h => h.trans (.of_sameQueues (applyFill_sameQueues c k' fe))) _
      ⟨fun hl => ⟨hl.own, hl.direct⟩, id, fun _ _ _ => congrArg _ (List.append_nil _).symm⟩
  exact happlied.trans (logs_eventFunnelDrain c _)

theorem logs_setFillRing (n : NodeIdx) (ring : Fifo FillEvent fillEventRingSize) :
    Logs c [] k (k.setFillRing n ring) :=
  ⟨fun hl => ⟨hl.own, hl.direct⟩, id, fun _ _ _ => congrArg _ (List.append_nil _).symm⟩

theorem logs_fillEmit (c : OmsConfig) (k : Composer) (fe : FillEvent) : Logs c [] k (k.fillEmit c fe).val := by
  unfold fillEmit
  split
  · exact ⟨fun hl => ⟨hl.own, hl.direct⟩, id, fun _ _ _ => congrArg _ (List.append_nil _).symm⟩
  split
  · exact logs_setFillRing ..
  · have hcount : Logs c [] k k.countFillRingFull :=
      ⟨fun hl => ⟨hl.own, hl.direct⟩, id, fun _ _ _ => congrArg _ (List.append_nil _).symm⟩
    exact (hcount.trans (logs_fillRingsApply c _)).trans (logs_setFillRing ..)

theorem logs_emitRecord (c : OmsConfig) (k : Composer) (rec : EmitRecord) : Logs c [] k (k.emitRecord c rec) := by
  refine .of_sameQueues ?_
  unfold emitRecord
  split
  · exact ⟨rfl, rfl, rfl⟩
  split <;> exact ⟨rfl, rfl, rfl⟩

/-- What is appended books nothing, or nothing is. -/
theorem logs_fatalMarker (c : OmsConfig) (k : Composer) (site : String) :
    ∃ rows : List OrderEvent, (∀ e ∈ rows, e.booking = none) ∧ Logs c rows k (k.fatalMarker c site).val := by
  have hcount : Logs c [] k k.countFatal := .of_sameQueues ⟨rfl, rfl, rfl⟩
  unfold fatalMarker
  split
  · refine ⟨[(fatalRow site (Money.fromInt k.countFatal.els.agg.killTripFatalSeq).val).unstamped], ?_,
      hcount.trans (logs_append (.inl rfl))⟩
    intro e he
    obtain rfl := List.mem_singleton.1 he
    rfl
  · exact ⟨[], fun _ he => absurd he List.not_mem_nil, hcount⟩

end Composer

/-! ### One leg, live and replayed -/

namespace Accounts

open Composer

variable {c : OmsConfig} {books : SlotIdx → SlotBook} {start : ℤ} {b : Books} {o : Order} {nowUs : Nat}
  {price qty fee : Money}

/-- The books account for the live positions and what is settled of balance and profit. -/
def Live (books : SlotIdx → SlotBook) (start : ℤ) (b : Books) : Prop :=
  Accounts books b.portfolio start (balanceTotal.settled b.composer) (realizedTotal.settled b.composer)

/-- One emitted fill, and the book of its slot written. -/
theorem Live.emit {b' : Books} {book : SlotBook} {slot : SlotIdx} {fe : FillEvent} {rec : EmitRecord}
    (h : Live books start b) (hcomposer : b'.composer = ((b.composer.fillEmit c fe).val).emitRecord c rec)
    (hc : (b.composer.fillEmit c fe).Clean)
    (hothers : ∀ i, i ≠ slot → b'.portfolio.active i = b.portfolio.active i ∧
      b'.portfolio.positions i = b.portfolio.positions i)
    (hshows : book.Shows b'.portfolio slot) (hnet : fe.net.v = book.earned - (books slot).earned) :
    Live (Function.update books slot book) start b' := by
  have hsettled := Accounts.update h hothers hshows
  rw [← hnet] at hsettled
  have hbalance : balanceTotal.settled b'.composer = balanceTotal.settled b.composer + fe.net.v := by
    rw [hcomposer, Total.settled_emitRecord]
    exact Total.settled_fillEmit_ofLedger hc
  have hrealized : realizedTotal.settled b'.composer = realizedTotal.settled b.composer + fe.net.v := by
    rw [hcomposer, Total.settled_emitRecord]
    exact Total.settled_fillEmit_ofLedger hc
  rw [Live, hbalance, hrealized]
  exact hsettled

theorem Live.handleBuyFill (h : Live books start b) (hc : (b.handleBuyFill c nowUs o price qty fee).Clean) :
    Live (Function.update books o.portfolioSlot ((books o.portfolioSlot).buy price qty fee)) start
      (b.handleBuyFill c nowUs o price qty fee).val := by
  simp only [Books.handleBuyFill, Flagged.clean_bind, Flagged.clean_pure, and_true] at hc
  refine h.emit rfl hc.2.1 ?_ ?_ ?_
  · intro i hne
    simp only [Books.handleBuyFill, Books.openOrAccumulate, Flagged.bind_val, Flagged.pure_val]
    split
    · exact ⟨rfl, update_of_ne hne ..⟩
    · exact ⟨update_of_ne hne .., update_of_ne hne ..⟩
  · simp only [Books.handleBuyFill, Books.openOrAccumulate, Flagged.bind_val, Flagged.pure_val]
    split
    next hactive => exact (h.shows _).accumulate hactive
    next hactive => exact (h.shows _).open (eq_false_of_ne_true hactive) rfl rfl rfl
  · have hearned : ((books o.portfolioSlot).buy price qty fee).earned = (books o.portfolioSlot).earned := by
      unfold SlotBook.buy
      split <;> rfl
    rw [hearned, sub_self]
    rfl

theorem Live.closeLeg {qLeg : Money} (h : Live books start b) (hactive : b.portfolio.active o.portfolioSlot = true)
    (hc : (b.closeLeg c o price qLeg fee).Clean) :
    Live (Function.update books o.portfolioSlot ((books o.portfolioSlot).close price qLeg fee)) start
      (b.closeLeg c o price qLeg fee).val := by
  simp only [Books.closeLeg, Flagged.clean_bind, Flagged.clean_pure, and_true] at hc
  refine h.emit rfl hc.2.2.2.2 (fun i hne => Portfolio.takeLeg_of_ne hne price _) ((h.shows _).takeLeg hactive ..) ?_
  refine (congrArg Money.v ((h.shows o.portfolioSlot).net price qLeg fee)).trans ?_
  rw [SlotBook.close, add_sub_cancel_left]

theorem Live.handleSellFill (h : Live books start b) (hc : (b.handleSellFill c o price qty fee).Clean) :
    Live (Function.update books o.portfolioSlot ((books o.portfolioSlot).sell price qty fun _ => fee)) start
      (b.handleSellFill c o price qty fee).val := by
  have hshows := h.shows o.portfolioSlot
  unfold Books.handleSellFill at hc ⊢
  rcases hactive : b.portfolio.active o.portfolioSlot with _ | _
  · have hsame : (books o.portfolioSlot).sell price qty (fun _ => fee) = books o.portfolioSlot := by
      rw [SlotBook.sell, ← hshows.active, hactive]
      rfl
    simp only [hsame, update_eq_self, Bool.not_false, if_true, Flagged.pure_val]
    exact h
  have hqty : b.sellQty o.portfolioSlot qty = clampQty qty (books o.portfolioSlot).quantity := by
    rw [Books.sellQty, hshows.quantity]
  simp only [hactive, Bool.not_true, Bool.false_eq_true, if_false] at hc ⊢
  split
  next hnone =>
    have hsame : (books o.portfolioSlot).sell price qty (fun _ => fee) = books o.portfolioSlot := by
      simp [SlotBook.sell, ← hqty, hnone]
    rw [hsame, update_eq_self]
    exact h
  next hsome =>
    rw [if_neg hsome] at hc
    have hclose : (books o.portfolioSlot).sell price qty (fun _ => fee) =
        (books o.portfolioSlot).close price (b.sellQty o.portfolioSlot qty) fee := by
      simp [SlotBook.sell, ← hqty, ← hshows.active, hactive, hsome]
    rw [hclose]
    exact h.closeLeg hactive hc

end Accounts

/-! ### When a leg replays -/

theorem slotOfNode_val (slot : SlotIdx) : slotOfNode slot.val = some slot := by
  have hslot := slot.isLt
  rw [slotOfNode, dif_pos (by omega)]
  rfl

theorem booking_makeFill (o : Order) (price qty fee : Money) :
    (OrderEvent.makeFill o price qty fee).booking = some o.portfolioSlot := by
  have hfill : (OrderEvent.makeFill o price qty fee).isFill = true := by
    simp only [OrderEvent.isFill, OrderEvent.makeFill]
    split <;> rfl
  rw [OrderEvent.booking, if_pos hfill]
  exact slotOfNode_val _

namespace Books

/-- Whether the fold books what is booked live for a leg of `o` at the fee `fee`: a zero fee has to
    be zero at the fold's rate too, and a limit order's row must have nothing to book. -/
def replays (rate : Money) (b : Books) (o : Order) (price qty fee : Money) : Bool :=
  match o.type with
  | .marketBuy => !fee.isZero || ((price.mul qty).val.mul rate).val.isZero
  | .marketSell =>
    !fee.isZero || !b.portfolio.active o.portfolioSlot ||
      ((price.mul (b.sellQty o.portfolioSlot qty)).val.mul rate).val.isZero
  | .limitBuy => false
  | .limitSell => !b.portfolio.active o.portfolioSlot || (b.sellQty o.portfolioSlot qty).isZero

end Books

namespace SlotBook

variable {rate price qty fee : Money} {book : SlotBook} {o : Order} {b : Books}

/-- A fee that is not zero, or is zero at the rate, is replayed as it was booked. -/
theorem replayFee_makeFill {qLeg : Money}
    (h : fee.isZero = true → ((price.mul qLeg).val.mul rate).val.isZero = true) :
    replayFee rate (.makeFill o price qty fee) qLeg = fee := by
  simp only [replayFee, FoldResult.rowFee, OrderEvent.makeFill]
  by_cases hzero : fee.isZero = true
  · simp only [hzero, Bool.not_true, Bool.false_eq_true, if_false, Flagged.bind_val]
    exact (Money.isZero_iff.1 (h hzero)).trans (Money.isZero_iff.1 hzero).symm
  · simp only [eq_false_of_ne_true hzero, Bool.not_false, if_true, Flagged.pure_val]

theorem post_buy (htype : o.type = .marketBuy) (hrep : b.replays rate o price qty fee = true) :
    book.post rate (.makeFill o price qty fee) = book.buy price qty fee := by
  have hfee : replayFee rate (.makeFill o price qty fee) qty = fee := by
    refine replayFee_makeFill fun hzero => ?_
    simpa [Books.replays, htype, hzero] using hrep
  have hpost : book.post rate (.makeFill o price qty fee) =
      book.buy price qty (replayFee rate (.makeFill o price qty fee) qty) := by
    rw [post, show (OrderEvent.makeFill o price qty fee).orderType = .marketBuy from htype]
    rfl
  rw [hpost, hfee]

theorem post_sell (hshows : book.Shows b.portfolio o.portfolioSlot) (htype : o.type = .marketSell)
    (hrep : b.replays rate o price qty fee = true) :
    book.post rate (.makeFill o price qty fee) = book.sell price qty fun _ => fee := by
  have hpost : book.post rate (.makeFill o price qty fee) =
      book.sell price qty (replayFee rate (.makeFill o price qty fee)) := by
    rw [post, show (OrderEvent.makeFill o price qty fee).orderType = .marketSell from htype]
    rfl
  rw [hpost, sell, sell]
  rcases hactive : book.active with _ | _
  · rfl
  have hfee : replayFee rate (.makeFill o price qty fee) (clampQty qty book.quantity) = fee := by
    refine replayFee_makeFill fun hzero => ?_
    simpa [Books.replays, Books.sellQty, htype, hzero, hshows.active, hactive, hshows.quantity] using hrep
  simp only [hfee]

/-- A limit order's row is posted without effect, and books nothing if it replays. -/
theorem post_limitSell (hshows : book.Shows b.portfolio o.portfolioSlot) (htype : o.type = .limitSell)
    (hrep : b.replays rate o price qty fee = true) :
    book.post rate (.makeFill o price qty fee) = book.sell price qty fun _ => fee := by
  have hpost : book.post rate (.makeFill o price qty fee) = book := by
    rw [post, show (OrderEvent.makeFill o price qty fee).orderType = .limitSell from htype]
  rw [hpost, sell]
  simp only [Books.replays, Books.sellQty, htype, hshows.active, hshows.quantity, Bool.or_eq_true,
    Bool.not_eq_true'] at hrep
  rcases hrep with hinactive | hnone
  · simp [hinactive]
  · simp [hnone]

end SlotBook

/-! ### The live books mirror their trail -/

open Composer

/-- What the trail of rows makes of the slots is what is live. -/
structure Mirrors (c : OmsConfig) (rate : Money) (start : ℤ) (b : Books) : Prop where
  laned : b.composer.Laned c
  live : Accounts.Live (shelf rate b.composer.trail) start b

/-- The same for as long as the log takes every row. -/
def Mirrored (c : OmsConfig) (rate : Money) (start : ℤ) (b : Books) : Prop :=
  b.composer.eventLog.logFullDrops = 0 → Mirrors c rate start b

namespace Mirrored

variable {c : OmsConfig} {rate : Money} {start : ℤ} {b : Books} {o : Order} {nowUs : Nat} {price qty fee : Money}
  {commission : Float} {asset : String}

theorem shelf_of_logs {rows : List OrderEvent} {k k' : Composer} (h : Logs c rows k k') (hl : k.Laned c)
    (hroom : k'.eventLog.logFullDrops = 0) : shelf rate k'.trail = shelf rate (k.trail ++ rows) :=
  foldOn_congr _ _ _ fun slot => h.rows hl hroom slot

/-- Rows that book nothing, and nothing settled or held otherwise. -/
theorem congr {b' : Books} {rows : List OrderEvent} (h : Mirrored c rate start b)
    (hlogs : Logs c rows b.composer b'.composer) (hrows : ∀ e ∈ rows, e.booking = none)
    (hsettled : ∀ T : Total, T.settled b'.composer = T.settled b.composer)
    (hshows : ∀ slot (book : SlotBook), book.Shows b.portfolio slot → book.Shows b'.portfolio slot) :
    Mirrored c rate start b' := by
  intro hroom
  obtain ⟨hlaned, hlive⟩ := h (hlogs.room hroom)
  have hnone : ∀ slot, (b.composer.trail ++ rows).filter (fun e => e.booking = some slot) =
      b.composer.trail.filter fun e => e.booking = some slot := by
    intro slot
    have hno : rows.filter (fun e => e.booking = some slot) = [] :=
      List.filter_eq_nil_iff.2 fun e he => by simp [hrows e he]
    rw [List.filter_append, hno, List.append_nil]
  refine ⟨hlogs.laned hlaned, ?_⟩
  rw [shelf_of_logs hlogs hlaned hroom, shelf, foldOn_congr _ _ _ hnone, Accounts.Live, hsettled, hsettled]
  exact ⟨fun slot => hshows slot _ (hlive.shows slot), hlive.balance, hlive.realized⟩

theorem logs_handleBuyFill : Logs c [] b.composer (b.handleBuyFill c nowUs o price qty fee).val.composer :=
  (logs_fillEmit c b.composer _).trans (logs_emitRecord c _ _)

theorem logs_handleSellFill : Logs c [] b.composer (b.handleSellFill c o price qty fee).val.composer := by
  unfold Books.handleSellFill
  split
  · exact .of_sameQueues ⟨rfl, rfl, rfl⟩
  dsimp only
  split
  · exact .of_sameQueues ⟨rfl, rfl, rfl⟩
  · exact (logs_fillEmit c b.composer _).trans (logs_emitRecord c _ _)

/-- A row of the audit trail is appended to it, if it is filed under the slot it books on. -/
theorem logs_auditAppend (hmode : c.eventLogMode = appendMode) {ev : OrderEvent} {slot : Option SlotIdx}
    (hfiled : ∀ i, ev.booking = some i → slot = some i) :
    Logs c [ev.unstamped] b.composer (b.auditAppend c ev slot).composer := by
  rw [Books.auditAppend, if_pos hmode]
  exact logs_eventFunnelPush hfiled

theorem logs_handleFill (hmode : c.eventLogMode = appendMode) :
    Logs c [OrderEvent.makeFill o price qty (Books.bookedFee (Books.computedFee o price qty).val commission asset)]
      b.composer (b.handleFill c nowUs o price qty commission asset).val.composer := by
  simp only [Books.handleFill, Flagged.bind_val]
  generalize Books.bookedFee (Books.computedFee o price qty).val commission asset = fee
  have hfiled : ∀ i, (OrderEvent.makeFill o price qty fee).booking = some i → some o.portfolioSlot = some i := by
    intro i hi
    rw [← hi, booking_makeFill]
  have hpush := logs_auditAppend (b := b) hmode hfiled
  rcases htype : o.type with _ | _ | _ | _
  · exact hpush.trans logs_handleBuyFill
  · exact hpush.trans logs_handleSellFill
  · exact hpush.trans logs_handleBuyFill
  · exact hpush.trans logs_handleSellFill

theorem live_auditAppend {books : SlotIdx → SlotBook} (h : Accounts.Live books start b) (ev : OrderEvent)
    (slot : Option SlotIdx) : Accounts.Live books start (b.auditAppend c ev slot) := by
  unfold Books.auditAppend
  split
  · rw [Accounts.Live, Total.settled_eventFunnelPush, Total.settled_eventFunnelPush]
    exact h
  · exact h

/-- One leg, of the row it leaves behind. -/
theorem handleFill (hmode : c.eventLogMode = appendMode) (h : Mirrored c rate start b)
    (hrep : b.replays rate o price qty (Books.bookedFee (Books.computedFee o price qty).val commission asset) = true)
    (hc : (b.handleFill c nowUs o price qty commission asset).Clean) :
    Mirrored c rate start (b.handleFill c nowUs o price qty commission asset).val := by
  intro hroom
  have hlogs : Logs c [OrderEvent.makeFill o price qty (Books.bookedFee (Books.computedFee o price qty).val commission asset)]
      b.composer (b.handleFill c nowUs o price qty commission asset).val.composer := logs_handleFill hmode
  obtain ⟨hlaned, hlive⟩ := h (hlogs.room hroom)
  have hshows := hlive.shows o.portfolioSlot
  -- whatever the handler, it writes the book of the slot as the row does
  have hmirror : ∀ book, (shelf rate b.composer.trail o.portfolioSlot).post rate (.makeFill o price qty
        (Books.bookedFee (Books.computedFee o price qty).val commission asset)) = book →
      Accounts.Live (Function.update (shelf rate b.composer.trail) o.portfolioSlot book) start
        (b.handleFill c nowUs o price qty commission asset).val →
      Mirrors c rate start (b.handleFill c nowUs o price qty commission asset).val := by
    rintro book rfl hbook
    refine ⟨hlogs.laned hlaned, ?_⟩
    rw [shelf_of_logs hlogs hlaned hroom, shelf, foldOn_snoc_some _ _ _ (booking_makeFill ..)]
    exact hbook
  simp only [Books.handleFill, Flagged.clean_bind] at hc
  simp only [Books.handleFill, Flagged.bind_val] at hmirror ⊢
  generalize Books.bookedFee (Books.computedFee o price qty).val commission asset = fee at hrep hc hmirror ⊢
  have hlive' := live_auditAppend (c := c) hlive (.makeFill o price qty fee) (some o.portfolioSlot)
  rcases htype : o.type with _ | _ | _ | _
  all_goals simp only [htype] at hc hmirror ⊢
  · exact hmirror _ (SlotBook.post_buy htype hrep) (hlive'.handleBuyFill hc.2)
  · exact hmirror _ (SlotBook.post_sell hshows htype hrep) (hlive'.handleSellFill hc.2)
  · rw [Books.replays, htype] at hrep
    exact absurd hrep Bool.false_ne_true
  · exact hmirror _ (SlotBook.post_limitSell hshows htype hrep) (hlive'.handleSellFill hc.2)

end Mirrored

namespace OrderManagerState

variable {c : OmsConfig} {rate : Money} {start : ℤ} {s : OrderManagerState}

/-- Whether the fold books what is booked for an execution of `o`, if anything is. -/
def legReplays (rate : Money) (b : Books) (o : Order) (r : OrderResult) : Bool :=
  !decide (r.fillQty > 0.0) || b.replays rate o o.avgFillPrice (moneyFromDoublePayload r.fillQty)
    (Books.bookedFee (Books.computedFee o o.avgFillPrice (moneyFromDoublePayload r.fillQty)).val r.commission
      r.commissionAsset)

/-- Whether the fold books what a turn books. -/
def replayable (rate : Money) (s : OrderManagerState) (a : Act) : Bool :=
  (s.dispatched a).all fun cmd => (s.executing cmd).all fun i =>
    legReplays rate s.books (legOrder (s.priced i cmd.result) cmd.result).val cmd.result

theorem legReplays_of_replayable {a : Act} {cmd : Command} {i : OrderSlot} (h : s.replayable rate a = true)
    (hcmd : s.dispatched a = some cmd) (hexec : s.executing cmd = some i) :
    legReplays rate s.books (legOrder (s.priced i cmd.result) cmd.result).val cmd.result = true := by
  simpa [replayable, hcmd, hexec] using h

theorem mirrored_bookLeg (hmode : c.eventLogMode = appendMode) {b : Books} (h : Mirrored c rate start b) {o : Order}
    {r : OrderResult} {nowUs : Nat} (hrep : legReplays rate b o r = true) (hc : (bookLeg c nowUs b o r).Clean) :
    Mirrored c rate start (bookLeg c nowUs b o r).val := by
  unfold bookLeg at hc ⊢
  split
  next hqty =>
    rw [if_pos hqty] at hc
    rw [legReplays, decide_eq_true hqty] at hrep
    exact h.handleFill hmode hrep hc
  next => exact h

theorem IsAudit.booking {ev : OrderEvent} {slot : Option SlotIdx} (h : IsAudit ev slot) : ev.booking = none := by
  have hfill : ev.isFill = false := by simp [OrderEvent.isFill, h.full, h.partialFill]
  rw [OrderEvent.booking, hfill]
  rfl

theorem mirrored_act (hmode : c.eventLogMode = appendMode) (h : Mirrored c rate start s.books) {a : Act}
    (hrep : s.replayable rate a = true) (hc : (s.act c a).Clean) : Mirrored c rate start (s.act c a).val.books := by
  refine books_act (Mirrored c rate start) ?_ ?_ ?_ ?_ ?_ h hc
  · intro cmd i hcmd hexec us hb hleg
    exact mirrored_bookLeg hmode hb (legReplays_of_replayable hrep hcmd hexec) hleg
  · intro b ev slot haudit hb
    have hnone := haudit.booking
    refine hb.congr (Mirrored.logs_auditAppend hmode fun i hi => ?_) ?_ (fun T => ?_) fun i book hshows => ?_
    · exact absurd (hnone.symm.trans hi) (Option.some_ne_none i).symm
    · intro e he
      obtain rfl := List.mem_singleton.1 he
      exact hnone
    · rw [Books.auditAppend, if_pos hmode]
      exact T.settled_eventFunnelPush ..
    · rw [Books.auditAppend, if_pos hmode]
      exact hshows
  · intro _ b hb hclean
    exact hb.congr (logs_fillRingsApply c b.composer) (fun _ he => absurd he List.not_mem_nil)
      (fun T => T.settled_fillRingsApply hclean) fun _ _ hshows => hshows
  · intro b site hb _
    obtain ⟨rows, hrows, hlogs⟩ := logs_fatalMarker c b.composer site
    exact hb.congr hlogs hrows (fun T => T.settled_fatalMarker c b.composer site) fun _ _ hshows => hshows
  · intro b dc hb
    refine hb.congr (.of_sameQueues ⟨rfl, rfl, rfl⟩) (fun _ he => absurd he List.not_mem_nil) (fun _ => rfl) ?_
    intro i book hshows
    obtain ⟨hactive, hquantity, hentryPrice, hentryFee⟩ := applyDrag_keeps b.portfolio dc i
    exact hshows.congr hactive hquantity hentryPrice hentryFee

theorem mirrored_init (c : OmsConfig) (rate balance : Money) (tradeLog : Option (List (EmitRecord × Money))) :
    Mirrored c rate balance.v (init balance tradeLog).books := by
  intro _
  have hdrained : (init balance tradeLog).books.composer.pendingFills = [] := lanes_eq_nil fun _ => rfl
  have htrail : (init balance tradeLog).books.composer.trail = [] := by
    have hpending : (init balance tradeLog).books.composer.pendingEvents = [] := lanes_eq_nil fun _ => rfl
    rw [trail, hpending]
    rfl
  refine ⟨⟨fun _ _ he => absurd he List.not_mem_nil, fun _ _ => rfl⟩, ?_⟩
  rw [htrail, Accounts.Live, Total.settled_of_drained _ hdrained, Total.settled_of_drained _ hdrained]
  exact Accounts.closed balance.v

theorem mirrored_run (hmode : c.eventLogMode = appendMode) (rate balance : Money)
    (tradeLog : Option (List (EmitRecord × Money))) (as : List Act)
    (hsteps : Steps (step c) (fun s a => s.replayable rate a = true) (init balance tradeLog) as)
    (hclean : (run (step c) (init balance tradeLog) as).moneyOpFlags = 0) :
    Mirrored c rate balance.v (run (step c) (init balance tradeLog) as).books := by
  have hstep : ∀ (s : OrderManagerState) (a : Act), (s.moneyOpFlags = 0 → Mirrored c rate balance.v s.books) →
      s.replayable rate a = true →
        ((s.step c a).moneyOpFlags = 0 → Mirrored c rate balance.v (s.step c a).books) := by
    intro s a h hrep hflags
    obtain ⟨hbefore, hact⟩ := Flagged.or_eq_zero.1 hflags
    exact mirrored_act hmode (h hbefore) hrep hact
  exact run_inv_of_steps hstep as (fun _ => mirrored_init c rate balance tradeLog) hsteps hclean

/-- What an event log folds to, as far as the claim goes: what is booked live. -/
structure FoldsTo (r : FoldResult) (b : Books) : Prop where
  balance : r.balance = b.composer.ledger.balance
  realizedPnl : r.realizedPnl = b.composer.ledger.realizedPnl
  active : r.portfolio.active = b.portfolio.active
  quantity : ∀ slot, (r.portfolio.positions slot).quantity = (b.portfolio.positions slot).quantity
  entryPrice : ∀ slot, (r.portfolio.positions slot).entryPrice = (b.portfolio.positions slot).entryPrice
  entryFee : ∀ slot, (r.portfolio.positions slot).entryFee = (b.portfolio.positions slot).entryFee

/-- In the appending mode, in every run that only books legs the fold books too and saturates
    nothing: once the rings are drained and as long as no row was dropped, the fold of the log is what
    is booked live. -/
theorem fold_replays (c : OmsConfig) (hmode : c.eventLogMode = appendMode) (rate balance : Money)
    (tradeLog : Option (List (EmitRecord × Money))) (nowUs : Nat) (as : List Act) {s : OrderManagerState}
    (hrun : run (step c) (init balance tradeLog) as = s)
    (hsteps : Steps (step c) (fun s a => s.replayable rate a = true) (init balance tradeLog) as)
    (hclean : s.moneyOpFlags = 0) (hroom : s.books.composer.eventLog.logFullDrops = 0)
    (hfills : s.books.composer.pendingFills = []) (hevents : s.books.composer.pendingEvents = [])
    (hfold : (portfolioFromEventLog s.books.composer.eventLog.entries balance rate nowUs).Clean) :
    FoldsTo (portfolioFromEventLog s.books.composer.eventLog.entries balance rate nowUs).val s.books := by
  obtain rfl := hrun
  obtain ⟨-, hlive⟩ := mirrored_run hmode rate balance tradeLog as hsteps hclean hroom
  generalize (run (step c) (init balance tradeLog) as).books = b at *
  have hshelf : shelf rate b.composer.trail = shelf rate b.composer.eventLog.entries := by
    rw [trail, hevents, List.append_nil]
    exact foldOn_map _ _ _ OrderEvent.booking_unstamped (fun _ _ => rfl) _
  rw [Accounts.Live, hshelf, Total.settled_of_drained _ hfills, Total.settled_of_drained _ hfills] at hlive
  obtain ⟨hbalance, hrealized, hactive, hslots⟩ := (accounts_portfolioFromEventLog hfold).unique hlive
  exact ⟨Money.ext hbalance, Money.ext hrealized, hactive, fun slot => (hslots slot).1,
    fun slot => (hslots slot).2.1, fun slot => (hslots slot).2.2⟩

/-- Ten units bought and four sold fold to the six still held. -/
theorem fold_replays_half_sold :
    let s := run (step samplePaper) (init (Money.fromInt 1000).val none)
      [.submit (sampleTrade 0 .marketBuy 10), .popResult, .submit (sampleTrade 0 .marketSell 4), .popResult]
    s.books.composer.eventLog.entries.length = 2 ∧
      FoldsTo (portfolioFromEventLog s.books.composer.eventLog.entries (Money.fromInt 1000).val sampleRate 0).val s.books :=
  ⟨by decide +kernel, fold_replays samplePaper rfl sampleRate _ none 0 _ rfl (by decide +kernel) (by decide +kernel)
    (by decide +kernel) (List.isEmpty_iff.1 (by decide +kernel)) (List.isEmpty_iff.1 (by decide +kernel))
    (by decide +kernel)⟩

/-- A commission below the resolution of money is booked as a zero fee, which the fold takes for a
    missing one: it books a tenth of a percent. -/
theorem fold_recomputes_zero_fee :
    let paid := { (sampleLeg 1 10 true).result with commission := 0.000000004, commissionAsset := "USDT" }
    let s := run (step (sampleLive [1])) (init (Money.fromInt 1000).val none)
      [.submit (sampleTrade 0 .marketBuy 10), .processFill { sampleLeg 1 10 true with result := paid }]
    let r := portfolioFromEventLog s.books.composer.eventLog.entries (Money.fromInt 1000).val sampleRate 0
    (s.moneyOpFlags = 0 ∧ s.books.composer.eventLog.logFullDrops = 0 ∧ s.books.composer.pendingFills.isEmpty ∧
      s.books.composer.pendingEvents.isEmpty ∧ r.Clean) ∧
      (s.books.portfolio.positions 0).entryFee = .zero ∧
        (r.val.portfolio.positions 0).entryFee = (Money.fromInt 1).val ∧
      ¬FoldsTo r.val s.books := by
  intro paid s r
  refine ⟨by decide +kernel, by decide +kernel, by decide +kernel, fun h => ?_⟩
  exact absurd (h.entryFee 0) (by decide +kernel)

end OrderManagerState

end FoxTrader
