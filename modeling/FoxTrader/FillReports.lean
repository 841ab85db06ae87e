import FoxTrader.BinanceAdapter
import FoxTrader.BinanceUserData
import FoxTrader.OrderLives

/-! # Two reporters of one execution

    The response to a submission and the user-data stream report on the same order. The response
    becomes an acknowledgment if the stream is up when it is read, else it carries all that was
    executed so far as one leg; the stream reports each trade as a leg of its own. The order manager
    knows neither which trades a leg stands for nor their ids. It refuses a response with a quantity
    once a leg is booked, and anything once the order has left the table; a leg after a response that
    left the order open, and a trade reported twice, it books.

    A report waits in flight from its making to its handling. What is in flight may be handled in any
    order or lost, so every interleaving of the queues is one of these runs, and some that the queues
    exclude. -/

namespace FoxTrader

open Lib

/-- One trade of an order. Trade ids are the venue's. -/
structure Execution where
  orderId : Nat
  tradeId : Nat
  deriving DecidableEq

/-- A command on its way to the order manager and the executions its quantity stands for. -/
structure FillReport where
  cmd : Command
  executions : List Execution

namespace FillReport

/-- The executions a command stands for: none if it carries no quantity. -/
def of (cmd : Command) (trades : List Nat) : FillReport where
  cmd := cmd
  executions := if cmd.result.fillQty > 0.0 then trades.dedup.map (⟨cmd.orderId, ·⟩) else []

/-- What the worker makes of the response to a submission whose order has executed `trades`. -/
def ofResponse (orderId : Nat) (api : BinanceOrderAPI) (fill : Option MarketFill) (trades : List Nat)
    (wsActive : Bool) : FillReport :=
  of { type := .fillResult, orderId, result := workerResult wsActive api fill } trades

/-- What the stream's thread makes of an event. -/
def ofStream (r : ExecutionReport) : Option FillReport :=
  (parseExecutionReport r).map fun p => of p.1 [p.2]

end FillReport

/-- `booked` are the executions booked, one entry for every booking. -/
structure FillReports where
  oms : OrderManagerState
  inFlight : List FillReport
  booked : List Execution

inductive ReportEvent where
  | respond (orderId : Nat) (api : BinanceOrderAPI) (fill : Option MarketFill) (trades : List Nat) (wsActive : Bool)
  | stream (r : ExecutionReport)
  | handle (k : Nat)
  | lose (k : Nat)
  | own (a : OrderManagerState.Act)

namespace FillReports

open OrderManagerState

def init (balance : Money) (tradeLog : Option (List (EmitRecord × Money))) : FillReports :=
  { oms := .init balance tradeLog, inFlight := [], booked := [] }

/-- One event; `own` is a turn of the order manager that handles no report. -/
def step (c : OmsConfig) (s : FillReports) : ReportEvent → FillReports
  | .respond orderId api fill trades wsActive =>
    { s with inFlight := s.inFlight ++ [.ofResponse orderId api fill trades wsActive] }
  | .stream r => { s with inFlight := s.inFlight ++ (FillReport.ofStream r).toList }
  | .handle k =>
    match s.inFlight[k]? with
    | none => s
    | some ρ =>
      { s with
        oms := s.oms.step c (.processFill ρ.cmd)
        inFlight := s.inFlight.eraseIdx k
        booked := if (s.oms.executing ρ.cmd).isSome then ρ.executions ++ s.booked else s.booked }
  | .lose k => { s with inFlight := s.inFlight.eraseIdx k }
  | .own a => if (s.oms.dispatched a).isSome then s else { s with oms := s.oms.step c a }

/-! ### What keeps the two apart -/

/-- A leg of the stream in flight stands for `e`. -/
def Streaming (s : FillReports) (e : Execution) : Prop :=
  ∃ ρ ∈ s.inFlight, ρ.cmd.type = .wsFill ∧ e ∈ ρ.executions

instance (s : FillReports) (e : Execution) : Decidable (s.Streaming e) :=
  inferInstanceAs (Decidable (∃ ρ ∈ s.inFlight, _))

/-- The events that cannot make one execution two. The stream delivers a trade only if it is neither
    booked nor in flight from the stream, unless its order is out of the table; and a response is booked
    as a leg that leaves its order open only if none of the trades it stands for is in flight from the
    stream. Quantities have a size, and the order ids have not run out. -/
def Distinct (s : FillReports) (ev : ReportEvent) : Prop :=
  s.oms.nextOrderId < orderIdCounterSize ∧
    match ev with
    | .respond orderId api fill trades wsActive =>
      Sizable (FillReport.ofResponse orderId api fill trades wsActive).cmd.result
    | .stream r =>
      ∀ ρ ∈ FillReport.ofStream r, Sizable ρ.cmd.result ∧
        ∀ e ∈ ρ.executions, (e ∉ s.booked ∧ ¬s.Streaming e) ∨ Closed s.oms e.orderId
    | .handle k =>
      ∀ ρ ∈ s.inFlight[k]?, ρ.cmd.type = .fillResult → (s.oms.executing ρ.cmd).isSome = true →
        ρ.cmd.result.orderComplete = false ∧ ρ.cmd.result.venueTerminal = false →
          ∀ e ∈ ρ.executions, ¬s.Streaming e
    | _ => True

instance (s : FillReports) : ∀ ev, Decidable (s.Distinct ev)
  | .respond .. => inferInstanceAs (Decidable (_ ∧ Sizable _))
  | .stream r => inferInstanceAs (Decidable (_ ∧ ∀ ρ ∈ FillReport.ofStream r, _))
  | .handle k => inferInstanceAs (Decidable (_ ∧ ∀ ρ ∈ s.inFlight[k]?, _))
  | .lose _ | .own _ => inferInstanceAs (Decidable (_ ∧ True))

/-! ### The invariant -/

/-- What a report in flight looks like, whoever made it. -/
structure Sound (ρ : FillReport) : Prop where
  nodup : ρ.executions.Nodup
  own : ∀ e ∈ ρ.executions, e.orderId = ρ.cmd.orderId
  carries : ∀ e ∈ ρ.executions, ρ.cmd.result.fillQty > 0.0
  kind : ρ.cmd.type = .fillResult ∨ ρ.cmd.type = .wsFill
  size : Sizable ρ.cmd.result

/-- Two legs of the stream stand for different executions, or their order is closed. -/
def Apart (oms : OrderManagerState) (ρ ρ' : FillReport) : Prop :=
  ρ.cmd.type = .wsFill → ρ'.cmd.type = .wsFill → ∀ e ∈ ρ.executions, e ∈ ρ'.executions → Closed oms e.orderId

structure Inv (c : OmsConfig) (s : FillReports) : Prop where
  orderly : Orderly c s.oms
  nodup : s.booked.Nodup
  settled : ∀ e ∈ s.booked, Settled s.oms e.orderId
  sound : ∀ ρ ∈ s.inFlight, Sound ρ
  legs : ∀ ρ ∈ s.inFlight, ρ.cmd.type = .wsFill → ∀ e ∈ ρ.executions, e ∈ s.booked → Closed s.oms e.orderId
  apart : s.inFlight.Pairwise (Apart s.oms)

variable {c : OmsConfig} {s : FillReports}

theorem sound_of {cmd : Command} {trades : List Nat} (hkind : cmd.type = .fillResult ∨ cmd.type = .wsFill)
    (hsize : Sizable cmd.result) : Sound (.of cmd trades) := by
  unfold FillReport.of
  split
  next hqty =>
    refine ⟨?_, ?_, fun _ _ => hqty, hkind, hsize⟩
    · exact (List.nodup_dedup trades).map fun _ _ heq => (Execution.mk.inj heq).2
    · intro e he
      obtain ⟨_, -, rfl⟩ := List.mem_map.1 he
      rfl
  · exact ⟨List.nodup_nil, nofun, nofun, hkind, hsize⟩

theorem Inv.init (c : OmsConfig) (balance : Money) (tradeLog : Option (List (EmitRecord × Money))) :
    Inv c (init balance tradeLog) :=
  ⟨.init c balance tradeLog, List.nodup_nil, nofun, nofun, nofun, List.Pairwise.nil⟩

/-- A turn of the order manager with reports of some size keeps what is known of closed and settled
    orders, and so everything but what the turn books. -/
theorem Inv.turn (h : Inv c s) (hfew : s.oms.nextOrderId < orderIdCounterSize) (a : Act)
    (hsize : ∀ cmd i, s.oms.executed a = some (cmd, i) → Sizable cmd.result) :
    Inv c { s with oms := s.oms.step c a } := by
  have hclosed : ∀ {id}, Closed s.oms id → Closed (s.oms.step c a) id := fun hc =>
    let h' := hc.act h.orderly.table hfew a
    ⟨h'.issued, h'.out⟩
  have hord := h.orderly.act hsize
  refine ⟨⟨h.orderly.table.step a, hord.known, hord.nonneg⟩, h.nodup, fun e he => ?_, h.sound,
    fun ρ hρ hws e he hb => hclosed (h.legs ρ hρ hws e he hb),
    h.apart.imp fun hap hws hws' e he he' => hclosed (hap hws hws' e he he')⟩
  have h' := (h.settled e he).act h.orderly hfew hsize
  exact ⟨h'.issued, h'.filled⟩

/-- Reports that leave the air without being booked leave no trace. -/
theorem Inv.lose (h : Inv c s) (k : Nat) : Inv c { s with inFlight := s.inFlight.eraseIdx k } :=
  ⟨h.orderly, h.nodup, h.settled, fun ρ hρ => h.sound ρ (List.mem_of_mem_eraseIdx hρ),
    fun ρ hρ => h.legs ρ (List.mem_of_mem_eraseIdx hρ), h.apart.sublist (List.eraseIdx_sublist ..)⟩

theorem Inv.append (h : Inv c s) {ρ : FillReport} (hsound : Sound ρ)
    (hws : ρ.cmd.type = .wsFill → ∀ e ∈ ρ.executions, (e ∉ s.booked ∧ ¬s.Streaming e) ∨ Closed s.oms e.orderId) :
    Inv c { s with inFlight := s.inFlight ++ [ρ] } := by
  refine ⟨h.orderly, h.nodup, h.settled, ?_, ?_, ?_⟩
  · intro ρ' hρ'
    rcases List.mem_append.1 hρ' with hold | hnew
    · exact h.sound ρ' hold
    · exact List.mem_singleton.1 hnew ▸ hsound
  · intro ρ' hρ' hkind e he hbooked
    rcases List.mem_append.1 hρ' with hold | hnew
    · exact h.legs ρ' hold hkind e he hbooked
    · obtain rfl := List.mem_singleton.1 hnew
      exact (hws hkind e he).resolve_left fun hno => hno.1 hbooked
  · refine List.pairwise_append.2 ⟨h.apart, List.pairwise_singleton .., fun ρ' hold ρ'' hnew => ?_⟩
    obtain rfl := List.mem_singleton.1 hnew
    intro hkind' hkind e he' he
    exact (hws hkind e he).resolve_left fun hno => hno.2 ⟨ρ', hold, hkind', he'⟩

theorem Apart.symm {oms : OrderManagerState} {ρ ρ' : FillReport} (h : Apart oms ρ ρ') : Apart oms ρ' ρ :=
  fun hws' hws e he' he => h hws hws' e he he'

/-- A report that is handled is apart from all that stay in flight. -/
theorem Inv.apart_of_handled (h : Inv c s) {k : Nat} {ρ : FillReport} (hρ : s.inFlight[k]? = some ρ) :
    ∀ ρ' ∈ s.inFlight.eraseIdx k, Apart s.oms ρ ρ' := by
  obtain ⟨hk, rfl⟩ := List.getElem?_eq_some_iff.1 hρ
  have hperm := (List.getElem_cons_eraseIdx_perm hk).pairwise_iff (R := Apart s.oms) Apart.symm
  exact (List.pairwise_cons.1 (hperm.2 h.apart)).1

/-- The executions a turn books were not booked before. -/
theorem Inv.unbooked (h : Inv c s) {ρ : FillReport} (hρ : ρ ∈ s.inFlight) {i : OrderSlot}
    (hexec : s.oms.executing ρ.cmd = some i) {e : Execution} (he : e ∈ ρ.executions) : e ∉ s.booked := by
  intro hbooked
  have hocc := occupant_of_executing hexec
  have hown := (h.sound ρ hρ).own e he
  rcases (h.sound ρ hρ).kind with hresponse | hws
  · -- something is booked on the order, so a response with a quantity is refused
    have hfilled := (h.settled e hbooked).filled i (hown ▸ hocc)
    rw [unfilled_of_response hexec hresponse ((h.sound ρ hρ).carries e he), Money.zero_v] at hfilled
    exact Int.lt_irrefl 0 hfilled
  · have hclosed := h.legs ρ hρ hws e he hbooked
    exact Option.some_ne_none i (hocc.symm.trans (hown ▸ hclosed.out))

theorem Inv.handle (h : Inv c s) {k : Nat} {ρ : FillReport} (hρ : s.inFlight[k]? = some ρ)
    (hok : s.Distinct (.handle k)) : Inv c (s.step c (.handle k)) := by
  obtain ⟨hfew, hresponse⟩ := hok
  have hmem : ρ ∈ s.inFlight := List.mem_of_getElem? hρ
  have hsound := h.sound ρ hmem
  have hexecuted : ∀ {i}, s.oms.executing ρ.cmd = some i → s.oms.executed (.processFill ρ.cmd) = some (ρ.cmd, i) :=
    fun hexec => executed_eq_some.2 ⟨rfl, hexec⟩
  have hsize : ∀ cmd i, s.oms.executed (.processFill ρ.cmd) = some (cmd, i) → Sizable cmd.result := by
    intro cmd i hsome
    obtain rfl := Option.some_inj.1 (executed_eq_some.1 hsome).1
    exact hsound.size
  have hbase := (h.turn hfew (.processFill ρ.cmd) hsize).lose k
  simp only [step, hρ]
  rcases hexec : s.oms.executing ρ.cmd with _ | i
  · exact hbase
  have hbookedClosed : ∀ e ∈ ρ.executions,
    ¬(ρ.cmd.result.orderComplete = false ∧ ρ.cmd.result.venueTerminal = false) →
      Closed (s.oms.step c (.processFill ρ.cmd)) e.orderId := by
    intro e he hends
    have hclosed := closed_of_executed h.orderly hfew (hexecuted hexec) hends
    exact hsound.own e he ▸ ⟨hclosed.issued, hclosed.out⟩
  refine ⟨hbase.orderly, ?_, ?_, hbase.sound, ?_, hbase.apart⟩
  · refine List.nodup_append'.2 ⟨hsound.nodup, h.nodup, ?_⟩
    exact fun e he => h.unbooked hmem hexec he
  · intro e he
    rcases List.mem_append.1 he with hnew | hold
    · have hsettled := settled_of_executed h.orderly hfew (hexecuted hexec) hsound.size (hsound.carries e hnew)
      exact hsound.own e hnew ▸ ⟨hsettled.issued, hsettled.filled⟩
    · exact hbase.settled e hold
  · intro ρ' hρ' hws' e he' hbooked
    rcases List.mem_append.1 hbooked with hnew | hold
    · rcases hsound.kind with hres | hws
      · -- a response that leaves its order open stands for nothing the stream has in flight
        refine hbookedClosed e hnew fun hopen => ?_
        exact hresponse ρ hρ hres (hexec ▸ rfl) hopen e hnew ⟨ρ', List.mem_of_mem_eraseIdx hρ', hws', he'⟩
      · have hclosed :=
          (h.apart_of_handled hρ ρ' hρ' hws hws' e hnew he').act h.orderly.table hfew (.processFill ρ.cmd)
        exact ⟨hclosed.issued, hclosed.out⟩
    · exact hbase.legs ρ' hρ' hws' e he' hold

theorem Inv.step (h : Inv c s) {ev : ReportEvent} (hok : s.Distinct ev) : Inv c (s.step c ev) := by
  cases ev with
  | respond orderId api fill trades wsActive =>
    have hkind : (FillReport.ofResponse orderId api fill trades wsActive).cmd.type = .fillResult := rfl
    refine h.append (sound_of (.inl rfl) hok.2) fun hws => ?_
    exact absurd (hkind.symm.trans hws) (by decide)
  | stream r =>
    simp only [FillReports.step]
    rcases hρ : FillReport.ofStream r with _ | ρ
    · simpa using h
    · obtain ⟨hsize, hnew⟩ := hok.2 ρ hρ
      obtain ⟨⟨cmd, tradeId⟩, hparse, rfl⟩ := Option.map_eq_some_iff.1 hρ
      have hkind := parseExecutionReport_type hparse
      exact h.append (sound_of (.inr hkind) hsize) fun _ => hnew
  | handle k =>
    rcases hρ : s.inFlight[k]? with _ | ρ
    · simpa only [FillReports.step, hρ] using h
    · exact h.handle hρ hok
  | lose k => exact h.lose k
  | own a =>
    simp only [FillReports.step]
    split
    · exact h
    next hidle =>
      refine h.turn hok.1 a fun cmd i hexec => ?_
      rw [(executed_eq_some.1 hexec).1] at hidle
      exact absurd rfl hidle

/-- In every run of the two reporters and the order manager whose events are all `Distinct`, no
    execution is booked twice. -/
theorem booked_once (c : OmsConfig) (balance : Money) (tradeLog : Option (List (EmitRecord × Money)))
    (events : List ReportEvent) (hok : Steps (FillReports.step c) Distinct (.init balance tradeLog) events) :
    (run (FillReports.step c) (.init balance tradeLog) events).booked.Nodup := by
  have hstep : ∀ s ev, Inv c s → Distinct s ev → Inv c (s.step c ev) := fun _ _ h hev => h.step hev
  exact (run_inv_of_steps hstep events (.init c balance tradeLog) hok).nodup

/-- A trade of order 1 as the stream reports it. -/
def sampleTradeReport (tradeId : Nat) (qty : Float) (status : String) : ExecutionReport where
  eventType := "executionReport"
  execType := "TRADE"
  clientOrderId := "oms_1"
  orderId := "77"
  orderStatus := status
  rejectReason := "NONE"
  lastPrice := 100
  lastQty := qty
  tradeId := tradeId
  maker := "false"
  commission := 0
  commissionAsset := "BNB"

/-- The response to the submission of order 1, of which `qty` is executed. -/
def sampleResponse (qty : Float) (complete : Bool) (trades : List Nat) (wsActive : Bool) : ReportEvent :=
  .respond 1 { lastErrorCode := 0, rateLimitWeight := 0 }
    (some { orderId := "77", fillPrice := 100, fillQty := qty, orderComplete := complete, venueTerminal := false })
    trades wsActive

/-- The response acknowledges, the stream brings both trades, and each is booked once. -/
theorem booked_once_two_trades :
    (run (FillReports.step (sampleLive [1])) (.init .zero none)
      [.own (.submit (sampleOrder 0 .marketBuy 10)), sampleResponse 10 true [7, 8] true,
        .stream (sampleTradeReport 7 4 "PARTIALLY_FILLED"), .stream (sampleTradeReport 8 6 "FILLED"),
        .handle 0, .handle 0, .handle 0]).booked.Nodup :=
  booked_once (sampleLive [1]) .zero none _ (by decide +kernel)

/-- The response carries a partial fill while the stream reports the same trade: it is booked twice, and
    the position holds eight units of the four bought. -/
theorem booked_twice :
    let s := run (FillReports.step (sampleLive [1])) (.init .zero none)
      [.own (.submit (sampleOrder 0 .marketBuy 10)), sampleResponse 4 false [7] false,
        .stream (sampleTradeReport 7 4 "PARTIALLY_FILLED"), .handle 0, .handle 0]
    ¬s.booked.Nodup ∧ s.booked = [⟨1, 7⟩, ⟨1, 7⟩] ∧
      (s.oms.books.portfolio.positions 0).quantity = (Money.fromInt 8).val := by
  decide +kernel

end FillReports

end FoxTrader
