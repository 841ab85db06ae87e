import FoxTrader.BinanceOrderAPI

/-! # The adapter's worker

    A worker pops one submission at a time, has its order sent, and turns what comes back into the
    result its callback pushes to the order manager. With the user-data stream up the result of a taken
    order is an acknowledgment, for the stream reports the fills; with the stream down it carries the
    fill. A failed order carries the last error code.

    The client order id is the submission's idempotency key, but the venue holds on to it only while an
    order with it is open, and a market order closes when it executes. A request that executes and
    whose reply is lost is sent again and executes again, or comes back as a duplicate and is reported
    failed. -/

namespace FoxTrader

/-- The `OrderResult` of one turn of `BinanceAdapter_WorkerLoop`. -/
def workerResult (wsActive : Bool) (api : BinanceOrderAPI) : Option MarketFill → OrderResult
  | some f =>
    { success := true
      exchangeId := f.orderId
      avgFillPrice := if wsActive then 0 else f.fillPrice
      fillQty := if wsActive then 0 else f.fillQty
      errorMessage := ""
      isMaker := false
      orderComplete := !wsActive && f.orderComplete
      venueTerminal := !wsActive && f.venueTerminal
      commission := 0
      commissionAsset := "" }
  | none =>
    { success := false
      exchangeId := ""
      avgFillPrice := 0
      fillQty := 0
      errorMessage := s!"REST error (binance code {api.lastErrorCode}, weight {api.rateLimitWeight})"
      isMaker := false
      orderComplete := false
      venueTerminal := false
      commission := 0
      commissionAsset := "" }

/-- What the callback pushes for a submission, and what its requests did at the venue. -/
structure Delivery where
  cmd : Command
  log : List Reaction

/-- One turn of `BinanceAdapter_WorkerLoop` with a submission popped. `wsActive` is the flag as it is
    read when the request is over. -/
def workerTurn (api : BinanceOrderAPI) (clientId : Nat) (attempts : Fin 4 → Attempt) (wsActive : Bool) :
    Delivery :=
  let r := retryRequest api attempts
  { cmd := { type := .fillResult, orderId := clientId, result := workerResult wsActive r.api (marketOrder r) }
    log := r.log }

theorem workerResult_success (wsActive : Bool) (api : BinanceOrderAPI) (f : Option MarketFill) :
    (workerResult wsActive api f).success = f.isSome := by
  cases f <;> rfl

/-- At most one order of the submission is executed, and none if its callback reports failure. -/
def Delivery.OneExecution (d : Delivery) : Prop :=
  executions d.log ≤ 1 ∧ (d.cmd.result.success = false → executions d.log = 0)

/-- No order is executed whose `200` is not read; or one is, and the order confirmed after it executes
    nothing. -/
def Traceable (attempts : Fin 4 → Attempt) : Prop :=
  let turns := made 0 (List.ofFn attempts)
  (turns.map Attempt.unconfirmed).sum = 0 ∨
    (turns.map Attempt.unconfirmed).sum = 1 ∧ ∃ a ∈ turns, ∃ r, a.confirmed = some r ∧ r.executes = false

/-- A submission executes at most once, and not at all when it is reported failed, exactly if no order
    of it is executed and left unconfirmed, save one before a confirmed order that executes nothing. -/
theorem workerTurn_oneExecution_iff (api : BinanceOrderAPI) (clientId : Nat) (attempts : Fin 4 → Attempt)
    (wsActive : Bool) : (workerTurn api clientId attempts wsActive).OneExecution ↔ Traceable attempts := by
  obtain ⟨hlog, hends⟩ := retryLoop_spec (List.ofFn attempts) api 0
  simp only [Delivery.OneExecution, Traceable, workerTurn, workerResult_success, retryRequest, hlog]
  generalize made 0 (List.ofFn attempts) = turns at hends ⊢
  generalize marketOrder (retryLoop api 0 (List.ofFn attempts)) = fill at hends ⊢
  cases hends with
  | failed _ hnone =>
    have hcount := executions_flatMap hnone
    have hnot : ¬∃ a ∈ turns, ∃ r, a.confirmed = some r ∧ r.executes = false := by
      rintro ⟨a, ha, r, hr, _⟩
      simp [hnone a ha] at hr
    simp only [hcount, hnot, Option.isSome_none]
    grind
  | filled lead a r hlead hlast =>
    have hcount : executions ((lead ++ [a]).flatMap (·.post.arrivals)) =
        ((lead ++ [a]).map Attempt.unconfirmed).sum + executions [r] := by
      simp [executions_append, executions_flatMap hlead, executions_of_confirmed hlast, Nat.add_assoc]
    have hlastOnly : (∃ b ∈ lead ++ [a], ∃ r', b.confirmed = some r' ∧ r'.executes = false) ↔ r.executes = false := by
      constructor
      · rintro ⟨b, hb, r', hr', hno⟩
        rcases List.mem_append.mp hb with hb | hb
        · simp [hlead b hb] at hr'
        · obtain rfl := List.mem_singleton.mp hb
          exact Option.some.inj (hlast.symm.trans hr') ▸ hno
      · intro hno
        exact ⟨a, by simp, r, hlast, hno⟩
    have hone : executions [r] = if r.executes then 1 else 0 := by cases h : r.executes <;> simp [executions, h]
    rw [hcount, hlastOnly, hone]
    cases r.executes
    · simp; omega
    · simp

/-- An order taken and filled at once. -/
def filledReaction : Reaction :=
  .take true 0
    { status := 200
      usedWeight := none
      body := { code := 0, orderId := "77", executedQty := 1, cummulativeQuoteQty := 100, status := "FILLED" } }
    (.inl rfl)

/-- An exchange that goes well up to the reply. -/
def sampleExchange {α : Type} (arrived : α) (replyRead : Bool) : Exchange α where
  connects := true
  first := { written := true, arrived := some arrived }
  reconnects := true
  resend := { written := true, arrived := none }
  replyRead := replyRead

/-- The first reply is lost on its way back. -/
def lostReply (i : Fin 4) : Attempt where
  stopBefore := false
  post := sampleExchange filledReaction (0 < i.val)
  stopWaiting := false
  resync := sampleExchange filledReaction.reply true

/-- A filled order whose reply is lost is sent, taken and filled again: one submission, two executions,
    and a result that knows of one. -/
theorem workerTurn_executes_twice :
    let d := workerTurn { lastErrorCode := 0, rateLimitWeight := 0 } 1 lostReply false
    Lawful true [] d.log ∧ executions d.log = 2 ∧ d.cmd.result.success = true ∧ ¬d.OneExecution := by
  unfold Delivery.OneExecution
  decide +kernel

end FoxTrader
