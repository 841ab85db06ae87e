import FoxTrader.Order

/-! # Market orders over REST

    `binance_rest_request` is one HTTPS exchange and `binance_retry_request` makes up to four of them
    for one order. What the network, the server and the shutdown flag do is input: an `Exchange` says
    whether the connection comes up, what becomes of each write and whether a reply is read, and a
    `Reaction` what the venue does with an order request that reaches it. A request that arrives is
    logged whatever becomes of its reply: the log is the venue's side of a submission.

    Both sides of the market are one definition here. They differ in the text of the request, and of
    that only the client order id matters to the venue modelled here. -/

namespace FoxTrader

/-! ### Replies -/

/-- The fields the extractors look for in a body; one that is not there reads as zero or empty. -/
structure Body where
  code : Int
  orderId : String
  executedQty : Float
  cummulativeQuoteQty : Float
  status : String

def Body.empty : Body := { code := 0, orderId := "", executedQty := 0, cummulativeQuoteQty := 0, status := "" }

structure Response where
  status : Nat
  usedWeight : Option Int
  body : Body

/-- What the requests leave behind in a `BinanceOrderAPI`. -/
structure BinanceOrderAPI where
  lastErrorCode : Int
  rateLimitWeight : Int

/-- `BINANCE_TIMESTAMP` and `BINANCE_DUPLICATE_ORDER`. -/
abbrev binanceTimestamp : Int := -1021
abbrev binanceDuplicateOrder : Int := -2010

/-! ### One exchange -/

/-- A write of the request: whether it succeeds, and what the server does if the request gets there. -/
structure Send (α : Type) where
  written : Bool
  arrived : Option α

structure Exchange (α : Type) where
  connects : Bool
  first : Send α
  reconnects : Bool
  resend : Send α
  replyRead : Bool

namespace Exchange

variable {α : Type} (x : Exchange α)

/-- The request is written once, and once more on a fresh connection if the first write fails. -/
def writes : List (Send α) :=
  if !x.connects then []
  else if x.first.written || !x.reconnects then [x.first]
  else [x.first, x.resend]

/-- What the server did, request by request. -/
def arrivals : List α := x.writes.filterMap (·.arrived)

/-- The last request, if its reply is read. -/
def answered : Option α := x.writes.getLast?.bind fun w => if w.written && x.replyRead then w.arrived else none

/-- What is answered is what arrived last. -/
theorem arrivals_of_answered {a : α} (h : x.answered = some a) : x.arrivals = x.arrivals.dropLast ++ [a] := by
  obtain ⟨w, hw, hread⟩ := Option.bind_eq_some_iff.mp h
  obtain ⟨before, hwrites⟩ : ∃ before, x.writes = before ++ [w] := List.getLast?_eq_some_iff.mp hw
  have ha : w.arrived = some a := by
    split at hread
    · exact hread
    · exact absurd hread (by simp)
  have harr : x.arrivals = before.filterMap (·.arrived) ++ [a] := by simp [arrivals, hwrites, ha]
  rw [harr, List.dropLast_concat]

end Exchange

/-- `binance_rest_request`. A reply without the weight header leaves the weight as it was. -/
def restRequest {α : Type} (reply : α → Response) (api : BinanceOrderAPI) (x : Exchange α) :
    BinanceOrderAPI × Option Response :=
  match x.answered with
  | some a => ({ api with rateLimitWeight := (reply a).usedWeight.getD api.rateLimitWeight }, some (reply a))
  | none => (api, none)

/-! ### The venue -/

/-- What the venue does with an order request. It takes the order, which may or may not execute and
    which the next `openFor` requests still find open; it then answers `200`, unless a gateway puts a
    5xx in the place of the answer. Or it rejects the request because an order with its client id is
    open, or refuses it on its own merits. -/
inductive Reaction where
  | take (executes : Bool) (openFor : Nat) (reply : Response) (answers : reply.status = 200 ∨ 500 ≤ reply.status)
  | repeated (usedWeight : Option Int)
  | refuse (reply : Response) (refuses : reply.status ≠ 200)

namespace Reaction

def reply : Reaction → Response
  | take _ _ reply _ | refuse reply _ => reply
  | repeated usedWeight => { status := 400, usedWeight, body := { Body.empty with code := binanceDuplicateOrder } }

/-- An order that the venue executes. -/
def executes : Reaction → Bool
  | take executes _ _ _ => executes
  | repeated _ | refuse _ _ => false

end Reaction

def executions (log : List Reaction) : Nat := log.countP Reaction.executes

/-- The requests one more arrival finds open. -/
def oneLater (opens : List Nat) : List Nat := opens.map (· - 1)

/-- A venue that rejects a repeated client order id while, and only while, an order with that id is
    open. `opens` has, for each order taken before, how many arrivals still find it open; a request
    without a client id repeats none. -/
def Lawful (named : Bool) (opens : List Nat) : List Reaction → Bool
  | [] => true
  | .take _ openFor _ _ :: rest =>
    !(named && opens.any (0 < ·)) && Lawful named (openFor :: oneLater opens) rest
  | .repeated _ :: rest => (named && opens.any (0 < ·)) && Lawful named (oneLater opens) rest
  | .refuse _ _ :: rest => Lawful named (oneLater opens) rest

/-! ### Retrying -/

/-- What one turn of the retry loop meets: the flag in the sleep before it, the exchange, the flag in
    the wait of a rate limit, and the exchange that asks for the server's time. -/
structure Attempt where
  stopBefore : Bool
  post : Exchange Reaction
  stopWaiting : Bool
  resync : Exchange Response

/-- A rate limit. -/
def isRateLimit (status : Nat) : Bool := status = 418 || status = 429

def isClientError (status : Nat) : Bool := 400 ≤ status && status < 500 && !isRateLimit status

/-- How a turn ends: with the loop going round (`none`) or with what the loop returns. A shutdown in
    the wait of a rate limit returns no reply. -/
def verdict (a : Attempt) : Option Response → Option (Option Response)
  | none => none
  | some r =>
    if r.status = 200 then some (some r)
    else if isClientError r.status then if r.body.code = binanceTimestamp then none else some (some r)
    else if isRateLimit r.status && a.stopWaiting then some none
    else none

/-- A client error leaves its code; a timestamp error also asks for the server's time. -/
def noteError (api : BinanceOrderAPI) (a : Attempt) : Option Response → BinanceOrderAPI
  | none => api
  | some r =>
    if r.status ≠ 200 && isClientError r.status then
      let api := { api with lastErrorCode := r.body.code }
      if r.body.code = binanceTimestamp then (restRequest id api a.resync).1 else api
    else api

/-- What a request that was retried comes to: the state it leaves, the reply returned, and all that
    reached the venue. -/
structure Retried where
  api : BinanceOrderAPI
  reply : Option Response
  log : List Reaction

/-- The loop of `binance_retry_request` from turn `n` on. -/
def retryLoop (api : BinanceOrderAPI) (n : Nat) : List Attempt → Retried
  | [] => { api, reply := none, log := [] }
  | a :: rest =>
    if 0 < n && a.stopBefore then { api, reply := none, log := [] }
    else
      let (sent, reply) := restRequest Reaction.reply api a.post
      let api := noteError sent a reply
      match verdict a reply with
      | some reply => { api, reply, log := a.post.arrivals }
      | none =>
        let more := retryLoop api (n + 1) rest
        { more with log := a.post.arrivals ++ more.log }

/-- `binance_retry_request`. -/
def retryRequest (api : BinanceOrderAPI) (attempts : Fin 4 → Attempt) : Retried :=
  retryLoop api 0 (List.ofFn attempts)

/-! ### Market orders -/

/-- What `BinanceOrderAPI_MarketBuy` and `_MarketSell` hand out of a `200`. -/
structure MarketFill where
  orderId : String
  fillPrice : Float
  fillQty : Float
  orderComplete : Bool
  venueTerminal : Bool

/-- The average price is quote over base, the venue's own status says whether the order is done. -/
def marketFill (b : Body) : MarketFill where
  orderId := b.orderId
  fillPrice := if b.executedQty > 0 then b.cummulativeQuoteQty / b.executedQty else 0
  fillQty := b.executedQty
  orderComplete := b.status = "FILLED"
  venueTerminal := b.status = "EXPIRED" || b.status = "CANCELED" || b.status = "REJECTED"

/-- `BinanceOrderAPI_MarketBuy` and `BinanceOrderAPI_MarketSell`, as their caller sees them. -/
def marketOrder (r : Retried) : Option MarketFill :=
  match r.reply with
  | some reply => if reply.status = 200 then some (marketFill reply.body) else none
  | none => none

/-! ### What the loop comes to -/

namespace Attempt

/-- The loop goes round after this turn. -/
def again (a : Attempt) : Bool := (verdict a (a.post.answered.map Reaction.reply)).isNone

/-- The order whose `200` is read. -/
def confirmed (a : Attempt) : Option Reaction := a.post.answered.filter (·.reply.status = 200)

/-- The orders executed whose `200` is not read: their requests arrived, and the reply was lost, hidden
    behind an error, or belonged to a write that failed. -/
def unconfirmed (a : Attempt) : Nat :=
  executions (if a.confirmed.isSome then a.post.arrivals.dropLast else a.post.arrivals)

end Attempt

/-- The turns the loop takes, from turn `n` on. -/
def made (n : Nat) : List Attempt → List Attempt
  | [] => []
  | a :: rest => if 0 < n && a.stopBefore then [] else a :: if a.again then made (n + 1) rest else []

/-- How the turns taken and the fill handed out belong together: the fill is that of the one confirmed
    order, in the last turn, or there is neither. -/
inductive Ends : List Attempt → Option MarketFill → Prop
  | filled (lead : List Attempt) (a : Attempt) (r : Reaction) (hlead : ∀ x ∈ lead, x.confirmed = none)
      (hlast : a.confirmed = some r) : Ends (lead ++ [a]) (some (marketFill r.reply.body))
  | failed (turns : List Attempt) (hnone : ∀ x ∈ turns, x.confirmed = none) : Ends turns none

theorem Ends.cons {a : Attempt} {turns : List Attempt} {fill : Option MarketFill} (ha : a.confirmed = none)
    (h : Ends turns fill) : Ends (a :: turns) fill := by
  cases h with
  | filled lead b r hlead hlast =>
    exact Ends.filled (a :: lead) b r (List.forall_mem_cons.mpr ⟨ha, hlead⟩) hlast
  | failed _ hnone => exact Ends.failed _ (List.forall_mem_cons.mpr ⟨ha, hnone⟩)

theorem restRequest_reply {α : Type} (reply : α → Response) (api : BinanceOrderAPI) (x : Exchange α) :
    (restRequest reply api x).2 = x.answered.map reply := by
  unfold restRequest
  cases x.answered <;> rfl

/-- A turn after which the loop goes round confirms no order. -/
theorem confirmed_of_again {a : Attempt} (h : a.again) : a.confirmed = none := by
  cases hans : a.post.answered with
  | none => simp [Attempt.confirmed, hans]
  | some r =>
    have hstatus : r.reply.status ≠ 200 := by
      intro hok
      simp [Attempt.again, verdict, hans, hok] at h
    simp [Attempt.confirmed, hans, hstatus]

/-- A turn that ends the loop hands out the fill of the order it confirms. -/
theorem ends_of_verdict {a : Attempt} {reply : Option Response}
    (h : verdict a (a.post.answered.map Reaction.reply) = some reply) (api : BinanceOrderAPI) (log : List Reaction) :
    Ends [a] (marketOrder { api, reply, log }) := by
  cases hans : a.post.answered with
  | none => simp [hans, verdict] at h
  | some r =>
    rw [hans, Option.map_some] at h
    by_cases hok : r.reply.status = 200
    · have hreply : reply = some r.reply := by simpa [verdict, hok, eq_comm] using h
      subst hreply
      have hconf : a.confirmed = some r := by simp [Attempt.confirmed, hans, hok]
      simpa [marketOrder, hok] using Ends.filled [] a r (by simp) hconf
    · have hconf : a.confirmed = none := by simp [Attempt.confirmed, hans, hok]
      have hnofill : marketOrder { api, reply, log } = none := by
        cases reply with
        | none => rfl
        | some r' =>
          have hr' : r' = r.reply := by
            simp only [verdict, hok, if_false] at h
            grind
          simp [marketOrder, hr', hok]
      rw [hnofill]
      exact Ends.failed _ (by simpa using hconf)

theorem made_cons {n : Nat} {a : Attempt} (rest : List Attempt) (hgo : ¬(0 < n && a.stopBefore)) :
    made n (a :: rest) = a :: if a.again then made (n + 1) rest else [] := by
  rw [made, if_neg hgo]

/-- The log is what the turns taken left with the venue, and the reply belongs to them. -/
theorem retryLoop_spec (as : List Attempt) (api : BinanceOrderAPI) (n : Nat) :
    (retryLoop api n as).log = (made n as).flatMap (·.post.arrivals) ∧
      Ends (made n as) (marketOrder (retryLoop api n as)) := by
  induction as generalizing api n with
  | nil => exact ⟨rfl, Ends.failed _ (by simp [made])⟩
  | cons a rest ih =>
    by_cases hstop : (0 < n && a.stopBefore) = true
    · simp only [retryLoop, made, hstop, if_true]
      exact ⟨rfl, Ends.failed _ (by simp)⟩
    · rw [made_cons rest hstop]
      simp only [retryLoop, hstop, restRequest_reply]
      cases hverdict : verdict a (a.post.answered.map Reaction.reply) with
      | none =>
        have hagain : a.again := by simp [Attempt.again, hverdict]
        obtain ⟨hlog, hends⟩ := ih (noteError (restRequest Reaction.reply api a.post).1 a
          (a.post.answered.map Reaction.reply)) (n + 1)
        rw [if_pos hagain, List.flatMap_cons]
        exact ⟨congrArg _ hlog, hends.cons (confirmed_of_again hagain)⟩
      | some reply =>
        have hagain : ¬a.again := by simp [Attempt.again, hverdict]
        rw [if_neg hagain]
        exact ⟨by simp, ends_of_verdict hverdict _ _⟩

/-! ### Counting executions -/

theorem executions_append (l m : List Reaction) : executions (l ++ m) = executions l + executions m :=
  List.countP_append

theorem executions_of_unconfirmed {a : Attempt} (h : a.confirmed = none) :
    executions a.post.arrivals = a.unconfirmed := by
  simp [Attempt.unconfirmed, h]

theorem executions_of_confirmed {a : Attempt} {r : Reaction} (h : a.confirmed = some r) :
    executions a.post.arrivals = a.unconfirmed + executions [r] := by
  obtain ⟨hans, _⟩ := Option.filter_eq_some_iff.mp h
  rw [Attempt.unconfirmed, h, Option.isSome_some, if_pos rfl, ← executions_append,
    ← Exchange.arrivals_of_answered _ hans]

theorem executions_flatMap {turns : List Attempt} (h : ∀ x ∈ turns, x.confirmed = none) :
    executions (turns.flatMap (·.post.arrivals)) = (turns.map Attempt.unconfirmed).sum := by
  induction turns with
  | nil => rfl
  | cons a rest ih =>
    obtain ⟨ha, hrest⟩ := List.forall_mem_cons.mp h
    rw [List.flatMap_cons, executions_append, executions_of_unconfirmed ha, ih hrest, List.map_cons,
      List.sum_cons]

end FoxTrader
