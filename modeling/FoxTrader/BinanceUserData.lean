import FoxTrader.Order

/-! # Execution reports of the user-data stream

    `ud_parse_execution_report` turns an `executionReport` into a command: a trade into one leg, an
    expiry or a cancellation of our order into its end, a rejection into a failure. Everything else is
    dropped. The trade id is handed out beside the command and goes no further. -/

namespace FoxTrader

/-- The fields of a stream event as the extractors read them; one that is not there reads as zero or
    empty. -/
structure ExecutionReport where
  eventType : String
  execType : String
  clientOrderId : String
  orderId : String
  orderStatus : String
  rejectReason : String
  lastPrice : Float
  lastQty : Float
  tradeId : Nat
  maker : String
  commission : Float
  commissionAsset : String

/-- C `isspace`. -/
def isSpace (ch : Char) : Bool := ch = ' ' || ('\t' ≤ ch && ch ≤ '\r')

/-- The number a run of decimal digits denotes. -/
def digitsValue (cs : List Char) : Nat := cs.foldl (fun n ch => 10 * n + (ch.toNat - '0'.toNat)) 0

/-- C `strtoull` with base 10: blanks, a sign, digits; past the range the largest value, and a minus
    sign negates modulo 2⁶⁴. -/
def strtoull (cs : List Char) : Nat :=
  let magnitude (digits : List Char) := digitsValue (digits.takeWhile Char.isDigit)
  let clamp (n : Nat) := min n (2 ^ 64 - 1)
  match cs.dropWhile isSpace with
  | '-' :: digits => if magnitude digits < 2 ^ 64 then (2 ^ 64 - magnitude digits) % 2 ^ 64 else 2 ^ 64 - 1
  | '+' :: digits => clamp (magnitude digits)
  | digits => clamp (magnitude digits)

/-- The order a client order id names: ours are `oms_<id>`, any other is order 0. -/
def omsOrderId (clientOrderId : String) : Nat :=
  match clientOrderId.toList with
  | 'o' :: 'm' :: 's' :: '_' :: digits => strtoull digits
  | _ => 0

/-- The command of a trade: one leg at its own price and quantity. -/
def tradeCommand (r : ExecutionReport) : Command where
  type := .wsFill
  orderId := omsOrderId r.clientOrderId
  result :=
    { success := true
      exchangeId := r.orderId
      avgFillPrice := r.lastPrice
      fillQty := r.lastQty
      errorMessage := ""
      isMaker := r.maker.toList.head? = some 't' || r.maker.toList.head? = some 'T'
      orderComplete := r.orderStatus = "FILLED"
      venueTerminal := false
      commission := r.commission
      commissionAsset := r.commissionAsset }

/-- The command of a report that ends an order without a trade. -/
def endCommand (r : ExecutionReport) : Command where
  type := .wsFill
  orderId := omsOrderId r.clientOrderId
  result :=
    let rejected := r.execType = "REJECTED"
    { success := !rejected
      exchangeId := r.orderId
      avgFillPrice := 0
      fillQty := 0
      errorMessage := if rejected then "WS x=REJECTED r=" ++ r.rejectReason else ""
      isMaker := false
      orderComplete := !rejected && r.orderStatus = "FILLED"
      venueTerminal := !rejected
      commission := 0
      commissionAsset := "" }

/-- `ud_parse_execution_report`: the command and the trade id. -/
def parseExecutionReport (r : ExecutionReport) : Option (Command × Nat) :=
  if r.eventType ≠ "executionReport" then none
  else if r.execType = "TRADE" then some (tradeCommand r, r.tradeId)
  else if r.execType = "EXPIRED" ∨ r.execType = "CANCELED" ∨ r.execType = "REJECTED" then
    if omsOrderId r.clientOrderId = 0 then none else some (endCommand r, 0)
  else none

theorem parseExecutionReport_type {r : ExecutionReport} {cmd : Command} {tradeId : Nat}
    (h : parseExecutionReport r = some (cmd, tradeId)) : cmd.type = .wsFill := by
  unfold parseExecutionReport at h
  split at h
  · exact absurd h (Option.some_ne_none _).symm
  split at h
  · rw [← (Prod.mk.inj (Option.some_inj.1 h)).1]
    rfl
  split at h
  · split at h
    · exact absurd h (Option.some_ne_none _).symm
    · rw [← (Prod.mk.inj (Option.some_inj.1 h)).1]
      rfl
  · exact absurd h (Option.some_ne_none _).symm

example : omsOrderId "oms_1152921504606846977" = encodeOrderId 1 0 1 := by decide +kernel

example : omsOrderId "web_17" = 0 := by decide +kernel

end FoxTrader
