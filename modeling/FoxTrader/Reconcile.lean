import FoxTrader.OrderTexts

/-! # What the venue tells a boot

    The boot asks the venue for its open orders and recent trades and reads both replies by the same
    search: objects by their braces, fields by `"key":` inside the object. An open order is the
    engine's own when its client order id says so, and those are the ones it cancels. -/

namespace FoxTrader

open Lib

/-! ### Field extraction -/

/-- `reconcile_next_object`: the text from the next brace on. -/
def nextObject (cursor : List Char) : Option (List Char) := (strchr cursor '{').map cursor.drop

/-- `reconcile_object_end`: where the brace that closes the object stands. -/
def objectEnd : (obj : List Char) → (depth : Nat) → Option Nat
  | [], _ => none
  | '{' :: rest, depth => (objectEnd rest (depth + 1)).map (· + 1)
  | '}' :: rest, depth => if depth = 1 then some 0 else (objectEnd rest (depth - 1)).map (· + 1)
  | _ :: rest, depth => (objectEnd rest depth).map (· + 1)

/-- Where the value of `search` starts, when the search ends inside the object. -/
def valueStart (obj : List Char) (objEnd : Nat) (search : List Char) : Option Nat :=
  (strstr search obj).bind fun p => if p < objEnd then some (p + search.length) else none

/-- `reconcile_get_str`. -/
def getStr (obj : List Char) (objEnd : Nat) (key : String) (outCap : Nat) : List Char :=
  match valueStart obj objEnd (jsonKey key ++ ['"']) with
  | none => []
  | some p =>
    match strchr (obj.drop p) '"' with
    | none => []
    | some n => if p + n < objEnd then (obj.drop p).take (min n (outCap - 1)) else []

/-- C `atoll`. -/
def atoll (cs : List Char) : Int :=
  let magnitude (digits : List Char) : Int := digitsValue (digits.takeWhile Char.isDigit)
  match cs.dropWhile isSpace with
  | '-' :: digits => max (-magnitude digits) (-2 ^ 63)
  | '+' :: digits => min (magnitude digits) (2 ^ 63 - 1)
  | digits => min (magnitude digits) (2 ^ 63 - 1)

/-- `reconcile_get_int64`. -/
def getInt64 (obj : List Char) (objEnd : Nat) (key : String) : Int :=
  match valueStart obj objEnd (jsonKey key) with
  | none => 0
  | some p => atoll (obj.drop p)

/-- `reconcile_get_bool`. -/
def getBool (obj : List Char) (objEnd : Nat) (key : String) : Bool :=
  match valueStart obj objEnd (jsonKey key) with
  | none => false
  | some p => "true".toList.isPrefixOf (obj.drop p)

/-- `reconcile_get_double`: a quoted number before a bare one. -/
def getDouble (parseDouble : List Char → Float) (obj : List Char) (objEnd : Nat) (key : String) : Float :=
  match valueStart obj objEnd (jsonKey key ++ ['"']) with
  | some p => parseDouble (obj.drop p)
  | none =>
    match valueStart obj objEnd (jsonKey key) with
    | some p => parseDouble (obj.drop p)
    | none => 0

/-- The objects of a reply, at most `outCap` of them, each with where it ends. -/
def objects (json : List Char) : (outCap : Nat) → List (List Char × Nat)
  | 0 => []
  | outCap + 1 =>
    match nextObject json with
    | none => []
    | some obj =>
      match objectEnd obj 0 with
      | none => []
      | some objEnd => (obj, objEnd) :: objects (obj.drop (objEnd + 1)) outCap

/-! ### Open orders -/

structure ReconcileOpenOrder where
  orderId : Int
  symbol : List Char
  price : Float
  origQty : Float
  status : List Char
  side : List Char
  clientOrderId : List Char
  isOurs : Bool

/-- One row of `Reconcile_ParseOpenOrders`. -/
def ReconcileOpenOrder.read (parseDouble : List Char → Float) (obj : List Char) (objEnd : Nat) :
    ReconcileOpenOrder where
  orderId := getInt64 obj objEnd "orderId"
  symbol := getStr obj objEnd "symbol" 16
  price := getDouble parseDouble obj objEnd "price"
  origQty := getDouble parseDouble obj objEnd "origQty"
  status := getStr obj objEnd "status" 16
  side := getStr obj objEnd "side" 8
  clientOrderId := getStr obj objEnd "clientOrderId" 40
  isOurs := "tt-".toList.isPrefixOf (getStr obj objEnd "clientOrderId" 40)

/-- `Reconcile_ParseOpenOrders`. -/
def parseOpenOrders (parseDouble : List Char → Float) (json : List Char) (outCap : Nat) : List ReconcileOpenOrder :=
  (objects json outCap).map fun obj => .read parseDouble obj.1 obj.2

/-- `Reconcile_AutoCancelStale`: the order ids it asks `cancel` for, and how many of them went. -/
def autoCancelStale (cancel : String → Bool) (exchangeOrders : List ReconcileOpenOrder) : List String × Nat :=
  let asked := (exchangeOrders.filter (·.isOurs)).map fun o => toString o.orderId
  (asked, (asked.filter cancel).length)

/-! ### Trades -/

structure ReconcileTrade where
  tradeId : Int
  orderId : Int
  price : Float
  qty : Float
  commission : Float
  timeMs : Int
  isBuyer : Bool
  isMaker : Bool

/-- One row of `Reconcile_ParseMyTrades`. -/
def ReconcileTrade.read (parseDouble : List Char → Float) (obj : List Char) (objEnd : Nat) : ReconcileTrade where
  tradeId := getInt64 obj objEnd "id"
  orderId := getInt64 obj objEnd "orderId"
  price := getDouble parseDouble obj objEnd "price"
  qty := getDouble parseDouble obj objEnd "qty"
  commission := getDouble parseDouble obj objEnd "commission"
  timeMs := getInt64 obj objEnd "time"
  isBuyer := getBool obj objEnd "isBuyer"
  isMaker := getBool obj objEnd "isMaker"

/-- `Reconcile_ParseMyTrades`. -/
def parseMyTrades (parseDouble : List Char → Float) (json : List Char) (outCap : Nat) : List ReconcileTrade :=
  (objects json outCap).map fun obj => .read parseDouble obj.1 obj.2

end FoxTrader
