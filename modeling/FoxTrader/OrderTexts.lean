import FoxTrader.Lib.CString
import FoxTrader.BinanceUserData

/-! # The texts an order travels in

    A market order goes out as the query text of a POST, with the order id in `newClientOrderId`, and
    comes back in the fields of an execution report. Both ends work on C strings: the request is
    printed into a fixed array, the report is searched for `"key":`. The decimal reader
    (`tt::parse_double_fast_n`) is a parameter. -/

namespace FoxTrader

open Lib

/-! ### The request of a market order -/

/-- A quantity as `%.*f` prints it: no separator of the query is in it. -/
structure QtyText extends CharBuf 32 where
  plain : '&' ∉ text

/-- `%llu`. -/
def decimal (n : UInt64) : List Char := Nat.toDigits 10 n.toNat

/-- The parameters `BinanceOrderAPI_MarketBuy` and `BinanceOrderAPI_MarketSell` post. -/
def marketParams (symbol : CharBuf 16) (sell : Bool) (qtyStr : QtyText) (clientOrderId : UInt64) : List Char :=
  let side := if sell then "SELL" else "BUY"
  if clientOrderId ≠ 0 then
    printed 256 ("symbol=".toList ++ symbol.text ++ ("&side=" ++ side ++ "&type=MARKET&quantity=").toList ++ qtyStr.text ++
      "&newClientOrderId=oms_".toList ++ decimal clientOrderId)
  else
    printed 256 ("symbol=".toList ++ symbol.text ++ ("&side=" ++ side ++ "&type=MARKET&quantity=").toList ++ qtyStr.text)

/-- `wire` is the client order id the parameters end in. -/
def CarriesId (params wire : List Char) : Prop :=
  '&' ∉ wire ∧ ∃ head, params = head ++ "&newClientOrderId=".toList ++ wire

/-! ### Execution reports -/

/-- The text `key` is searched by. -/
def jsonKey (key : String) : List Char := '"' :: key.toList ++ ['"', ':']

/-- `binance_json_extract`. -/
def jsonExtract (json : List Char) (key : String) : Option (List Char) :=
  (strstr (jsonKey key) json).bind fun pos =>
    match (json.drop (pos + (jsonKey key).length)).dropWhile fun ch => ch = ' ' || ch = '\t' with
    | '"' :: value => (strchr value '"').map value.take
    | value => some (value.takeWhile fun ch => ch ≠ ',' && ch ≠ '}' && ch ≠ ']')

/-- `binance_json_extract_str`: a value that does not fit is dropped whole. -/
def jsonExtractStr (json : List Char) (key : String) (outSize : Nat) : List Char :=
  let value := (jsonExtract json key).getD []
  if value.length < outSize then value else []

/-- `binance_json_extract_double`. -/
def jsonExtractDouble (parseDouble : List Char → Float) (json : List Char) (key : String) : Float :=
  match jsonExtract json key with
  | none | some [] => 0
  | some value => parseDouble value

/-- The fields `ud_parse_execution_report` reads. -/
def ExecutionReport.ofJson (parseDouble : List Char → Float) (json : List Char) : ExecutionReport where
  eventType := .ofList (jsonExtractStr json "e" 32)
  execType := .ofList (jsonExtractStr json "x" 24)
  clientOrderId := .ofList (jsonExtractStr json "c" 64)
  orderId := .ofList (jsonExtractStr json "i" 32)
  orderStatus := .ofList (jsonExtractStr json "X" 24)
  rejectReason := .ofList (jsonExtractStr json "r" 24)
  lastPrice := jsonExtractDouble parseDouble json "L"
  lastQty := jsonExtractDouble parseDouble json "l"
  tradeId := (jsonExtractDouble parseDouble json "t").toUInt64.toNat
  maker := .ofList (jsonExtractStr json "m" 8)
  commission := jsonExtractDouble parseDouble json "n"
  commissionAsset := .ofList (jsonExtractStr json "N" 8)

/-- The report gives `key` the string `value`: no earlier text looks like the key. -/
def FieldIs (json : List Char) (key : String) (value : List Char) : Prop :=
  '"' ∉ value ∧ ∃ head blanks rest, (∀ ch ∈ blanks, ch = ' ' ∨ ch = '\t') ∧
    json = head ++ jsonKey key ++ blanks ++ '"' :: value ++ '"' :: rest ∧ strstr (jsonKey key) json = some head.length

theorem FieldIs.jsonExtract {json value : List Char} {key : String} (h : FieldIs json key value) :
    jsonExtract json key = some value := by
  obtain ⟨hquote, head, blanks, rest, hblanks, hjson, hfirst⟩ := h
  have hdrop : json.drop (head.length + (jsonKey key).length) = blanks ++ '"' :: value ++ '"' :: rest := by
    rw [hjson, ← List.length_append]
    simp only [List.append_assoc, List.cons_append]
    rw [← List.append_assoc head, List.drop_left]
  have hskip : (blanks ++ '"' :: value ++ '"' :: rest).dropWhile (fun ch => ch = ' ' || ch = '\t') =
      '"' :: (value ++ '"' :: rest) := by
    rw [List.append_assoc, List.dropWhile_append_of_pos (fun ch hch => by simpa using hblanks ch hch)]
    rfl
  rw [FoxTrader.jsonExtract, hfirst, Option.bind_some, hdrop, hskip]
  show (strchr (value ++ '"' :: rest) '"').map (value ++ '"' :: rest).take = some value
  rw [strchr_append hquote, Option.map_some, List.take_left]

theorem FieldIs.jsonExtractStr {json value : List Char} {key : String} {outSize : Nat} (h : FieldIs json key value)
    (hfits : value.length < outSize) : jsonExtractStr json key outSize = value := by
  rw [FoxTrader.jsonExtractStr, h.jsonExtract, Option.getD_some, if_pos hfits]

end FoxTrader
