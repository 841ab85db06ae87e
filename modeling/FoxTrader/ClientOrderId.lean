import FoxTrader.Reconcile
import Mathlib.Data.List.TakeWhile
import Mathlib.Data.List.DropRight

/-! # Client order ids

    A market order carries its order id as `oms_<id>`. The user-data stream reads it back; the boot
    reads the same text in the venue's open orders, where it looks for another prefix, so it takes
    every leftover of the engine for a stranger's and cancels none. -/

namespace FoxTrader

open Lib

/-! ### The text of an order id -/

/-- `oms_%llu`. -/
def wireId (id : UInt64) : List Char := "oms_".toList ++ decimal id

theorem isDigit_of_mem_decimal {id : UInt64} {ch : Char} (h : ch ∈ decimal id) : ch.isDigit = true :=
  Nat.isDigit_of_mem_toDigits (by decide) (by decide) h

/-- What is not a digit and not in `oms_` is not in the text of an id. -/
theorem not_mem_wireId {ch : Char} (homs : ch ∉ "oms_".toList) (hdigit : ch.isDigit = false) (id : UInt64) :
    ch ∉ wireId id := by
  rw [wireId, List.mem_append]
  rintro (h | h)
  · exact homs h
  · exact Bool.false_ne_true (hdigit.symm.trans (isDigit_of_mem_decimal h))

theorem decimal_length (id : UInt64) : (decimal id).length ≤ 20 := by
  rw [decimal, Nat.length_toDigits_le_iff (by decide) (by decide)]
  exact id.toNat_lt.trans (by norm_num)

theorem wireId_length (id : UInt64) : (wireId id).length ≤ 24 := by
  have := decimal_length id
  rw [wireId, List.length_append]
  show 4 + (decimal id).length ≤ 24
  omega

theorem digitsValue_decimal (id : UInt64) : digitsValue (decimal id) = id.toNat := by
  rw [digitsValue, ← Nat.ofDigitChars_eq_foldl]
  exact Nat.ofDigitChars_ten_toDigits

/-- The number comes back whole: it has neither blank nor sign in front, and it fits. -/
theorem strtoull_decimal (id : UInt64) : strtoull (decimal id) = id.toNat := by
  have hall : (decimal id).takeWhile Char.isDigit = decimal id :=
    List.takeWhile_eq_self_iff.2 fun ch hch => isDigit_of_mem_decimal hch
  have hvalue := digitsValue_decimal id
  have hfits := id.toNat_lt
  rcases hdigits : decimal id with _ | ⟨first, rest⟩
  · exact absurd hdigits Nat.toDigits_ne_nil
  have hfirst : first.isDigit = true := isDigit_of_mem_decimal (hdigits ▸ List.mem_cons_self)
  have hspace : isSpace first = false := by
    rw [Char.isDigit, Bool.and_eq_true, decide_eq_true_eq, decide_eq_true_eq] at hfirst
    simp only [isSpace, Bool.or_eq_false_iff, decide_eq_false_iff_not, Bool.and_eq_false_iff]
    refine ⟨fun h => absurd hfirst (by rw [h]; decide), .inr fun h => ?_⟩
    exact absurd (UInt32.le_trans hfirst.1 h) (by decide)
  have hminus : first ≠ '-' := fun h => absurd hfirst (by rw [h]; decide)
  have hplus : first ≠ '+' := fun h => absurd hfirst (by rw [h]; decide)
  rw [hdigits] at hall hvalue
  unfold strtoull
  rw [List.dropWhile_cons_of_neg (by rw [hspace]; exact Bool.false_ne_true)]
  split
  · next h => exact absurd (List.cons.inj h).1 hminus
  · next h => exact absurd (List.cons.inj h).1 hplus
  · next h =>
    show min (digitsValue ((first :: rest).takeWhile Char.isDigit)) (2 ^ 64 - 1) = id.toNat
    rw [hall, hvalue]
    omega

/-! ### The parameter on the wire -/

/-- The last parameter of a query. -/
def lastParam (params : List Char) : List Char := params.rtakeWhile (· ≠ '&')

theorem lastParam_append {head param : List Char} (h : '&' ∉ param) : lastParam (head ++ '&' :: param) = param := by
  have hall : ∀ ch ∈ param.reverse, (decide (ch ≠ '&')) = true := fun ch hch =>
    decide_eq_true fun heq => h (heq ▸ List.mem_reverse.1 hch)
  rw [lastParam, List.rtakeWhile, List.reverse_append, List.reverse_cons, List.append_assoc,
    List.takeWhile_append_of_pos hall]
  simp

theorem CarriesId.lastParam {params wire : List Char} (h : CarriesId params wire) :
    lastParam params = "newClientOrderId=".toList ++ wire := by
  obtain ⟨hplain, head, rfl⟩ := h
  have hkey : "&newClientOrderId=".toList ++ wire = '&' :: ("newClientOrderId=".toList ++ wire) := rfl
  rw [List.append_assoc, hkey]
  refine lastParam_append ?_
  rw [List.mem_append]
  rintro (hmem | hmem)
  · exact absurd hmem (by decide)
  · exact hplain hmem

/-- The text between the symbol and the quantity. -/
def sideParams (sell : Bool) : List Char := ("&side=" ++ (if sell then "SELL" else "BUY") ++ "&type=MARKET&quantity=").toList

theorem sideParams_length (sell : Bool) : (sideParams sell).length ≤ 32 := by
  cases sell <;> decide

theorem sideParams_eq (sell : Bool) :
    sideParams sell = ("&side=" ++ (if sell then "SELL" else "BUY") ++ "&type=MARKET").toList ++ '&' :: "quantity=".toList := by
  cases sell <;> rfl

section

variable (symbol : CharBuf 16) (sell : Bool) (qtyStr : QtyText)

theorem symbolKey_length : "symbol=".toList.length = 7 := rfl

theorem idKey_length : "&newClientOrderId=".toList.length = 18 := rfl

/-- The parameters up to the quantity. -/
def orderParams : List Char :=
  "symbol=".toList ++ symbol.text ++ sideParams sell ++ qtyStr.text

theorem orderParams_length : (orderParams symbol sell qtyStr).length ≤ 85 := by
  have hsymbol := symbol.fits
  have hqty := qtyStr.fits
  have hside := sideParams_length sell
  unfold orderParams
  rw [List.length_append, List.length_append, List.length_append, symbolKey_length]
  omega

theorem lastParam_orderParams : lastParam (orderParams symbol sell qtyStr) = "quantity=".toList ++ qtyStr.text := by
  have hplain : '&' ∉ "quantity=".toList ++ qtyStr.text := by
    rw [List.mem_append]
    rintro (hmem | hmem)
    · exact absurd hmem (by decide)
    · exact qtyStr.plain hmem
  unfold orderParams
  rw [sideParams_eq, List.append_assoc, List.append_assoc _ _ qtyStr.text, List.cons_append, ← List.append_assoc]
  exact lastParam_append hplain

/-- The array is long enough for the client order id. -/
theorem marketParams_eq {id : UInt64} (hid : id ≠ 0) :
    marketParams symbol sell qtyStr id =
      orderParams symbol sell qtyStr ++ "&newClientOrderId=".toList ++ wireId id := by
  have hkey : "&newClientOrderId=oms_".toList ++ decimal id = "&newClientOrderId=".toList ++ wireId id := by
    rw [wireId, ← List.append_assoc]
    rfl
  have hlength := orderParams_length symbol sell qtyStr
  have hwire := wireId_length id
  have hparams : marketParams symbol sell qtyStr id =
      printed 256 (orderParams symbol sell qtyStr ++ "&newClientOrderId=oms_".toList ++ decimal id) := if_pos hid
  rw [hparams, List.append_assoc, hkey, ← List.append_assoc]
  clear hkey hparams
  refine printed_eq ?_
  rw [List.length_append, List.length_append, idKey_length]
  omega

theorem carriesId_iff {id : UInt64} {wire : List Char} :
    CarriesId (marketParams symbol sell qtyStr id) wire ↔ id ≠ 0 ∧ wire = wireId id := by
  have hplain : '&' ∉ wireId id := not_mem_wireId (by decide) (by decide) id
  constructor
  · intro h
    by_cases hid : id = 0
    · have hparams : marketParams symbol sell qtyStr id = orderParams symbol sell qtyStr := by
        have hshort := printed_eq ((orderParams_length symbol sell qtyStr).trans_lt (by decide : 85 < 256))
        exact Eq.trans (if_neg (not_not.2 hid)) hshort
      have hlast := h.lastParam
      rw [hparams, lastParam_orderParams] at hlast
      exact absurd (List.cons.inj hlast).1 (by decide)
    · have hself : CarriesId (marketParams symbol sell qtyStr id) (wireId id) :=
        ⟨hplain, _, marketParams_eq symbol sell qtyStr hid⟩
      exact ⟨hid, List.append_cancel_left (h.lastParam.symm.trans hself.lastParam)⟩
  · rintro ⟨hid, rfl⟩
    exact ⟨hplain, _, marketParams_eq symbol sell qtyStr hid⟩

end

/-! ### Both readers -/

/-- The user-data stream reads the id of every report that carries it. -/
def DecodesBack (id : UInt64) : Prop :=
  ∀ symbol sell qtyStr wire, CarriesId (marketParams symbol sell qtyStr id) wire →
    ∀ parseDouble json cmd tradeId, FieldIs json "c" wire →
      parseExecutionReport (.ofJson parseDouble json) = some (cmd, tradeId) → cmd.orderId = id.toNat

/-- The boot takes every open order that carries it for the engine's own. -/
def TaggedAsOurs (id : UInt64) : Prop :=
  ∀ symbol sell qtyStr wire, CarriesId (marketParams symbol sell qtyStr id) wire →
    ∀ parseDouble json outCap, ∀ o ∈ parseOpenOrders parseDouble json outCap, o.clientOrderId = wire → o.isOurs = true

theorem omsOrderId_wireId (id : UInt64) : omsOrderId (.ofList (wireId id)) = id.toNat := by
  unfold omsOrderId
  rw [String.toList_ofList]
  exact strtoull_decimal id

/-- Whatever command a report gives, it is for the order its client id names. -/
theorem parseExecutionReport_orderId {r : ExecutionReport} {cmd : Command} {tradeId : Nat}
    (h : parseExecutionReport r = some (cmd, tradeId)) : cmd.orderId = omsOrderId r.clientOrderId := by
  unfold parseExecutionReport at h
  split at h
  · exact absurd h (Option.some_ne_none _).symm
  split at h
  · rw [← (Prod.mk.inj (Option.some_inj.1 h)).1]
    rfl
  split at h
  · split at h
    · exact absurd h (Option.some_ne_none _).symm
    · rw [← (Prod.mk.inj (Option.some_inj.1 h)).1]
      rfl
  · exact absurd h (Option.some_ne_none _).symm

theorem decodesBack (id : UInt64) : DecodesBack id := by
  intro symbol sell qtyStr wire hcarries parseDouble json cmd tradeId hfield hparse
  obtain ⟨-, rfl⟩ := (carriesId_iff symbol sell qtyStr).1 hcarries
  have hclient : (ExecutionReport.ofJson parseDouble json).clientOrderId = .ofList (wireId id) :=
    congrArg String.ofList (hfield.jsonExtractStr ((wireId_length id).trans_lt (by decide)))
  rw [parseExecutionReport_orderId hparse, hclient, omsOrderId_wireId]

/-! ### A leftover order -/

/-- Braces that are not there do not count. -/
theorem objectEnd_append (depth : Nat) (rest : List Char) : ∀ {text : List Char}, '{' ∉ text → '}' ∉ text →
    objectEnd (text ++ rest) depth = (objectEnd rest depth).map (· + text.length)
  | [], _, _ => by simp
  | ch :: text, hopen, hclose => by
    rw [List.mem_cons, not_or] at hopen hclose
    have ih := objectEnd_append depth rest hopen.2 hclose.2
    have hstep : objectEnd (ch :: (text ++ rest)) depth = (objectEnd (text ++ rest) depth).map (· + 1) := by
      conv_lhs => unfold objectEnd
      split
      · next h => exact absurd h (List.cons_ne_nil _ _)
      · next h => exact absurd (List.cons.inj h).1.symm hopen.1
      · next h => exact absurd (List.cons.inj h).1.symm hclose.1
      · next h => rw [(List.cons.inj h).2]
    rw [List.cons_append, hstep, ih, Option.map_map]
    congr 1

/-- An open order up to its client order id, and what comes after. -/
def leftoverHead : List Char := "\"symbol\":\"BTCUSDT\",\"orderId\":28457,\"clientOrderId\":\"".toList

def leftoverRest : List Char :=
  ",\"price\":\"0.00\",\"origQty\":\"0.001\",\"status\":\"NEW\",\"side\":\"BUY\"".toList

def leftoverFields (id : UInt64) : List Char := leftoverHead ++ (wireId id ++ '"' :: leftoverRest)

/-- The venue's list of open orders with one of the engine's. -/
def leftoverJson (id : UInt64) : List Char := '[' :: '{' :: (leftoverFields id ++ ['}', ']'])

theorem leftoverFields_length (id : UInt64) : (wireId id).length + 52 < (leftoverFields id).length := by
  have hhead : leftoverHead.length = 52 := rfl
  unfold leftoverFields
  rw [List.length_append, List.length_append, List.length_cons, hhead]
  clear hhead
  omega

theorem not_mem_leftoverFields {ch : Char} (id : UInt64) (h : ch = '{' ∨ ch = '}') : ch ∉ leftoverFields id := by
  unfold leftoverFields
  rw [List.mem_append, List.mem_append, List.mem_cons]
  rintro (hmem | hmem | hmem | hmem)
  · rcases h with rfl | rfl <;> exact absurd hmem (by decide)
  · rcases h with rfl | rfl <;> exact not_mem_wireId (by decide) (by decide) id hmem
  · rcases h with rfl | rfl <;> exact absurd hmem (by decide)
  · rcases h with rfl | rfl <;> exact absurd hmem (by decide)

theorem objects_leftoverJson (id : UInt64) :
    objects (leftoverJson id) 1 = [('{' :: (leftoverFields id ++ ['}', ']']), (leftoverFields id).length + 1)] := by
  have hend : objectEnd ('{' :: (leftoverFields id ++ ['}', ']'])) 0 = some ((leftoverFields id).length + 1) := by
    have hfields := objectEnd_append 1 ['}', ']'] (not_mem_leftoverFields id (.inl rfl)) (not_mem_leftoverFields id (.inr rfl))
    show (objectEnd (leftoverFields id ++ ['}', ']']) 1).map (· + 1) = _
    rw [hfields]
    show some (0 + (leftoverFields id).length + 1) = _
    rw [Nat.zero_add]
  have hnext : nextObject (leftoverJson id) = some ('{' :: (leftoverFields id ++ ['}', ']'])) := rfl
  simp only [objects, hnext, hend]

/-- The client order id of the reply's order, as the boot reads it. -/
theorem clientOrderId_leftover (id : UInt64) :
    getStr ('{' :: (leftoverFields id ++ ['}', ']'])) ((leftoverFields id).length + 1) "clientOrderId" 40 = wireId id := by
  have hsearch : strstr (jsonKey "clientOrderId" ++ ['"']) ('{' :: (leftoverFields id ++ ['}', ']'])) = some 36 := rfl
  have hlength := leftoverFields_length id
  have hwire := wireId_length id
  have hstart : valueStart ('{' :: (leftoverFields id ++ ['}', ']'])) ((leftoverFields id).length + 1)
      (jsonKey "clientOrderId" ++ ['"']) = some 53 := by
    rw [valueStart, hsearch, Option.bind_some, if_pos (by omega)]
    rfl
  have hdrop : ('{' :: (leftoverFields id ++ ['}', ']'])).drop 53 = wireId id ++ '"' :: (leftoverRest ++ ['}', ']']) := by
    unfold leftoverFields
    rw [List.append_assoc, List.append_assoc]
    rfl
  have hquote : '"' ∉ wireId id := not_mem_wireId (by decide) (by decide) id
  simp only [getStr, hstart, hdrop, strchr_append hquote]
  rw [if_pos (by omega), Nat.min_eq_left (by omega), List.take_left]

/-- Nothing that starts like ours is tagged. -/
theorem wireId_not_ours (id : UInt64) : "tt-".toList.isPrefixOf (wireId id) = false := rfl

/-- The boot takes the order for a stranger's. -/
theorem leftover_not_ours (parseDouble : List Char → Float) (id : UInt64) :
    ∃ o ∈ parseOpenOrders parseDouble (leftoverJson id) 1, o.clientOrderId = wireId id ∧ o.isOurs = false := by
  refine ⟨.read parseDouble ('{' :: (leftoverFields id ++ ['}', ']'])) ((leftoverFields id).length + 1), ?_, ?_, ?_⟩
  · rw [parseOpenOrders, objects_leftoverJson]
    exact List.mem_singleton_self _
  · exact clientOrderId_leftover id
  · show "tt-".toList.isPrefixOf (getStr _ _ "clientOrderId" 40) = false
    rw [clientOrderId_leftover]
    exact wireId_not_ours id

theorem not_taggedAsOurs {id : UInt64} (hid : id ≠ 0) : ¬TaggedAsOurs id := by
  intro h
  let symbol : CharBuf 16 := ⟨"BTCUSDT".toList, by decide⟩
  let qtyStr : QtyText := ⟨⟨"0.001".toList, by decide⟩, by decide⟩
  obtain ⟨o, hmem, hwire, hours⟩ := leftover_not_ours (fun _ => 0) id
  have hcarries := (carriesId_iff symbol false qtyStr).2 ⟨hid, rfl⟩
  exact Bool.false_ne_true (hours.symm.trans (h symbol false qtyStr _ hcarries _ _ _ o hmem hwire))

/-- The stream reads every id back; the boot knows none that goes out. -/
theorem clientOrderId_recognised_iff (id : UInt64) :
    (DecodesBack id ∧ TaggedAsOurs id ↔ id = 0) ∧ DecodesBack id := by
  refine ⟨⟨fun h => not_not.1 fun hid => not_taggedAsOurs hid h.2, ?_⟩, decodesBack id⟩
  rintro rfl
  exact ⟨decodesBack 0, fun symbol sell qtyStr wire hcarries =>
    absurd rfl ((carriesId_iff symbol sell qtyStr).1 hcarries).1⟩

/-- Counter 1 of node 0, in table slot 1. -/
theorem clientOrderId_unrecognised : ¬(DecodesBack 1152921504606846977 ∧ TaggedAsOurs 1152921504606846977) :=
  fun h => not_taggedAsOurs (by decide) h.2

end FoxTrader
