import FoxTrader.Lib.QuotedText
import FoxTrader.MoneyText

/-! # The trade feed

    `BinanceStream_ReadTick` reads frames until one of them is a text with a price and a quantity, and
    returns them. What the parser of money says about the two strings is printed and dropped, so every
    text from which two strings can be extracted makes a tick, with whatever price comes out of it. A run
    of calls is right exactly when every such text is a trade message of the venue, with both amounts
    positive, in the range and of at most eight digits behind the dot. -/

namespace FoxTrader

open Lib

/-! ### Reading -/

/-- A frame as `binance_ws_read_frame` leaves it. -/
structure WsFrame where
  opcode : ℕ
  payload : List Char

/-- The tick of a trade. -/
structure DataStream where
  price : Money
  volume : Money
  isBuyerMaker : Bool

/-- The state of the connection. -/
structure BinanceStream where
  connected : Bool
  tickCount : ℕ

/-- The strings of a trade. -/
structure TradeStrings where
  price : List Char
  qty : List Char
  isBuyerMaker : Bool

/-- The text behind a key up to the next quote, if it is short enough. -/
def quotedField (key json : List Char) : Option (List Char) :=
  (fromText key json).bind fun pos => (fromChar '"' (pos.drop key.length)).bind fun fin =>
    let str := (pos.drop key.length).take ((pos.drop key.length).length - fin.length)
    if str.length ≥ 64 then none else some str

/-- `binance_parse_trade`. -/
def binanceParseTrade (json : List Char) (len : ℕ) : Option TradeStrings :=
  if len < 20 then none
  else
    (quotedField "\"p\":\"".toList json).bind fun price => (quotedField "\"q\":\"".toList json).map fun qty =>
      { price, qty
        isBuyerMaker := (fromText "\"m\":".toList json).elim false fun pos => (pos.drop 4).head? = some 't' }

/-- A payload as a C string. -/
def cText (payload : List Char) : List Char := payload.takeWhile (· ≠ '\x00')

/-- The tick of a text frame. The flags of the two amounts are not asked for. -/
def textTick (payload : List Char) : Option DataStream :=
  (binanceParseTrade (cText payload) payload.length).bind fun t => (moneyFromString t.price).bind fun price =>
    (moneyFromString t.qty).map fun qty =>
      { price := price.value, volume := qty.value, isBuyerMaker := t.isBuyerMaker }

/-- A call: the frames it has read, the tick it returns, if any, and what it leaves. -/
structure TickCall where
  consumed : List (Option WsFrame)
  tick : Option DataStream
  stream : BinanceStream
  rest : List (Option WsFrame)

/-- A frame was skipped before. -/
def TickCall.behind (c : TickCall) (frame : Option WsFrame) : TickCall := { c with consumed := frame :: c.consumed }

/-- The loop of `BinanceStream_ReadTick` over the frames to come, `none` for a failed read; it waits when
    there are no more. -/
def readLoop (s : BinanceStream) : List (Option WsFrame) → TickCall
  | [] => ⟨[], none, s, []⟩
  | none :: rest => ⟨[none], none, { s with connected := false }, rest⟩
  | some frame :: rest =>
    if frame.opcode = 9 then (readLoop s rest).behind (some frame)
    else if frame.opcode = 8 then ⟨[some frame], none, { s with connected := false }, rest⟩
    else if frame.opcode = 1 then
      match textTick frame.payload with
      | none => (readLoop s rest).behind (some frame)
      | some tick => ⟨[some frame], some tick, { s with tickCount := s.tickCount + 1 }, rest⟩
    else (readLoop s rest).behind (some frame)

/-- `BinanceStream_ReadTick`. -/
def readTick (s : BinanceStream) (frames : List (Option WsFrame)) : TickCall :=
  if s.connected then readLoop s frames else ⟨[], none, s, frames⟩

/-- Calls one after the other. -/
def tickCalls : ℕ → BinanceStream → List (Option WsFrame) → List TickCall
  | 0, _, _ => []
  | n + 1, s, frames => readTick s frames :: tickCalls n (readTick s frames).stream (readTick s frames).rest

/-! ### Trade messages -/

/-- A trade message of the venue. -/
structure TradeMessage where
  eventTime : ℕ
  symbol : List Char
  tradeId : ℕ
  price : List Char
  qty : List Char
  tradeTime : ℕ
  isBuyerMaker : Bool
  ignore : Bool

def boolText (b : Bool) : List Char := if b then "true".toList else "false".toList

namespace TradeMessage

/-- The fields before the price. -/
def front (t : TradeMessage) : List Char :=
  "\x7b\"e\":\"trade\",\"E\":".toList ++ Nat.toDigits 10 t.eventTime ++ ",\"s\":\"".toList ++ t.symbol ++ "\",\"t\":".toList ++
    Nat.toDigits 10 t.tradeId ++ ",".toList

/-- The fields behind the quantity. -/
def back (t : TradeMessage) : List Char :=
  ",\"T\":".toList ++ Nat.toDigits 10 t.tradeTime ++ ",\"m\":".toList ++ boolText t.isBuyerMaker ++ ",\"M\":".toList ++
    boolText t.ignore ++ "\x7d".toList

def render (t : TradeMessage) : List Char :=
  t.front ++ "\"p\":\"".toList ++ t.price ++ "\",\"q\":\"".toList ++ t.qty ++ "\"".toList ++ t.back

end TradeMessage

/-- An amount of the venue: a decimal text of at most eight digits behind the dot that denotes `v`
    units of `10⁻⁸`, above zero and in the range. -/
def IsVenueAmount (s : List Char) (v : ℤ) : Prop :=
  ∃ d : Decimal, d.text = s ∧ d.frac.length ≤ 8 ∧ d.scaled * (10 ^ 8 : ℕ) = v * (10 ^ d.frac.length : ℕ) ∧
    0 < v ∧ v ≤ moneyMax

/-- Both amounts are the venue's, and the symbol is of capitals and digits. -/
structure TradeMessage.WellFormed (t : TradeMessage) : Prop where
  symbol : ∀ c ∈ t.symbol, (c.isUpper || c.isDigit) = true
  price : ∃ v, IsVenueAmount t.price v
  qty : ∃ v, IsVenueAmount t.qty v

/-- The frame is a well-formed trade message. -/
def IsTrade (frame : Option WsFrame) (t : TradeMessage) : Prop := t.WellFormed ∧ frame = some ⟨1, t.render⟩

/-- The tick carries the exact amounts and the maker flag of the message. -/
structure DataStream.Carries (tick : DataStream) (t : TradeMessage) : Prop where
  price : IsVenueAmount t.price tick.price.v
  volume : IsVenueAmount t.qty tick.volume.v
  isBuyerMaker : tick.isBuyerMaker = t.isBuyerMaker

/-- The call has skipped no trade, and if it returns a tick, that carries the trade read last. -/
def TickCall.Right (c : TickCall) : Prop :=
  c.tick.elim (∀ frame ∈ c.consumed, ∀ t, ¬IsTrade frame t) fun tick =>
    ∃ skipped last t, c.consumed = skipped ++ [last] ∧ (∀ frame ∈ skipped, ∀ t, ¬IsTrade frame t) ∧
      IsTrade last t ∧ tick.Carries t

/-- Where a price and a quantity can be extracted the frame is a trade, and where it is a trade they can be. -/
def FrameFits (frame : Option WsFrame) : Prop :=
  ∀ payload, frame = some ⟨1, payload⟩ →
    ((binanceParseTrade (cText payload) payload.length).isSome → ∃ t : TradeMessage, t.WellFormed ∧
      payload = t.render) ∧
      ∀ t : TradeMessage, t.WellFormed → payload = t.render → t.price.length < 64 ∧ t.qty.length < 64

/-- The stream goes on behind the frame. -/
def goesOn (frame : Option WsFrame) : Bool := frame.elim false fun frame => frame.opcode ≠ 8

variable {s : List Char} {v : ℤ} {t : TradeMessage}

/-! ### Amounts -/

/-- The amount is its integer digits and its fractional digits, each in their unit. -/
theorem IsVenueAmount.parts (h : IsVenueAmount s v) : ∃ d : Decimal, d.text = s ∧ d.sign ≠ ['-'] ∧ d.frac.length ≤ 8 ∧
    v = (digitsNat d.int * 10 ^ 8 + digitsNat d.frac * 10 ^ (8 - d.frac.length) : ℕ) ∧ 0 < v ∧ v ≤ moneyMax := by
  obtain ⟨d, htext, hfrac, hvalue, hpos, hmax⟩ := h
  have hpow : 0 < 10 ^ d.frac.length := Nat.pow_pos (by decide)
  have hsign : d.sign ≠ ['-'] := by
    intro hminus
    rw [Decimal.scaled, if_pos hminus, Decimal.digits] at hvalue
    have hleft : 0 < v * (10 ^ d.frac.length : ℕ) := Int.mul_pos hpos (Int.natCast_pos.2 hpow)
    rw [← hvalue] at hleft
    omega
  refine ⟨d, htext, hsign, hfrac, ?_, hpos, hmax⟩
  have hsplit : 10 ^ 8 = 10 ^ (8 - d.frac.length) * 10 ^ d.frac.length := by
    rw [← Nat.pow_add]
    exact congrArg _ (by omega)
  rw [Decimal.scaled, if_neg hsign, Decimal.digits] at hvalue
  refine Int.eq_of_mul_eq_mul_right (Int.natCast_ne_zero.2 hpow.ne') (hvalue.symm.trans ?_)
  rw [← Int.natCast_mul, ← Int.natCast_mul]
  refine congrArg _ ?_
  rw [Nat.add_mul, Nat.add_mul, Nat.mul_right_comm, Nat.mul_assoc (digitsNat d.frac), ← hsplit]

/-- An amount of the venue is read exactly. -/
theorem moneyFromString_exact (h : IsVenueAmount s v) (hlen : s.length < 4294967296) :
    ∃ p, moneyFromString s = some p ∧ p.value.v = v := by
  obtain ⟨d, rfl, hsign, hfrac, hvalue, hpos, hmax⟩ := h.parts
  have hmoney : moneyMax = 2 ^ 63 - 1 := rfl
  have hfracLt : digitsNat d.frac < 10 ^ d.frac.length := digitsNat_lt d.frac_digits
  have hsmall : 10 ^ d.frac.length ≤ 10 ^ 8 := Nat.pow_le_pow_right (by decide) hfrac
  obtain ⟨hintFlag, hintVal⟩ := accumulate_spec d.int_digits
  obtain ⟨hfracFlag, hfracVal⟩ := accumulate_spec d.frac_digits
  have hint : digitsNat d.int < 2 ^ 64 := by omega
  have hfracWord : digitsNat d.frac < 2 ^ 64 := by omega
  have hcount : clampFrac (UInt32.ofNat d.frac.length) = d.frac.length := by
    rw [clampFrac_ofNat (by omega), if_pos (by omega)]
  have hscale : (fracScaled d.frac.length (accumulate d.frac).1).toNat =
    digitsNat d.frac * 10 ^ (8 - d.frac.length) := by
    have hprod : digitsNat d.frac * 10 ^ (8 - d.frac.length) < 2 ^ 64 := by omega
    rw [fracScaled, if_pos hfrac, UInt64.toNat_mul, hfracVal hfracWord, fpPow10_toNat (by omega),
      Nat.mod_eq_of_lt hprod]
  have hscaled : ((scanned d).scaled : ℤ) = v := by
    rw [hvalue]
    unfold FpScan.scaled scanned
    dsimp only
    rw [hcount, hscale, hintVal hint]
  have hover : (scanned d).toMoney.overflow = false := by
    have hwrap : (scanned d).wrap = false := Bool.or_eq_false_iff.2 ⟨hintFlag.2 hint, hfracFlag.2 hfracWord⟩
    have hle : ¬moneyMax < ((scanned d).scaled : ℤ) := by
      rw [hscaled]
      exact Int.not_lt.2 hmax
    unfold FpScan.toMoney
    dsimp only
    rw [hwrap, decide_eq_false hle]
    rfl
  refine ⟨(scanned d).toMoney, by rw [moneyFromString, fpScanDecimalString_text hlen]; rfl, ?_⟩
  have hneg : (scanned d).neg = false := decide_eq_false hsign
  rw [toMoney_value hover, hneg, if_neg Bool.false_ne_true, hscaled]

/-! ### The words of a message -/

/-- Capitals, digits and the signs between and in the numbers. -/
def plainChar (c : Char) : Bool := c.isUpper || c.isDigit || ".-+:,".toList.contains c

def Plain (word : List Char) : Prop := ∀ c ∈ word, plainChar c = true

/-- A word in which no search for a key stops. -/
def Free (word : List Char) : Prop := '"' ∉ word ∧ word ≠ "p".toList ∧ word ≠ "q".toList ∧ word ≠ "m".toList

theorem Plain.not_mem {word : List Char} (h : Plain word) {c : Char} (hc : plainChar c = false) : c ∉ word := by
  intro hmem
  rw [h c hmem] at hc
  cases hc

theorem Plain.free {word : List Char} (h : Plain word) : Free word := by
  have hne : ∀ c, plainChar c = false → word ≠ [c] := by
    rintro c hc rfl
    exact h.not_mem hc List.mem_cons_self
  exact ⟨h.not_mem (by decide), hne 'p' (by decide), hne 'q' (by decide), hne 'm' (by decide)⟩

theorem plain_of_digit {c : Char} (h : c.isDigit = true) : plainChar c = true := by
  rw [plainChar, h, Bool.or_true, Bool.true_or]

theorem plain_number (n : ℕ) : Plain (':' :: (Nat.toDigits 10 n ++ [','])) := by
  intro c hc
  rcases List.mem_cons.1 hc with rfl | hc
  · decide
  · rcases List.mem_append.1 hc with hdigit | hcomma
    · exact plain_of_digit (Nat.isDigit_of_mem_toDigits (by decide) (by decide) hdigit)
    · rw [List.mem_singleton.1 hcomma]
      decide

theorem plain_symbol (h : t.WellFormed) : Plain t.symbol := by
  intro c hc
  rw [plainChar, h.symbol c hc, Bool.true_or]

theorem IsVenueAmount.plain (h : IsVenueAmount s v) : Plain s := by
  obtain ⟨d, rfl, -⟩ := h
  have hsign : (["-".toList, "+".toList, []].all fun word => word.all plainChar) = true := by decide
  intro c hc
  rcases List.mem_append.1 hc with hc | hbody
  · have hmem : d.sign ∈ ["-".toList, "+".toList, []] := by
      rcases d.sign_mem with h | h | h <;> rw [h]
      · exact List.mem_cons_of_mem _ (List.mem_cons_of_mem _ List.mem_cons_self)
      · exact List.mem_cons_self
      · exact List.mem_cons_of_mem _ List.mem_cons_self
    exact List.all_eq_true.1 (List.all_eq_true.1 hsign _ hmem) c hc
  · rcases List.mem_append.1 hbody with hint | hrest
    · exact plain_of_digit (d.int_digits c hint)
    · split at hrest
      · rcases List.mem_cons.1 hrest with rfl | hfrac
        · decide
        · exact plain_of_digit (d.frac_digits c hfrac)
      · exact absurd hrest List.not_mem_nil

instance (word : List Char) : Decidable (Free word) := inferInstanceAs (Decidable (_ ∧ _ ∧ _ ∧ _))

namespace TradeMessage

/-- The words up to the price, and those from there up to the quantity and to the maker flag. -/
def frontWords (t : TradeMessage) : List (List Char) :=
  ["e".toList, ":".toList, "trade".toList, ",".toList, "E".toList, ':' :: (Nat.toDigits 10 t.eventTime ++ [',']), "s".toList,
    ":".toList, t.symbol, ",".toList, "t".toList, ':' :: (Nat.toDigits 10 t.tradeId ++ [','])]

def priceWords (t : TradeMessage) : List (List Char) := ["p".toList, ":".toList, t.price, ",".toList]

def qtyWords (t : TradeMessage) : List (List Char) :=
  ["q".toList, ":".toList, t.qty, ",".toList, "T".toList, ':' :: (Nat.toDigits 10 t.tradeTime ++ [','])]

theorem frontWords_free (h : t.WellFormed) : ∀ word ∈ t.frontWords, Free word := by
  unfold frontWords
  simp only [List.forall_mem_cons]
  exact ⟨by decide, by decide, by decide, by decide, by decide, (plain_number _).free, by decide, by decide,
    (plain_symbol h).free, by decide, by decide, (plain_number _).free, fun _ hnil => absurd hnil List.not_mem_nil⟩

theorem priceWords_free (h : Plain t.price) : ∀ word ∈ t.priceWords, '"' ∉ word ∧ word ≠ "q".toList ∧ word ≠ "m".toList := by
  unfold priceWords
  simp only [List.forall_mem_cons]
  exact ⟨by decide, by decide, ⟨h.free.1, h.free.2.2⟩, by decide, fun _ hnil => absurd hnil List.not_mem_nil⟩

theorem qtyWords_free (h : Plain t.qty) : ∀ word ∈ t.qtyWords, '"' ∉ word ∧ word ≠ "m".toList := by
  unfold qtyWords
  simp only [List.forall_mem_cons]
  exact ⟨by decide, by decide, ⟨h.free.1, h.free.2.2.2⟩, by decide, by decide,
    ⟨(plain_number _).free.1, (plain_number _).free.2.2.2⟩, fun _ hnil => absurd hnil List.not_mem_nil⟩

theorem render_price (t : TradeMessage) : ∃ rest, t.render = "\x7b".toList ++ t.frontWords.flatMap ('"' :: ·) ++
    quoted '"' "p".toList ":\"".toList ++ (t.price ++ '"' :: rest) := by
  refine ⟨",\"q\":\"".toList ++ t.qty ++ "\"".toList ++ t.back, ?_⟩
  unfold render front frontWords
  simp

theorem render_qty (t : TradeMessage) : ∃ rest, t.render = "\x7b".toList ++ (t.frontWords ++ t.priceWords).flatMap ('"' :: ·) ++
    quoted '"' "q".toList ":\"".toList ++ (t.qty ++ '"' :: rest) := by
  refine ⟨t.back, ?_⟩
  unfold render front frontWords priceWords
  simp

theorem render_maker (t : TradeMessage) : ∃ rest, t.render =
    "\x7b".toList ++ (t.frontWords ++ t.priceWords ++ t.qtyWords).flatMap ('"' :: ·) ++ quoted '"' "m".toList ":".toList ++
      (boolText t.isBuyerMaker ++ rest) := by
  refine ⟨",\"M\":".toList ++ boolText t.ignore ++ "\x7d".toList, ?_⟩
  unfold render front back frontWords priceWords qtyWords
  simp

end TradeMessage

/-- The field behind a key that is found. -/
theorem quotedField_found {key front str : List Char} (hclear : Clear '"' key ":\"".toList front) (hstr : '"' ∉ str)
    (rest : List Char) :
    quotedField (quoted '"' key ":\"".toList) (front ++ quoted '"' key ":\"".toList ++ (str ++ '"' :: rest)) =
      if str.length ≥ 64 then none else some str := by
  have hlen : (str ++ '"' :: rest).length - ('"' :: rest).length = str.length := by
    rw [List.length_append, Nat.add_sub_cancel]
  unfold quotedField
  rw [hclear.found, Option.bind_some, List.drop_left, fromChar_append hstr, Option.bind_some]
  dsimp only
  rw [hlen, List.take_left]

/-- What is extracted from a trade message. -/
theorem binanceParseTrade_render (h : t.WellFormed) {len : ℕ} (hlen : 20 ≤ len) :
    binanceParseTrade t.render len =
      if t.price.length ≥ 64 ∨ t.qty.length ≥ 64 then none else some ⟨t.price, t.qty, t.isBuyerMaker⟩ := by
  obtain ⟨v, hv⟩ := h.price
  obtain ⟨w, hw⟩ := h.qty
  have hbrace : ∀ key tail, Clear '"' key tail "\x7b".toList := fun key tail => Clear.plain (by decide)
  have hfront := TradeMessage.frontWords_free h
  have hprice := TradeMessage.priceWords_free hv.plain
  have hqty := TradeMessage.qtyWords_free hw.plain
  have hp : quotedField "\"p\":\"".toList t.render = if t.price.length ≥ 64 then none else some t.price := by
    obtain ⟨rest, htext⟩ := t.render_price
    rw [htext]
    exact quotedField_found ((hbrace _ _).words (by decide) fun word hword =>
      ⟨(hfront word hword).1, (hfront word hword).2.1⟩)
      hv.plain.free.1 rest
  have hq : quotedField "\"q\":\"".toList t.render = if t.qty.length ≥ 64 then none else some t.qty := by
    obtain ⟨rest, htext⟩ := t.render_qty
    rw [htext]
    refine quotedField_found ((hbrace _ _).words (by decide) fun word hword => ?_) hw.plain.free.1 rest
    rcases List.mem_append.1 hword with hword | hword
    · exact ⟨(hfront word hword).1, (hfront word hword).2.2.1⟩
    · exact ⟨(hprice word hword).1, (hprice word hword).2.1⟩
  have hm : ((fromText "\"m\":".toList t.render).elim false fun pos => decide ((pos.drop 4).head? = some 't')) = t.isBuyerMaker := by
    obtain ⟨rest, htext⟩ := t.render_maker
    have hclear : Clear '"' "m".toList ":".toList
        ("\x7b".toList ++ (t.frontWords ++ t.priceWords ++ t.qtyWords).flatMap ('"' :: ·)) := by
      refine (hbrace _ _).words (by decide) fun word hword => ?_
      rcases List.mem_append.1 hword with hword | hword
      · rcases List.mem_append.1 hword with hword | hword
        · exact ⟨(hfront word hword).1, (hfront word hword).2.2.2⟩
        · exact ⟨(hprice word hword).1, (hprice word hword).2.2⟩
      · exact hqty word hword
    have hfound := hclear.found (boolText t.isBuyerMaker ++ rest)
    rw [← htext] at hfound
    have hkey : "\"m\":".toList = quoted '"' "m".toList ":".toList := rfl
    rw [hkey, hfound]
    cases t.isBuyerMaker <;> rfl
  unfold binanceParseTrade
  rw [if_neg (Nat.not_lt.2 hlen), hp, hq, hm]
  by_cases hpl : t.price.length ≥ 64
  · rw [if_pos hpl, if_pos (Or.inl hpl)]
    rfl
  · by_cases hql : t.qty.length ≥ 64
    · rw [if_neg hpl, if_pos hql, if_pos (Or.inr hql)]
      rfl
    · rw [if_neg hpl, if_neg hql, if_neg (not_or.2 ⟨hpl, hql⟩)]
      rfl

/-- A trade message has no terminator inside, and is long enough. -/
theorem cText_render (h : t.WellFormed) : cText t.render = t.render ∧ 20 ≤ t.render.length := by
  obtain ⟨v, hv⟩ := h.price
  obtain ⟨w, hw⟩ := h.qty
  have hnul : plainChar '\x00' = false := by decide
  have hprice := hv.plain.not_mem hnul
  have hqty := hw.plain.not_mem hnul
  have hsymbol := (plain_symbol h).not_mem hnul
  have hdigits : ∀ n, '\x00' ∉ Nat.toDigits 10 n := fun n hmem =>
    absurd (Nat.isDigit_of_mem_toDigits (by decide) (by decide) hmem) (by decide)
  have hbool : ∀ b, '\x00' ∉ boolText b := by decide
  have hnone : '\x00' ∉ t.render := by
    unfold TradeMessage.render TradeMessage.front TradeMessage.back
    simp [hprice, hqty, hsymbol, hdigits, hbool]
  constructor
  · rw [cText, List.takeWhile_eq_self_iff]
    intro c hc
    rw [decide_eq_true_eq]
    rintro rfl
    exact hnone hc
  · unfold TradeMessage.render TradeMessage.front
    simp
    omega

/-- The tick that a frame makes. -/
def frameTick (frame : Option WsFrame) : Option DataStream :=
  frame.bind fun frame => if frame.opcode = 1 then textTick frame.payload else none

theorem frameTick_text (payload : List Char) : frameTick (some ⟨1, payload⟩) = textTick payload := rfl

/-- Short strings are read as some amount. -/
theorem moneyFromString_short (h : s.length < 64) : (moneyFromString s).isSome = true := by
  have hlen : s.length < 4294967296 := h.trans (by decide)
  unfold moneyFromString fpScanDecimalString
  rw [if_pos hlen]
  rfl

theorem quotedField_length {key json str : List Char} (h : quotedField key json = some str) : str.length < 64 := by
  obtain ⟨pos, -, h⟩ := Option.bind_eq_some_iff.1 h
  obtain ⟨fin, -, h⟩ := Option.bind_eq_some_iff.1 h
  dsimp only at h
  split at h
  · cases h
  · rename_i hshort
    rw [← Option.some.inj h]
    exact Nat.not_le.1 hshort

/-- A text from which two strings are extracted makes a tick, whatever the strings. -/
theorem textTick_isSome (payload : List Char) :
    (textTick payload).isSome = (binanceParseTrade (cText payload) payload.length).isSome := by
  unfold textTick
  cases hparse : binanceParseTrade (cText payload) payload.length with
  | none => rfl
  | some strings =>
    have hshort : strings.price.length < 64 ∧ strings.qty.length < 64 := by
      unfold binanceParseTrade at hparse
      split at hparse
      · cases hparse
      · obtain ⟨price, hprice, hparse⟩ := Option.bind_eq_some_iff.1 hparse
        obtain ⟨qty, hqty, rfl⟩ := Option.map_eq_some_iff.1 hparse
        exact ⟨quotedField_length hprice, quotedField_length hqty⟩
    obtain ⟨price, hprice⟩ := Option.isSome_iff_exists.1 (moneyFromString_short hshort.1)
    obtain ⟨qty, hqty⟩ := Option.isSome_iff_exists.1 (moneyFromString_short hshort.2)
    rw [Option.bind_some, hprice, Option.bind_some, hqty]
    rfl

/-- A trade message makes the tick that carries it. -/
theorem textTick_render (h : t.WellFormed) (hprice : t.price.length < 64) (hqty : t.qty.length < 64) :
    ∃ tick, textTick t.render = some tick ∧ tick.Carries t := by
  obtain ⟨hctext, hlen⟩ := cText_render h
  obtain ⟨v, hv⟩ := h.price
  obtain ⟨w, hw⟩ := h.qty
  obtain ⟨p, hp, hpv⟩ := moneyFromString_exact hv (hprice.trans (by decide))
  obtain ⟨q, hq, hqv⟩ := moneyFromString_exact hw (hqty.trans (by decide))
  have hshort : ¬(t.price.length ≥ 64 ∨ t.qty.length ≥ 64) := by omega
  refine ⟨⟨p.value, q.value, t.isBuyerMaker⟩, ?_, ⟨by rw [hpv]; exact hv, by rw [hqv]; exact hw, rfl⟩⟩
  unfold textTick
  rw [hctext, binanceParseTrade_render h hlen, if_neg hshort, Option.bind_some, hp, Option.bind_some, hq]
  rfl

/-! ### Calls -/

/-- The frame does what it should: a trade makes the tick that carries it, and nothing else makes one. -/
def FrameRight (frame : Option WsFrame) : Prop :=
  (frameTick frame).elim (∀ t, ¬IsTrade frame t) fun tick => ∃ t, IsTrade frame t ∧ tick.Carries t

theorem frameRight_iff (frame : Option WsFrame) : FrameRight frame ↔ FrameFits frame := by
  unfold FrameRight
  constructor
  · rintro hright payload rfl
    rw [frameTick_text] at hright
    constructor
    · intro hparse
      rw [← textTick_isSome] at hparse
      obtain ⟨tick, hsome⟩ := Option.isSome_iff_exists.1 hparse
      rw [hsome] at hright
      obtain ⟨t, ⟨hwell, hframe⟩, -⟩ := hright
      exact ⟨t, hwell, congrArg WsFrame.payload (Option.some.inj hframe)⟩
    · rintro t hwell rfl
      by_contra hlong
      have hnone : textTick t.render = none := by
        obtain ⟨hctext, hlen⟩ := cText_render hwell
        unfold textTick
        rw [hctext, binanceParseTrade_render hwell hlen, if_pos (by omega)]
        rfl
      rw [hnone] at hright
      exact hright t ⟨hwell, rfl⟩
  · intro hfits
    cases htick : frameTick frame with
    | none =>
      rintro t ⟨hwell, rfl⟩
      obtain ⟨hprice, hqty⟩ := (hfits _ rfl).2 t hwell rfl
      obtain ⟨tick, hsome, -⟩ := textTick_render hwell hprice hqty
      rw [frameTick_text, hsome] at htick
      cases htick
    | some tick =>
      obtain ⟨⟨opcode, payload⟩, rfl, hif⟩ := Option.bind_eq_some_iff.1 htick
      dsimp only at hif
      split at hif
      · rename_i hone
        subst hone
        have hparse := textTick_isSome payload
        rw [hif] at hparse
        obtain ⟨t, hwell, rfl⟩ := (hfits payload rfl).1 hparse.symm
        obtain ⟨hprice, hqty⟩ := (hfits _ rfl).2 t hwell rfl
        obtain ⟨tick', hsome, hcarries⟩ := textTick_render hwell hprice hqty
        rw [hif] at hsome
        obtain rfl := Option.some.inj hsome
        exact ⟨t, ⟨hwell, rfl⟩, hcarries⟩
      · cases hif

variable {st : BinanceStream} {frames : List (Option WsFrame)}

theorem frameTick_other {frame : WsFrame} (h : frame.opcode ≠ 1) : frameTick (some frame) = none := if_neg h

/-- What the loop has done when it comes back: every frame but the last has made no tick, and the stream
    has gone on behind them. -/
structure LoopSpec (st : BinanceStream) (frames : List (Option WsFrame)) (c : TickCall) : Prop where
  split : frames = c.consumed ++ c.rest
  ticked : ∀ tick, c.tick = some tick → c.stream.connected = st.connected ∧
    (∀ frame ∈ c.consumed, goesOn frame = true) ∧
    ∃ skipped last, c.consumed = skipped ++ [last] ∧ (∀ frame ∈ skipped, frameTick frame = none) ∧
      frameTick last = some tick
  stopped : c.tick = none → (∀ frame ∈ c.consumed, frameTick frame = none) ∧
    frames.takeWhile goesOn = c.consumed.filter goesOn ∧ (c.stream.connected = false ∨ c.rest = [])

/-- A frame that makes no tick and does not stop the stream. -/
theorem LoopSpec.behind {c : TickCall} (h : LoopSpec st frames c) {frame : Option WsFrame}
    (htick : frameTick frame = none)
    (hon : goesOn frame = true) : LoopSpec st (frame :: frames) (c.behind frame) where
  split := congrArg (frame :: ·) h.split
  ticked tick hsome := by
    obtain ⟨hconn, hall, skipped, last, hconsumed, hskipped, hlast⟩ := h.ticked tick hsome
    refine ⟨hconn, fun other hother => ?_, frame :: skipped, last, congrArg (frame :: ·) hconsumed,
      fun other hother => ?_, hlast⟩
    · rcases List.mem_cons.1 hother with rfl | hmem
      · exact hon
      · exact hall other hmem
    · rcases List.mem_cons.1 hother with rfl | hmem
      · exact htick
      · exact hskipped other hmem
  stopped hnone := by
    obtain ⟨hall, htake, hend⟩ := h.stopped hnone
    refine ⟨fun other hother => ?_, ?_, hend⟩
    · rcases List.mem_cons.1 hother with rfl | hmem
      · exact htick
      · exact hall other hmem
    · have hfilter : (c.behind frame).consumed.filter goesOn = frame :: c.consumed.filter goesOn :=
        List.filter_cons_of_pos hon
      rw [List.takeWhile_cons_of_pos hon, htake, hfilter]

/-- A frame that stops the stream. -/
theorem loopSpec_stop {frame : Option WsFrame} (htick : frameTick frame = none) (hstop : goesOn frame = false) :
    LoopSpec st (frame :: frames) ⟨[frame], none, { st with connected := false }, frames⟩ where
  split := rfl
  ticked tick hsome := by cases hsome
  stopped _ := by
    have hnot : ¬goesOn frame = true := by rw [hstop]; exact Bool.false_ne_true
    refine ⟨fun other hother => ?_, ?_, Or.inl rfl⟩
    · rw [List.mem_singleton.1 hother]
      exact htick
    · rw [List.takeWhile_cons_of_neg hnot, List.filter_cons_of_neg hnot, List.filter_nil]

theorem loopSpec_readLoop (st : BinanceStream) (frames : List (Option WsFrame)) :
    LoopSpec st frames (readLoop st frames) := by
  induction frames with
  | nil =>
    refine ⟨rfl, ?_, fun _ => ⟨fun _ h => absurd h List.not_mem_nil, rfl, Or.inr rfl⟩⟩
    intro tick hsome
    cases hsome
  | cons frame frames ih =>
    cases frame with
    | none => exact loopSpec_stop rfl rfl
    | some frame =>
      have hon : frame.opcode ≠ 8 → goesOn (some frame) = true := fun h => decide_eq_true h
      unfold readLoop
      split
      · rename_i hping
        exact ih.behind (frameTick_other (by omega)) (hon (by omega))
      · split
        · rename_i hclose
          exact loopSpec_stop (frameTick_other (by omega)) (decide_eq_false (not_not.2 hclose))
        · rename_i hnotclose
          split
          · rename_i htext
            have htick : frameTick (some frame) = textTick frame.payload := if_pos htext
            split
            · rename_i hnone
              exact ih.behind (htick.trans hnone) (hon hnotclose)
            · rename_i tick hsome
              refine ⟨rfl, fun tick' hsome' => ?_, fun hnone => by cases hnone⟩
              obtain rfl := Option.some.inj hsome'
              refine ⟨rfl, fun other hother => ?_, [], some frame, rfl, fun _ h =>
                absurd h List.not_mem_nil, htick.trans hsome⟩
              rw [List.mem_singleton.1 hother]
              exact hon hnotclose
          · rename_i hother
            exact ih.behind (frameTick_other hother) (hon hnotclose)

/-- A frame behind which the stream stops is no text. -/
theorem frameFits_of_stop {frame : Option WsFrame} (h : goesOn frame = false) : FrameFits frame := by
  rintro payload rfl
  cases h

/-- A call is right exactly when all frames it has read fit. -/
theorem right_iff {c : TickCall} (h : LoopSpec st frames c) : c.Right ↔ ∀ frame ∈ c.consumed, FrameFits frame := by
  have hnone : ∀ frame, frameTick frame = none → (FrameFits frame ↔ ∀ t, ¬IsTrade frame t) := by
    intro frame htick
    rw [← frameRight_iff, FrameRight, htick]
    rfl
  unfold TickCall.Right
  cases htick : c.tick with
  | none =>
    obtain ⟨hall, -, -⟩ := h.stopped htick
    exact forall₂_congr fun frame hframe => (hnone frame (hall frame hframe)).symm
  | some tick =>
    obtain ⟨-, -, skipped, last, hconsumed, hskipped, hlast⟩ := h.ticked tick htick
    have hfits : FrameFits last ↔ ∃ t, IsTrade last t ∧ tick.Carries t := by
      rw [← frameRight_iff, FrameRight, hlast]
      rfl
    rw [hconsumed]
    constructor
    · rintro ⟨skipped', last', t, heq, hskip, htrade, hcarries⟩
      obtain ⟨rfl, hlasts⟩ := List.append_inj' heq rfl
      obtain rfl : last = last' := (List.cons.inj hlasts).1
      intro frame hframe
      rcases List.mem_append.1 hframe with hmem | hmem
      · exact (hnone frame (hskipped frame hmem)).2 (hskip frame hmem)
      · rw [List.mem_singleton.1 hmem]
        exact hfits.2 ⟨t, htrade, hcarries⟩
    · intro hall
      obtain ⟨t, htrade, hcarries⟩ := hfits.1 (hall last (List.mem_append_right _ (List.mem_singleton_self _)))
      exact ⟨skipped, last, t, rfl, fun frame hframe => (hnone frame (hskipped frame hframe)).1
        (hall frame (List.mem_append_left _ hframe)), htrade, hcarries⟩

/-- Calls that read nothing are right. -/
theorem tickCalls_idle (n : ℕ) (hidle : readTick st frames = ⟨[], none, st, frames⟩) :
    ∀ c ∈ tickCalls n st frames, c.Right := by
  induction n with
  | zero => exact fun _ h => absurd h List.not_mem_nil
  | succ n ih =>
    intro c hc
    rw [tickCalls, hidle] at hc
    rcases List.mem_cons.1 hc with rfl | hmem
    · exact fun _ h => absurd h List.not_mem_nil
    · exact ih c hmem

/-- A disconnected stream is not read, and neither is one without frames. -/
theorem readTick_idle (h : st.connected = false ∨ frames = []) : readTick st frames = ⟨[], none, st, frames⟩ := by
  unfold readTick
  split
  · rename_i hconn
    rcases h with hoff | rfl
    · rw [hoff] at hconn
      cases hconn
    · rfl
  · rfl

/-- The frames that some calls have read. -/
def framesRead (calls : List TickCall) : List (Option WsFrame) := calls.flatMap (·.consumed)

/-- No frame is read twice, and none is passed over. -/
theorem framesRead_front (n : ℕ) (st : BinanceStream) (frames : List (Option WsFrame)) :
    framesRead (tickCalls n st frames) <+: frames := by
  induction n generalizing st frames with
  | zero => exact List.nil_prefix
  | succ n ih =>
    have hsplit : frames = (readTick st frames).consumed ++ (readTick st frames).rest := by
      unfold readTick
      split
      · exact (loopSpec_readLoop st frames).split
      · rfl
    rw [tickCalls, framesRead, List.flatMap_cons]
    conv => rhs; rw [hsplit]
    exact (List.prefix_append_right_inj _).2 (ih _ _)

/-- With calls enough the stream is read to its end. -/
theorem live_framesRead {n : ℕ} (hn : frames.length < n) (tickCount : ℕ) :
    frames.takeWhile goesOn <+: framesRead (tickCalls n ⟨true, tickCount⟩ frames) := by
  refine List.prefix_of_prefix_length_le (List.takeWhile_prefix _) (framesRead_front n _ frames) ?_
  induction n generalizing frames tickCount with
  | zero => exact absurd hn (Nat.not_lt_zero _)
  | succ n ih =>
    have hspec : LoopSpec ⟨true, tickCount⟩ frames (readTick ⟨true, tickCount⟩ frames) := loopSpec_readLoop _ _
    rw [tickCalls, framesRead, List.flatMap_cons, List.length_append]
    cases htick : (readTick ⟨true, tickCount⟩ frames).tick with
    | none =>
      obtain ⟨-, htake, -⟩ := hspec.stopped htick
      rw [htake]
      exact (List.length_filter_le _ _).trans (Nat.le_add_right _ _)
    | some tick =>
      obtain ⟨hconn, hall, skipped, last, hconsumed, -, -⟩ := hspec.ticked tick htick
      have hlen := congrArg List.length hspec.split
      have hpos : 0 < (readTick ⟨true, tickCount⟩ frames).consumed.length := by
        rw [hconsumed, List.length_append]
        exact Nat.succ_pos _
      have hstream : (readTick ⟨true, tickCount⟩ frames).stream =
        ⟨true, (readTick ⟨true, tickCount⟩ frames).stream.tickCount⟩ :=
        congrArg (BinanceStream.mk · (readTick ⟨true, tickCount⟩ frames).stream.tickCount) hconn
      have htake : (frames.takeWhile goesOn).length = (readTick ⟨true, tickCount⟩ frames).consumed.length +
          ((readTick ⟨true, tickCount⟩ frames).rest.takeWhile goesOn).length := by
        conv => lhs; rw [hspec.split, List.takeWhile_append_of_pos hall, List.length_append]
      rw [List.length_append] at hlen
      rw [htake, hstream]
      exact Nat.add_le_add_left (ih (by omega) _) _

/-- Every call of every run is right exactly when every frame up to the end of the stream fits. -/
theorem tickCalls_right_iff (tickCount : ℕ) (frames : List (Option WsFrame)) :
    (∀ n, ∀ c ∈ tickCalls n ⟨true, tickCount⟩ frames, c.Right) ↔
      ∀ frame ∈ frames.takeWhile goesOn, FrameFits frame := by
  induction hlen : frames.length using Nat.strong_induction_on generalizing frames tickCount with
  | _ len ih =>
    obtain ⟨c, hc⟩ : ∃ c, c = readTick ⟨true, tickCount⟩ frames := ⟨_, rfl⟩
    have hspec : LoopSpec ⟨true, tickCount⟩ frames c := by
      rw [hc]
      exact loopSpec_readLoop _ _
    have hcalls : (∀ n, ∀ d ∈ tickCalls n ⟨true, tickCount⟩ frames, d.Right) ↔
        c.Right ∧ ∀ n, ∀ d ∈ tickCalls n c.stream c.rest, d.Right := by
      constructor
      · intro h
        refine ⟨h 1 c ?_, fun n d hd => h (n + 1) d ?_⟩
        · rw [tickCalls, ← hc]
          exact List.mem_cons_self
        · rw [tickCalls, ← hc]
          exact List.mem_cons_of_mem _ hd
      · rintro ⟨hfirst, hmore⟩ n d hd
        cases n with
        | zero => exact absurd hd List.not_mem_nil
        | succ n =>
          rw [tickCalls, ← hc] at hd
          rcases List.mem_cons.1 hd with rfl | hmem
          · exact hfirst
          · exact hmore n d hmem
    have hsplit := hspec.split
    rw [hcalls, right_iff hspec]
    cases htick : c.tick with
    | none =>
      obtain ⟨-, htake, hend⟩ := hspec.stopped htick
      have hrest : ∀ n, ∀ d ∈ tickCalls n c.stream c.rest, d.Right := fun n => tickCalls_idle n (readTick_idle hend)
      rw [and_iff_left hrest, htake]
      constructor
      · exact fun h frame hframe => h frame (List.mem_filter.1 hframe).1
      · intro h frame hframe
        by_cases hon : goesOn frame = true
        · exact h frame (List.mem_filter.2 ⟨hframe, hon⟩)
        · exact frameFits_of_stop (by simpa using hon)
    | some tick =>
      obtain ⟨hconn, hall, skipped, last, hconsumed, -, -⟩ := hspec.ticked tick htick
      have hshort : c.rest.length < len := by
        rw [← hlen, hsplit, List.length_append, hconsumed, List.length_append, List.length_singleton]
        omega
      have htake : frames.takeWhile goesOn = c.consumed ++ c.rest.takeWhile goesOn := by
        rw [hsplit, List.takeWhile_append_of_pos hall]
      have hstream : c.stream = ⟨true, c.stream.tickCount⟩ := congrArg (BinanceStream.mk · c.stream.tickCount) hconn
      rw [hstream, ih _ hshort _ _ rfl, htake]
      exact List.forall_mem_append.symm

/-- In every run each frame is read once and in order, and every call is right: exactly when every frame up
    to the end of the stream fits. -/
theorem readTick_run_iff (tickCount : ℕ) (frames : List (Option WsFrame)) :
    ((∀ n, framesRead (tickCalls n ⟨true, tickCount⟩ frames) <+: frames) ∧
      (∀ n, frames.length < n → frames.takeWhile goesOn <+: framesRead (tickCalls n ⟨true, tickCount⟩ frames)) ∧
        ∀ n, ∀ c ∈ tickCalls n ⟨true, tickCount⟩ frames, c.Right) ↔
    ∀ frame ∈ frames.takeWhile goesOn, FrameFits frame := by
  rw [← tickCalls_right_iff tickCount]
  constructor
  · rintro ⟨-, -, hright⟩
    exact hright
  · intro hright
    exact ⟨fun n => framesRead_front n _ frames, fun n hn => live_framesRead hn tickCount, hright⟩

theorem not_isVenueAmount_nil (v : ℤ) : ¬IsVenueAmount [] v := by
  rintro ⟨d, htext, -⟩
  have hlen := d.length_le
  rw [htext, List.length_nil, ← List.length_append] at hlen
  exact d.some_digit (List.length_eq_zero_iff.1 (Nat.le_zero.1 hlen))

/-- A trade whose price is empty. -/
def emptyPrice : TradeMessage :=
  { eventTime := 1, symbol := "BTCUSDT".toList, tradeId := 2, price := [], qty := "1.5".toList, tradeTime := 3
    isBuyerMaker := true, ignore := true }

/-- It makes a tick with the price zero. -/
theorem readTick_empty_price :
    (readTick ⟨true, 0⟩ [some ⟨1, emptyPrice.render⟩]).tick.map (·.price.v) = some 0 ∧
      ¬(readTick ⟨true, 0⟩ [some ⟨1, emptyPrice.render⟩]).Right := by
  have hzero : (readTick ⟨true, 0⟩ [some ⟨1, emptyPrice.render⟩]).tick.map (·.price.v) = some 0 := by decide +kernel
  have hparse : (binanceParseTrade emptyPrice.render 20).map (·.price) = some [] := by decide +kernel
  refine ⟨hzero, fun hright => ?_⟩
  have hspec := loopSpec_readLoop ⟨true, 0⟩ [some ⟨1, emptyPrice.render⟩]
  obtain ⟨tick, htick, -⟩ := Option.map_eq_some_iff.1 hzero
  obtain ⟨-, -, skipped, last, hconsumed, -, -⟩ := hspec.ticked tick htick
  have hlast : some ⟨1, emptyPrice.render⟩ = last := by
    have hsplit := hspec.split
    rw [hconsumed, List.append_assoc, List.singleton_append] at hsplit
    have hmem : last ∈ [some ⟨1, emptyPrice.render⟩] := by
      rw [hsplit]
      exact List.mem_append_right _ List.mem_cons_self
    exact (List.mem_singleton.1 hmem).symm
  have hfits := (right_iff hspec).1 hright last (by rw [hconsumed]; exact List.mem_append_right _ (List.mem_singleton_self _))
  rw [← hlast] at hfits
  have hsome : (binanceParseTrade (cText emptyPrice.render) emptyPrice.render.length).isSome = true := by
    decide +kernel
  obtain ⟨t, hwell, htext⟩ := (hfits _ rfl).1 hsome
  rw [htext, binanceParseTrade_render hwell le_rfl] at hparse
  split at hparse
  · cases hparse
  · obtain ⟨v, hv⟩ := hwell.price
    rw [Option.map_some, Option.some_inj] at hparse
    dsimp only at hparse
    rw [hparse] at hv
    exact not_isVenueAmount_nil v hv

end FoxTrader
