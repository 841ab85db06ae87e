import FoxTrader.DoubleText
import FoxTrader.Lib.Numeral
import FoxTrader.Lib.SignedWord
import FoxTrader.Lib.TagValue

/-! # Faux FIX messages

    `FIX_BuildMarketDataMsg` prints a snapshot as fields of tag and value, patches the length of the body
    into the second field and appends the checksum of all that precedes. `FIX_Parse` reads field after
    field, up to the first text that is none, and compares the checksum if it has met one. Doubles are
    exact rationals here.

    What is built is parsed back. A message with one byte changed before the checksum field is found
    invalid when its bytes are still a sequence of fields; otherwise the parser stops before it comes to the
    checksum, and takes the message for a valid one. -/

namespace FoxTrader

open Lib TagValue

/-- `FIX_SOH`. -/
def fixSoh : Char := '\x01'

/-- `FIX_MAX_MSG_LEN`. -/
def fixMaxMsgLen : ℕ := 512

/-- `FIX_MAX_SYMBOL_LEN`. -/
def fixMaxSymbolLen : ℕ := 8

def isFixDelim (c : Char) : Bool := c = fixSoh || c = '|'

structure FixParsedMessage where
  symbol : List Char
  msgType : Char
  entryType : ℕ
  seqNum : ℕ
  price : ℚ
  volume : ℚ
  checksum : ℕ
  valid : Bool

/-! ### Parsing -/

/-- The tag of some digits, in an `int`. -/
def fixTag (digits : List Char) : ℤ := digits.foldl (fun tag c => int32 (tag * 10 + (c.toNat - '0'.toNat : ℕ))) 0

/-- `FIX_ParseUint`. -/
def fixParseUint (s : List Char) : ℕ :=
  (s.takeWhile Char.isDigit).foldl (fun result c => (result * 10 + (c.toNat - '0'.toNat)) % 2 ^ 32) 0

/-- The variables of `FIX_ParseDouble`. -/
structure FixDouble where
  result : ℚ
  frac : ℚ
  fracDiv : ℚ
  inFrac : Bool

/-- The loop of `FIX_ParseDouble`. -/
def fixDoubleLoop (st : FixDouble) : List Char → FixDouble
  | [] => st
  | c :: s =>
    if c = '.' then fixDoubleLoop { st with inFrac := true } s
    else if !c.isDigit then st
    else if st.inFrac then
      fixDoubleLoop { st with
        fracDiv := st.fracDiv * 10, frac := st.frac + (c.toNat - '0'.toNat : ℕ) / (st.fracDiv * 10) } s
    else fixDoubleLoop { st with result := st.result * 10 + (c.toNat - '0'.toNat : ℕ) } s

/-- `FIX_ParseDouble`. -/
def fixParseDouble (s : List Char) : ℚ :=
  let neg := decide (s.head? = some '-')
  let st := fixDoubleLoop ⟨0, 0, 1, false⟩ (if neg then s.tail else s)
  if neg then -(st.result + st.frac) else st.result + st.frac

/-- Whether the checksum field begins two bytes before this one. -/
def checksumAt (msg : List Char) (i : ℕ) : Bool :=
  msg[i]? = some '=' && msg[i - 1]? = some '0' && msg[i - 2]? = some '1' &&
    (i = 2 || (msg[i - 3]?.map isFixDelim).getD false)

/-- The search for it, backwards from before `i`. -/
def findChecksum (msg : List Char) : ℕ → Option ℕ
  | 0 => none
  | i + 1 => if 2 ≤ i ∧ checksumAt msg i then some (i - 2) else findChecksum msg i

/-- The bytes added up, in a byte. -/
def byteSum (bytes : List Char) : ℕ := (bytes.map Char.toNat).sum % 256

/-- `FIX_ComputeChecksum`. -/
def fixComputeChecksum (msg : List Char) : ℕ := byteSum (msg.take ((findChecksum msg msg.length).getD msg.length))

/-- The message being parsed, and whether a checksum was met. -/
structure FixParsing where
  parsed : FixParsedMessage
  hasChecksum : Bool

def fixParsingInit : FixParsing where
  parsed := { symbol := [], msgType := '\x00', entryType := 0, seqNum := 0, price := 0, volume := 0, checksum := 0, valid := true }
  hasChecksum := false

/-- The `switch` of `FIX_Parse`. -/
def fixStore (p : FixParsing) (f : List Char × List Char) : FixParsing :=
  if fixTag f.1 = 35 then { p with parsed := { p.parsed with msgType := f.2.head?.getD p.parsed.msgType } }
  else if fixTag f.1 = 34 then { p with parsed := { p.parsed with seqNum := fixParseUint f.2 } }
  else if fixTag f.1 = 55 then { p with parsed := { p.parsed with symbol := f.2.take (fixMaxSymbolLen - 1) } }
  else if fixTag f.1 = 269 then { p with parsed := { p.parsed with entryType := fixParseUint f.2 % 256 } }
  else if fixTag f.1 = 270 then { p with parsed := { p.parsed with price := fixParseDouble f.2 } }
  else if fixTag f.1 = 271 then { p with parsed := { p.parsed with volume := fixParseDouble f.2 } }
  else if fixTag f.1 = 10 then
    { parsed := { p.parsed with checksum := fixParseUint f.2 % 256 }, hasChecksum := true }
  else p

/-- `FIX_Parse`. -/
def fixParse (msg : List Char) : FixParsedMessage :=
  let p := (fields isFixDelim msg).foldl fixStore fixParsingInit
  if p.hasChecksum && fixComputeChecksum msg != p.parsed.checksum then { p.parsed with valid := false } else p.parsed

/-! ### Building -/

/-- The arguments of `FIX_BuildMarketDataMsg`. -/
structure MarketData where
  seqNum : ℕ
  symbol : List Char
  entryType : ℕ
  price : ℚ
  volume : ℚ

/-- `FIX_APPEND`, as long as there is room. -/
def fixAppend (body s : List Char) : List Char := body ++ s.take (fixMaxMsgLen - 1 - body.length)

/-- `FIX_TAG_STR`. -/
def fixTagStr (body tag val : List Char) : List Char := fixAppend (fixAppend body (tag ++ ['='])) val ++ [fixSoh]

/-- The price with four digits behind the point. -/
def fixPrice (price : ℚ) : List Char :=
  let ap := if price < 0 then -price else price
  let int : ℕ := ⌊ap⌋.toNat % 2 ^ 64
  let frac : ℕ := ⌊(ap - int) * 10000 + 1 / 2⌋.toNat % 2 ^ 64
  (if price < 0 then ['-'] else []) ++
    (Nat.toDigits 10 (if frac ≥ 10000 then (int + 1) % 2 ^ 64 else int) ++
      '.' :: fixedDigits 4 (if frac ≥ 10000 then frac - 10000 else frac))

/-- Everything before the checksum, with the length still open. -/
def fixOpenBody (d : MarketData) : List Char :=
  let body := fixTagStr [] "8".toList "FIX.4.4".toList
  let body := fixAppend body "9=000".toList ++ [fixSoh]
  let body := fixTagStr body "35".toList "W".toList
  let body := fixAppend body "34=".toList ++ Nat.toDigits 10 d.seqNum ++ [fixSoh]
  let body := fixAppend (fixAppend body "55=".toList) d.symbol ++ [fixSoh]
  let body := fixTagStr body "268".toList "1".toList
  let body := fixAppend body "269=".toList ++ [Char.ofNat ('0'.toNat + d.entryType), fixSoh]
  let body := fixAppend body "270=".toList ++ fixPrice d.price ++ [fixSoh]
  fixAppend body "271=".toList ++ Nat.toDigits 10 (⌊d.volume⌋.toNat % 2 ^ 64) ++ [fixSoh]

/-- `body_len_pos` and `body_start`. -/
def fixBodyLenPos : ℕ := (fixTagStr [] "8".toList "FIX.4.4".toList).length

def fixBodyStart : ℕ := (fixAppend (fixTagStr [] "8".toList "FIX.4.4".toList) "9=000".toList ++ [fixSoh]).length

/-- The last three digits. -/
def threeDigits (n : ℕ) : List Char :=
  [Nat.digitChar (n / 100 % 10), Nat.digitChar (n / 10 % 10), Nat.digitChar (n % 10)]

/-- `FIX_BuildMarketDataMsg` into a buffer of `bufSize` bytes. -/
def fixBuildMarketDataMsg (bufSize : ℕ) (d : MarketData) : List Char :=
  let body := fixOpenBody d
  let len := threeDigits (body.length - fixBodyStart)
  let body := body.take (fixBodyLenPos + 2) ++ len ++ body.drop (fixBodyLenPos + 5)
  let msg := fixAppend body "10=".toList ++ threeDigits (byteSum body) ++ [fixSoh]
  msg.take (if msg.length < bufSize - 1 then msg.length else bufSize - 1)

/-! ### What is built -/

/-- A symbol whose bytes stay in one field, a price of four digits behind the point, a whole volume. -/
structure MarketData.Printable (d : MarketData) : Prop where
  seqNum : d.seqNum < 2 ^ 32
  symbol_length : d.symbol.length ≤ 7
  symbol : ∀ c ∈ d.symbol, isFixDelim c = false ∧ c ≠ '\x00' ∧ c.toNat < 256
  entryType : d.entryType ≤ 9
  price : ∃ m : ℤ, d.price = m / 10000
  volume : ∃ n : ℕ, d.volume = n ∧ n < 2 ^ 63

/-- The fields behind the length. -/
def fixPairs (d : MarketData) : List (List Char × List Char) :=
  [("35".toList, "W".toList), ("34".toList, Nat.toDigits 10 d.seqNum), ("55".toList, d.symbol), ("268".toList, "1".toList),
    ("269".toList, [Char.ofNat ('0'.toNat + d.entryType)]), ("270".toList, fixPrice d.price),
    ("271".toList, Nat.toDigits 10 (⌊d.volume⌋.toNat % 2 ^ 64))]

/-- Fields as they are printed. -/
def fixText (pairs : List (List Char × List Char)) : List Char := pairs.flatMap fun p => p.1 ++ '=' :: (p.2 ++ [fixSoh])

/-- The fields before the checksum. -/
def fixAllPairs (d : MarketData) : List (List Char × List Char) :=
  ("8".toList, "FIX.4.4".toList) :: ("9".toList, threeDigits (fixText (fixPairs d)).length) :: fixPairs d

variable {d : MarketData} {bufSize : ℕ}

theorem fixAppend_eq {body s : List Char} (h : body.length + s.length ≤ 511) : fixAppend body s = body ++ s := by
  rw [fixAppend, List.take_of_length_le]
  unfold fixMaxMsgLen
  omega

/-- A price on the grid is printed exactly. -/
theorem fixPrice_eq {m : ℤ} (hm : m.natAbs < 2 ^ 64 * 10000) : fixPrice (m / 10000) =
    (if m < 0 then ['-'] else []) ++ (Nat.toDigits 10 (m.natAbs / 10000) ++ '.' :: fixedDigits 4 (m.natAbs % 10000)) := by
  have hsign : (m : ℚ) / 10000 < 0 ↔ m < 0 := by
    rw [div_lt_iff₀ (by norm_num), zero_mul]
    exact_mod_cast Iff.rfl
  have habs : (if (m : ℚ) / 10000 < 0 then -((m : ℚ) / 10000) else m / 10000) = (m.natAbs : ℚ) / 10000 := by
    simp only [hsign]
    split
    · rename_i hneg
      rw [← neg_div, Nat.cast_natAbs, abs_of_neg hneg]
      push_cast
      ring
    · rename_i hpos
      rw [Nat.cast_natAbs, abs_of_nonneg (not_lt.1 hpos)]
  have hint : ⌊(m.natAbs : ℚ) / 10000⌋.toNat % 2 ^ 64 = m.natAbs / 10000 := by
    have hfloor : ⌊(m.natAbs : ℚ) / (10000 : ℕ)⌋ = (m.natAbs / 10000 : ℕ) := Rat.floor_natCast_div_natCast _ _
    rw [Nat.cast_ofNat] at hfloor
    rw [hfloor, Int.toNat_natCast, Nat.mod_eq_of_lt]
    omega
  have hfrac : ⌊((m.natAbs : ℚ) / 10000 - (m.natAbs / 10000 : ℕ)) * 10000 + 1 / 2⌋.toNat % 2 ^ 64 =
    m.natAbs % 10000 := by
    have hsplit : (m.natAbs : ℚ) = 10000 * (m.natAbs / 10000 : ℕ) + (m.natAbs % 10000 : ℕ) := by
      exact_mod_cast (Nat.div_add_mod m.natAbs 10000).symm
    have hvalue : ((m.natAbs : ℚ) / 10000 - (m.natAbs / 10000 : ℕ)) * 10000 + 1 / 2 =
      1 / 2 + (m.natAbs % 10000 : ℕ) := by
      rw [hsplit]
      ring
    have hhalf : ⌊(1 : ℚ) / 2⌋ = 0 := by norm_num
    rw [hvalue, Int.floor_add_natCast, hhalf, zero_add, Int.toNat_natCast, Nat.mod_eq_of_lt]
    omega
  unfold fixPrice
  dsimp only
  have hlt : ¬m.natAbs % 10000 ≥ 10000 := by omega
  rw [habs, hint, hfrac, if_neg hlt, if_neg hlt]
  simp only [hsign]

theorem toDigits_digits (n : ℕ) : ∀ c ∈ Nat.toDigits 10 n, c.isDigit = true := fun _ hc =>
  Nat.isDigit_of_mem_toDigits (by decide) (by decide) hc

theorem toDigits_length {n b : ℕ} (hb : 0 < b) (h : n < 10 ^ b) : (Nat.toDigits 10 n).length ≤ b :=
  (Nat.length_toDigits_le_iff (by decide) hb).2 h

/-- Whatever the price, its integer part is a word and four digits follow the point. -/
theorem fixPrice_parts (price : ℚ) : ∃ int < 2 ^ 64, ∃ frac, fixPrice price =
    (if price < 0 then ['-'] else []) ++ (Nat.toDigits 10 int ++ '.' :: fixedDigits 4 frac) := by
  have hpos : 0 < 2 ^ 64 := by decide
  refine ⟨_, ?_, _, rfl⟩
  split_ifs <;> exact Nat.mod_lt _ hpos

theorem fixPrice_length (price : ℚ) : (fixPrice price).length ≤ 26 := by
  obtain ⟨int, hlt, frac, hparts⟩ := fixPrice_parts price
  have hint : (Nat.toDigits 10 int).length ≤ 20 := toDigits_length (by decide) (hlt.trans (by decide))
  have hsign : (if price < 0 then ['-'] else []).length ≤ 1 := by split <;> decide
  rw [hparts, List.length_append, List.length_append, List.length_cons, fixedDigits_length]
  omega

/-- Nothing is cut: the body is its fields, with zeros for the length. -/
theorem fixOpenBody_eq (h : d.Printable) :
    fixOpenBody d = fixText (("8".toList, "FIX.4.4".toList) :: ("9".toList, "000".toList) :: fixPairs d) := by
  have hseq : (Nat.toDigits 10 d.seqNum).length ≤ 10 := toDigits_length (by decide) (h.seqNum.trans (by decide))
  have hsymbol := h.symbol_length
  have hprice := fixPrice_length d.price
  unfold fixOpenBody fixTagStr fixText fixPairs
  simp (disch := (simp <;> omega)) only [fixAppend_eq]
  simp

theorem fixText_length (h : d.Printable) : (fixText (fixPairs d)).length ≤ 120 := by
  have hseq : (Nat.toDigits 10 d.seqNum).length ≤ 10 := toDigits_length (by decide) (h.seqNum.trans (by decide))
  have hsymbol := h.symbol_length
  have hprice := fixPrice_length d.price
  have hvolume : (Nat.toDigits 10 (⌊d.volume⌋.toNat % 2 ^ 64)).length ≤ 20 :=
    toDigits_length (by decide) ((Nat.mod_lt _ (by decide)).trans (by decide))
  unfold fixText fixPairs
  simp only [List.flatMap_cons, List.flatMap_nil, List.length_append, List.length_cons, List.length_nil]
  have hlens : ("35".toList.length = 2) ∧ ("W".toList.length = 1) ∧ ("34".toList.length = 2) ∧ ("55".toList.length = 2) ∧
      ("268".toList.length = 3) ∧ ("1".toList.length = 1) ∧ ("269".toList.length = 3) ∧ ("270".toList.length = 3) ∧
      ("271".toList.length = 3) := by decide
  omega

/-- The checksum field of some bytes. -/
def checksumField (bytes : List Char) : List Char := "10=".toList ++ threeDigits (byteSum bytes) ++ [fixSoh]

/-- The message is its fields, the length patched in, and the checksum of them. -/
theorem fixBuild_eq (h : d.Printable) (hbuf : fixMaxMsgLen ≤ bufSize) :
    fixBuildMarketDataMsg bufSize d = fixText (fixAllPairs d) ++ checksumField (fixText (fixAllPairs d)) := by
  have hlen := fixText_length h
  have hsplit : ∀ digits : List Char, fixText (("8".toList, "FIX.4.4".toList) :: ("9".toList, digits) :: fixPairs d) =
      "8=FIX.4.4".toList ++ fixSoh :: ("9=".toList ++ (digits ++ fixSoh :: fixText (fixPairs d))) := by
    intro digits
    unfold fixText
    simp
  have hstart : (fixOpenBody d).length - fixBodyStart = (fixText (fixPairs d)).length := by
    rw [fixOpenBody_eq h, hsplit]
    have hconst : fixBodyStart = 16 := by decide
    rw [hconst]
    simp
  have hbody : (fixOpenBody d).take (fixBodyLenPos + 2) ++ threeDigits ((fixOpenBody d).length - fixBodyStart) ++
      (fixOpenBody d).drop (fixBodyLenPos + 5) = fixText (fixAllPairs d) := by
    have hconst : fixBodyLenPos = 10 := by decide
    rw [hstart, fixOpenBody_eq h, fixAllPairs, hsplit, hsplit, hconst]
    simp
  have htotal : (fixText (fixAllPairs d)).length ≤ 140 := by
    rw [fixAllPairs, hsplit]
    simp [threeDigits]
    omega
  unfold fixBuildMarketDataMsg
  dsimp only
  have hten : "10=".toList.length = 3 := by decide
  rw [hbody, fixAppend_eq (by omega), List.append_assoc, List.append_assoc, checksumField, List.append_assoc,
    List.take_of_length_le]
  have hthree : (threeDigits (byteSum (fixText (fixAllPairs d)))).length = 3 := rfl
  unfold fixMaxMsgLen at hbuf
  rw [if_pos]
  simp only [List.length_append, List.length_singleton, hthree, hten]
  omega

/-! ### What is parsed -/

theorem soh_delim : isFixDelim fixSoh = true := by decide

theorem isFixDelim_apart : Apart isFixDelim := by
  intro c hc
  rcases Bool.or_eq_true_iff.1 hc with h | h
  · obtain rfl : c = fixSoh := of_decide_eq_true h
    exact ⟨rfl, by decide⟩
  · obtain rfl : c = '|' := of_decide_eq_true h
    exact ⟨rfl, by decide⟩

theorem clean_of_digit {c : Char} (h : c.isDigit = true) : isFixDelim c = false := by
  by_contra hdelim
  have hdigit := (isFixDelim_apart c (by simpa using hdelim)).1
  rw [h] at hdigit
  cases hdigit

theorem threeDigits_eq (n : ℕ) : threeDigits n = fixedDigits 3 n := by
  have hten : n / 10 / 10 = n / 100 := by omega
  rw [threeDigits, fixedDigits, fixedDigits, fixedDigits, fixedDigits, hten]
  rfl

theorem entryChar_digit : ∀ n ≤ 9, (Char.ofNat ('0'.toNat + n)).isDigit = true ∧ digitsNat [Char.ofNat ('0'.toNat + n)] = n := by
  decide

/-- The constants of the format, and the signs of a price. -/
def formatChars : List Char := "FIXW.-".toList

theorem fixPrice_char (price : ℚ) : ∀ c ∈ fixPrice price, c ∈ formatChars ∨ c.isDigit = true := by
  obtain ⟨int, -, frac, hparts⟩ := fixPrice_parts price
  intro c hc
  rw [hparts] at hc
  rcases List.mem_append.1 hc with hsign | hc
  · split at hsign
    · rw [List.mem_singleton.1 hsign]
      exact Or.inl (by decide)
    · exact absurd hsign List.not_mem_nil
  · rcases List.mem_append.1 hc with hint | hc
    · exact Or.inr (toDigits_digits _ c hint)
    · rcases List.mem_cons.1 hc with rfl | hfrac
      · exact Or.inl (by decide)
      · exact Or.inr (fixedDigits_digits _ _ c hfrac)

/-- Outside the symbol the values are digits and constants. -/
theorem value_char (h : d.Printable) :
    ∀ p ∈ fixAllPairs d, ∀ c ∈ p.2, c ∈ d.symbol ∨ c ∈ formatChars ∨ c.isDigit = true := by
  have hconst : ∀ s : List Char, (s.all fun c => formatChars.contains c || c.isDigit) = true →
      ∀ c ∈ s, c ∈ d.symbol ∨ c ∈ formatChars ∨ c.isDigit = true := fun s hs c hc =>
    Or.inr (by simpa using List.all_eq_true.1 hs c hc)
  intro p hp c hc
  simp only [fixAllPairs, fixPairs, List.mem_cons, List.not_mem_nil, or_false] at hp
  rcases hp with rfl | rfl | rfl | rfl | rfl | rfl | rfl | rfl | rfl
  · exact hconst _ (by decide) c hc
  · dsimp only at hc
    rw [threeDigits_eq] at hc
    exact Or.inr (Or.inr (fixedDigits_digits _ _ c hc))
  · exact hconst _ (by decide) c hc
  · exact Or.inr (Or.inr (toDigits_digits _ c hc))
  · exact Or.inl hc
  · exact hconst _ (by decide) c hc
  · rw [List.mem_singleton.1 hc]
    exact Or.inr (Or.inr (entryChar_digit _ h.entryType).1)
  · exact Or.inr (fixPrice_char _ c hc)
  · exact Or.inr (Or.inr (toDigits_digits _ c hc))

theorem tag_digits : ∀ p ∈ fixAllPairs d, ∀ c ∈ p.1, c.isDigit = true := by
  have htags : ((fixAllPairs d).all fun p => p.1.all Char.isDigit) = true := rfl
  intro p hp
  exact List.all_eq_true.1 (List.all_eq_true.1 htags p hp)

theorem fixAllPairs_isPair (h : d.Printable) : ∀ p ∈ fixAllPairs d, IsPair isFixDelim p := by
  have hformat : (formatChars.all fun c => !isFixDelim c) = true := by decide
  intro p hp
  refine ⟨tag_digits p hp, fun c hc => ?_⟩
  rcases value_char h p hp c hc with hsymbol | hconst | hdigit
  · exact (h.symbol c hsymbol).1
  · simpa using List.all_eq_true.1 hformat c hconst
  · exact clean_of_digit hdigit

theorem toNat_of_digit {c : Char} (h : c.isDigit = true) : c.toNat < 256 := by
  have hle : c.val ≤ 57 := (Bool.and_eq_true_iff.1 h).2 |> of_decide_eq_true
  have hnat : c.toNat ≤ 57 := hle
  omega

/-- Every character of the fields is a byte. -/
theorem fixText_byte (h : d.Printable) : ∀ c ∈ fixText (fixAllPairs d), c.toNat < 256 := by
  have hformat : (formatChars.all fun c => decide (c.toNat < 256)) = true := by decide
  intro c hc
  obtain ⟨p, hp, hc⟩ := List.mem_flatMap.1 hc
  rcases List.mem_append.1 hc with htag | hc
  · exact toNat_of_digit (tag_digits p hp c htag)
  · rcases List.mem_cons.1 hc with rfl | hc
    · decide
    · rcases List.mem_append.1 hc with hvalue | hsoh
      · rcases value_char h p hp c hvalue with hsymbol | hconst | hdigit
        · exact (h.symbol c hsymbol).2.2
        · exact of_decide_eq_true (List.all_eq_true.1 hformat c hconst)
        · exact toNat_of_digit hdigit
      · rw [List.mem_singleton.1 hsoh]
        decide

/-! ### Numbers -/

theorem fixParseUint_digits {s : List Char} (h : ∀ c ∈ s, c.isDigit = true) :
    fixParseUint s = digitsNat s % 2 ^ 32 := by
  have hall := (takeWhile_isDigit_self h).1
  rw [fixParseUint, hall]
  induction s using List.reverseRecOn with
  | nil => rfl
  | append_singleton s c ih =>
    have hs : ∀ c ∈ s, c.isDigit = true := fun d hd => h d (List.mem_append_left _ hd)
    rw [List.foldl_append, List.foldl_cons, List.foldl_nil, ih hs (takeWhile_isDigit_self hs).1, digitsNat_concat]
    rw [Nat.add_mod, Nat.mul_mod, Nat.mod_mod, ← Nat.mul_mod, ← Nat.add_mod]

theorem fixParseUint_toDigits {n : ℕ} (h : n < 2 ^ 32) : fixParseUint (Nat.toDigits 10 n) = n := by
  have hvalue : digitsNat (Nat.toDigits 10 n) = n := Nat.ofDigitChars_ten_toDigits
  rw [fixParseUint_digits (toDigits_digits n), hvalue, Nat.mod_eq_of_lt h]

theorem digitsNat_cons (c : Char) (s : List Char) :
    digitsNat (c :: s) = (c.toNat - '0'.toNat) * 10 ^ s.length + digitsNat s := by
  have hone : digitsNat [c] = c.toNat - '0'.toNat := by
    have h := digitsNat_concat [] c
    rw [List.nil_append] at h
    rw [h]
    exact Nat.zero_add _
  rw [← List.singleton_append, digitsNat_append, hone]

theorem not_dot_of_digit {c : Char} (h : c.isDigit = true) : c ≠ '.' := by
  rintro rfl
  exact absurd h (by decide)

/-- Before the point the digits are one number. -/
theorem fixDoubleLoop_int {s rest : List Char} (hs : ∀ c ∈ s, c.isDigit = true) (result frac fracDiv : ℚ) :
    fixDoubleLoop ⟨result, frac, fracDiv, false⟩ (s ++ rest) =
      fixDoubleLoop ⟨result * 10 ^ s.length + digitsNat s, frac, fracDiv, false⟩ rest := by
  induction s generalizing result with
  | nil =>
    have hzero : digitsNat [] = 0 := rfl
    rw [List.nil_append, List.length_nil, pow_zero, mul_one, hzero, Nat.cast_zero, add_zero]
  | cons c s ih =>
    have hc := hs c List.mem_cons_self
    rw [List.cons_append, fixDoubleLoop, if_neg (not_dot_of_digit hc), if_neg (by rw [hc]; decide),
      if_neg Bool.false_ne_true]
    dsimp only
    rw [ih fun d hd => hs d (List.mem_cons_of_mem _ hd), digitsNat_cons, List.length_cons]
    push_cast
    congr 2
    ring

/-- Behind the point each digit is worth a tenth of the one before. -/
theorem fixDoubleLoop_frac {s : List Char} (hs : ∀ c ∈ s, c.isDigit = true) (result frac : ℚ) {fracDiv : ℚ}
    (hdiv : fracDiv ≠ 0) :
    fixDoubleLoop ⟨result, frac, fracDiv, true⟩ s =
      ⟨result, frac + digitsNat s / (fracDiv * 10 ^ s.length), fracDiv * 10 ^ s.length, true⟩ := by
  induction s generalizing frac fracDiv with
  | nil =>
    have hzero : digitsNat [] = 0 := rfl
    rw [fixDoubleLoop, List.length_nil, pow_zero, mul_one, hzero, Nat.cast_zero, zero_div, add_zero]
  | cons c s ih =>
    have hc := hs c List.mem_cons_self
    have hpow : (10 : ℚ) ^ s.length ≠ 0 := pow_ne_zero _ (by norm_num)
    rw [fixDoubleLoop, if_neg (not_dot_of_digit hc), if_neg (by rw [hc]; decide), if_pos rfl]
    dsimp only
    rw [ih (fun d hd => hs d (List.mem_cons_of_mem _ hd)) _ (mul_ne_zero hdiv (by norm_num)), digitsNat_cons,
      List.length_cons]
    congr 1
    · push_cast
      field_simp
      ring
    · ring

/-- Unsigned digits, or digits around a point. -/
theorem fixParseDouble_digits {int : List Char} (hint : ∀ c ∈ int, c.isDigit = true) :
    fixParseDouble int = digitsNat int := by
  have hhead : int.head? ≠ some '-' := head?_ne_of_digits rfl hint
  have hloop := @fixDoubleLoop_int _ [] hint 0 0 1
  rw [List.append_nil] at hloop
  unfold fixParseDouble
  rw [decide_eq_false hhead]
  dsimp only
  rw [if_neg Bool.false_ne_true, if_neg Bool.false_ne_true, hloop, fixDoubleLoop]
  dsimp only
  rw [zero_mul, zero_add, add_zero]

theorem fixParseDouble_decimal (neg : Bool) {int frac : List Char} (hint : ∀ c ∈ int, c.isDigit = true)
    (hfrac : ∀ c ∈ frac, c.isDigit = true) (hne : int ≠ []) :
    fixParseDouble ((if neg then ['-'] else []) ++ (int ++ '.' :: frac)) =
      (if neg then -1 else 1) * (digitsNat int + digitsNat frac / 10 ^ frac.length) := by
  have hhead : (int ++ '.' :: frac).head? ≠ some '-' := by
    obtain ⟨c, int, rfl⟩ := List.exists_cons_of_ne_nil hne
    intro h
    rw [Option.some.inj h] at hint
    exact absurd (hint '-' List.mem_cons_self) (by decide)
  have hloop : fixDoubleLoop ⟨0, 0, 1, false⟩ (int ++ '.' :: frac) =
      ⟨digitsNat int, digitsNat frac / 10 ^ frac.length, 10 ^ frac.length, true⟩ := by
    rw [fixDoubleLoop_int hint, fixDoubleLoop, if_pos rfl]
    dsimp only
    rw [fixDoubleLoop_frac hfrac _ _ one_ne_zero, one_mul, zero_mul, zero_add, zero_add]
  unfold fixParseDouble
  cases neg with
  | true =>
    have hminus : (['-'] ++ (int ++ '.' :: frac)).head? = some '-' := rfl
    rw [if_pos rfl, decide_eq_true hminus]
    dsimp only
    rw [if_pos rfl, if_pos rfl, List.singleton_append, List.tail_cons, hloop, if_pos rfl, neg_one_mul]
  | false =>
    rw [if_neg Bool.false_ne_true, List.nil_append, decide_eq_false hhead]
    dsimp only
    rw [if_neg Bool.false_ne_true, if_neg Bool.false_ne_true, hloop, if_neg Bool.false_ne_true, one_mul]

/-- A price within the integer part's word comes back. -/
theorem fixParseDouble_price {m : ℤ} (hm : m.natAbs < 2 ^ 64 * 10000) :
    fixParseDouble (fixPrice (m / 10000)) = m / 10000 := by
  have hint : digitsNat (Nat.toDigits 10 (m.natAbs / 10000)) = m.natAbs / 10000 := Nat.ofDigitChars_ten_toDigits
  have hfrac : digitsNat (fixedDigits 4 (m.natAbs % 10000)) = m.natAbs % 10000 :=
    digitsNat_fixedDigits (Nat.mod_lt _ (by decide))
  have hdec := fixParseDouble_decimal (decide (m < 0)) (toDigits_digits (m.natAbs / 10000))
    (fixedDigits_digits 4 (m.natAbs % 10000)) Nat.toDigits_ne_nil
  simp only [decide_eq_true_eq] at hdec
  rw [fixPrice_eq hm, hdec, hint, hfrac, fixedDigits_length]
  have hsplit : (m.natAbs : ℚ) = 10000 * (m.natAbs / 10000 : ℕ) + (m.natAbs % 10000 : ℕ) := by
    exact_mod_cast (Nat.div_add_mod m.natAbs 10000).symm
  have hvalue : ((m.natAbs / 10000 : ℕ) : ℚ) + (m.natAbs % 10000 : ℕ) / 10 ^ 4 = m.natAbs / 10000 := by
    rw [hsplit]
    ring
  rw [hvalue, Nat.cast_natAbs]
  split
  · rename_i hneg
    rw [abs_of_neg hneg]
    push_cast
    ring
  · rename_i hpos
    rw [abs_of_nonneg (not_lt.1 hpos), one_mul]

/-- Whatever the price, what comes back is below `2 ^ 64`. -/
theorem abs_fixParseDouble_lt (price : ℚ) : |fixParseDouble (fixPrice price)| < 2 ^ 64 := by
  obtain ⟨int, hlt, frac, hparts⟩ := fixPrice_parts price
  have hint : digitsNat (Nat.toDigits 10 int) = int := Nat.ofDigitChars_ten_toDigits
  have hdec := fixParseDouble_decimal (decide (price < 0)) (toDigits_digits int) (fixedDigits_digits 4 frac)
    Nat.toDigits_ne_nil
  simp only [decide_eq_true_eq] at hdec
  have hfrac : (digitsNat (fixedDigits 4 frac) : ℚ) / 10 ^ 4 < 1 := by
    have hdigits := digitsNat_lt (fixedDigits_digits 4 frac)
    rw [fixedDigits_length] at hdigits
    rw [div_lt_one (by norm_num)]
    exact_mod_cast hdigits
  have hsum : (0 : ℚ) ≤ int + digitsNat (fixedDigits 4 frac) / 10 ^ 4 := by positivity
  have hword : (int : ℚ) + 1 ≤ 2 ^ 64 := by exact_mod_cast hlt
  rw [hparts, hdec, hint, fixedDigits_length, abs_mul, abs_of_nonneg hsum]
  have hsign : |(if price < 0 then -1 else 1 : ℚ)| = 1 := by split <;> norm_num
  rw [hsign, one_mul]
  linarith

/-- The price comes back exactly when the conversion to the word of its integer part keeps it. -/
theorem fixParseDouble_price_iff (h : d.Printable) :
    fixParseDouble (fixPrice d.price) = d.price ↔ |d.price| < 2 ^ 64 := by
  obtain ⟨m, hprice⟩ := h.price
  constructor
  · intro heq
    rw [← heq]
    exact abs_fixParseDouble_lt _
  · intro hlt
    rw [hprice, abs_div, abs_of_pos (by norm_num : (0 : ℚ) < 10000), div_lt_iff₀ (by norm_num), ← Int.cast_abs,
      Int.abs_eq_natAbs] at hlt
    rw [hprice]
    exact fixParseDouble_price (by exact_mod_cast hlt)

theorem fixParseDouble_volume (h : d.Printable) :
    fixParseDouble (Nat.toDigits 10 (⌊d.volume⌋.toNat % 2 ^ 64)) = d.volume := by
  obtain ⟨n, hvolume, hn⟩ := h.volume
  have hvalue : digitsNat (Nat.toDigits 10 n) = n := Nat.ofDigitChars_ten_toDigits
  rw [hvolume, Int.floor_natCast, Int.toNat_natCast, Nat.mod_eq_of_lt (hn.trans (by decide)),
    fixParseDouble_digits (toDigits_digits n), hvalue]

/-! ### The checksum -/

theorem findChecksum_step {msg : List Char} {i : ℕ} (h : msg[i]? ≠ some '=') : findChecksum msg (i + 1) = findChecksum msg i := by
  have hno : checksumAt msg i = false := by
    unfold checksumAt
    rw [decide_eq_false h]
    rfl
  rw [findChecksum, hno, if_neg]
  rintro ⟨-, hfalse⟩
  cases hfalse

/-- Behind a delimiter the search comes upon the checksum field first. -/
theorem fixComputeChecksum_append {front : List Char} {c : Char} (hc : isFixDelim c = true) (bytes : List Char) :
    fixComputeChecksum (front ++ [c] ++ checksumField bytes) = byteSum (front ++ [c]) := by
  obtain ⟨a, b, e, hdigits, hsum⟩ : ∃ a b e : Char, (a.isDigit = true ∧ b.isDigit = true ∧ e.isDigit = true) ∧
      threeDigits (byteSum bytes) = [a, b, e] :=
    ⟨_, _, _, ⟨(digitChar_digit _ (Nat.mod_lt _ (by decide))).1, (digitChar_digit _ (Nat.mod_lt _ (by decide))).1,
      (digitChar_digit _ (Nat.mod_lt _ (by decide))).1⟩, rfl⟩
  have hne : ∀ d : Char, d.isDigit = true → d ≠ '=' := by
    rintro d hd rfl
    exact absurd hd (by decide)
  have hfield : checksumField bytes = ['1', '0', '=', a, b, e, fixSoh] := by rw [checksumField, hsum]; rfl
  have hlast : (front ++ [c] ++ checksumField bytes).length = front.length + 8 := by
    rw [hfield]
    simp
  have hget : ∀ k, (front ++ [c] ++ checksumField bytes)[front.length + k]? = (c :: checksumField bytes)[k]? := by
    intro k
    rw [List.append_assoc, List.singleton_append, List.getElem?_append_right (Nat.le_add_right _ _),
      Nat.add_sub_cancel_left]
  have hfound : findChecksum (front ++ [c] ++ checksumField bytes) (front.length + 8) = some (front.length + 1) := by
    rw [findChecksum_step, findChecksum_step, findChecksum_step, findChecksum_step]
    · have hat : checksumAt (front ++ [c] ++ checksumField bytes) (front.length + 3) = true := by
        have h0 : front.length + 3 - 1 = front.length + 2 := rfl
        have h1 : front.length + 3 - 2 = front.length + 1 := rfl
        have h2 : front.length + 3 - 3 = front.length + 0 := rfl
        unfold checksumAt
        rw [h0, h1, h2, hget, hget, hget, hget, hfield]
        simp [hc]
      rw [findChecksum, if_pos ⟨Nat.le_add_left 2 (front.length + 1), hat⟩]
      rfl
    · rw [hget, hfield]
      exact fun h => hne a hdigits.1 (Option.some.inj h)
    · rw [hget, hfield]
      exact fun h => hne b hdigits.2.1 (Option.some.inj h)
    · rw [hget, hfield]
      exact fun h => hne e hdigits.2.2 (Option.some.inj h)
    · rw [hget, hfield]
      exact fun h => absurd (Option.some.inj h) (by decide)
  have hcut : (front ++ [c]).length = front.length + 1 := List.length_append
  rw [fixComputeChecksum, hlast, hfound, Option.getD_some, ← hcut, List.take_left']
  rfl

/-! ### Whole messages -/

theorem ten_isPair (bytes : List Char) : IsPair isFixDelim ("10".toList, threeDigits (byteSum bytes)) := by
  have hten : "10".toList.all Char.isDigit = true := by decide
  refine ⟨List.all_eq_true.1 hten, fun c hc => clean_of_digit ?_⟩
  dsimp only at hc
  rw [threeDigits_eq] at hc
  exact fixedDigits_digits _ _ c hc

/-- The checksum field as a field. -/
theorem exists_checksumField (bytes : List Char) : ∃ last : Field isFixDelim,
    (last.tag, last.value) = ("10".toList, threeDigits (byteSum bytes)) ∧ last.render = checksumField bytes :=
  ⟨⟨"10".toList, threeDigits (byteSum bytes), fixSoh, (ten_isPair bytes).1, (ten_isPair bytes).2, soh_delim⟩, rfl, rfl⟩

theorem fixParseUint_byteSum (bytes : List Char) :
    fixParseUint (threeDigits (byteSum bytes)) % 256 = byteSum bytes := by
  have hlt : byteSum bytes < 256 := Nat.mod_lt _ (by decide)
  rw [threeDigits_eq, fixParseUint_digits (fixedDigits_digits _ _), digitsNat_fixedDigits (hlt.trans (by decide)),
    Nat.mod_eq_of_lt (hlt.trans (by decide)), Nat.mod_eq_of_lt hlt]

/-- No field makes a message invalid. -/
theorem fixStore_valid (p : FixParsing) (f : List Char × List Char) :
    (fixStore p f).parsed.valid = p.parsed.valid := by
  unfold fixStore
  split_ifs <;> rfl

theorem foldl_fixStore_valid (l : List (List Char × List Char)) (p : FixParsing) :
    (l.foldl fixStore p).parsed.valid = p.parsed.valid := by
  induction l generalizing p with
  | nil => rfl
  | cons f l ih => rw [List.foldl_cons, ih, fixStore_valid]

theorem fixStore_hasChecksum {p : FixParsing} {f : List Char × List Char} (h : fixTag f.1 ≠ 10) :
    (fixStore p f).hasChecksum = p.hasChecksum := by
  unfold fixStore
  rw [if_neg h]
  split_ifs <;> rfl

/-- A checksum is only met under its tag. -/
theorem foldl_fixStore_hasChecksum {l : List (List Char × List Char)} (h : ∀ f ∈ l, fixTag f.1 ≠ 10)
    (p : FixParsing) :
    (l.foldl fixStore p).hasChecksum = p.hasChecksum := by
  induction l generalizing p with
  | nil => rfl
  | cons f l ih =>
    rw [List.foldl_cons, ih fun g hg =>
      h g (List.mem_cons_of_mem _ hg), fixStore_hasChecksum (h f List.mem_cons_self)]

theorem fixStore_ten (p : FixParsing) (value : List Char) : fixStore p ("10".toList, value) =
    { parsed := { p.parsed with checksum := fixParseUint value % 256 }, hasChecksum := true } := rfl

/-- A message that is a sequence of fields is parsed up to its checksum, and is valid if that is its own. -/
theorem fixParse_readsThrough {front : List Char} (hreads : ReadsThrough isFixDelim front) (hne : front ≠ [])
    (bytes : List Char) : fixParse (front ++ checksumField bytes) =
      { ((fields isFixDelim front).foldl fixStore fixParsingInit).parsed with
        checksum := byteSum bytes, valid := decide (byteSum front = byteSum bytes) } := by
  obtain ⟨last, hpair, hlast⟩ := exists_checksumField bytes
  have hsum : fixComputeChecksum (front ++ checksumField bytes) = byteSum front := by
    obtain ⟨l, c, hfront, hc⟩ := hreads.ends hne
    rw [hfront]
    exact fixComputeChecksum_append hc bytes
  obtain ⟨fs, rfl⟩ := hreads
  have hfields : fields isFixDelim (fs.flatMap Field.render ++ checksumField bytes) =
      fields isFixDelim (fs.flatMap Field.render) ++ [("10".toList, threeDigits (byteSum bytes))] := by
    have hfront := fields_render fs []
    have hfield := fields_of_some (readField_render last [])
    rw [List.append_nil, fields_nil, List.append_nil] at hfront
    rw [List.append_nil, fields_nil] at hfield
    rw [hfront, fields_render, ← hlast, hfield, ← hpair]
  have hvalid := foldl_fixStore_valid (fields isFixDelim (fs.flatMap Field.render)) fixParsingInit
  unfold fixParse
  rw [hfields, List.foldl_append, List.foldl_cons, List.foldl_nil, fixStore_ten, hsum]
  dsimp only
  rw [fixParseUint_byteSum, Bool.true_and]
  by_cases heq : byteSum (fs.flatMap Field.render) = byteSum bytes
  · have hinit : fixParsingInit.parsed.valid = true := rfl
    rw [if_neg (by rw [heq, bne_self_eq_false]; exact Bool.false_ne_true), decide_eq_true heq, ← hinit, ← hvalid]
  · rw [if_pos (bne_iff_ne.2 heq), decide_eq_false heq]

/-- A parser that stops before it meets a checksum takes the message for valid. -/
theorem fixParse_stopped {msg : List Char} (h : ∀ f ∈ fields isFixDelim msg, fixTag f.1 ≠ 10) :
    (fixParse msg).valid = true := by
  have hnone : ((fields isFixDelim msg).foldl fixStore fixParsingInit).hasChecksum = false :=
    foldl_fixStore_hasChecksum h fixParsingInit
  unfold fixParse
  dsimp only
  rw [hnone, Bool.false_and, if_neg Bool.false_ne_true, foldl_fixStore_valid]
  rfl

/-- One byte more or less changes the sum. -/
theorem byteSum_changed {x y : List Char} {b c : Char} (hb : b.toNat < 256) (hc : c.toNat < 256) (hne : c ≠ b) :
    byteSum (x ++ c :: y) ≠ byteSum (x ++ b :: y) := by
  have hval : c.toNat ≠ b.toNat := fun h => hne (Char.toNat_inj.1 h)
  unfold byteSum
  simp only [List.map_append, List.map_cons, List.sum_append, List.sum_cons]
  omega

/-! ### The round trip -/

theorem fixText_ne_nil : fixText (fixAllPairs d) ≠ [] := by
  unfold fixAllPairs fixText
  exact List.cons_ne_nil _ _

/-- What is built before the checksum is a sequence of fields, none of them a checksum. -/
theorem exists_fixFields (h : d.Printable) : ∃ fs : List (Field isFixDelim),
    fs.map (fun f => (f.tag, f.value)) = fixAllPairs d ∧ fs.flatMap Field.render = fixText (fixAllPairs d) :=
  exists_fields soh_delim (fixAllPairs_isPair h)

theorem fields_fixText (h : d.Printable) : fields isFixDelim (fixText (fixAllPairs d)) = fixAllPairs d := by
  obtain ⟨fs, hpairs, hrender⟩ := exists_fixFields h
  have hfields := fields_render fs []
  rwa [List.append_nil, fields_nil, List.append_nil, hpairs, hrender] at hfields

theorem fixTag_ne_ten : ∀ p ∈ fixAllPairs d, fixTag p.1 ≠ 10 := by
  have htags : ((fixAllPairs d).all fun p => decide (fixTag p.1 ≠ 10)) = true := rfl
  intro p hp
  exact of_decide_eq_true (List.all_eq_true.1 htags p hp)

/-- The fields of the message as they are parsed. -/
def parsedBack (d : MarketData) : FixParsedMessage where
  symbol := d.symbol
  msgType := 'W'
  entryType := d.entryType
  seqNum := d.seqNum
  price := fixParseDouble (fixPrice d.price)
  volume := d.volume
  checksum := byteSum (fixText (fixAllPairs d))
  valid := true

theorem fixParse_built (h : d.Printable) :
    fixParse (fixText (fixAllPairs d) ++ checksumField (fixText (fixAllPairs d))) = parsedBack d := by
  have hreads : ReadsThrough isFixDelim (fixText (fixAllPairs d)) := by
    obtain ⟨fs, -, hrender⟩ := exists_fixFields h
    exact ⟨fs, hrender⟩
  have hentry : fixParseUint [Char.ofNat ('0'.toNat + d.entryType)] % 256 = d.entryType := by
    obtain ⟨hdigit, hvalue⟩ := entryChar_digit _ h.entryType
    have hle := h.entryType
    rw [fixParseUint_digits fun c hc => by rw [List.mem_singleton.1 hc]; exact hdigit, hvalue]
    omega
  have hsymbol : d.symbol.take (fixMaxSymbolLen - 1) = d.symbol := List.take_of_length_le h.symbol_length
  have hfold : (fixAllPairs d).foldl fixStore fixParsingInit =
      ⟨⟨d.symbol.take (fixMaxSymbolLen - 1), 'W', fixParseUint [Char.ofNat ('0'.toNat + d.entryType)] % 256,
        fixParseUint (Nat.toDigits 10 d.seqNum), fixParseDouble (fixPrice d.price),
        fixParseDouble (Nat.toDigits 10 (⌊d.volume⌋.toNat % 2 ^ 64)), 0, true⟩, false⟩ := rfl
  rw [fixParse_readsThrough hreads fixText_ne_nil, fields_fixText h, decide_eq_true rfl, hfold, hentry, hsymbol,
    fixParseUint_toDigits h.seqNum, fixParseDouble_volume h]
  rfl

/-- The body-length field counts the bytes between its delimiter and the checksum's tag. -/
def LengthTold (before : List Char) : Prop :=
  ∃ digits body, before = "8=FIX.4.4".toList ++ fixSoh :: ("9=".toList ++ digits ++ fixSoh :: body) ∧
    (∀ c ∈ digits, c.isDigit = true) ∧ fixParseUint digits = body.length

theorem lengthTold (h : d.Printable) : LengthTold (fixText (fixAllPairs d)) := by
  have hlen := fixText_length h
  refine ⟨threeDigits (fixText (fixPairs d)).length, fixText (fixPairs d), ?_, ?_, ?_⟩
  · unfold fixAllPairs fixText
    simp
  · rw [threeDigits_eq]
    exact fixedDigits_digits _ _
  · rw [threeDigits_eq, fixParseUint_digits (fixedDigits_digits _ _), digitsNat_fixedDigits (by omega),
      Nat.mod_eq_of_lt (by omega)]

/-- The message with a byte changed before its checksum field, parsed. -/
theorem fixParse_changed (h : d.Printable) {x y : List Char} {b c : Char}
    (htext : fixText (fixAllPairs d) = x ++ b :: y)
    (hc : c.toNat < 256) (hne : c ≠ b) :
    (fixParse (x ++ c :: y ++ checksumField (x ++ b :: y))).valid = false ↔
      ReadsThrough isFixDelim (x ++ c :: y) := by
  have hb : b.toNat < 256 := fixText_byte h b (by rw [htext]; exact List.mem_append_right _ List.mem_cons_self)
  have hsum := byteSum_changed (x := x) (y := y) hb hc hne
  constructor
  · intro hinvalid
    obtain ⟨fs, hpairs, hrender⟩ := exists_fixFields h
    obtain ⟨last, -, hlast⟩ := exists_checksumField (x ++ b :: y)
    refine (reads_or_known (c := c) last isFixDelim_apart (hrender.trans htext)).resolve_right fun hknown => ?_
    rw [hlast] at hknown
    have hvalid := fixParse_stopped fun p hp hten => by
      obtain ⟨f, hf, htag⟩ := List.mem_map.1 (hknown p hp)
      have hpair : (f.tag, f.value) ∈ fixAllPairs d := by
        rw [← hpairs]
        exact List.mem_map_of_mem hf
      exact fixTag_ne_ten _ hpair (by rw [htag]; exact hten)
    rw [hvalid] at hinvalid
    cases hinvalid
  · intro hreads
    have hnonempty : x ++ c :: y ≠ [] := List.append_ne_nil_of_right_ne_nil _ (List.cons_ne_nil _ _)
    rw [fixParse_readsThrough hreads hnonempty]
    exact decide_eq_false hsum

/-- What is built comes back, tells its length, and is found out when a byte of it is changed: exactly when
    the price fits the word of its integer part and the changed bytes are still a sequence of fields. -/
theorem fixRoundTrip_iff (h : d.Printable) (hbuf : fixMaxMsgLen ≤ bufSize) {x y field : List Char} {b c : Char}
    (hbuilt : fixBuildMarketDataMsg bufSize d = x ++ b :: y ++ field) (hfield : field.length = 7)
    (hc : c.toNat < 256) (hne : c ≠ b) :
    (fixParse (fixBuildMarketDataMsg bufSize d) =
        { symbol := d.symbol, msgType := 'W', entryType := d.entryType, seqNum := d.seqNum, price := d.price,
          volume := d.volume, checksum := byteSum (x ++ b :: y), valid := true } ∧
      LengthTold (x ++ b :: y) ∧
      ((fixParse (x ++ c :: y ++ field)).valid = false ∨ byteSum (x ++ c :: y) = byteSum (x ++ b :: y))) ↔
    |d.price| < 2 ^ 64 ∧ ReadsThrough isFixDelim (x ++ c :: y) := by
  have hthree : (checksumField (fixText (fixAllPairs d))).length = 7 := rfl
  rw [fixBuild_eq h hbuf] at hbuilt ⊢
  obtain ⟨htext, rfl⟩ := List.append_inj' hbuilt (hthree.trans hfield.symm)
  have hb : b.toNat < 256 := fixText_byte h b (by rw [htext]; exact List.mem_append_right _ List.mem_cons_self)
  have hsum := byteSum_changed (x := x) (y := y) hb hc hne
  rw [fixParse_built h, ← fixParseDouble_price_iff h, ← fixParse_changed h htext hc hne, ← htext]
  unfold parsedBack
  constructor
  · rintro ⟨hback, -, hinvalid⟩
    refine ⟨congrArg FixParsedMessage.price hback, hinvalid.resolve_right ?_⟩
    rwa [htext]
  · rintro ⟨hprice, hinvalid⟩
    exact ⟨by rw [hprice], lengthTold h, Or.inl hinvalid⟩

def sampleMarketData : MarketData := { seqNum := 1, symbol := "ACME".toList, entryType := 2, price := 3 / 2, volume := 3 }

theorem sampleMarketData_printable : sampleMarketData.Printable where
  seqNum := by decide
  symbol_length := by decide
  symbol := by
    have hall : (sampleMarketData.symbol.all fun c => !isFixDelim c && c != '\x00' && decide (c.toNat < 256)) = true := by
      decide
    intro c hc
    simpa [and_assoc] using List.all_eq_true.1 hall c hc
  entryType := by decide
  price := ⟨15000, by unfold sampleMarketData; norm_num⟩
  volume := ⟨3, rfl, by norm_num⟩

/-- What is printed of it behind the first byte and before the checksum. -/
def sampleTail : List Char :=
  "=FIX.4.4\x019=047\x0135=W\x0134=1\x0155=ACME\x01268=1\x01269=2\x01270=1.5000\x01271=3\x01".toList

theorem fixRoundTrip_iff_sample :
    (fixParse (fixBuildMarketDataMsg 512 sampleMarketData) =
        { symbol := sampleMarketData.symbol, msgType := 'W', entryType := sampleMarketData.entryType,
          seqNum := sampleMarketData.seqNum, price := sampleMarketData.price, volume := sampleMarketData.volume,
          checksum := byteSum ([] ++ '8' :: sampleTail), valid := true } ∧
      LengthTold ([] ++ '8' :: sampleTail) ∧
      ((fixParse ([] ++ '9' :: sampleTail ++ "10=234\x01".toList)).valid = false ∨
        byteSum ([] ++ '9' :: sampleTail) = byteSum ([] ++ '8' :: sampleTail))) ↔
    |sampleMarketData.price| < 2 ^ 64 ∧ ReadsThrough isFixDelim ([] ++ '9' :: sampleTail) :=
  fixRoundTrip_iff sampleMarketData_printable (by decide) (by decide +kernel) (by decide) (by decide) (by decide)

/-- With its first byte overwritten the message has no field, and no checksum to fail. -/
theorem fixParse_overwritten : sampleMarketData.Printable ∧
    fixBuildMarketDataMsg 512 sampleMarketData = '8' :: sampleTail ++ "10=234\x01".toList ∧
    (fixParse ('X' :: sampleTail ++ "10=234\x01".toList)).valid = true ∧
    byteSum ('X' :: sampleTail) ≠ byteSum ('8' :: sampleTail) :=
  ⟨sampleMarketData_printable, by decide +kernel, by decide +kernel, by decide +kernel⟩

end FoxTrader
