import FoxTrader.DoubleText
import FoxTrader.StampText

/-! # The fields of a config as text

    `cfg_parse_field` reads the value of a key into a field of the config and `cfg_save_field` writes the
    field back as text, each with a branch for every family of types. Money is written with all its digits
    and integers are written whole. Doubles and binary fixed point are written with four digits behind the
    point, two in percent, so of them only what is on that grid survives. -/

namespace FoxTrader

open Lib

/-! ### Fields -/

/-- The bounds of `as_double`; `std::clamp` wants them in order, and doubles are finite. -/
structure DoubleRange where
  clampMin : ℚ
  clampMax : ℚ
  le : clampMin ≤ clampMax
  finite : -2 ^ 1024 ≤ clampMin ∧ clampMax ≤ 2 ^ 1024

/-- The bounds of `as_int`. -/
structure IntRange where
  clampMin : Int64
  clampMax : Int64

/-- The labels and the default of `as_int_enum`; the count is a byte. -/
structure EnumLabels where
  labels : List (List Char)
  defaultVal : Int32
  count_le : labels.length ≤ 255

inductive IntWidth
  | w8 | w16 | w32 | w64

def IntWidth.bits : IntWidth → ℕ
  | w8 => 8
  | w16 => 16
  | w32 => 32
  | w64 => 64

structure IntType where
  signed : Bool
  width : IntWidth

/-- A field: its family of types, with the kind of its descriptor and what that kind's payload holds. -/
inductive CfgFieldType
  | money (pct : Bool) (range : DoubleRange)
  | fpBinary (pct : Bool) (range : DoubleRange)
  | floating (pct : Bool) (range : DoubleRange)
  | int (type : IntType) (range : IntRange)
  | intEnum (type : IntType) (labels : EnumLabels)
  | bool (type : IntType)
  | chars (extent : ℕ)

abbrev CfgFieldType.Value : CfgFieldType → Type
  | money _ _ => Money
  | fpBinary _ _ => Fpn
  | floating _ _ => ℚ
  | int type _ => BitVec type.width.bits
  | intEnum type _ => BitVec type.width.bits
  | bool type => BitVec type.width.bits
  | chars _ => List Char

/-- A field as it was read, and the faults the reading raised. -/
structure Parsed (α : Type) where
  value : α
  faults : UInt32

/-- `CFG_FAULT_CAPITAL_MALFORMED`. -/
def faultCapitalMalformed : UInt32 := 1

/-- `CFG_FAULT_FEATURE_MALFORMED`. -/
def faultFeatureMalformed : UInt32 := 8

/-! ### Money -/

/-- `llround`. -/
def llroundExact (s : ℚ) : ℤ := if s < 0 then -⌊-s + 1 / 2⌋ else ⌊s + 1 / 2⌋

/-- `money_from_double_payload`; what it returns is in the closure. -/
def moneyFromPayload (d : ℚ) : Money :=
  let s := d * 100000000
  (Money.saturate
    (if ¬s < 9223372036854700000 then moneyMax else if ¬-9223372036854700000 < s then -moneyMax
      else llroundExact s)).val

/-- `money_scale_down_pow10`. -/
def moneyScaleDownPow10 (a : Money) (k : ℕ) : Money :=
  let mag := i128Abs a.word
  let d := BitVec.ofNat 128 (10 ^ (if k < 20 then k else 19))
  let dr := udiv256Qr 0 mag d
  (Money.saturate (i128Cneg (moneyRoundHalfEven dr.q dr.r d) (a.v < 0)).toInt).val

def clampMoney (lo hi a : Money) : Money :=
  let a := if a.v < lo.v then lo else a
  if a.v > hi.v then hi else a

/-- `Money_ToCString` on a payload that need not be in the closure. -/
def payloadToCString (w : U128) (cap : ℕ) : List Char :=
  if cap < 32 then []
  else
    let dr := divmulPow10 (i128Abs w)
    let ip := dr.q.toNat % 2 ^ 64
    let fp := dr.r.toNat % 2 ^ 64
    (if w.toInt < 0 then ['-'] else []) ++ (Nat.toDigits 10 ip ++ '.' :: fixedDigits 8 fp)

/-- The zeros at the end go, two digits stay. -/
def trimZeros (text : List Char) : List Char :=
  text.takeWhile (· ≠ '.') ++ (text.dropWhile (· ≠ '.')).take 3 ++ ((text.dropWhile (· ≠ '.')).drop 3).rdropWhile (· = '0')

def parseMoney (pct : Bool) (range : DoubleRange) (val : List Char) : Option (Parsed Money) :=
  (moneyFromString val).map fun p =>
    { value := clampMoney (moneyFromPayload range.clampMin) (moneyFromPayload range.clampMax)
        (if pct then moneyScaleDownPow10 p.value 2 else p.value)
      faults := if p.malformed || p.overflow then faultCapitalMalformed else 0 }

def saveMoney (pct : Bool) (a : Money) : List Char :=
  trimZeros (payloadToCString (if pct then a.word * 100 else a.word) 40)

/-! ### Doubles and binary fixed point -/

/-- `std::clamp`. -/
def DoubleRange.clamp (range : DoubleRange) (v : ℚ) : ℚ :=
  if v < range.clampMin then range.clampMin else if range.clampMax < v then range.clampMax else v

/-- `fp2_from_double`. -/
def fp2FromDouble (input : ℚ) : Fpn :=
  if ¬(-9000000000000000000 ≤ input ∧ input ≤ 9000000000000000000) then Fpn.ceiling (input < 0)
  else
    let absInput := |input|
    let intPart := ⌊absInput⌋.toNat
    let fracPart := absInput - intPart
    Fpn.ofMagnitude (input < 0) (intPart * 2 ^ 64 + ⌊fracPart * 18446744073709551616⌋.toNat)

/-- `fp2_to_double`. -/
def fp2ToDouble (a : Fpn) : ℚ :=
  let m := a.v.natAbs
  let mag : ℚ := (m / 2 ^ 64 : ℕ) + (m % 2 ^ 64 : ℕ) / 18446744073709551616
  if a.v < 0 then -mag else mag

/-- What both families read: the number, out of percent and clamped, and the fault of a text that is none. -/
def parseDouble (pct : Bool) (range : DoubleRange) (val : List Char) : Parsed ℚ :=
  let v := parseDoubleFastChecked val
  { value := range.clamp (if pct then v.1 / 100 else v.1)
    faults := if v.2 && decide (val ≠ []) then faultFeatureMalformed else 0 }

def saveDouble (pct : Bool) (v : ℚ) : List Char := if pct then printFixed 2 (v * 100) else printFixed 4 v

/-! ### Integers and texts -/

def IntType.toInt (type : IntType) (x : BitVec type.width.bits) : ℤ := if type.signed then x.toInt else x.toNat

/-- Unsigned fields go through `strtoull`, signed ones through `atoi`. -/
def parseInt (type : IntType) (val : List Char) : ℤ :=
  if type.signed then (atoi val).toInt else (Int64.ofNat (strtoull val)).toInt

def IntRange.clamp (range : IntRange) (v : ℤ) : ℤ :=
  if v < range.clampMin.toInt then range.clampMin.toInt
  else if range.clampMax.toInt < v then range.clampMax.toInt else v

/-- `strcasecmp` finds no difference. -/
def sameIgnoringCase (a b : List Char) : Bool := a.map Char.toLower = b.map Char.toLower

/-- The index of the first label that matches, else the number. -/
def parseEnum (labels : EnumLabels) (val : List Char) : ℤ :=
  let v : ℤ := ((labels.labels.findIdx? (sameIgnoringCase val)).map Int.ofNat).getD (atoi val).toInt
  if v < 0 ∨ (labels.labels.length : ℤ) ≤ v then labels.defaultVal.toInt else v

def saveInt (type : IntType) (x : BitVec type.width.bits) : List Char :=
  if type.signed then decimalInt x.toInt else Nat.toDigits 10 x.toNat

/-! ### The dispatch -/

/-- `cfg_parse_field` on the value of a key of the file. -/
def cfgParseField : (f : CfgFieldType) → List Char → Option (Parsed f.Value)
  | .money pct range, val => parseMoney pct range val
  | .fpBinary pct range, val =>
    some { value := fp2FromDouble (parseDouble pct range val).value, faults := (parseDouble pct range val).faults }
  | .floating pct range, val => some (parseDouble pct range val)
  | .int type range, val => some { value := BitVec.ofInt _ (range.clamp (parseInt type val)), faults := 0 }
  | .intEnum _ labels, val => some { value := BitVec.ofInt _ (parseEnum labels val), faults := 0 }
  | .bool _, val => some { value := BitVec.ofInt _ (if (atoi val).toInt ≠ 0 then 1 else 0), faults := 0 }
  | .chars extent, val => some { value := val.take (extent - 1), faults := 0 }

/-- `cfg_save_field` into the buffer of the settings panel, 512 characters. -/
def cfgSaveField : (f : CfgFieldType) → f.Value → List Char
  | .money pct _, a => printed 512 (saveMoney pct a)
  | .fpBinary pct _, a => printed 512 (saveDouble pct (fp2ToDouble a))
  | .floating pct _, v => printed 512 (saveDouble pct v)
  | .int type _, x => printed 512 (saveInt type x)
  | .intEnum type _, x => printed 512 (saveInt type x)
  | .bool _, x => printed 512 (if x ≠ 0 then ['1'] else ['0'])
  | .chars _, text => printed 512 text

/-! ### Money -/

theorem saturate_self (a : Money) : (Money.saturate a.v).val = a := by
  rw [Money.saturate, dif_pos ⟨a.lower, a.upper⟩]

/-- A hundred times an amount is scaled down to the amount. -/
theorem moneyScaleDownPow10_hundred {a b : Money} (h : a.v = b.v * 100) : moneyScaleDownPow10 a 2 = b := by
  have habs := b.abs_le
  have hmag : (i128Abs a.word).toNat = b.v.natAbs * 100 := by
    rw [i128Abs_word, h, Int.natAbs_mul]
    rfl
  obtain ⟨hq, hr⟩ := udiv256Qr_exact 0 (i128Abs a.word) (b := BitVec.ofNat 128 (10 ^ 2)) (by decide) (by decide)
  have hd : (BitVec.ofNat 128 (10 ^ 2)).toNat = 100 := by decide
  have hzero : (0 : U128).toNat * 2 ^ 128 + (i128Abs a.word).toNat = b.v.natAbs * 100 := by
    rw [hmag]
    exact Nat.zero_add _
  rw [hzero, hd, Nat.mul_div_cancel _ (by decide)] at hq
  rw [hzero, hd, Nat.mul_mod_left] at hr
  have hround : (moneyRoundHalfEven (udiv256Qr 0 (i128Abs a.word) (BitVec.ofNat 128 (10 ^ 2))).q
      (udiv256Qr 0 (i128Abs a.word) (BitVec.ofNat 128 (10 ^ 2))).r (BitVec.ofNat 128 (10 ^ 2))).toNat =
        b.v.natAbs := by
    rw [moneyRoundHalfEven_toNat (by omega), hq, hr, hd]
    rfl
  unfold moneyScaleDownPow10
  rw [if_pos (by decide : 2 < 20)]
  dsimp only
  rw [i128Cneg_toInt (by rw [hround]; exact habs), hround]
  have hsign : (if decide (a.v < 0) = true then -(b.v.natAbs : ℤ) else b.v.natAbs) = b.v := by
    by_cases hneg : a.v < 0
    · rw [decide_eq_true hneg, if_pos rfl]
      omega
    · rw [decide_eq_false hneg, if_neg Bool.false_ne_true]
      omega
  rw [hsign, saturate_self]

/-- The decimal of a payload. -/
def payloadDecimal (v : ℤ) : Decimal where
  sign := if v < 0 then ['-'] else []
  int := Nat.toDigits 10 (v.natAbs / moneyScale)
  dot := true
  frac := fixedDigits 8 (v.natAbs % moneyScale)
  sign_mem := by
    split
    · exact .inr (.inl rfl)
    · exact .inl rfl
  int_digits := fun _ hc => Nat.isDigit_of_mem_toDigits (by decide) (by decide) hc
  frac_digits := fixedDigits_digits _ _
  frac_dot := fun h => absurd h.symm Bool.false_ne_true
  some_digit := fun h => absurd (List.append_eq_nil_iff.1 h).1 Nat.toDigits_ne_nil

theorem payloadToCString_text {w : U128} (h : w.toInt.natAbs < 2 ^ 80) :
    payloadToCString w 40 = (payloadDecimal w.toInt).text := by
  have habs : (i128Abs w).toNat = w.toInt.natAbs := by
    rw [i128Abs_eq, i128Cneg_eq]
    by_cases hneg : w.toInt < 0
    · rw [decide_eq_true hneg, if_pos rfl]
      have hcneg : (-w).toInt = -w.toInt := by
        rw [BitVec.toInt_neg, Int.bmod_eq_of_le] <;> omega
      have hmsb : (-w).toInt = (-w).toNat := BitVec.toInt_eq_toNat_of_msb (by
        rw [BitVec.msb_eq_toInt]
        exact decide_eq_false (by omega))
      omega
    · rw [decide_eq_false hneg, if_neg Bool.false_ne_true]
      have hmsb : w.toInt = w.toNat := BitVec.toInt_eq_toNat_of_msb (by
        rw [BitVec.msb_eq_toInt]
        exact decide_eq_false hneg)
      omega
  obtain ⟨hq, hr⟩ := divmulPow10_exact (P := i128Abs w) (by rw [habs]; omega)
  rw [habs] at hq hr
  have hip : w.toInt.natAbs / moneyScale % 2 ^ 64 = w.toInt.natAbs / moneyScale :=
    Nat.mod_eq_of_lt ((Nat.div_le_div_right h.le).trans_lt (by decide))
  have hfp : w.toInt.natAbs % moneyScale % 2 ^ 64 = w.toInt.natAbs % moneyScale :=
    Nat.mod_eq_of_lt ((Nat.mod_lt _ (by decide)).trans (by decide : moneyScale < 2 ^ 64))
  unfold payloadToCString
  rw [if_neg (by decide)]
  dsimp only
  rw [hq, hr, hip, hfp]
  rfl

/-- The decimal without the zeros at its end, two digits kept. -/
def trimmed (v : ℤ) : Decimal :=
  { payloadDecimal v with
    frac := (payloadDecimal v).frac.take 2 ++ ((payloadDecimal v).frac.drop 2).rdropWhile (· = '0')
    frac_digits := by
      intro c hc
      refine (payloadDecimal v).frac_digits c ?_
      rcases List.mem_append.1 hc with hfront | hback
      · exact List.mem_of_mem_take hfront
      · exact List.mem_of_mem_drop ((List.rdropWhile_prefix _ _).subset hback)
    frac_dot := fun h => absurd h.symm Bool.false_ne_true
    some_digit := fun h => absurd (List.append_eq_nil_iff.1 h).1 Nat.toDigits_ne_nil }

theorem trimZeros_text (v : ℤ) : trimZeros (payloadDecimal v).text = (trimmed v).text := by
  have hfront : ∀ c ∈ (payloadDecimal v).sign ++ (payloadDecimal v).int, decide (c ≠ '.') = true := by
    intro c hc
    refine decide_eq_true ?_
    rintro rfl
    rcases List.mem_append.1 hc with hsign | hint
    · rcases (payloadDecimal v).sign_mem with hs | hs | hs <;> rw [hs] at hsign
      · exact absurd hsign List.not_mem_nil
      · exact absurd (List.mem_singleton.1 hsign) (by decide)
      · exact absurd (List.mem_singleton.1 hsign) (by decide)
    · exact absurd ((payloadDecimal v).int_digits _ hint) (by decide)
  have htext : (payloadDecimal v).text = ((payloadDecimal v).sign ++ (payloadDecimal v).int) ++ '.' :: (payloadDecimal v).frac :=
    (List.append_assoc ..).symm
  rw [trimZeros, htext, List.takeWhile_append_of_pos hfront, List.dropWhile_append_of_pos hfront,
    List.takeWhile_cons_of_neg (by decide), List.dropWhile_cons_of_neg (by decide), List.append_nil,
      List.append_assoc]
  exact List.append_assoc ..

/-- Zeros at the end of a fraction count nothing. -/
theorem digitsNat_rdropWhile (front back : List Char) :
    digitsNat (front ++ back) = digitsNat (front ++ back.rdropWhile (· = '0')) *
      10 ^ (back.length - (back.rdropWhile (· = '0')).length) := by
  induction back using List.reverseRecOn with
  | nil => rw [List.rdropWhile_nil, Nat.sub_self, Nat.pow_zero, Nat.mul_one]
  | append_singleton back c ih =>
    by_cases hc : c = '0'
    · have hle : (back.rdropWhile (· = '0')).length ≤ back.length := (List.rdropWhile_prefix _ _).length_le
      rw [List.rdropWhile_concat_pos (· = '0') back c (decide_eq_true hc), hc, ← List.append_assoc, digitsNat_concat, ih,
        List.length_append, List.length_singleton, Nat.succ_sub hle, Nat.pow_succ]
      exact Nat.mul_assoc ..
    · rw [List.rdropWhile_concat_neg (· = '0') back c (by simpa using hc), Nat.sub_self, Nat.pow_zero, Nat.mul_one]

theorem trimmed_frac (v : ℤ) : (trimmed v).frac.length ≤ 8 ∧
    digitsNat (trimmed v).frac * 10 ^ (8 - (trimmed v).frac.length) = v.natAbs % moneyScale := by
  have hlen : (payloadDecimal v).frac.length = 8 := fixedDigits_length ..
  have hback : ((payloadDecimal v).frac.drop 2).length = 6 := by rw [List.length_drop, hlen]
  have hle : (((payloadDecimal v).frac.drop 2).rdropWhile (· = '0')).length ≤ 6 :=
    hback ▸ (List.rdropWhile_prefix _ _).length_le
  have hfront : ((payloadDecimal v).frac.take 2).length = 2 := by rw [List.length_take, hlen]; rfl
  have hvalue := digitsNat_rdropWhile ((payloadDecimal v).frac.take 2) ((payloadDecimal v).frac.drop 2)
  rw [List.take_append_drop, show digitsNat (payloadDecimal v).frac = v.natAbs % moneyScale from
    digitsNat_fixedDigits (Nat.mod_lt _ (by decide)), hback] at hvalue
  have htrim : (trimmed v).frac.length = 2 + (((payloadDecimal v).frac.drop 2).rdropWhile (· = '0')).length := by
    show (_ ++ _ : List Char).length = _
    rw [List.length_append, hfront]
  refine ⟨by omega, ?_⟩
  rw [htrim, hvalue, Nat.sub_add_eq]
  rfl

theorem trimmed_length {v : ℤ} (h : v.natAbs < 2 ^ 80) : (trimmed v).text.length ≤ 35 := by
  obtain ⟨hlen, -⟩ := trimmed_frac v
  have hdigits : (trimmed v).int.length ≤ 25 :=
    (Nat.length_toDigits_le_iff (by decide) (by decide)).2 ((Nat.div_le_div_right h.le).trans_lt (by decide))
  have hsign : (trimmed v).sign.length ≤ 1 := by
    show (if v < 0 then ['-'] else []).length ≤ 1
    split <;> decide
  show ((trimmed v).sign ++ ((trimmed v).int ++ '.' :: (trimmed v).frac)).length ≤ _
  rw [List.length_append, List.length_append, List.length_cons]
  omega

/-- What is read from the text of a payload. -/
theorem moneyFromString_trimmed {v : ℤ} (h : v.natAbs < 2 ^ 80) : ∃ p, moneyFromString (trimmed v).text = some p ∧
    p.malformed = false ∧ p.overflow = decide (moneyMax < v.natAbs) ∧ (p.overflow = false → p.value.v = v) := by
  obtain ⟨hlen, hfrac⟩ := trimmed_frac v
  have hint : digitsNat (trimmed v).int = v.natAbs / moneyScale := Nat.ofDigitChars_ten_toDigits
  obtain ⟨hwrap, hscaled, -⟩ := scanned_short hlen (by
    rw [hint]
    exact (Nat.div_le_div_right h.le).trans_lt (by decide))
  rw [hint, hfrac, Nat.div_add_mod'] at hscaled
  have hshort : (trimmed v).text.length < 4294967296 := (trimmed_length h).trans_lt (by decide)
  have hover : (scanned (trimmed v)).toMoney.overflow = decide (moneyMax < v.natAbs) := by
    show ((scanned (trimmed v)).wrap || decide (moneyMax < ((scanned (trimmed v)).scaled : ℤ))) = _
    rw [hwrap, hscaled, Bool.false_or]
  refine ⟨(scanned (trimmed v)).toMoney, ?_, rfl, hover, fun hclean => ?_⟩
  · rw [moneyFromString, fpScanDecimalString_text hshort, Option.map_some]
  · have hsign : (scanned (trimmed v)).neg = decide (v < 0) := by
      show decide ((if v < 0 then ['-'] else []) = ['-']) = _
      by_cases hneg : v < 0
      · rw [if_pos hneg, decide_eq_true hneg]
        rfl
      · rw [if_neg hneg, decide_eq_false hneg]
        rfl
    rw [toMoney_value hclean, hscaled, hsign]
    by_cases hneg : v < 0
    · rw [decide_eq_true hneg, if_pos rfl]
      omega
    · rw [decide_eq_false hneg, if_neg Bool.false_ne_true]
      omega

/-- Money comes back, without a fault exactly when its text is in the closure. -/
theorem parse_saveMoney {pct : Bool} {range : DoubleRange} {a : Money}
    (hlow : (moneyFromPayload range.clampMin).v ≤ a.v) (hup : a.v ≤ (moneyFromPayload range.clampMax).v) :
    parseMoney pct range (printed 512 (saveMoney pct a)) = some { value := a, faults := 0 } ↔
      (pct = true → (a.v.natAbs : ℤ) * 100 ≤ moneyMax) := by
  have habs := a.abs_le
  have hmax : moneyMax = 2 ^ 63 - 1 := rfl
  have hclamp : clampMoney (moneyFromPayload range.clampMin) (moneyFromPayload range.clampMax) a = a := by
    unfold clampMoney
    rw [if_neg (not_lt.2 hlow), if_neg (not_lt.2 hup)]
  have hword : (if pct then a.word * 100 else a.word).toInt = if pct then a.v * 100 else a.v := by
    cases pct with
    | false => exact a.word_toInt
    | true =>
      show (a.word * 100).toInt = a.v * 100
      rw [BitVec.toInt_mul, a.word_toInt, show (100 : U128).toInt = 100 from by decide, Int.bmod_eq_of_le] <;> omega
  have hsmall : (if pct then a.v * 100 else a.v).natAbs < 2 ^ 80 := by split <;> omega
  have htext : saveMoney pct a = (trimmed (if pct then a.v * 100 else a.v)).text := by
    rw [saveMoney, payloadToCString_text (by rw [hword]; exact hsmall), hword, trimZeros_text]
  obtain ⟨p, hread, hmalformed, hover, hvalue⟩ := moneyFromString_trimmed hsmall
  have hlen : (saveMoney pct a).length < 512 := by
    rw [htext]
    exact (trimmed_length hsmall).trans_lt (by decide)
  rw [printed_eq hlen, htext, parseMoney, hread, Option.map_some, Option.some_inj, Parsed.mk.injEq, hmalformed,
    Bool.false_or]
  cases hflag : p.overflow with
  | true =>
    refine iff_of_false (fun h => absurd h.2 (by decide)) fun h => ?_
    rw [hflag] at hover
    have hbig := of_decide_eq_true hover.symm
    cases pct with
    | false => exact absurd hbig (by simp only [Bool.false_eq_true, if_false]; omega)
    | true =>
      have hfits := h rfl
      exact absurd hbig (by simp only [if_true]; omega)
  | false =>
    rw [hflag] at hover
    have hfits := of_decide_eq_false hover.symm
    have hback : (if pct then moneyScaleDownPow10 p.value 2 else p.value) = a := by
      have hv := hvalue hflag
      cases pct with
      | false => exact Money.ext hv
      | true => exact moneyScaleDownPow10_hundred hv
    rw [hback, hclamp]
    refine iff_of_true ⟨rfl, rfl⟩ ?_
    rintro rfl
    simp only [if_true] at hfits
    omega

/-! ### Doubles and binary fixed point -/

theorem fp2ToDouble_eq (a : Fpn) : fp2ToDouble a = a.v / 2 ^ 64 := by
  have hmag : ((a.v.natAbs / 2 ^ 64 : ℕ) : ℚ) + (a.v.natAbs % 2 ^ 64 : ℕ) / 18446744073709551616 =
    a.v.natAbs / 2 ^ 64 := by
    have hsplit : ((2 ^ 64 * (a.v.natAbs / 2 ^ 64) + a.v.natAbs % 2 ^ 64 : ℕ) : ℚ) = a.v.natAbs :=
      congrArg Nat.cast (Nat.div_add_mod a.v.natAbs (2 ^ 64))
    rw [← hsplit, Nat.cast_add, Nat.cast_mul]
    norm_num
    ring
  unfold fp2ToDouble
  dsimp only
  rw [hmag]
  by_cases hneg : a.v < 0
  · have habs : (a.v.natAbs : ℚ) = -a.v := by
      rw [Nat.cast_natAbs, abs_of_neg hneg, Int.cast_neg]
    rw [if_pos hneg, habs]
    ring
  · have habs : (a.v.natAbs : ℚ) = a.v := by rw [Nat.cast_natAbs, abs_of_nonneg (not_lt.1 hneg)]
    rw [if_neg hneg, habs]

/-- The whole part and the bits behind it make up the number, cut off. -/
theorem floor_two_parts {a : ℚ} (ha : 0 ≤ a) {n mag : ℕ}
    (h : mag = ⌊a⌋.toNat * n + ⌊(a - ⌊a⌋.toNat) * n⌋.toNat) : (mag : ℚ) ≤ a * n ∧ a * n < mag + 1 := by
  have hint : ((⌊a⌋.toNat : ℕ) : ℚ) = (⌊a⌋ : ℚ) := by
    exact_mod_cast congrArg (Int.cast (R := ℚ)) (Int.toNat_of_nonneg (Int.floor_nonneg.2 ha))
  have hfrac : 0 ≤ a - (⌊a⌋.toNat : ℕ) := by
    rw [hint]
    exact Int.fract_nonneg a
  have hbits : 0 ≤ ⌊(a - (⌊a⌋.toNat : ℕ)) * n⌋ := Int.floor_nonneg.2 (mul_nonneg hfrac (Nat.cast_nonneg _))
  have hcast : ((⌊(a - (⌊a⌋.toNat : ℕ)) * n⌋.toNat : ℕ) : ℚ) = (⌊(a - (⌊a⌋.toNat : ℕ)) * n⌋ : ℚ) := by
    exact_mod_cast congrArg (Int.cast (R := ℚ)) (Int.toNat_of_nonneg hbits)
  have hlow := Int.floor_le ((a - (⌊a⌋.toNat : ℕ)) * n)
  have hup := Int.lt_floor_add_one ((a - (⌊a⌋.toNat : ℕ)) * n)
  rw [h, Nat.cast_add, Nat.cast_mul, hcast]
  constructor <;> linarith

/-- Within the range the payload is the number cut off behind the last bit. -/
theorem fp2FromDouble_near {q : ℚ} (h : -9000000000000000000 ≤ q ∧ q ≤ 9000000000000000000) :
    |fp2ToDouble (fp2FromDouble q) - q| < 1 / 2 ^ 64 := by
  have hq : |q| ≤ 9000000000000000000 := abs_le.2 h
  have hunit : (18446744073709551616 : ℚ) = ((2 ^ 64 : ℕ) : ℚ) := by norm_num
  have hpow : (2 : ℚ) ^ 64 = ((2 ^ 64 : ℕ) : ℚ) := by norm_num
  have hunit_pos : (0 : ℚ) < ((2 ^ 64 : ℕ) : ℚ) := by norm_num
  generalize hm : ⌊|q|⌋.toNat * 2 ^ 64 + ⌊(|q| - (⌊|q|⌋.toNat : ℕ)) * (2 ^ 64 : ℕ)⌋.toNat = mag
  obtain ⟨hlow, hup⟩ := floor_two_parts (abs_nonneg q) hm.symm
  have hfits : (mag : ℤ) ≤ fpnMax := by
    have hbound : (mag : ℚ) ≤ (9000000000000000000 : ℕ) * (2 ^ 64 : ℕ) :=
      hlow.trans (mul_le_mul_of_nonneg_right (by exact_mod_cast hq) hunit_pos.le)
    have hnat : mag ≤ 9000000000000000000 * 2 ^ 64 := by exact_mod_cast hbound
    have hmax : fpnMax = 2 ^ 127 - 1 := rfl
    omega
  have hv : (fp2FromDouble q).v = if decide (q < 0) then -(mag : ℤ) else mag := by
    unfold fp2FromDouble
    rw [if_neg (not_not.2 h)]
    simp only [hunit, hm]
    rw [Fpn.ofMagnitude_v hfits]
  rw [fp2ToDouble_eq, hv, hpow]
  have hcut : |((if decide (q < 0) then -(mag : ℤ) else mag : ℤ) : ℚ) - q * (2 ^ 64 : ℕ)| < 1 := by
    by_cases hneg : q < 0
    · rw [decide_eq_true hneg, if_pos rfl, Int.cast_neg, Int.cast_natCast]
      rw [abs_of_neg hneg] at hlow hup
      rw [abs_lt]
      constructor <;> linarith
    · rw [decide_eq_false hneg, if_neg Bool.false_ne_true, Int.cast_natCast]
      rw [abs_of_nonneg (not_lt.1 hneg)] at hlow hup
      rw [abs_lt]
      constructor <;> linarith
  rw [show q = q * (2 ^ 64 : ℕ) / (2 ^ 64 : ℕ) from (mul_div_cancel_right₀ q hunit_pos.ne').symm, ← sub_div, abs_div,
    abs_of_pos hunit_pos]
  rw [mul_div_cancel_right₀ q hunit_pos.ne']
  exact div_lt_div_of_pos_right hcut hunit_pos

theorem fp2FromDouble_above {q : ℚ} (h : 9000000000000000000 < q) : fp2FromDouble q = Fpn.ceiling false := by
  rw [fp2FromDouble, if_pos (fun hin => absurd hin.2 (not_le.2 h)), decide_eq_false (by linarith)]

theorem fp2FromDouble_below {q : ℚ} (h : q < -9000000000000000000) : fp2FromDouble q = Fpn.ceiling true := by
  rw [fp2FromDouble, if_pos (fun hin => absurd hin.1 (not_le.2 h)), decide_eq_true (by linarith)]

/-- A number on the grid of the printed digits, within the bounds; or the bound itself, where the nearest number
    on the
    grid lies beyond it. -/
def OnGrid {α : Type} (range : DoubleRange) (store : ℚ → α) (x : α) (q : ℚ) : Prop :=
  (∃ m : ℤ, range.clampMin ≤ m / 10 ^ 4 ∧ (m : ℚ) / 10 ^ 4 ≤ range.clampMax ∧ store (m / 10 ^ 4) = x) ∨
    (store range.clampMin = x ∧ (roundTo 4 q : ℚ) / 10 ^ 4 < range.clampMin) ∨
    (store range.clampMax = x ∧ range.clampMax < (roundTo 4 q : ℚ) / 10 ^ 4)

theorem DoubleRange.clamp_of_mem {range : DoubleRange} {v : ℚ} (hlow : range.clampMin ≤ v)
    (hup : v ≤ range.clampMax) :
    range.clamp v = v := by
  rw [DoubleRange.clamp, if_neg (not_lt.2 hlow), if_neg (not_lt.2 hup)]

theorem DoubleRange.clamp_lt {range : DoubleRange} {v w b : ℚ} (hlow : range.clampMin ≤ w) (hv : v < b) (hw : w < b) :
    range.clamp v < b := by
  rw [DoubleRange.clamp]
  split
  · exact hlow.trans_lt hw
  · split
    next hup => exact hup.trans hv
    next => exact hv

theorem DoubleRange.lt_clamp {range : DoubleRange} {v w b : ℚ} (hup : w ≤ range.clampMax) (hv : b < v) (hw : b < w) :
    b < range.clamp v := by
  rw [DoubleRange.clamp]
  split
  next hlow => exact hv.trans hlow
  next =>
    split
    · exact hw.trans_le hup
    · exact hv

theorem store_clamp_iff {α : Type} {range : DoubleRange} {store : ℚ → α} {x : α} {q : ℚ}
    (hgrid : ∀ m : ℤ, range.clampMin ≤ m / 10 ^ 4 → (m : ℚ) / 10 ^ 4 ≤ range.clampMax → store (m / 10 ^ 4) = x →
      store (range.clamp (roundTo 4 q / 10 ^ 4)) = x) :
    store (range.clamp (roundTo 4 q / 10 ^ 4)) = x ↔ OnGrid range store x q := by
  constructor
  · intro h
    rw [DoubleRange.clamp] at h
    split at h
    next hlow => exact .inr (.inl ⟨h, hlow⟩)
    next hlow =>
      split at h
      next hup => exact .inr (.inr ⟨h, hup⟩)
      next hup => exact .inl ⟨_, not_lt.1 hlow, not_lt.1 hup, h⟩
  · rintro (⟨m, hlow, hup, hx⟩ | ⟨hx, hlow⟩ | ⟨hx, hup⟩)
    · exact hgrid m hlow hup hx
    · rwa [DoubleRange.clamp, if_pos hlow]
    · rwa [DoubleRange.clamp, if_neg (not_lt.2 (range.le.trans hup.le)), if_pos hup]

/-- A double comes back as the nearest number on the grid, clamped. -/
theorem parse_saveDouble (pct : Bool) (range : DoubleRange) {q : ℚ} (hq : |q| ≤ 2 ^ 1024) :
    parseDouble pct range (printed 512 (saveDouble pct q)) =
      { value := range.clamp (roundTo 4 q / 10 ^ 4), faults := 0 } := by
  have hroom : ∀ k v, k ≤ 4 → |v| ≤ 2 ^ 1024 * 100 → printed 512 (printFixed k v) = printFixed k v := by
    intro k v hk hv
    have hdecimal : 2 ^ 1024 * 100 ≤ 10 ^ 400 - 1 := by decide +kernel
    have hbound : |v| ≤ (10 ^ 400 - 1 : ℕ) := hv.trans (by exact_mod_cast (Nat.cast_le (α := ℚ)).2 hdecimal)
    exact printed_eq ((printFixed_length hbound (by decide)).trans_lt (by omega))
  have hne : ∀ k v, printFixed k v ≠ [] := fun k v hnil =>
    Nat.toDigits_ne_nil (List.append_eq_nil_iff.1 (List.append_eq_nil_iff.1 hnil).2).1
  have hparse : ∀ k v, parseDoubleFastChecked (printFixed k v) = ((roundTo k v : ℚ) / 10 ^ k, false) := fun k v => by
    rw [parseDoubleFastChecked, if_neg (hne k v), fromChars_printFixed]
    rfl
  cases pct with
  | false =>
    rw [saveDouble, if_neg Bool.false_ne_true,
      hroom 4 q (by decide) (hq.trans (le_mul_of_one_le_right (by positivity) (by norm_num))),
      parseDouble, hparse]
    rfl
  | true =>
    have hscaled : |q * 100| ≤ 2 ^ 1024 * 100 := by
      rw [abs_mul, abs_of_pos (by norm_num : (0 : ℚ) < 100)]
      exact mul_le_mul_of_nonneg_right hq (by norm_num)
    have hgrid : (roundTo 4 q : ℚ) / 10 ^ 2 / 100 = roundTo 4 q / 10 ^ 4 := by
      rw [div_div]
      norm_num
    rw [saveDouble, if_pos rfl, hroom 2 _ (by decide) hscaled, parseDouble, hparse, roundTo_mul_hundred]
    dsimp only
    rw [if_pos rfl, hgrid]
    rfl

/-- The payload of a number on the grid leads back to it, or to the ceiling on its side. -/
theorem fp2FromDouble_grid {range : DoubleRange} {x : Fpn} (m : ℤ) (hlow : range.clampMin ≤ m / 10 ^ 4)
    (hup : (m : ℚ) / 10 ^ 4 ≤ range.clampMax) (hx : fp2FromDouble (m / 10 ^ 4) = x) :
    fp2FromDouble (range.clamp (roundTo 4 (fp2ToDouble x) / 10 ^ 4)) = x := by
  subst hx
  by_cases hin : -9000000000000000000 ≤ (m : ℚ) / 10 ^ 4 ∧ (m : ℚ) / 10 ^ 4 ≤ 9000000000000000000
  · have hnear := fp2FromDouble_near hin
    have hround : roundTo 4 (fp2ToDouble (fp2FromDouble (m / 10 ^ 4))) = m := by
      refine roundTo_of_near ?_
      have hscale : fp2ToDouble (fp2FromDouble (m / 10 ^ 4)) * 10 ^ 4 - m =
          (fp2ToDouble (fp2FromDouble (m / 10 ^ 4)) - m / 10 ^ 4) * 10 ^ 4 := by ring
      rw [hscale, abs_mul, abs_of_pos (by norm_num : (0 : ℚ) < 10 ^ 4)]
      calc _ < 1 / 2 ^ 64 * (10 ^ 4 : ℚ) := mul_lt_mul_of_pos_right hnear (by norm_num)
        _ < 1 / 2 := by norm_num
    rw [hround, DoubleRange.clamp_of_mem hlow hup]
  · -- out of range: the ceiling is printed as a number that is out of range as well
    rcases not_and_or.1 hin with hbelow | habove
    · have hceiling : roundTo 4 (fp2ToDouble (Fpn.ceiling true)) = -92233720368547758080000 := by decide +kernel
      rw [fp2FromDouble_below (not_le.1 hbelow), hceiling]
      exact fp2FromDouble_below (DoubleRange.clamp_lt hlow (by norm_num) (not_le.1 hbelow))
    · have hceiling : roundTo 4 (fp2ToDouble (Fpn.ceiling false)) = 92233720368547758080000 := by decide +kernel
      rw [fp2FromDouble_above (not_le.1 habove), hceiling]
      exact fp2FromDouble_above (DoubleRange.lt_clamp hup (by norm_num) (not_le.1 habove))

theorem abs_fp2ToDouble (a : Fpn) : |fp2ToDouble a| ≤ 2 ^ 1024 := by
  have hlow : (-(2 ^ 127 : ℤ) : ℚ) ≤ (a.v : ℚ) := by exact_mod_cast a.lower
  have hup : (a.v : ℚ) ≤ (2 ^ 127 : ℤ) := by exact_mod_cast a.upper.trans (by decide)
  have hbound : |fp2ToDouble a| ≤ 2 ^ 64 := by
    rw [fp2ToDouble_eq, abs_div, abs_of_pos (by norm_num : (0 : ℚ) < 2 ^ 64), div_le_iff₀ (by norm_num), abs_le]
    push_cast at hlow hup
    constructor <;> linarith
  exact hbound.trans (pow_le_pow_right₀ (by norm_num) (by norm_num))

/-! ### Integers -/

theorem IntRange.clamp_of_mem {range : IntRange} {v : ℤ} (hlow : range.clampMin.toInt ≤ v)
    (hup : v ≤ range.clampMax.toInt) :
    range.clamp v = v := by
  rw [IntRange.clamp, if_neg (not_lt.2 hlow), if_neg (not_lt.2 hup)]

theorem IntType.ofInt_toInt (type : IntType) (x : BitVec type.width.bits) : BitVec.ofInt _ (type.toInt x) = x := by
  unfold IntType.toInt
  split
  · exact BitVec.ofInt_toInt
  · rw [BitVec.ofInt_natCast, BitVec.ofNat_toNat, BitVec.setWidth_eq]

/-- A number that fits an `int` is read as it was written. -/
theorem atoi_decimalInt_toInt {n : ℤ} (hlow : -2 ^ 31 ≤ n) (hup : n < 2 ^ 31) : (atoi (decimalInt n)).toInt = n := by
  have hn : (Int32.ofInt n).toInt = n := Int32.toInt_ofInt_of_le hlow hup
  have hread := atoi_decimalInt (Int32.ofInt n)
  rw [hn] at hread
  rw [hread, hn]

theorem saveInt_unsigned {type : IntType} (h : type.signed = false) (x : BitVec type.width.bits) :
    saveInt type x = Nat.toDigits 10 x.toNat := by
  rw [saveInt, h, if_neg Bool.false_ne_true]

theorem saveInt_length (type : IntType) (x : BitVec type.width.bits) : (saveInt type x).length < 512 := by
  have hsmall : x.toNat < 2 ^ 64 ∧ x.toInt.natAbs < 2 ^ 64 := by
    obtain ⟨signed, width⟩ := type
    have hx := x.isLt
    have hlt := x.toInt_lt
    have hle := x.le_toInt
    cases width <;> simp only [IntWidth.bits] at hx hlt hle ⊢ <;> omega
  have hdigits : ∀ n < 2 ^ 64, (Nat.toDigits 10 n).length ≤ 20 := fun n hn =>
    (Nat.length_toDigits_le_iff (by decide) (by decide)).2 (hn.trans (by decide))
  unfold saveInt decimalInt
  split
  · split
    · have := hdigits _ hsmall.2
      rw [List.length_cons]
      omega
    · have := hdigits _ hsmall.2
      omega
  · have := hdigits _ hsmall.1
    omega

/-- An unsigned number below `2⁶³` is read as it was written. -/
theorem parseInt_saveInt_unsigned {type : IntType} (h : type.signed = false) (x : BitVec type.width.bits)
    (hx : x.toNat < 2 ^ 63) : parseInt type (saveInt type x) = x.toNat := by
  have hword : (UInt64.ofNat x.toNat).toNat = x.toNat := UInt64.toNat_ofNat_of_lt' (hx.trans (by decide))
  have hread := strtoull_decimal (UInt64.ofNat x.toNat)
  rw [decimal, hword] at hread
  rw [saveInt_unsigned h, parseInt, h, if_neg Bool.false_ne_true, hread, Int64.toInt_ofNat_of_lt hx]

/-- An integer within its bounds comes back if a text can have produced it. -/
theorem parse_saveInt {type : IntType} {range : IntRange} {x : BitVec type.width.bits}
    (hlow : range.clampMin.toInt ≤ type.toInt x) (hup : type.toInt x ≤ range.clampMax.toInt)
    {val : List Char} (hval : BitVec.ofInt _ (range.clamp (parseInt type val)) = x) :
    BitVec.ofInt _ (range.clamp (parseInt type (saveInt type x))) = x := by
  have hmin := range.clampMin.le_toInt
  have hmax := range.clampMax.toInt_lt
  have hself : range.clamp (type.toInt x) = type.toInt x := IntRange.clamp_of_mem hlow hup
  suffices hread : range.clamp (parseInt type (saveInt type x)) = type.toInt x by rw [hread, type.ofInt_toInt]
  cases hsigned : type.signed with
  | false =>
    have hx : type.toInt x = x.toNat := by rw [IntType.toInt, hsigned, if_neg Bool.false_ne_true]
    rw [parseInt_saveInt_unsigned hsigned x (by omega), ← hx, hself]
  | true =>
    have hx : type.toInt x = x.toInt := by rw [IntType.toInt, hsigned, if_pos rfl]
    have hatoi : ∀ text, parseInt type text = (atoi text).toInt := fun text => by rw [parseInt, hsigned, if_pos rfl]
    have hsave : saveInt type x = decimalInt (type.toInt x) := by rw [saveInt, hsigned, if_pos rfl, hx]
    by_cases hfits : -2 ^ 31 ≤ type.toInt x ∧ type.toInt x < 2 ^ 31
    · rw [hatoi, hsave, atoi_decimalInt_toInt hfits.1 hfits.2, hself]
    · -- beyond an `int` a bound put it there, and puts it there again
      have hwide : type.width = .w64 := by
        have hlt := x.toInt_lt
        have hle := x.le_toInt
        rw [← hx] at hlt hle
        cases hw : type.width with
        | w64 => rfl
        | _ =>
          rw [hw] at hlt hle
          simp only [IntWidth.bits] at hlt hle
          omega
      have hclamped : range.clamp (parseInt type val) = type.toInt x := by
        rw [hx, ← hval, BitVec.toInt_ofInt, hwide, Int.bmod_eq_of_le] <;>
        · simp only [IntRange.clamp, IntWidth.bits]
          split <;> omega
      rw [hatoi] at hclamped ⊢
      have hval32 := (atoi val).toInt_lt
      have hval32' := (atoi val).le_toInt
      have hsave32 := (atoi (saveInt type x)).toInt_lt
      have hsave32' := (atoi (saveInt type x)).le_toInt
      revert hclamped
      unfold IntRange.clamp
      split <;> split <;> (try split) <;> (try split) <;> omega

/-- The labels that match the number of an index are that index's. -/
def LabelsApart (type : IntType) (labels : EnumLabels) (x : BitVec type.width.bits) : Prop :=
  ∀ i, labels.labels.findIdx? (sameIgnoringCase (saveInt type x)) = some i → (i : ℤ) = type.toInt x

/-- An index comes back exactly when no other label is written like it. -/
theorem parse_saveEnum {type : IntType} {labels : EnumLabels} {x : BitVec type.width.bits} (hlow : 0 ≤ type.toInt x)
    (hup : type.toInt x < labels.labels.length) :
    BitVec.ofInt _ (parseEnum labels (saveInt type x)) = x ↔ LabelsApart type labels x := by
  have hcount := labels.count_le
  have hnat : type.toInt x = x.toNat := by
    obtain ⟨signed, width⟩ := type
    unfold IntType.toInt at hlow ⊢
    cases signed with
    | false => rfl
    | true => exact BitVec.toInt_eq_toNat_of_msb (by rw [BitVec.msb_eq_toInt]; exact decide_eq_false (not_lt.2 hlow))
  have hnumber : (atoi (saveInt type x)).toInt = type.toInt x := by
    have hsave : saveInt type x = decimalInt (type.toInt x) := by
      unfold saveInt decimalInt IntType.toInt
      unfold IntType.toInt at hlow
      cases type.signed with
      | false => rfl
      | true => rfl
    rw [hsave, atoi_decimalInt_toInt (by omega) (by omega)]
  have hkeep : ∀ i : ℕ, i < labels.labels.length → BitVec.ofInt type.width.bits i = x → (i : ℤ) = type.toInt x := by
    intro i hi hx
    have hmod := congrArg BitVec.toNat hx
    have hwidth : 2 ^ 8 ≤ 2 ^ type.width.bits :=
      Nat.pow_le_pow_right (by decide) (by cases type.width <;> decide)
    rw [BitVec.ofInt_natCast, BitVec.toNat_ofNat, Nat.mod_eq_of_lt (by omega)] at hmod
    omega
  unfold LabelsApart parseEnum
  rcases hfind : labels.labels.findIdx? (sameIgnoringCase (saveInt type x)) with _ | i
  · refine iff_of_true ?_ fun i hi => by cases hi
    simp only [Option.map_none, Option.getD_none, hnumber]
    rw [if_neg (by omega), type.ofInt_toInt]
  · have hi : i < labels.labels.length := (List.findIdx?_eq_some_iff_findIdx_eq.1 hfind).1
    simp only [Option.map_some, Option.getD_some, Int.ofNat_eq_natCast]
    rw [if_neg (by omega)]
    constructor
    · intro hx j hj
      obtain rfl := Option.some.inj hj
      exact hkeep i hi hx
    · intro hall
      rw [hall i rfl, type.ofInt_toInt]

/-! ### Saving and parsing -/

/-- Some text is parsed to the value. -/
def Produced (f : CfgFieldType) (x : f.Value) : Prop := ∃ val p, cfgParseField f val = some p ∧ p.value = x

/-- The value is within the bounds of its descriptor. Those of binary fixed point bound the double it is made of. -/
def InRange : (f : CfgFieldType) → f.Value → Prop
  | .money _ range, a => (moneyFromPayload range.clampMin).v ≤ a.v ∧ a.v ≤ (moneyFromPayload range.clampMax).v
  | .fpBinary _ _, _ => True
  | .floating _ range, v => range.clampMin ≤ v ∧ v ≤ range.clampMax
  | .int type range, x => range.clampMin.toInt ≤ type.toInt x ∧ type.toInt x ≤ range.clampMax.toInt
  | .intEnum type labels, x => 0 ≤ type.toInt x ∧ type.toInt x < labels.labels.length
  | .bool _, _ => True
  | .chars _, _ => True

/-- What the text of a field keeps. -/
def Kept : (f : CfgFieldType) → f.Value → Prop
  | .money pct _, a => pct = true → (a.v.natAbs : ℤ) * 100 ≤ moneyMax
  | .fpBinary _ range, a => OnGrid range fp2FromDouble a (fp2ToDouble a)
  | .floating _ range, v => OnGrid range id v v
  | .int _ _, _ => True
  | .intEnum type labels, x => LabelsApart type labels x
  | .bool _, _ => True
  | .chars _, text => text.length < 512

theorem slope_finite : (-2 ^ 1024 : ℚ) ≤ -1 ∧ (1 : ℚ) ≤ 2 ^ 1024 :=
  ⟨neg_le_neg (one_le_pow₀ one_le_two), one_le_pow₀ one_le_two⟩

/-- The bounds of `min_long_slope`. -/
def slopeRange : DoubleRange := ⟨-1, 1, neg_le_self zero_le_one, slope_finite⟩

/-- The slope a text sets. -/
def slopeOf (val : List Char) : Fpn := fp2FromDouble (parseDouble false slopeRange val).value

end FoxTrader
