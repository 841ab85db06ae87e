import FoxTrader.LegRounding
import FoxTrader.Lib.Decimal
import Mathlib.Data.List.TakeWhile

/-! # Money from decimal text

    `Money_FromString` scans a text once, without looking at what it reads: digits are accumulated in two
    wrapping 64-bit words, before and behind the dot, and everything that should not be there only
    raises a flag. Whatever passes the flags is a decimal text with both parts in their words. The scale of
    the fraction is taken from a table of twenty powers of ten, and the number of fractional digits is
    clamped to it: from twenty digits on, a fraction that does not round to nothing is read too large. -/

namespace FoxTrader

open Lib

/-! ### The scan -/

/-- The locals of the scan. -/
structure ScanLoop where
  intPart : UInt64
  fracInt : UInt64
  nFrac : UInt32
  nDigits : UInt32
  seenDot : Bool
  bad : Bool
  dup : Bool
  wrap : Bool

/-- The accumulator times ten and one digit more does not fit its word. -/
def wouldWrap (part dig : UInt64) : Bool := decide ((18446744073709551615 - dig) / 10 < part)

/-- What a character adds to an accumulator, where it is a digit of its part. -/
def appendDigit (inPart : Bool) (part dig : UInt64) : UInt64 := part + inPart.toUInt64 * (part * 9 + dig)

/-- One character of the scan. -/
def scanChar (s : ScanLoop) (c : Char) : ScanLoop :=
  let isDigit := c.isDigit
  let isDot := decide (c = '.')
  let dig := UInt64.ofNat (c.toNat - '0'.toNat)
  let inInt := isDigit && !s.seenDot
  let inFrac := isDigit && s.seenDot
  { intPart := appendDigit inInt s.intPart dig
    fracInt := appendDigit inFrac s.fracInt dig
    nFrac := s.nFrac + inFrac.toUInt32
    nDigits := s.nDigits + isDigit.toUInt32
    seenDot := s.seenDot || isDot
    bad := s.bad || !(isDigit || isDot)
    dup := s.dup || (isDot && s.seenDot)
    wrap := s.wrap || (inInt && wouldWrap s.intPart dig) || (inFrac && wouldWrap s.fracInt dig) }

def ScanLoop.init : ScanLoop :=
  { intPart := 0, fracInt := 0, nFrac := 0, nDigits := 0, seenDot := false, bad := false, dup := false,
    wrap := false }

/-- `FP_SCAN_BAD_CHAR`, `FP_SCAN_DUP_DOT`, `FP_SCAN_NO_DIGITS` and `FP_SCAN_WRAP`. -/
structure FpScan where
  intPart : UInt64
  fracInt : UInt64
  nFrac : UInt32
  neg : Bool
  badChar : Bool
  dupDot : Bool
  noDigits : Bool
  wrap : Bool

/-- The sign, and the text behind it. -/
def scanSign : List Char → Bool × List Char
  | '-' :: cs => (true, cs)
  | '+' :: cs => (false, cs)
  | cs => (false, cs)

/-- `fp_scan_decimal_string`. The index is an `unsigned int`: in a longer text it starts over and never
    meets the terminator. -/
def fpScanDecimalString (str : List Char) : Option FpScan :=
  if str.length < 4294967296 then
    let sign := scanSign str
    let s := sign.2.foldl scanChar .init
    some
      { intPart := s.intPart, fracInt := s.fracInt, nFrac := s.nFrac, neg := sign.1, badChar := s.bad, dupDot := s.dup
        noDigits := s.nDigits = 0, wrap := s.wrap }
  else none

/-! ### The scale -/

/-- `FP_POW10`. -/
def fpPow10 (k : ℕ) : UInt64 := UInt64.ofNat (10 ^ k)

/-- `MONEY_PARSE_MALFORMED`, `MONEY_PARSE_OVERFLOW` and `MONEY_PARSE_EXCESS_DP`. -/
structure MoneyParse where
  value : Money
  malformed : Bool
  overflow : Bool
  excessDp : Bool
  deriving DecidableEq

/-- The number of fractional digits, at most nineteen. -/
def clampFrac (nFrac : UInt32) : ℕ := if nFrac.toNat < 20 then nFrac.toNat else 19

/-- The fraction in units of `10⁻⁸`. -/
def fracScaled (nf : ℕ) (fracInt : UInt64) : UInt64 :=
  if nf ≤ 8 then fracInt * fpPow10 (8 - nf)
  else
    let d := fpPow10 (nf - 8)
    let q := fracInt / d
    let r := fracInt - q * d
    UInt64.ofNat (Money.roundHalfEven q.toNat r.toNat d.toNat)

namespace FpScan

/-- The payload of what was read. -/
def scaled (s : FpScan) : ℕ := s.intPart.toNat * moneyScale + (fracScaled (clampFrac s.nFrac) s.fracInt).toNat

def toMoney (s : FpScan) : MoneyParse :=
  let ovf := decide (moneyMax < s.scaled)
  let mag : ℤ := if ovf then moneyMax else s.scaled
  { value := (Money.saturate (if s.neg && decide (s.scaled ≠ 0) then -mag else mag)).val
    malformed := s.badChar || s.dupDot || s.noDigits
    overflow := s.wrap || ovf
    excessDp := decide (8 < clampFrac s.nFrac) }

end FpScan

/-- `Money_FromString`. -/
def moneyFromString (str : List Char) : Option MoneyParse := (fpScanDecimalString str).map FpScan.toMoney

/-! ### What passes the flags -/

section Shape

variable {s : ScanLoop} {cs : List Char}

theorem foldl_scanChar_bad : (cs.foldl scanChar s).bad = (s.bad || cs.any fun c => !(c.isDigit || decide (c = '.'))) := by
  induction cs generalizing s with
  | nil => rw [List.foldl_nil, List.any_nil, Bool.or_false]
  | cons c cs ih => rw [List.foldl_cons, ih, List.any_cons, ← Bool.or_assoc]; rfl

/-- Behind a dot every dot is a second one. -/
theorem foldl_scanChar_dup (hdot : s.seenDot = true) :
    (cs.foldl scanChar s).dup = (s.dup || cs.any fun c => decide (c = '.')) := by
  induction cs generalizing s with
  | nil => rw [List.foldl_nil, List.any_nil, Bool.or_false]
  | cons c cs ih =>
    have hdup : (scanChar s c).dup = (s.dup || decide (c = '.')) := by
      show (s.dup || (decide (c = '.') && s.seenDot)) = _
      rw [hdot, Bool.and_true]
    have hseen : (scanChar s c).seenDot = true := by
      show (s.seenDot || decide (c = '.')) = true
      rw [hdot, Bool.true_or]
    rw [List.foldl_cons, ih hseen, hdup, List.any_cons, Bool.or_assoc]

/-- The accumulator and its flag over the digits of one part. -/
def accumulate (cs : List Char) : UInt64 × Bool :=
  cs.foldl (fun a c => (appendDigit true a.1 (UInt64.ofNat (c.toNat - '0'.toNat)),
    a.2 || wouldWrap a.1 (UInt64.ofNat (c.toNat - '0'.toNat)))) (0, false)

theorem accumulate_concat (cs : List Char) (c : Char) :
    accumulate (cs ++ [c]) =
      (appendDigit true (accumulate cs).1 (UInt64.ofNat (c.toNat - '0'.toNat)),
        (accumulate cs).2 || wouldWrap (accumulate cs).1 (UInt64.ofNat (c.toNat - '0'.toNat))) := by
  rw [accumulate, List.foldl_append]
  rfl

theorem appendDigit_false (part dig : UInt64) : appendDigit false part dig = part := by
  show part + 0 * (part * 9 + dig) = part
  rw [UInt64.zero_mul, UInt64.add_zero]

theorem digit_ne_dot {c : Char} (h : c.isDigit = true) : decide (c = '.') = false :=
  decide_eq_false (by rintro rfl; exact absurd h (by decide))

/-- A digit before the dot. -/
theorem scanChar_int {c : Char} (hc : c.isDigit = true) (hdot : s.seenDot = false) :
    scanChar s c =
      { s with
        intPart := appendDigit true s.intPart (UInt64.ofNat (c.toNat - '0'.toNat)), nDigits := s.nDigits + 1
        wrap := s.wrap || wouldWrap s.intPart (UInt64.ofNat (c.toNat - '0'.toNat)) } := by
  have hzero : false.toUInt32 = 0 := rfl
  have hone : true.toUInt32 = 1 := rfl
  simp only [scanChar, hc, digit_ne_dot hc, hdot, appendDigit_false, Bool.not_false, Bool.and_true, Bool.and_false,
    Bool.true_and, Bool.false_and, Bool.or_false, Bool.not_true, hzero, hone, UInt32.add_zero]

/-- A digit behind it. -/
theorem scanChar_frac {c : Char} (hc : c.isDigit = true) (hdot : s.seenDot = true) :
    scanChar s c =
      { s with
        fracInt := appendDigit true s.fracInt (UInt64.ofNat (c.toNat - '0'.toNat)), nFrac := s.nFrac + 1
        nDigits := s.nDigits + 1
        wrap := s.wrap || wouldWrap s.fracInt (UInt64.ofNat (c.toNat - '0'.toNat)) } := by
  have hone : true.toUInt32 = 1 := rfl
  simp only [scanChar, hc, digit_ne_dot hc, hdot, appendDigit_false, Bool.and_true, Bool.and_false, Bool.true_and,
    Bool.false_and, Bool.or_false, Bool.not_true, hone]

/-- The digits before the dot. -/
theorem foldl_scanChar_int (h : ∀ c ∈ cs, c.isDigit = true) :
    cs.foldl scanChar .init =
      { ScanLoop.init with
        intPart := (accumulate cs).1, nDigits := UInt32.ofNat cs.length, wrap := (accumulate cs).2 } := by
  induction cs using List.reverseRecOn with
  | nil => rfl
  | append_singleton cs c ih =>
    have hc := h c (List.mem_append_right _ List.mem_cons_self)
    rw [List.foldl_append, ih fun d hd => h d (List.mem_append_left _ hd), accumulate_concat, List.length_append,
      List.foldl_cons, List.foldl_nil, scanChar_int hc rfl, List.length_singleton, UInt32.ofNat_add]
    rfl

/-- The digits behind the dot. -/
theorem foldl_scanChar_frac (hdot : s.seenDot = true) (hfrac : s.fracInt = 0) (hn : s.nFrac = 0)
    (h : ∀ c ∈ cs, c.isDigit = true) :
    cs.foldl scanChar s =
      { s with
        fracInt := (accumulate cs).1, nFrac := UInt32.ofNat cs.length, nDigits := s.nDigits + UInt32.ofNat cs.length
        wrap := s.wrap || (accumulate cs).2 } := by
  induction cs using List.reverseRecOn with
  | nil =>
    cases s
    cases hfrac
    cases hn
    show ScanLoop.mk .. = ScanLoop.mk ..
    congr 1
    · exact (UInt32.add_zero _).symm
    · exact (Bool.or_false _).symm
  | append_singleton cs c ih =>
    have hc := h c (List.mem_append_right _ List.mem_cons_self)
    rw [List.foldl_append, ih fun d hd => h d (List.mem_append_left _ hd), accumulate_concat, List.length_append,
      List.foldl_cons, List.foldl_nil, List.length_singleton, UInt32.ofNat_add]
    refine Eq.trans (scanChar_frac hc ?_) ?_
    · exact hdot
    · rw [Bool.or_assoc, UInt32.add_assoc]
      rfl

/-- A digit more: the flag is the carry out of the word. -/
theorem appendDigit_spec (part : UInt64) {dig : ℕ} (hdig : dig ≤ 9) :
    (wouldWrap part (UInt64.ofNat dig) = false ↔ part.toNat * 10 + dig < 2 ^ 64) ∧
      (part.toNat * 10 + dig < 2 ^ 64 → (appendDigit true part (UInt64.ofNat dig)).toNat = part.toNat * 10 + dig) := by
  have hword : (UInt64.ofNat dig).toNat = dig := UInt64.toNat_ofNat_of_lt' (by show dig < 2 ^ 64; omega)
  have hsub : (18446744073709551615 - UInt64.ofNat dig).toNat = 18446744073709551615 - dig := by
    rw [UInt64.toNat_sub_of_le _ _ (by rw [UInt64.le_iff_toNat_le, hword]; exact hdig.trans (by decide)), hword]
    rfl
  constructor
  · rw [wouldWrap, decide_eq_false_iff_not, UInt64.lt_iff_toNat_lt, UInt64.toNat_div, hsub]
    show ¬(18446744073709551615 - dig) / 10 < part.toNat ↔ _
    omega
  · intro hfits
    have hone : true.toUInt64 = 1 := rfl
    have hnine : (9 : UInt64).toNat = 9 := rfl
    rw [appendDigit, hone, UInt64.one_mul, UInt64.toNat_add, UInt64.toNat_add, UInt64.toNat_mul, hword, hnine]
    omega

/-- The word holds the number of the digits exactly when no digit has raised the flag. -/
theorem accumulate_spec (h : ∀ c ∈ cs, c.isDigit = true) :
    ((accumulate cs).2 = false ↔ digitsNat cs < 2 ^ 64) ∧
      (digitsNat cs < 2 ^ 64 → (accumulate cs).1.toNat = digitsNat cs) := by
  induction cs using List.reverseRecOn with
  | nil => exact ⟨iff_of_true rfl (by decide), fun _ => rfl⟩
  | append_singleton cs c ih =>
    obtain ⟨hflag, hval⟩ := ih fun d hd => h d (List.mem_append_left _ hd)
    have hc := digit_le (h c (List.mem_append_right _ List.mem_cons_self))
    obtain ⟨hwrap, happend⟩ := appendDigit_spec (accumulate cs).1 hc
    rw [accumulate_concat, digitsNat_concat, Bool.or_eq_false_iff, hflag, hwrap]
    constructor
    · constructor
      · rintro ⟨hfits, hmore⟩
        rwa [hval hfits] at hmore
      · intro hmore
        have hfits : digitsNat cs < 2 ^ 64 := by omega
        rw [hval hfits]
        exact ⟨hfits, hmore⟩
    · intro hmore
      have hfits : digitsNat cs < 2 ^ 64 := by omega
      rw [hval hfits] at happend
      exact happend hmore

theorem scanChar_dot (hdot : s.seenDot = false) : scanChar s '.' = { s with seenDot := true } := by
  have hzero : false.toUInt32 = 0 := rfl
  have hnot : '.'.isDigit = false := by decide
  simp only [scanChar, hnot, hdot, appendDigit_false, decide_true, Bool.and_false, Bool.false_and, Bool.or_false,
    Bool.or_true, Bool.not_true, hzero, UInt32.add_zero]

end Shape

theorem ofNat_ne_zero {n : ℕ} (hpos : n ≠ 0) (hlt : n < 4294967296) : UInt32.ofNat n ≠ 0 := by
  intro h
  have hnat := congrArg UInt32.toNat h
  rw [UInt32.toNat_ofNat_of_lt' (by exact hlt)] at hnat
  exact hpos hnat

/-- The signs, and nothing else, are taken off. -/
theorem scanSign_text (d : Decimal) : scanSign d.text = (decide (d.sign = ['-']), d.body) := by
  have hnone : ∀ c cs, c ≠ '-' → c ≠ '+' → scanSign (c :: cs) = (false, c :: cs) := fun c cs hminus hplus => by
    unfold scanSign
    split
    · next h => exact absurd (List.cons.inj h).1 hminus
    · next h => exact absurd (List.cons.inj h).1 hplus
    · rfl
  rw [Decimal.text]
  obtain h | h | h := d.sign_mem
  · rw [h, List.nil_append]
    show _ = (false, d.body)
    unfold Decimal.body
    cases hint : d.int with
    | nil =>
      rw [List.nil_append]
      split
      · exact hnone _ _ (by decide) (by decide)
      · rfl
    | cons c cs =>
      have hc := d.int_digits c (hint ▸ List.mem_cons_self)
      exact hnone _ _ (by rintro rfl; exact absurd hc (by decide)) (by rintro rfl; exact absurd hc (by decide))
  · rw [h]
    rfl
  · rw [h]
    rfl

/-- What the scan of a decimal text leaves. -/
def scanned (d : Decimal) : FpScan :=
  { intPart := (accumulate d.int).1, fracInt := (accumulate d.frac).1, nFrac := UInt32.ofNat d.frac.length
    neg := decide (d.sign = ['-']), badChar := false, dupDot := false, noDigits := false
    wrap := (accumulate d.int).2 || (accumulate d.frac).2 }

theorem fpScanDecimalString_text {d : Decimal} (hlen : d.text.length < 4294967296) :
    fpScanDecimalString d.text = some (scanned d) := by
  have hbody := d.length_le.trans_lt hlen
  have hsome : d.int.length + d.frac.length ≠ 0 := by
    rw [← List.length_append]
    exact mt List.length_eq_zero_iff.1 d.some_digit
  have hcount := ofNat_ne_zero hsome hbody
  unfold fpScanDecimalString scanned
  rw [if_pos hlen, scanSign_text]
  dsimp only
  unfold Decimal.body
  split
  next hdot =>
    rw [List.foldl_append, List.foldl_cons, foldl_scanChar_int d.int_digits, scanChar_dot rfl,
      foldl_scanChar_frac rfl rfl rfl d.frac_digits]
    dsimp only
    rw [← UInt32.ofNat_add, decide_eq_false hcount]
    rfl
  next hdot =>
    have hfrac := d.frac_dot (Bool.eq_false_of_not_eq_true hdot)
    rw [hfrac, List.length_nil, Nat.add_zero] at hcount
    rw [List.append_nil, foldl_scanChar_int d.int_digits, hfrac]
    dsimp only
    have hnil : accumulate [] = (0, false) := rfl
    rw [decide_eq_false hcount, hnil, Bool.or_false]
    rfl

theorem scanSign_append (str : List Char) :
    ∃ sign : List Char, (sign = [] ∨ sign = ['-'] ∨ sign = ['+']) ∧ str = sign ++ (scanSign str).2 := by
  unfold scanSign
  split
  · exact ⟨['-'], .inr (.inl rfl), rfl⟩
  · exact ⟨['+'], .inr (.inr rfl), rfl⟩
  · exact ⟨[], .inl rfl, rfl⟩

/-- Behind the sign: digits, and at most one dot with digits behind it. -/
theorem exists_body {cs : List Char} (hbad : (cs.foldl scanChar .init).bad = false)
    (hdup : (cs.foldl scanChar .init).dup = false) :
    ∃ (int frac : List Char) (dot : Bool), (∀ c ∈ int, c.isDigit = true) ∧ (∀ c ∈ frac, c.isDigit = true) ∧
      (dot = false → frac = []) ∧ cs = int ++ if dot then '.' :: frac else [] := by
  have hint : ∀ c ∈ cs.takeWhile Char.isDigit, c.isDigit = true := fun c hc => List.mem_takeWhile_imp hc
  have hsplit := (List.takeWhile_append_dropWhile (p := Char.isDigit) (l := cs)).symm
  cases hrest : cs.dropWhile Char.isDigit with
  | nil =>
    refine ⟨cs.takeWhile Char.isDigit, [], false, hint, fun c hc => absurd hc List.not_mem_nil, fun _ => rfl, ?_⟩
    rwa [hrest] at hsplit
  | cons c frac =>
    have hc : c.isDigit = false := by
      have hhead := List.head?_dropWhile_not Char.isDigit cs
      rw [hrest] at hhead
      exact hhead
    rw [hrest] at hsplit
    -- No flag means that the character behind the digits is the dot, and that only digits follow it.
    rw [foldl_scanChar_bad, Bool.or_eq_false_iff, List.any_eq_false] at hbad
    have hallowed : ∀ x ∈ cs, x.isDigit = true ∨ x = '.' := fun x hx => by
      have hx' := hbad.2 x hx
      rwa [Bool.not_eq_true, Bool.not_eq_false', Bool.or_eq_true, decide_eq_true_eq] at hx'
    have hdot : c = '.' := (hallowed c (hsplit ▸ List.mem_append_right _ List.mem_cons_self)).resolve_left
      (by rw [hc]; exact Bool.false_ne_true)
    subst hdot
    refine ⟨cs.takeWhile Char.isDigit, frac, true, hint, fun x hx => ?_, fun h =>
      absurd h.symm Bool.false_ne_true, hsplit⟩
    rw [hsplit, List.foldl_append, List.foldl_cons, foldl_scanChar_int hint, scanChar_dot rfl,
      foldl_scanChar_dup rfl, Bool.or_eq_false_iff, List.any_eq_false] at hdup
    have hno : x ≠ '.' := by simpa using hdup.2 x hx
    exact (hallowed x (hsplit ▸ List.mem_append_right _ (List.mem_cons_of_mem _ hx))).resolve_right hno

/-- What raises no flag but that of the words is a decimal text. -/
theorem exists_decimal {str : List Char} {r : FpScan} (h : fpScanDecimalString str = some r)
    (hbad : r.badChar = false)
    (hdup : r.dupDot = false) (hdigits : r.noDigits = false) : ∃ d : Decimal, d.text = str := by
  unfold fpScanDecimalString at h
  split at h
  · obtain ⟨sign, hsign, hstr⟩ := scanSign_append str
    cases h
    obtain ⟨int, frac, dot, hint, hfrac, hdot, hcs⟩ := exists_body hbad hdup
    have hsome : int ++ frac ≠ [] := by
      intro hnil
      obtain ⟨rfl, rfl⟩ := List.append_eq_nil_iff.1 hnil
      change decide (((scanSign str).2.foldl scanChar .init).nDigits = 0) = false at hdigits
      rw [hcs] at hdigits
      cases dot <;> exact absurd hdigits (by decide)
    refine ⟨⟨sign, int, dot, frac, hsign, hint, hfrac, hdot, hsome⟩, ?_⟩
    rw [hstr, hcs]
    rfl
  · cases h

/-! ### The scale -/

theorem fpPow10_toNat {k : ℕ} (hk : k ≤ 19) : (fpPow10 k).toNat = 10 ^ k := by
  refine UInt64.toNat_ofNat_of_lt' ?_
  exact (Nat.pow_le_pow_right (by decide) hk).trans_lt (by decide)

/-- Behind eight digits the fraction is rounded. -/
theorem fracScaled_rounds {nf : ℕ} (f : UInt64) (hlow : 8 < nf) (hup : nf ≤ 19) :
    ((fracScaled nf f).toNat : ℤ) = halfEven f.toNat (10 ^ (nf - 8)) := by
  have hpow := fpPow10_toNat (by omega : nf - 8 ≤ 19)
  have hpos : 0 < 10 ^ (nf - 8) := Nat.pow_pos (by decide)
  have hten : 10 ^ 1 ≤ 10 ^ (nf - 8) := Nat.pow_le_pow_right (by decide) (by omega)
  have hq : (f / fpPow10 (nf - 8)).toNat = f.toNat / 10 ^ (nf - 8) := by rw [UInt64.toNat_div, hpow]
  have hprod : (f / fpPow10 (nf - 8) * fpPow10 (nf - 8)).toNat = f.toNat / 10 ^ (nf - 8) * 10 ^ (nf - 8) := by
    rw [UInt64.toNat_mul, hq, hpow, Nat.mod_eq_of_lt ((Nat.div_mul_le_self ..).trans_lt f.toNat_lt)]
  have hr : (f - f / fpPow10 (nf - 8) * fpPow10 (nf - 8)).toNat = f.toNat % 10 ^ (nf - 8) := by
    rw [UInt64.toNat_sub_of_le _ _ (by rw [UInt64.le_iff_toNat_le, hprod]; exact Nat.div_mul_le_self ..), hprod]
    exact (Nat.mod_eq_sub_div_mul ..).symm
  have hquot : f.toNat / 10 ^ (nf - 8) ≤ f.toNat / 10 ^ 1 := Nat.div_le_div_left hten (by decide)
  have hword := f.toNat_lt
  rw [fracScaled, if_neg (by omega)]
  dsimp only
  rw [hq, hr, hpow, ← Money.roundHalfEven_eq _ hpos, UInt64.toNat_ofNat_of_lt']
  unfold Money.roundHalfEven
  dsimp only
  show _ < 2 ^ 64
  split <;> omega

/-- Up to nineteen digits the fraction is scaled as it should be. -/
theorem fracScaled_exact {nf : ℕ} {f : UInt64} (hup : nf ≤ 19) (hf : f.toNat < 10 ^ nf) :
    ((fracScaled nf f).toNat : ℤ) = halfEven (f.toNat * 10 ^ 8 : ℕ) (10 ^ nf) := by
  by_cases hlow : nf ≤ 8
  · have hpow := fpPow10_toNat (by omega : 8 - nf ≤ 19)
    have hsplit : 10 ^ (8 - nf) * 10 ^ nf = 10 ^ 8 := by
      rw [← Nat.pow_add]
      exact congrArg _ (by omega)
    have hlt : f.toNat * 10 ^ (8 - nf) < 10 ^ nf * 10 ^ (8 - nf) :=
      Nat.mul_lt_mul_of_pos_right hf (Nat.pow_pos (by decide))
    have hfull : f.toNat * 10 ^ 8 = f.toNat * 10 ^ (8 - nf) * 10 ^ nf := by rw [Nat.mul_assoc, hsplit]
    rw [Nat.mul_comm (10 ^ nf), hsplit] at hlt
    rw [fracScaled, if_pos hlow, UInt64.toNat_mul, hpow, Nat.mod_eq_of_lt (by omega), hfull,
      Nat.cast_mul (f.toNat * 10 ^ (8 - nf)), halfEven_mul (Nat.pow_pos (by decide))]
  · have hsplit : 10 ^ nf = 10 ^ (nf - 8) * 10 ^ 8 := by
      rw [← Nat.pow_add]
      exact congrArg _ (by omega)
    rw [fracScaled_rounds f (by omega) hup, hsplit, Nat.cast_mul,
      halfEven_mul_mul (Nat.pow_pos (by decide)) (by decide)]

/-- With more, it is only where it rounds to nothing. -/
theorem fracScaled_clamped_iff {n : ℕ} (f : UInt64) (hn : 20 ≤ n) :
    ((fracScaled 19 f).toNat : ℤ) = halfEven (f.toNat * 10 ^ 8 : ℕ) (10 ^ n) ↔ f.toNat ≤ 5 * 10 ^ 10 := by
  have hsplit : 10 ^ n = 10 ^ (n - 8) * 10 ^ 8 := by
    rw [← Nat.pow_add]
    exact congrArg _ (by omega)
  have hbig : 4 * 10 ^ 11 ≤ 10 ^ (n - 8) :=
    (by decide : 4 * 10 ^ 11 ≤ 10 ^ 12).trans (Nat.pow_le_pow_right (by decide) (by omega))
  rw [fracScaled_rounds f (by decide) le_rfl, hsplit, Nat.cast_mul,
    halfEven_mul_mul (Nat.pow_pos (by decide)) (by decide)]
  show halfEven _ (10 ^ 11) = _ ↔ _
  rw [halfEven_eq_halfEven_iff (by decide) hbig (Int.natCast_nonneg _)]
  omega

/-! ### The value -/

theorem clampFrac_ofNat {n : ℕ} (hn : n < 4294967296) : clampFrac (UInt32.ofNat n) = if n < 20 then n else 19 := by
  rw [clampFrac, UInt32.toNat_ofNat_of_lt' (by exact hn)]

/-- Within the closure the payload is returned under the sign. -/
theorem toMoney_value {s : FpScan} (hover : s.toMoney.overflow = false) :
    s.toMoney.value.v = if s.neg then -(s.scaled : ℤ) else s.scaled := by
  have hpos : 0 < moneyMax := by decide
  have hle : ¬moneyMax < (s.scaled : ℤ) := of_decide_eq_false (Bool.or_eq_false_iff.1 hover).2
  have hclean : ∀ z : ℤ, z = s.scaled ∨ z = -s.scaled → (Money.saturate z).val.v = z := fun z hz => by
    have hcases := Money.saturate_cases z
    omega
  unfold FpScan.toMoney
  dsimp only
  rw [decide_eq_false hle, if_neg Bool.false_ne_true]
  cases s.neg with
  | false => exact hclean _ (.inl rfl)
  | true =>
    rw [Bool.true_and, if_pos rfl]
    by_cases hzero : s.scaled = 0
    · rw [hzero, decide_eq_false (not_not.2 rfl), if_neg Bool.false_ne_true]
      exact hclean _ (.inl (by rw [hzero]))
    · rw [decide_eq_true hzero, if_pos rfl]
      exact hclean _ (.inr rfl)

/-- The words hold the digits, unless the overflow is flagged. -/
theorem scanned_words {d : Decimal} (hwrap : (scanned d).wrap = false) :
    (scanned d).intPart.toNat = digitsNat d.int ∧ (scanned d).fracInt.toNat = digitsNat d.frac := by
  obtain ⟨hint, hfrac⟩ := Bool.or_eq_false_iff.1 hwrap
  obtain ⟨hint', hintval⟩ := accumulate_spec d.int_digits
  obtain ⟨hfrac', hfracval⟩ := accumulate_spec d.frac_digits
  exact ⟨hintval (hint'.1 hint), hfracval (hfrac'.1 hfrac)⟩

/-- The payload is the nearest one if the fraction is scaled as it should be. -/
theorem scanned_nearest_iff {d : Decimal} (hover : (scanned d).toMoney.overflow = false) :
    (scanned d).toMoney.value.v = d.nearest 8 ↔
      ((fracScaled (clampFrac (UInt32.ofNat d.frac.length)) (accumulate d.frac).1).toNat : ℤ) =
        halfEven (digitsNat d.frac * 10 ^ 8 : ℕ) (10 ^ d.frac.length) := by
  obtain ⟨hint, -⟩ := scanned_words (Bool.or_eq_false_iff.1 hover).1
  rw [toMoney_value hover, d.nearest_eq (by decide), FpScan.scaled, hint]
  show (if decide (d.sign = ['-']) = true then _ else _) = _ ↔ _
  by_cases hneg : d.sign = ['-']
  · rw [decide_eq_true hneg, if_pos rfl, if_pos hneg, neg_inj, Nat.cast_add, Nat.cast_mul]
    exact add_right_inj _
  · rw [decide_eq_false hneg, if_neg Bool.false_ne_true, if_neg hneg, Nat.cast_add, Nat.cast_mul]
    exact add_right_inj _

/-- A parse without the two flags is that of a decimal text, and its value is the decimal rounded half-even
    exactly when there are nineteen fractional digits at most or all of them are worth `5 · 10¹⁰` at most. -/
theorem fromString_nearest_iff (str : List Char) (p : MoneyParse) (h : moneyFromString str = some p)
    (hmalformed : p.malformed = false) (hoverflow : p.overflow = false) :
    (∃ d : Decimal, d.text = str) ∧ ∀ d : Decimal, d.text = str →
      (p.value.v = d.nearest 8 ↔ d.frac.length ≤ 19 ∨ digitsNat d.frac ≤ 5 * 10 ^ 10) := by
  obtain ⟨r, hr, rfl⟩ := Option.map_eq_some_iff.1 h
  rw [FpScan.toMoney, Bool.or_eq_false_iff, Bool.or_eq_false_iff] at hmalformed
  refine ⟨exists_decimal hr hmalformed.1.1 hmalformed.1.2 hmalformed.2, ?_⟩
  rintro d rfl
  have hlen : d.text.length < 4294967296 := by
    unfold fpScanDecimalString at hr
    split at hr
    · assumption
    · cases hr
  obtain rfl : scanned d = r := Option.some.inj ((fpScanDecimalString_text hlen).symm.trans hr)
  obtain ⟨-, hword⟩ := scanned_words (Bool.or_eq_false_iff.1 hoverflow).1
  have hfrac : (accumulate d.frac).1.toNat = digitsNat d.frac := hword
  have hlt : (accumulate d.frac).1.toNat < 10 ^ d.frac.length := hfrac ▸ digitsNat_lt d.frac_digits
  have hcount : d.frac.length < 4294967296 := by
    have hle := d.length_le
    omega
  rw [scanned_nearest_iff hoverflow, clampFrac_ofNat hcount, ← hfrac]
  by_cases hn : d.frac.length < 20
  · rw [if_pos hn]
    exact iff_of_true (fracScaled_exact (Nat.le_of_lt_succ hn) hlt) (.inl (Nat.le_of_lt_succ hn))
  · rw [if_neg hn, fracScaled_clamped_iff _ (not_lt.1 hn)]
    exact ⟨.inr, fun h => h.resolve_left fun hle => hn (Nat.lt_succ_of_le hle)⟩

/-- A decimal of a few digits. -/
def sampleAmount : List Char := ['-', '1', '.', '2', '3', '4', '5', '6', '7', '8', '9', '5']

/-- What is read of it. -/
def sampleParse : MoneyParse :=
  { value := (Money.saturate (-123456790)).val, malformed := false, overflow := false, excessDp := true }

theorem fromString_nearest_iff_amount :
    (∃ d : Decimal, d.text = sampleAmount) ∧ ∀ d : Decimal, d.text = sampleAmount →
      (sampleParse.value.v = d.nearest 8 ↔ d.frac.length ≤ 19 ∨ digitsNat d.frac ≤ 5 * 10 ^ 10) :=
  fromString_nearest_iff sampleAmount sampleParse (by decide +kernel) rfl rfl

/-- Eleven zeros behind the dot, and nineteen nines: the hundred billionth part of one. -/
def sampleTiny : List Char := '0' :: '.' :: (List.replicate 11 '0' ++ List.replicate 19 '9')

/-- It is read as one. -/
theorem fromString_tiny :
    (moneyFromString sampleTiny).map (fun p => (p.value.v, p.malformed, p.overflow)) =
      some (100000000, false, false) ∧
      ∃ d : Decimal, d.text = sampleTiny ∧ d.nearest 8 = 0 :=
  ⟨by decide +kernel,
    { sign := [], int := ['0'], dot := true, frac := List.replicate 11 '0' ++ List.replicate 19 '9', sign_mem := .inl rfl
      int_digits := fun c hc => List.mem_singleton.1 hc ▸ rfl
      frac_digits := fun c hc => (List.mem_append.1 hc).elim (fun h => List.eq_of_mem_replicate h ▸ rfl)
        fun h => List.eq_of_mem_replicate h ▸ rfl
      frac_dot := fun h => absurd h.symm Bool.false_ne_true
      some_digit := List.cons_ne_nil _ _ },
    rfl, by decide +kernel⟩

end FoxTrader
