import FoxTrader.FixedPointWords
import FoxTrader.MoneyDivide
import FoxTrader.MoneyText

/-! # Money as text and as binary fixed point

    `Money_ToCString` prints all eight fractional digits, and `Money_FromString` reads them back.
    `Money_ToBinary` and `Money_FromBinary` convert between `10⁻⁸` and `2⁻⁶⁴`, rounding half-even each way:
    the finer grid loses less than half of the coarser, so the way back finds the amount again. Both are a
    rounding of a multiple, so both are monotone. -/

namespace FoxTrader

open Lib

/-! ### Text -/

/-- `k` digits of a fraction, filled from the last one. -/
def fixedDigits : ℕ → ℕ → List Char
  | 0, _ => []
  | k + 1, fp => fixedDigits k (fp / 10) ++ [Nat.digitChar (fp % 10)]

/-- `Money_ToCString` into a buffer of `cap` characters. -/
def moneyToCString (a : Money) (cap : ℕ) : List Char :=
  if cap < 32 then []
  else
    let dr := divmulPow10 (i128Abs a.word)
    let ip := dr.q.toNat % 2 ^ 64
    let fp := dr.r.toNat % 2 ^ 64
    (if a.v < 0 then ['-'] else []) ++ (Nat.toDigits 10 ip ++ '.' :: fixedDigits 8 fp)

theorem fixedDigits_length (k fp : ℕ) : (fixedDigits k fp).length = k := by
  induction k generalizing fp with
  | zero => rfl
  | succ k ih => rw [fixedDigits, List.length_append, ih, List.length_singleton]

theorem digitChar_digit : ∀ n < 10, (Nat.digitChar n).isDigit = true ∧ (Nat.digitChar n).toNat - '0'.toNat = n := by
  decide

theorem fixedDigits_digits (k fp : ℕ) : ∀ c ∈ fixedDigits k fp, c.isDigit = true := by
  induction k generalizing fp with
  | zero => exact fun c hc => absurd hc List.not_mem_nil
  | succ k ih =>
    intro c hc
    rw [fixedDigits, List.mem_append, List.mem_singleton] at hc
    obtain hc | rfl := hc
    · exact ih _ c hc
    · exact (digitChar_digit _ (Nat.mod_lt _ (by decide))).1

theorem digitsNat_fixedDigits {k fp : ℕ} (h : fp < 10 ^ k) : digitsNat (fixedDigits k fp) = fp := by
  induction k generalizing fp with
  | zero => exact (Nat.lt_one_iff.1 h).symm
  | succ k ih =>
    rw [Nat.pow_succ] at h
    rw [fixedDigits, digitsNat_concat, ih (by omega), (digitChar_digit _ (Nat.mod_lt _ (by decide))).2]
    omega

/-- The decimal that is printed. -/
def Money.decimal (a : Money) : Decimal where
  sign := if a.v < 0 then ['-'] else []
  int := Nat.toDigits 10 (a.v.natAbs / moneyScale)
  dot := true
  frac := fixedDigits 8 (a.v.natAbs % moneyScale)
  sign_mem := by
    split
    · exact .inr (.inl rfl)
    · exact .inl rfl
  int_digits := fun _ hc => Nat.isDigit_of_mem_toDigits (by decide) (by decide) hc
  frac_digits := fixedDigits_digits _ _
  frac_dot := fun h => absurd h (by decide)
  some_digit := fun h => absurd (List.append_eq_nil_iff.1 h).1 Nat.toDigits_ne_nil

theorem moneyToCString_text (a : Money) {cap : ℕ} (hcap : 32 ≤ cap) : moneyToCString a cap = a.decimal.text := by
  have habs := a.abs_le
  obtain ⟨hq, hr⟩ := divmulPow10_exact (P := i128Abs a.word) (by rw [i128Abs_word]; omega)
  rw [i128Abs_word] at hq hr
  have hip : a.v.natAbs / moneyScale % 2 ^ 64 = a.v.natAbs / moneyScale :=
    Nat.mod_eq_of_lt ((Nat.div_le_self ..).trans_lt (by omega))
  have hfp : a.v.natAbs % moneyScale % 2 ^ 64 = a.v.natAbs % moneyScale :=
    Nat.mod_eq_of_lt ((Nat.mod_le ..).trans_lt (by omega))
  unfold moneyToCString
  rw [if_neg (not_lt.2 hcap)]
  dsimp only
  rw [hq, hr, hip, hfp]
  rfl

theorem decimal_short (a : Money) : a.decimal.text.length < 4294967296 := by
  have habs := a.abs_le
  have hint : (Nat.toDigits 10 (a.v.natAbs / moneyScale)).length ≤ 11 :=
    (Nat.length_toDigits_le_iff (by decide) (by decide)).2 (by
      refine (Nat.div_le_div_right habs).trans_lt ?_
      decide)
  have hsign : (if a.v < 0 then ['-'] else []).length ≤ 1 := by split <;> decide
  show ((if a.v < 0 then ['-'] else []) ++ (Nat.toDigits 10 (a.v.natAbs / moneyScale) ++
    '.' :: fixedDigits 8 (a.v.natAbs % moneyScale))).length < _
  rw [List.length_append, List.length_append, List.length_cons, fixedDigits_length]
  omega

/-- The parts of a decimal with eight fractional digits at most, as they are read. -/
theorem scanned_short {d : Decimal} (hfrac : d.frac.length ≤ 8) (hint : digitsNat d.int < 2 ^ 64) :
    (scanned d).wrap = false ∧
      (scanned d).scaled = digitsNat d.int * moneyScale + digitsNat d.frac * 10 ^ (8 - d.frac.length) ∧
      clampFrac (scanned d).nFrac = d.frac.length := by
  have hlt : digitsNat d.frac < 10 ^ d.frac.length := digitsNat_lt d.frac_digits
  have hsmall : digitsNat d.frac < 10 ^ 8 := hlt.trans_le (Nat.pow_le_pow_right (by decide) hfrac)
  have hwrap : (scanned d).wrap = false :=
    Bool.or_eq_false_iff.2 ⟨(accumulate_spec d.int_digits).1.2 hint,
      (accumulate_spec d.frac_digits).1.2 (hsmall.trans (by decide))⟩
  obtain ⟨hip, hfp⟩ := scanned_words hwrap
  have hclamp : clampFrac (scanned d).nFrac = d.frac.length := by
    show clampFrac (UInt32.ofNat d.frac.length) = _
    rw [clampFrac_ofNat (by omega), if_pos (by omega)]
  have hscaled : (fracScaled d.frac.length (scanned d).fracInt).toNat =
    digitsNat d.frac * 10 ^ (8 - d.frac.length) := by
    have hexact := fracScaled_exact (by omega : d.frac.length ≤ 19) (by rw [hfp]; exact hlt)
    have hpow : 10 ^ 8 = 10 ^ (8 - d.frac.length) * 10 ^ d.frac.length := by
      rw [← Nat.pow_add]
      exact congrArg _ (by omega)
    rw [hfp, hpow, ← Nat.mul_assoc, Nat.cast_mul, halfEven_mul (Nat.pow_pos (by decide))] at hexact
    exact_mod_cast hexact
  exact ⟨hwrap, by rw [FpScan.scaled, hclamp, hscaled, hip], hclamp⟩

/-- The parts of the payload, as they are read. -/
theorem scanned_decimal (a : Money) :
    (scanned a.decimal).wrap = false ∧ (scanned a.decimal).scaled = a.v.natAbs ∧
      clampFrac (scanned a.decimal).nFrac = 8 := by
  have habs := a.abs_le
  have hmod : a.v.natAbs % moneyScale < 10 ^ 8 := Nat.mod_lt _ (by decide)
  have hint : digitsNat a.decimal.int = a.v.natAbs / moneyScale := Nat.ofDigitChars_ten_toDigits
  have hfrac : digitsNat a.decimal.frac = a.v.natAbs % moneyScale := digitsNat_fixedDigits hmod
  have hlen : a.decimal.frac.length = 8 := fixedDigits_length ..
  obtain ⟨hwrap, hscaled, hclamp⟩ := scanned_short (hlen.le) (by
    rw [hint]
    exact (Nat.div_le_self ..).trans_lt (by omega))
  rw [hint, hfrac, hlen] at hscaled
  exact ⟨hwrap, hscaled.trans (by rw [Nat.sub_self, Nat.pow_zero, Nat.mul_one]; exact Nat.div_add_mod' _ _),
    hclamp.trans hlen⟩

/-- What is printed is read back, without a flag. -/
theorem fromString_toCString (a : Money) {cap : ℕ} (hcap : 32 ≤ cap) :
    moneyFromString (moneyToCString a cap) =
      some { value := a, malformed := false, overflow := false, excessDp := false } := by
  have habs := a.abs_le
  have hmax : moneyMax = 2 ^ 63 - 1 := rfl
  obtain ⟨hwrap, hscaled, hclamp⟩ := scanned_decimal a
  have hover : (scanned a.decimal).toMoney.overflow = false := by
    show ((scanned a.decimal).wrap || decide (moneyMax < ((scanned a.decimal).scaled : ℤ))) = false
    rw [hwrap, hscaled, Bool.false_or]
    exact decide_eq_false (by omega)
  have hvalue : (scanned a.decimal).toMoney.value = a := by
    have hsign : (scanned a.decimal).neg = decide (a.v < 0) := by
      show decide ((if a.v < 0 then ['-'] else []) = ['-']) = _
      by_cases hneg : a.v < 0
      · rw [if_pos hneg, decide_eq_true hneg]
        rfl
      · rw [if_neg hneg, decide_eq_false hneg]
        rfl
    refine Money.ext ?_
    rw [toMoney_value hover, hscaled, hsign]
    by_cases hneg : a.v < 0
    · rw [decide_eq_true hneg, if_pos rfl]
      omega
    · rw [decide_eq_false hneg, if_neg Bool.false_ne_true]
      omega
  rw [moneyToCString_text a hcap, moneyFromString, fpScanDecimalString_text (decimal_short a)]
  show some (scanned a.decimal).toMoney = _
  refine congrArg some ?_
  calc (scanned a.decimal).toMoney
      = { value := (scanned a.decimal).toMoney.value, malformed := false
          overflow := (scanned a.decimal).toMoney.overflow
          excessDp := decide (8 < clampFrac (scanned a.decimal).nFrac) } := rfl
    _ = { value := a, malformed := false, overflow := false, excessDp := false } := by rw [hvalue, hover, hclamp]; rfl

/-! ### Binary fixed point -/

/-- `Money_ToBinary`. -/
def moneyToBinary (m : U128) : U128 :=
  let mag := i128Abs m
  let dr := divmulPow10 (mag <<< 64)
  let q := moneyRoundHalfEven dr.q dr.r moneyScaleWord
  i128Cneg q (m.slt 0)

/-- `Money_FromBinary`, with the bits that it leaves in `money_op_flags`. -/
def moneyFromBinary (b : U128) : Flagged 64 U128 :=
  let mag := i128Abs b
  let p := umul128x128_256 mag moneyScaleWord
  let q := p.hi <<< 64 ||| ((p.lo >>> 64).setWidth 64).setWidth 128
  let r := (p.lo.setWidth 64).setWidth 128
  let q := moneyRoundHalfEven q r (1#128 <<< 64)
  let lim := (1#128 <<< 63) - 1
  let ovf := wordOf (p.hi >>> 64 ≠ 0) ||| wordOf (lim < q)
  let ofM := 0 - ovf
  let sat := (q &&& ~~~ofM) ||| (lim &&& ofM)
  ⟨i128Cneg sat (b.slt 0), ovf.setWidth 64⟩

/-- A rounded magnitude under its sign is the rounded number. -/
theorem halfEven_signed {d : ℕ} (hd : 0 < d) (x : ℤ) (c : ℕ) :
    (if decide (x < 0) then -halfEven (x.natAbs * c : ℕ) d else halfEven (x.natAbs * c : ℕ) d) =
      halfEven (x * c) d := by
  by_cases hneg : x < 0
  · have habs : ((x.natAbs * c : ℕ) : ℤ) = -(x * c) := by
      rw [Nat.cast_mul, Int.ofNat_natAbs_of_nonpos hneg.le, Int.neg_mul]
    rw [decide_eq_true hneg, if_pos rfl, habs, halfEven_neg hd, Int.neg_neg]
  · have habs : ((x.natAbs * c : ℕ) : ℤ) = x * c := by rw [Nat.cast_mul, Int.natAbs_of_nonneg (not_lt.1 hneg)]
    rw [decide_eq_false hneg, if_neg Bool.false_ne_true, habs]

/-- A magnitude below `2¹²⁷` under its sign. -/
theorem i128Cneg_toInt_of_lt {mag : U128} (h : mag.toNat < 2 ^ 127) (neg : Bool) :
    (i128Cneg mag neg).toInt = if neg then -(mag.toNat : ℤ) else mag.toNat := by
  have hmag : mag.toInt = mag.toNat := BitVec.toInt_eq_toNat_of_lt (by omega)
  rw [i128Cneg_eq]
  cases neg with
  | false => exact hmag
  | true =>
    rw [if_pos rfl, if_pos rfl, BitVec.toInt_neg, hmag, Int.bmod_eq_of_le] <;> omega

theorem moneyToBinary_toInt (a : Money) : (moneyToBinary a.word).toInt = halfEven (a.v * fpnOne) moneyScale := by
  have habs := a.abs_le
  have hone : fpnOne = 2 ^ 64 := rfl
  have hscale : moneyScaleWord.toNat = moneyScale := by decide
  have hshift : (i128Abs a.word <<< 64).toNat = a.v.natAbs * fpnOne := by
    rw [BitVec.toNat_shiftLeft, Nat.shiftLeft_eq, i128Abs_word, hone]
    omega
  obtain ⟨hq, hr⟩ := divmulPow10_exact (P := i128Abs a.word <<< 64) (by rw [hshift, hone]; omega)
  rw [hshift] at hq hr
  have hq_lt : a.v.natAbs * fpnOne / moneyScale < 2 ^ 126 := by
    have hle : a.v.natAbs * fpnOne / moneyScale ≤ a.v.natAbs * fpnOne / 2 :=
      Nat.div_le_div_left (by decide) (by decide)
    rw [hone] at hle ⊢
    omega
  have hround : (moneyRoundHalfEven (divmulPow10 (i128Abs a.word <<< 64)).q (divmulPow10 (i128Abs a.word <<< 64)).r
      moneyScaleWord).toNat =
        Money.roundHalfEven (a.v.natAbs * fpnOne / moneyScale) (a.v.natAbs * fpnOne % moneyScale) moneyScale := by
    rw [moneyRoundHalfEven_toNat (by omega), hq, hr, hscale]
  have hlt : Money.roundHalfEven (a.v.natAbs * fpnOne / moneyScale)
    (a.v.natAbs * fpnOne % moneyScale) moneyScale < 2 ^ 127 := by
    unfold Money.roundHalfEven
    dsimp only
    split <;> omega
  unfold moneyToBinary
  dsimp only
  rw [i128Cneg_toInt_of_lt (by rw [hround]; exact hlt), hround, Money.word_slt_zero,
    Money.roundHalfEven_eq _ (by decide),
    halfEven_signed (by decide)]

theorem i128Abs_toNat (x : U128) : (i128Abs x).toNat = x.toInt.natAbs := by
  have habs := (Fpn.ofWord x).abs_word
  rwa [Fpn.word_ofWord] at habs

/-- The middle of a product that has nothing above bit 191. -/
theorem middle_div {n : ℕ} (h : n < 2 ^ 154) :
    n / 2 ^ 128 % 2 ^ 64 * 2 ^ 64 + n % 2 ^ 128 / 2 ^ 64 = n / 2 ^ 64 ∧ n % 2 ^ 128 % 2 ^ 64 = n % 2 ^ 64 ∧
      n / 2 ^ 128 / 2 ^ 64 = 0 ∧ n / 2 ^ 64 < 2 ^ 127 := by
  omega

theorem moneyFromBinary_saturate {x : U128} (hx : -fpnMax ≤ x.toInt) :
    (moneyFromBinary x).val.toInt = (Money.saturate (halfEven (x.toInt * moneyScale) fpnOne)).val.v ∧
      (moneyFromBinary x).flags = (Money.saturate (halfEven (x.toInt * moneyScale) fpnOne)).flags := by
  have hup := x.toInt_lt
  have hmax : fpnMax = 2 ^ 127 - 1 := rfl
  have hone : fpnOne = 2 ^ 64 := rfl
  have hscale : moneyScaleWord.toNat = moneyScale := by decide
  have habs := i128Abs_toNat x
  have habs_lt : x.toInt.natAbs < 2 ^ 127 := by omega
  have hhi := umul_hi (habs ▸ habs_lt) (by decide : moneyScaleWord.toNat < 2 ^ 127)
  have hlo := umul_lo (habs ▸ habs_lt) (by decide : moneyScaleWord.toNat < 2 ^ 127)
  have hprod : x.toInt.natAbs * moneyScale < 2 ^ 154 :=
    (Nat.mul_lt_mul_of_pos_right habs_lt (by decide : 0 < moneyScale)).trans (by decide)
  have hslt : x.slt 0 = decide (x.toInt < 0) := by rw [BitVec.slt]; rfl
  have hlim : ((1#128 <<< 63) - 1).toNat = 2 ^ 63 - 1 := by decide
  have hunit : (1#128 <<< 64).toNat = fpnOne := by decide
  rw [habs, hscale] at hhi hlo
  have hsigned := halfEven_signed (by decide : 0 < fpnOne) x.toInt moneyScale
  unfold moneyFromBinary
  dsimp only
  rw [hslt]
  generalize umul128x128_256 (i128Abs x) moneyScaleWord = p at hhi hlo ⊢
  have hmiddle := toNat_middle p.hi p.lo
  have hrem : ((p.lo.setWidth 64).setWidth 128).toNat = p.lo.toNat % 2 ^ 64 := by
    rw [BitVec.toNat_setWidth_of_le (by decide), (toNat_halves p.lo).1]
  rw [hhi, hlo] at hmiddle
  rw [hlo] at hrem
  obtain ⟨n, hn⟩ : ∃ n, x.toInt.natAbs * moneyScale = n := ⟨_, rfl⟩
  rw [hn] at hprod hsigned hhi hlo hmiddle hrem
  obtain ⟨hdiv, hmod, htop, hq_lt⟩ := middle_div hprod
  have hq : (p.hi <<< 64 ||| ((p.lo >>> 64).setWidth 64).setWidth 128).toNat = n / fpnOne := hmiddle.trans hdiv
  have hr : ((p.lo.setWidth 64).setWidth 128).toNat = n % fpnOne := hrem.trans hmod
  have hround : (moneyRoundHalfEven (p.hi <<< 64 ||| ((p.lo >>> 64).setWidth 64).setWidth 128)
      ((p.lo.setWidth 64).setWidth 128) (1#128 <<< 64)).toNat =
        Money.roundHalfEven (n / fpnOne) (n % fpnOne) fpnOne := by
    rw [moneyRoundHalfEven_toNat (by rw [hq]; exact hq_lt), hq, hr, hunit]
  have hzero : decide (p.hi >>> 64 ≠ 0) = false := by
    refine decide_eq_false (not_not.2 (BitVec.eq_of_toNat_eq ?_))
    rw [BitVec.toNat_ushiftRight, Nat.shiftRight_eq_div_pow, hhi]
    exact htop
  obtain ⟨hval, hflags⟩ :=
    saturate_magnitude (decide (x.toInt < 0)) (Money.roundHalfEven (n / fpnOne) (n % fpnOne) fpnOne)
  have hnearest : (if decide (x.toInt < 0) then -((Money.roundHalfEven (n / fpnOne) (n % fpnOne) fpnOne : ℕ) : ℤ)
      else (Money.roundHalfEven (n / fpnOne) (n % fpnOne) fpnOne : ℕ)) = halfEven (x.toInt * moneyScale) fpnOne := by
    rw [Money.roundHalfEven_eq _ (by decide), hsigned]
  rw [hnearest] at hval hflags
  generalize moneyRoundHalfEven (p.hi <<< 64 ||| ((p.lo >>> 64).setWidth 64).setWidth 128)
    ((p.lo.setWidth 64).setWidth 128) (1#128 <<< 64) = mag at hround ⊢
  generalize Money.roundHalfEven (n / fpnOne) (n % fpnOne) fpnOne = m at hround hval hflags
  have hovf : decide ((1#128 <<< 63) - 1 < mag) = decide (2 ^ 63 - 1 < m) :=
    decide_eq_decide.2 (by rw [BitVec.lt_def, hlim, hround])
  rw [hval, hflags, wordOf_or, blend_eq, hzero, hovf, Bool.false_or]
  by_cases hover : 2 ^ 63 - 1 < m
  · rw [if_pos hover, if_pos hover, decide_eq_true hover, if_pos rfl, i128Cneg_toInt hlim.le, hlim]
    exact ⟨rfl, by decide⟩
  · rw [if_neg hover, if_neg hover, decide_eq_false hover, if_neg Bool.false_ne_true,
      i128Cneg_toInt (hround.trans_le (Nat.le_of_not_lt hover)), hround]
    exact ⟨rfl, by decide⟩

theorem moneyFromBinary_mono {x y : U128} (h : x.toInt ≤ y.toInt) :
    (moneyFromBinary x).val.toInt ≤ (moneyFromBinary y).val.toInt := by
  have hmax : fpnMax = 2 ^ 127 - 1 := rfl
  -- The one word below the symmetric range gives the lower end of the closure.
  have hlowest : ∀ z : U128, ¬-fpnMax ≤ z.toInt → (moneyFromBinary z).val.toInt = -moneyMax := fun z hz => by
    have hlow := z.le_toInt
    have hz' : z = BitVec.intMin 128 := BitVec.eq_of_toInt_eq (by
      have hmin : (BitVec.intMin 128).toInt = -2 ^ 127 := by decide
      omega)
    rw [hz']
    decide +kernel
  by_cases hx : -fpnMax ≤ x.toInt
  · rw [(moneyFromBinary_saturate hx).1, (moneyFromBinary_saturate (hx.trans h)).1]
    exact Money.saturate_mono (halfEven_mono (by decide) (Int.mul_le_mul_of_nonneg_right h (by decide)))
  · rw [hlowest x hx]
    by_cases hy : -fpnMax ≤ y.toInt
    · rw [(moneyFromBinary_saturate hy).1]
      exact (Money.saturate _).val.lower
    · rw [hlowest y hy]

/-- The finer grid loses less than half of the coarser. -/
theorem fromBinary_toBinary (a : Money) : moneyFromBinary (moneyToBinary a.word) = ⟨a.word, 0⟩ := by
  have hbinary := moneyToBinary_toInt a
  obtain ⟨hlow, hup⟩ := halfEvenGain_le (x := a.v * fpnOne) (by decide : 0 < moneyScale)
  have habs := a.abs_le
  have hmax : fpnMax = 2 ^ 127 - 1 := rfl
  have hone : fpnOne = 2 ^ 64 := rfl
  have hscale : moneyScale = 100000000 := rfl
  rw [halfEvenGain, ← hbinary, hscale, hone] at hlow hup
  have hback : halfEven ((moneyToBinary a.word).toInt * moneyScale) fpnOne = a.v := by
    rw [hscale, hone]
    exact halfEven_eq_of_near (by decide) (by omega) (by omega)
  have hwithin : -fpnMax ≤ (moneyToBinary a.word).toInt := by omega
  obtain ⟨hval, hflags⟩ := moneyFromBinary_saturate hwithin
  have hclean : (Money.saturate a.v).Clean := Money.saturate_clean_iff.2 ⟨a.lower, a.upper⟩
  rw [hback] at hval hflags
  rw [Money.saturate_v hclean] at hval
  have hword : (moneyFromBinary (moneyToBinary a.word)).val = a.word :=
    BitVec.eq_of_toInt_eq (hval.trans a.word_toInt.symm)
  calc moneyFromBinary (moneyToBinary a.word)
      = ⟨(moneyFromBinary (moneyToBinary a.word)).val, (moneyFromBinary (moneyToBinary a.word)).flags⟩ := rfl
    _ = ⟨a.word, 0⟩ := by rw [hword, hflags]; exact congrArg _ hclean

theorem toBinary_mono {a b : Money} (h : a.v ≤ b.v) :
    (moneyToBinary a.word).toInt ≤ (moneyToBinary b.word).toInt := by
  rw [moneyToBinary_toInt, moneyToBinary_toInt]
  exact halfEven_mono (by decide) (Int.mul_le_mul_of_nonneg_right h (by decide))

/-- Text and back, and binary and back, are the amount itself without a flag; both conversions between
    decimal and binary are monotone. -/
theorem money_codecs (a b : Money) (x y : U128) (cap : ℕ) (hcap : 32 ≤ cap) :
    moneyFromString (moneyToCString a cap) =
      some { value := a, malformed := false, overflow := false, excessDp := false } ∧
      moneyFromBinary (moneyToBinary a.word) = ⟨a.word, 0⟩ ∧
      (a.v ≤ b.v → (moneyToBinary a.word).toInt ≤ (moneyToBinary b.word).toInt) ∧
      (x.toInt ≤ y.toInt → (moneyFromBinary x).val.toInt ≤ (moneyFromBinary y).val.toInt) :=
  ⟨fromString_toCString a hcap, fromBinary_toBinary a, toBinary_mono, moneyFromBinary_mono⟩

/-- Minus one and a half, in a buffer of forty. -/
theorem money_codecs_stepped :
    moneyFromString (moneyToCString sampleStepped 40) =
        some { value := sampleStepped, malformed := false, overflow := false, excessDp := false } ∧
      moneyFromBinary (moneyToBinary sampleStepped.word) = ⟨sampleStepped.word, 0⟩ ∧
      (sampleStepped.v ≤ Money.zero.v → (moneyToBinary sampleStepped.word).toInt ≤ (moneyToBinary Money.zero.word).toInt) ∧
      ((-1 : U128).toInt ≤ (1 : U128).toInt → (moneyFromBinary (-1)).val.toInt ≤ (moneyFromBinary 1).val.toInt) :=
  money_codecs sampleStepped .zero (-1) 1 40 (by decide)

/-- How it is printed. -/
example : moneyToCString sampleStepped 40 = ['-', '1', '.', '5', '0', '0', '0', '0', '0', '0', '0'] := by decide +kernel

end FoxTrader
