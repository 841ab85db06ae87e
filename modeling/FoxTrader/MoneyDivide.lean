import FoxTrader.WideDivision

/-! # Dividing money, and truncating it to a step

    `Money_Div` puts the magnitude of the dividend on the scale of the payload, divides in the long
    division, rounds half-even on the true remainder and saturates like the multiplication. A zero
    divisor runs through the same words; what they leave is masked away. `Money_QuantizeToStep` is the
    same division without rounding. -/

namespace FoxTrader

open Lib

/-- The value with the bits that it leaves in `money_op_flags`. -/
def moneyDiv (a b : U128) : Flagged 64 U128 :=
  let neg := xor (a.slt 0) (b.slt 0)
  let amag := i128Abs a
  let bmag := i128Abs b
  let P := umul128x128_256 amag moneyScaleWord
  let dr := udiv256Qr P.hi P.lo bmag
  let q := moneyRoundHalfEven dr.q dr.r bmag
  let lim := (1#128 <<< 63) - 1
  let dz := wordOf (bmag = 0)
  let ovf := wordOf (lim < q) ||| dz
  let ofM := 0 - ovf
  let flags := (wordOf (lim < q) &&& ~~~dz).setWidth 64 ||| dz.setWidth 64 <<< 1
  let sat := (q &&& ~~~ofM) ||| (lim &&& ofM)
  ⟨i128Cneg sat neg, flags⟩

/-- `Money_QuantizeToStep`. -/
def moneyQuantizeToStep (v step : U128) : U128 :=
  if step.sle 0 then v
  else
    let mag := if v.slt 0 then -v else v
    let q := (udiv256Qr 0 mag step).q
    let rmag := q * step
    if v.slt 0 then -rmag else rmag

namespace Money

/-- The rounded magnitude of a quotient of money. -/
def roundedQuotient (a b : Money) : ℕ :=
  roundHalfEven (a.v.natAbs * moneyScale / b.v.natAbs) (a.v.natAbs * moneyScale % b.v.natAbs) b.v.natAbs

theorem roundedQuotient_eq {a b : Money} (hb : b.v ≠ 0) :
    (roundedQuotient a b : ℤ) = halfEven (|a.v| * moneyScale) b.v.natAbs := by
  rw [roundedQuotient, roundHalfEven_eq _ (Int.natAbs_pos.2 hb), Nat.cast_mul, Int.natCast_natAbs]

theorem word_slt_zero (a : Money) : a.word.slt 0 = decide (a.v < 0) := by
  rw [BitVec.slt, word_toInt]
  rfl

end Money

/-! ### The division -/

/-- The masks of the two faults. -/
theorem divFlags_eq (ovf dz : Bool) :
    (wordOf ovf &&& ~~~wordOf dz).setWidth 64 ||| (wordOf dz).setWidth 64 <<< 1 =
      if dz then Money.flagDivzero else if ovf then Money.flagOverflow else 0 := by
  cases ovf <;> cases dz <;> decide

/-- Past the long division: the rounded magnitude, and no fault but the overflow. -/
theorem moneyDiv_words {a b : Money} (hb : b.v ≠ 0) :
    (moneyDiv a.word b.word).val.toInt =
        Money.signed a b (if 2 ^ 63 - 1 < a.roundedQuotient b then 2 ^ 63 - 1 else a.roundedQuotient b) ∧
      (moneyDiv a.word b.word).flags = if 2 ^ 63 - 1 < a.roundedQuotient b then Money.flagOverflow else 0 := by
  have ha := i128Abs_word a
  have hbmag := i128Abs_word b
  have ha_le := a.abs_le
  have hb_le := b.abs_le
  have hpos : 0 < b.v.natAbs := Int.natAbs_pos.2 hb
  have hscale : moneyScaleWord.toNat = moneyScale := by decide
  have hlim : ((1#128 <<< 63) - 1).toNat = 2 ^ 63 - 1 := by decide
  have hprod : a.v.natAbs * moneyScale < 2 ^ 90 := (Nat.mul_le_mul_right moneyScale ha_le).trans_lt (by decide)
  have hhi : (umul128x128_256 (i128Abs a.word) moneyScaleWord).hi.toNat = 0 := by
    rw [umul_hi (by omega) (by decide), ha, hscale]
    exact Nat.div_eq_of_lt (by omega)
  have hlo : (umul128x128_256 (i128Abs a.word) moneyScaleWord).lo.toNat = a.v.natAbs * moneyScale := by
    rw [umul_lo (by omega) (by decide), ha, hscale]
    exact Nat.mod_eq_of_lt (by omega)
  obtain ⟨hq, hr⟩ := udiv256Qr_exact (umul128x128_256 (i128Abs a.word) moneyScaleWord).hi
    (umul128x128_256 (i128Abs a.word) moneyScaleWord).lo (b := i128Abs b.word) (by omega) (by omega)
  rw [hhi, hlo, hbmag, Nat.zero_mul, Nat.zero_add] at hq hr
  unfold moneyDiv
  dsimp only
  generalize udiv256Qr (umul128x128_256 (i128Abs a.word) moneyScaleWord).hi
    (umul128x128_256 (i128Abs a.word) moneyScaleWord).lo (i128Abs b.word) = dr at hq hr ⊢
  have hround : (moneyRoundHalfEven dr.q dr.r (i128Abs b.word)).toNat = a.roundedQuotient b := by
    have hlt : dr.q.toNat < 2 ^ 127 := by
      rw [hq]
      exact (Nat.div_le_self ..).trans_lt (by omega)
    rw [moneyRoundHalfEven_toNat hlt, hq, hr, hbmag]
    rfl
  have hdz : decide (i128Abs b.word = 0) = false := by
    refine decide_eq_false fun hzero => ?_
    rw [hzero] at hbmag
    exact hpos.ne hbmag
  have hovf : decide ((1#128 <<< 63) - 1 < moneyRoundHalfEven dr.q dr.r (i128Abs b.word)) =
      decide (2 ^ 63 - 1 < a.roundedQuotient b) :=
    decide_eq_decide.2 (by rw [BitVec.lt_def, hlim, hround])
  generalize moneyRoundHalfEven dr.q dr.r (i128Abs b.word) = mag at hround hovf ⊢
  rw [divFlags_eq, wordOf_or, blend_eq, hdz, hovf, Bool.or_false, if_neg Bool.false_ne_true, Money.word_slt_zero,
    Money.word_slt_zero]
  by_cases hover : 2 ^ 63 - 1 < a.roundedQuotient b
  · rw [if_pos hover, if_pos hover, decide_eq_true hover, if_pos rfl, i128Cneg_toInt hlim.le, hlim]
    exact ⟨rfl, rfl⟩
  · rw [if_neg hover, if_neg hover, decide_eq_false hover, if_neg Bool.false_ne_true,
      i128Cneg_toInt (hround.trans_le (Nat.le_of_not_lt hover)), hround]
    exact ⟨rfl, rfl⟩

/-- Without a divisor: the end of the closure on the side of the dividend, and the other fault. -/
theorem moneyDiv_zero {a b : Money} (hb : b.v = 0) :
    (moneyDiv a.word b.word).val.toInt = (if a.v < 0 then -moneyMax else moneyMax) ∧
      (moneyDiv a.word b.word).flags = Money.flagDivzero := by
  have hmax : moneyMax = ((2 ^ 63 - 1 : ℕ) : ℤ) := rfl
  have hlim : ((1#128 <<< 63) - 1).toNat = 2 ^ 63 - 1 := by decide
  have hdz : decide (i128Abs b.word = 0) = true := by
    refine decide_eq_true (BitVec.eq_of_toNat_eq ?_)
    rw [i128Abs_word, hb]
    rfl
  have hneg : xor (a.word.slt 0) (b.word.slt 0) = decide (a.v < 0) := by
    rw [Money.word_slt_zero, Money.word_slt_zero, hb]
    exact Bool.xor_false _
  unfold moneyDiv
  dsimp only
  rw [divFlags_eq, wordOf_or, blend_eq, hdz, hneg, Bool.or_true, if_pos rfl, if_pos rfl, i128Cneg_toInt hlim.le,
    hlim, hmax]
  refine ⟨?_, rfl⟩
  by_cases ha : a.v < 0
  · rw [decide_eq_true ha, if_pos rfl, if_pos ha]
  · rw [decide_eq_false ha, if_neg Bool.false_ne_true, if_neg ha]

/-- The words compute the quotient of money. -/
theorem moneyDiv_div (a b : Money) :
    (moneyDiv a.word b.word).val.toInt = (a.div b).val.v ∧ (moneyDiv a.word b.word).flags = (a.div b).flags := by
  by_cases hb : b.v = 0
  · obtain ⟨hval, hflags⟩ := moneyDiv_zero (a := a) hb
    have hdiv : a.div b = ⟨.ceiling (a.v < 0), Money.flagDivzero⟩ := by
      unfold Money.div
      exact if_pos (Int.natAbs_eq_zero.2 hb)
    rw [hval, hflags, hdiv]
    refine ⟨?_, rfl⟩
    by_cases ha : a.v < 0 <;> simp [Money.ceiling, ha]
  · obtain ⟨hval, hflags⟩ := moneyDiv_words (a := a) hb
    obtain ⟨hval', hflags'⟩ := saturate_magnitude (xor (decide (a.v < 0)) (decide (b.v < 0))) (a.roundedQuotient b)
    have hdiv : a.div b = Money.saturate (Money.signed a b (a.roundedQuotient b)) := by
      unfold Money.div
      exact if_neg (mt Int.natAbs_eq_zero.1 hb)
    rw [hdiv]
    exact ⟨hval.trans hval'.symm, hflags.trans hflags'.symm⟩

/-- The division of money is the nearest payload to the quotient, a tie to the even one, and past the
    closure its end with the overflow bit alone; without a divisor it is the end of the closure on the
    side of the dividend, with the other bit alone. -/
theorem money_div_nearest (a b : Money) :
    (moneyDiv a.word b.word).val.toInt =
        (if b.v = 0 then (if a.v < 0 then -moneyMax else moneyMax)
          else a.side * b.side * min (halfEven (|a.v| * moneyScale) b.v.natAbs) moneyMax) ∧
      (moneyDiv a.word b.word).flags =
        if b.v = 0 then Money.flagDivzero
        else if moneyMax < halfEven (|a.v| * moneyScale) b.v.natAbs then Money.flagOverflow else 0 := by
  have hmax : moneyMax = ((2 ^ 63 - 1 : ℕ) : ℤ) := rfl
  by_cases hb : b.v = 0
  · rw [if_pos hb, if_pos hb]
    exact moneyDiv_zero hb
  · obtain ⟨hval, hflags⟩ := moneyDiv_words (a := a) hb
    rw [if_neg hb, if_neg hb, hval, hflags, Money.signed_eq, ← Money.roundedQuotient_eq hb, hmax]
    refine ⟨congrArg (a.side * b.side * ·) ?_, if_congr Nat.cast_lt.symm rfl rfl⟩
    split <;> omega

/-- A third, up and down, and what is left of a division by nothing. -/
example : (moneyDiv 100000000 300000000).val.toInt = 33333333 ∧
  (moneyDiv (-200000000) 300000000).val.toInt = -66666667 ∧
    (moneyDiv (-1) 0).flags = Money.flagDivzero := by decide +kernel

/-! ### Truncation to a step -/

namespace Money

/-- `v` without what is less than a step, on its own side of zero. -/
def quantizeToStep (v step : Money) : ℤ := v.v.tdiv step.v * step.v

variable {v w step : Money}

theorem quantizeToStep_nonneg (hstep : 0 < step.v) (hv : 0 ≤ v.v) : 0 ≤ v.quantizeToStep step :=
  Int.mul_nonneg (Int.tdiv_nonneg hv hstep.le) hstep.le

theorem quantizeToStep_nonpos (hstep : 0 < step.v) (hv : v.v ≤ 0) : v.quantizeToStep step ≤ 0 := by
  have hneg : 0 ≤ (-v.v).tdiv step.v := Int.tdiv_nonneg (by omega) hstep.le
  rw [Int.neg_tdiv] at hneg
  exact Int.mul_nonpos_of_nonpos_of_nonneg (by omega) hstep.le

theorem natAbs_quantizeToStep (v step : Money) :
    (v.quantizeToStep step).natAbs = v.v.natAbs / step.v.natAbs * step.v.natAbs := by
  rw [quantizeToStep, Int.natAbs_mul, Int.natAbs_tdiv]
  rfl

/-- No multiple of the step is nearer to `v` from below. -/
theorem quantizeToStep_largest {m : ℤ} (hm : step.v ∣ m) (hle : |m| ≤ |v.v|) : |m| ≤ |v.quantizeToStep step| := by
  obtain ⟨k, rfl⟩ := hm
  rw [← Int.natCast_natAbs, ← Int.natCast_natAbs, Int.ofNat_le, Int.natAbs_mul] at hle ⊢
  rw [natAbs_quantizeToStep, Nat.mul_comm]
  by_cases hstep : step.v.natAbs = 0
  · rw [hstep, Nat.mul_zero]
    exact Nat.zero_le _
  · refine Nat.mul_le_mul_right _ ((Nat.le_div_iff_mul_le (by omega)).2 ?_)
    rwa [Nat.mul_comm]

theorem natAbs_quantizeToStep_le (v step : Money) : (v.quantizeToStep step).natAbs ≤ v.v.natAbs := by
  rw [natAbs_quantizeToStep]
  exact Nat.div_mul_le_self ..

theorem quantizeToStep_mono (hstep : 0 < step.v) (h : v.v ≤ w.v) : v.quantizeToStep step ≤ w.quantizeToStep step :=
  Int.mul_le_mul_of_nonneg_right (Int.tdiv_le_tdiv hstep h) hstep.le

/-- The multiple as money. -/
def quantized (v step : Money) : Money where
  v := v.quantizeToStep step
  lower := by
    have hle := v.natAbs_quantizeToStep_le step
    have hlower := v.lower
    have hupper := v.upper
    omega
  upper := by
    have hle := v.natAbs_quantizeToStep_le step
    have hlower := v.lower
    have hupper := v.upper
    omega

theorem quantized_quantized (hstep : 0 < step.v) : (v.quantized step).quantized step = v.quantized step := by
  refine Money.ext ?_
  show (v.v.tdiv step.v * step.v).tdiv step.v * step.v = v.v.tdiv step.v * step.v
  rw [Int.mul_tdiv_cancel _ hstep.ne']

end Money

/-- The words truncate to the step. -/
theorem moneyQuantizeToStep_word {v step : Money} (hstep : 0 < step.v) :
    moneyQuantizeToStep v.word step.word = (v.quantized step).word := by
  have hv := v.abs_le
  have hs := step.abs_le
  have hstepNat : step.word.toNat = step.v.natAbs := by
    rw [Money.word, BitVec.toNat_ofInt]
    omega
  have hsle : step.word.sle 0 = false := by
    rw [BitVec.sle, Money.word_toInt]
    exact decide_eq_false (not_le.2 hstep)
  have hmag : (if decide (v.v < 0) then -v.word else v.word) = i128Abs v.word := by
    rw [i128Abs_eq, i128Cneg_eq, Money.word_toInt]
  have hzero : (0 : U128).toNat = 0 := rfl
  have hpos : 0 < step.v.natAbs := Int.natAbs_pos.2 hstep.ne'
  obtain ⟨hq, -⟩ := udiv256Qr_exact 0 (i128Abs v.word) (b := step.word) (by omega) (by omega)
  rw [i128Abs_word, hstepNat, hzero, Nat.zero_mul, Nat.zero_add] at hq
  have hle : v.v.natAbs / step.v.natAbs * step.v.natAbs ≤ v.v.natAbs := Nat.div_mul_le_self ..
  have hprod : ((udiv256Qr 0 (i128Abs v.word) step.word).q * step.word).toNat = (v.quantizeToStep step).natAbs := by
    rw [BitVec.toNat_mul, hq, hstepNat, Money.natAbs_quantizeToStep, Nat.mod_eq_of_lt (by omega)]
  unfold moneyQuantizeToStep
  dsimp only
  rw [hsle, Money.word_slt_zero, hmag, if_neg Bool.false_ne_true, ← i128Cneg_eq]
  refine BitVec.eq_of_toInt_eq ?_
  rw [Money.word_toInt, i128Cneg_toInt (by rw [hprod]; exact (v.natAbs_quantizeToStep_le step).trans hv), hprod]
  show _ = v.quantizeToStep step
  by_cases hneg : v.v < 0
  · have hside := Money.quantizeToStep_nonpos hstep hneg.le
    rw [decide_eq_true hneg, if_pos rfl]
    omega
  · have hside := Money.quantizeToStep_nonneg hstep (not_lt.1 hneg)
    rw [decide_eq_false hneg, if_neg Bool.false_ne_true]
    omega

/-- The truncation is the multiple of the step of the largest magnitude that is not above that of `v`, on
    the side of `v`; it changes nothing the second time, and it is monotone. -/
theorem quantize_largest_multiple (v w step : Money) (hstep : 0 < step.v) :
    (∃ k : ℤ, (moneyQuantizeToStep v.word step.word).toInt = k * step.v) ∧
      |(moneyQuantizeToStep v.word step.word).toInt| ≤ |v.v| ∧
      (∀ k : ℤ, |k * step.v| ≤ |v.v| → |k * step.v| ≤ |(moneyQuantizeToStep v.word step.word).toInt|) ∧
      (0 ≤ v.v → 0 ≤ (moneyQuantizeToStep v.word step.word).toInt) ∧
      (v.v ≤ 0 → (moneyQuantizeToStep v.word step.word).toInt ≤ 0) ∧
      moneyQuantizeToStep (moneyQuantizeToStep v.word step.word) step.word = moneyQuantizeToStep v.word step.word ∧
      (v.v ≤ w.v → (moneyQuantizeToStep v.word step.word).toInt ≤ (moneyQuantizeToStep w.word step.word).toInt) := by
  rw [moneyQuantizeToStep_word hstep, moneyQuantizeToStep_word hstep, moneyQuantizeToStep_word hstep,
    Money.quantized_quantized hstep, Money.word_toInt, Money.word_toInt]
  refine ⟨⟨v.v.tdiv step.v, rfl⟩, ?_, fun k hk => Money.quantizeToStep_largest (Int.dvd_mul_left k _) hk,
    Money.quantizeToStep_nonneg hstep, Money.quantizeToStep_nonpos hstep, rfl, Money.quantizeToStep_mono hstep⟩
  rw [← Int.natCast_natAbs, ← Int.natCast_natAbs]
  exact Int.ofNat_le.2 (v.natAbs_quantizeToStep_le step)

/-- A whole unit and a half. -/
def sampleStepped : Money := (Money.saturate (-150000000)).val

theorem quantize_largest_multiple_unit :
    let step := (Money.fromInt 1).val
    let r := (moneyQuantizeToStep sampleStepped.word step.word).toInt
    (∃ k : ℤ, r = k * step.v) ∧ |r| ≤ |sampleStepped.v| ∧
      (∀ k : ℤ, |k * step.v| ≤ |sampleStepped.v| → |k * step.v| ≤ |r|) ∧
      (0 ≤ sampleStepped.v → 0 ≤ r) ∧ (sampleStepped.v ≤ 0 → r ≤ 0) ∧
      moneyQuantizeToStep (moneyQuantizeToStep sampleStepped.word step.word) step.word =
        moneyQuantizeToStep sampleStepped.word step.word ∧
      (sampleStepped.v ≤ step.v → r ≤ (moneyQuantizeToStep step.word step.word).toInt) :=
  quantize_largest_multiple sampleStepped (Money.fromInt 1).val (Money.fromInt 1).val (by decide)

end FoxTrader
