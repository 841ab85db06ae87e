import FoxTrader.FixedPoint
import FoxTrader.WideDivision

/-! # Binary fixed point in machine words

    `fp2_mul`, `fp2_addsat`, `fp2_sub` and `fp2_div` work on 128-bit words and saturate by masks. The
    words compute the operations of `Fpn`. Products and quotients clamp to the symmetric range; a sum or
    a difference is clamped by the overflow of the machine, so the one number that the machine holds and
    the symmetric range does not, `-2¹²⁷`, is let through. -/

namespace FoxTrader

/-- `FP2_64_MAX` as a word. -/
def fp2Max : U128 := (1#128 <<< 127) - 1

/-- The word of the ceiling where `ovf` is not zero, else the magnitude. -/
def saturateMag (mag ovfTop : U128) : U128 :=
  let ofM := -ovfTop
  (mag &&& ~~~ofM) ||| (ofM >>> 1)

/-- The sign put back on a magnitude; a zero has none. -/
def applySign (mag : U128) (neg : Bool) : U128 :=
  let negM := -wordOf (neg && mag ≠ 0)
  (-mag &&& negM) ||| (mag &&& ~~~negM)

def fp2Mul (a b : U128) : U128 :=
  let neg := xor (a.slt 0) (b.slt 0)
  let p := umul128x128_256 (i128Abs a) (i128Abs b)
  let mag := p.hi <<< 64 ||| ((p.lo >>> 64).setWidth 64).setWidth 128
  let ovf := p.hi >>> 64 ||| mag >>> 127
  let nz := ovf ||| (~~~ovf + 1)
  applySign (saturateMag mag (nz >>> 127)) neg

/-- Saturation of a wrapped sum, where the top bit of `ovf` is up. -/
def saturateSum (a s ovf : U128) : U128 :=
  let ofM := -(ovf >>> 127)
  let sgn := a.sshiftRight 127
  let sat := (fp2Max ^^^ sgn) - sgn
  (s &&& ~~~ofM) ||| (sat &&& ofM)

def fp2Addsat (a b : U128) : U128 :=
  let s := a + b
  saturateSum a s (~~~(a ^^^ b) &&& (a ^^^ s))

/-- Both `FPN_Sub` and `FPN_SubSat`. -/
def fp2Sub (a b : U128) : U128 :=
  let s := a - b
  saturateSum a s ((a ^^^ b) &&& (a ^^^ s))

def udivQ64 (aMag bMag : U128) : U128 := (udiv256Qr (aMag >>> 64) (aMag <<< 64) bMag).q

def fp2Div (a b : U128) : U128 :=
  let neg := xor (a.slt 0) (b.slt 0)
  let am := if a.slt 0 then -a else a
  let bm := if b.slt 0 then -b else b
  let qm := udivQ64 am bm
  applySign (saturateMag qm (qm >>> 127)) neg

/-! ### The masks -/

theorem shiftRight_top (x : U128) : x >>> 127 = wordOf (decide (2 ^ 127 ≤ x.toNat)) := by
  have hlt := x.isLt
  refine BitVec.eq_of_toNat_eq ?_
  rw [BitVec.toNat_ushiftRight, Nat.shiftRight_eq_div_pow, toNat_wordOf]
  by_cases htop : 2 ^ 127 ≤ x.toNat
  · rw [decide_eq_true htop, if_pos rfl]
    omega
  · rw [decide_eq_false htop, if_neg Bool.false_ne_true]
    omega

theorem neg_wordOf_false : -wordOf false = 0#128 := by decide

theorem neg_wordOf_true : -wordOf true = BitVec.allOnes 128 := by decide

theorem saturateMag_wordOf (mag : U128) (ovf : Bool) :
    saturateMag mag (wordOf ovf) = if ovf then fp2Max else mag := by
  unfold saturateMag
  dsimp only
  cases ovf with
  | false =>
    rw [neg_wordOf_false, BitVec.not_zero, BitVec.and_allOnes, if_neg Bool.false_ne_true]
    exact BitVec.or_zero
  | true =>
    rw [neg_wordOf_true, BitVec.not_allOnes, BitVec.and_zero, BitVec.zero_or, if_pos rfl]
    decide

/-- The two's complement of a magnitude in the symmetric range. -/
theorem applySign_toInt {mag : U128} (hmag : mag.toNat < 2 ^ 127) (neg : Bool) :
    (applySign mag neg).toInt = if neg then -(mag.toNat : ℤ) else mag.toNat := by
  have hint : mag.toInt = mag.toNat := BitVec.toInt_eq_toNat_of_lt (by omega)
  have hblend : applySign mag neg = if neg && decide (mag ≠ 0) then -mag else mag := by
    unfold applySign
    dsimp only
    cases neg && decide (mag ≠ 0) with
    | false =>
      rw [neg_wordOf_false, BitVec.and_zero, BitVec.zero_or, BitVec.not_zero, BitVec.and_allOnes,
        if_neg Bool.false_ne_true]
    | true =>
      rw [neg_wordOf_true, BitVec.and_allOnes, BitVec.not_allOnes, BitVec.and_zero, BitVec.or_zero, if_pos rfl]
  rw [hblend]
  cases neg with
  | false => exact hint
  | true =>
    rw [Bool.true_and, if_pos rfl]
    by_cases hzero : mag = 0
    · rw [hzero]
      rfl
    · rw [decide_eq_true hzero, if_pos rfl, BitVec.toInt_neg, hint, Int.bmod_eq_of_le] <;> omega

theorem fp2Max_toNat : fp2Max.toNat = 2 ^ 127 - 1 := by decide

theorem saturateSum_toInt (a s ovf : U128) :
    (saturateSum a s ovf).toInt =
      if 2 ^ 127 ≤ ovf.toNat then (if a.toInt < 0 then -fpnMax else fpnMax) else s.toInt := by
  have hsat : (fp2Max ^^^ a.sshiftRight 127) - a.sshiftRight 127 = i128Cneg fp2Max (decide (a.toInt < 0)) := by
    rw [sshiftRight_sign]
    rfl
  have hmax : (if decide (a.toInt < 0) then -fp2Max else fp2Max).toInt = if a.toInt < 0 then -fpnMax else fpnMax := by
    by_cases ha : a.toInt < 0
    · rw [decide_eq_true ha, if_pos rfl, if_pos ha]
      decide
    · rw [decide_eq_false ha, if_neg Bool.false_ne_true, if_neg ha]
      decide
  unfold saturateSum
  dsimp only
  rw [hsat, i128Cneg_eq, shiftRight_top]
  by_cases htop : 2 ^ 127 ≤ ovf.toNat
  · rw [decide_eq_true htop, neg_wordOf_true, BitVec.not_allOnes, BitVec.and_zero, BitVec.zero_or, BitVec.and_allOnes,
      if_pos htop, hmax]
  · rw [decide_eq_false htop, neg_wordOf_false, BitVec.not_zero, BitVec.and_allOnes, BitVec.and_zero, BitVec.or_zero,
      if_neg htop]

/-! ### Sums and differences -/

theorem top_iff_neg (x : U128) : 2 ^ 127 ≤ x.toNat ↔ x.msb = true := by
  rw [BitVec.msb_eq_decide, decide_eq_true_eq]

theorem msb_eq_neg (x : U128) : x.msb = decide (x.toInt < 0) := BitVec.msb_eq_toInt

namespace Fpn

def word (a : Fpn) : U128 := BitVec.ofInt 128 a.v

theorem word_toInt (a : Fpn) : a.word.toInt = a.v := by
  have hl := a.lower
  have hu := a.upper
  have hmax : fpnMax = 2 ^ 127 - 1 := rfl
  rw [word, BitVec.toInt_ofInt, Int.bmod_eq_of_le] <;> omega

/-- A word as a fixed-point number. -/
def ofWord (x : U128) : Fpn where
  v := x.toInt
  lower := x.le_toInt
  upper := Int.le_sub_one_of_lt x.toInt_lt

theorem word_ofWord (x : U128) : (ofWord x).word = x := BitVec.ofInt_toInt

theorem word_slt_zero (a : Fpn) : a.word.slt 0 = a.neg := by
  rw [BitVec.slt, word_toInt]
  rfl

theorem saturate_eq (s : ℤ) :
    (saturate s).v = if -(fpnMax + 1) ≤ s ∧ s ≤ fpnMax then s else if s < 0 then -fpnMax else fpnMax := by
  unfold saturate ceiling
  split
  next h => rfl
  next h => exact if_congr decide_eq_true_iff rfl rfl

end Fpn

/-- Two numbers of one sign whose wrapped sum has the other. -/
theorem fp2Addsat_addSat (a b : Fpn) : (fp2Addsat a.word b.word).toInt = (a.addSat b).v := by
  have hla := a.lower
  have hua := a.upper
  have hlb := b.lower
  have hub := b.upper
  have hmax : fpnMax = 2 ^ 127 - 1 := rfl
  have hsum : (a.word + b.word).toInt = (a.v + b.v).bmod (2 ^ 128) := by
    rw [BitVec.toInt_add, Fpn.word_toInt, Fpn.word_toInt]
  have hover : 2 ^ 127 ≤ (~~~(a.word ^^^ b.word) &&& (a.word ^^^ (a.word + b.word))).toNat ↔
      (decide (a.v < 0) = decide (b.v < 0) ∧ decide (a.v < 0) ≠ decide ((a.v + b.v).bmod (2 ^ 128) < 0)) := by
    rw [top_iff_neg, BitVec.msb_and, BitVec.msb_not, BitVec.msb_xor, BitVec.msb_xor, msb_eq_neg, msb_eq_neg,
      msb_eq_neg, hsum,
      Fpn.word_toInt, Fpn.word_toInt]
    cases decide (a.v < 0) <;> cases decide (b.v < 0) <;> simp
  unfold fp2Addsat
  dsimp only
  rw [saturateSum_toInt, hsum, Fpn.word_toInt, Fpn.addSat, Fpn.saturate_eq]
  simp only [hover, ne_eq, decide_eq_decide]
  rw [Int.bmod_def]
  split <;> split <;> split <;> omega

/-- Two numbers of different signs whose wrapped difference has left the sign of the first. -/
theorem fp2Sub_sub (a b : Fpn) : (fp2Sub a.word b.word).toInt = (a.sub b).v := by
  have hla := a.lower
  have hua := a.upper
  have hlb := b.lower
  have hub := b.upper
  have hmax : fpnMax = 2 ^ 127 - 1 := rfl
  have hdiff : (a.word - b.word).toInt = (a.v - b.v).bmod (2 ^ 128) := by
    rw [BitVec.toInt_sub, Fpn.word_toInt, Fpn.word_toInt]
  have hover : 2 ^ 127 ≤ ((a.word ^^^ b.word) &&& (a.word ^^^ (a.word - b.word))).toNat ↔
      (decide (a.v < 0) ≠ decide (b.v < 0) ∧ decide (a.v < 0) ≠ decide ((a.v - b.v).bmod (2 ^ 128) < 0)) := by
    rw [top_iff_neg, BitVec.msb_and, BitVec.msb_xor, BitVec.msb_xor, msb_eq_neg, msb_eq_neg, msb_eq_neg, hdiff,
      Fpn.word_toInt, Fpn.word_toInt]
    cases decide (a.v < 0) <;> cases decide (b.v < 0) <;> simp
  unfold fp2Sub
  dsimp only
  rw [saturateSum_toInt, hdiff, Fpn.word_toInt, Fpn.sub, Fpn.saturate_eq]
  simp only [hover, ne_eq, decide_eq_decide]
  rw [Int.bmod_def]
  split <;> split <;> split <;> omega

/-! ### Products and quotients -/

namespace Fpn

theorem abs_word (a : Fpn) : (i128Abs a.word).toNat = a.v.natAbs := by
  have hl := a.lower
  have hu := a.upper
  have hmax : fpnMax = 2 ^ 127 - 1 := rfl
  rw [i128Abs_eq, i128Cneg_eq, word_toInt]
  by_cases hneg : a.v < 0
  · rw [decide_eq_true hneg, if_pos rfl, BitVec.toNat_neg, word, BitVec.toNat_ofInt]
    omega
  · rw [decide_eq_false hneg, if_neg Bool.false_ne_true, word, BitVec.toNat_ofInt]
    omega

/-- A magnitude is clamped on either side. -/
theorem ofMagnitude_eq (neg : Bool) (mag : ℕ) :
    (ofMagnitude neg mag).v = if neg then -((min mag (2 ^ 127 - 1) : ℕ) : ℤ) else (min mag (2 ^ 127 - 1) : ℕ) := by
  have hmax : fpnMax = 2 ^ 127 - 1 := rfl
  unfold ofMagnitude
  by_cases hmag : (mag : ℤ) ≤ fpnMax
  · rw [if_pos hmag, Nat.min_eq_left (by omega), saturate_v]
    · split <;> omega
    · split <;> omega
  · rw [if_neg hmag, Nat.min_eq_right (by omega)]
    cases neg <;> rfl

end Fpn

/-- A magnitude past the range, told by a mask, becomes the ceiling and takes its sign. -/
theorem applySign_saturateMag {mag : U128} {ovf : Bool} {n : ℕ} (neg : Bool) (hovf : ovf = decide (2 ^ 127 ≤ n))
    (hmag : n < 2 ^ 127 → mag.toNat = n) :
    (applySign (saturateMag mag (wordOf ovf)) neg).toInt = (Fpn.ofMagnitude neg n).v := by
  have hsat : (saturateMag mag (wordOf ovf)).toNat = min n (2 ^ 127 - 1) := by
    rw [saturateMag_wordOf, hovf]
    by_cases hn : 2 ^ 127 ≤ n
    · rw [decide_eq_true hn, if_pos rfl, fp2Max_toNat]
      omega
    · rw [decide_eq_false hn, if_neg Bool.false_ne_true, hmag (not_le.1 hn)]
      omega
  rw [applySign_toInt (by omega), hsat, Fpn.ofMagnitude_eq]

/-- A word or its complement plus one has the top bit, unless the word is zero. -/
theorem or_neg_top (x : U128) : (x ||| (~~~x + 1)) >>> 127 = wordOf (decide (x ≠ 0)) := by
  have hlt := x.isLt
  have hneg : ~~~x + 1 = -x := (BitVec.neg_eq_not_add x).symm
  have hiff : 2 ^ 127 ≤ (x ||| -x).toNat ↔ x ≠ 0 := by
    rw [top_iff_neg, BitVec.msb_or, BitVec.msb_eq_decide, BitVec.msb_eq_decide, Bool.or_eq_true, decide_eq_true_eq,
      decide_eq_true_eq, BitVec.toNat_neg, ne_eq, ← BitVec.toNat_inj]
    show _ ↔ ¬x.toNat = 0
    omega
  rw [shiftRight_top, hneg]
  exact congrArg wordOf (decide_eq_decide.2 hiff)

/-- The middle of a 256-bit product. -/
theorem toNat_middle (hi lo : U128) :
    (hi <<< 64 ||| ((lo >>> 64).setWidth 64).setWidth 128).toNat =
      hi.toNat % 2 ^ 64 * 2 ^ 64 + lo.toNat / 2 ^ 64 := by
  have hlo := lo.isLt
  have hlow : (((lo >>> 64).setWidth 64).setWidth 128).toNat = lo.toNat / 2 ^ 64 := by
    rw [BitVec.toNat_setWidth_of_le (by decide), (toNat_halves lo).2]
  have hhigh : (hi <<< 64).toNat = (hi.toNat % 2 ^ 64) <<< 64 := by
    rw [BitVec.toNat_shiftLeft, Nat.shiftLeft_eq, Nat.shiftLeft_eq]
    omega
  rw [BitVec.toNat_or, hlow, hhigh, ← Nat.shiftLeft_add_eq_or_of_lt (by omega), Nat.shiftLeft_eq]

theorem fp2Mul_mul {a b : Fpn} (ha : -fpnMax ≤ a.v) (hb : -fpnMax ≤ b.v) :
    (fp2Mul a.word b.word).toInt = (a.mul b).v := by
  have hua := a.upper
  have hub := b.upper
  have hmax : fpnMax = 2 ^ 127 - 1 := rfl
  have hone : fpnOne = 2 ^ 64 := rfl
  have haw := a.abs_word
  have hbw := b.abs_word
  have halt : (i128Abs a.word).toNat < 2 ^ 127 := by omega
  have hblt : (i128Abs b.word).toNat < 2 ^ 127 := by omega
  have hhi := umul_hi halt hblt
  have hlo := umul_lo halt hblt
  rw [haw, hbw] at hhi hlo
  unfold fp2Mul
  dsimp only
  rw [or_neg_top, Fpn.word_slt_zero, Fpn.word_slt_zero, Fpn.mul]
  generalize umul128x128_256 (i128Abs a.word) (i128Abs b.word) = p at hhi hlo ⊢
  have hmiddle := toNat_middle p.hi p.lo
  rw [hhi, hlo] at hmiddle
  have hprod : a.v.natAbs * b.v.natAbs < 2 ^ 254 :=
    (Nat.mul_lt_mul'' (haw ▸ halt) (hbw ▸ hblt)).trans_eq (Nat.pow_add 2 127 127).symm
  generalize a.v.natAbs * b.v.natAbs = n at hhi hlo hmiddle hprod ⊢
  have htop : (p.hi >>> 64).toNat = n / 2 ^ 192 := by
    rw [BitVec.toNat_ushiftRight, Nat.shiftRight_eq_div_pow, hhi]
    omega
  generalize p.hi <<< 64 ||| ((p.lo >>> 64).setWidth 64).setWidth 128 = mag at hmiddle ⊢
  have hzero : (p.hi >>> 64 ||| mag >>> 127 ≠ 0) ↔ 2 ^ 127 ≤ n / fpnOne := by
    have hor : (p.hi >>> 64 ||| mag >>> 127 = 0) ↔ p.hi >>> 64 = 0 ∧ mag >>> 127 = 0 := BitVec.or_eq_zero_iff
    rw [ne_eq, hor, shiftRight_top, ← BitVec.toNat_inj, ← BitVec.toNat_inj, htop, toNat_wordOf, hone]
    show ¬(n / 2 ^ 192 = 0 ∧ (if decide (2 ^ 127 ≤ mag.toNat) then 1 else 0) = 0) ↔ _
    by_cases hmag : 2 ^ 127 ≤ mag.toNat
    · rw [decide_eq_true hmag, if_pos rfl]
      omega
    · rw [decide_eq_false hmag, if_neg Bool.false_ne_true]
      omega
  refine applySign_saturateMag _ (decide_eq_decide.2 hzero) fun hlt => ?_
  rw [hone] at hlt ⊢
  omega

/-- The quotient of magnitudes, or the top bit where it does not fit or the divisor is zero. -/
theorem udivQ64_toNat (am bm : U128) (ham : am.toNat < 2 ^ 127) (hbm : bm.toNat ≤ 2 ^ 127) :
    if bm.toNat = 0 ∨ 2 ^ 127 ≤ am.toNat * fpnOne / bm.toNat then 2 ^ 127 ≤ (udivQ64 am bm).toNat
    else (udivQ64 am bm).toNat = am.toNat * fpnOne / bm.toNat := by
  have hhi : (am >>> 64).toNat = am.toNat / 2 ^ 64 := by rw [BitVec.toNat_ushiftRight, Nat.shiftRight_eq_div_pow]
  have hlo : (am <<< 64).toNat = am.toNat * 2 ^ 64 % 2 ^ 128 := by rw [BitVec.toNat_shiftLeft, Nat.shiftLeft_eq]
  have hone : fpnOne = 2 ^ 64 := rfl
  have hseed : (am >>> 64).toNat * 2 ^ 128 + (am <<< 64).toNat = am.toNat * fpnOne := by
    rw [hhi, hlo, hone]
    omega
  by_cases hfits : (am >>> 64).toNat < bm.toNat
  · obtain ⟨hq, -⟩ := udiv256Qr_exact (am >>> 64) (am <<< 64) hbm hfits
    rw [hseed] at hq
    have hpos : bm.toNat ≠ 0 := Nat.ne_zero_of_lt hfits
    split
    next hover => exact hq ▸ hover.resolve_left hpos
    next => exact hq
  · have htop := le_udiv256Qr (am <<< 64) (by omega) (not_lt.1 hfits)
    rw [if_pos]
    · exact htop
    · by_cases hzero : bm.toNat = 0
      · exact .inl hzero
      · refine .inr ((Nat.le_div_iff_mul_le (by omega)).2 ?_)
        omega

theorem fp2Div_divNoAssert {a b : Fpn} (ha : -fpnMax ≤ a.v) : (fp2Div a.word b.word).toInt = (a.divNoAssert b).v := by
  have hua := a.upper
  have hlb := b.lower
  have hub := b.upper
  have hmax : fpnMax = 2 ^ 127 - 1 := rfl
  have hmag : ∀ x : Fpn, (if x.neg then -x.word else x.word) = i128Abs x.word := fun x => by
    rw [i128Abs_eq, i128Cneg_eq, Fpn.word_toInt]
    rfl
  have hquot := udivQ64_toNat (i128Abs a.word) (i128Abs b.word) (by rw [a.abs_word]; omega)
    (by rw [b.abs_word]; omega)
  rw [a.abs_word, b.abs_word] at hquot
  unfold fp2Div
  dsimp only
  rw [Fpn.word_slt_zero, Fpn.word_slt_zero, hmag, hmag, shiftRight_top, Fpn.divNoAssert]
  generalize udivQ64 (i128Abs a.word) (i128Abs b.word) = qm at hquot ⊢
  by_cases hb : b.v = 0
  · -- A quotient by zero has its top bit set, whatever else is in it.
    rw [if_pos (.inl (Int.natAbs_eq_zero.2 hb))] at hquot
    have hneg : xor a.neg b.neg = a.neg := by
      rw [Fpn.neg, Fpn.neg, hb]
      exact Bool.xor_false _
    rw [if_pos hb, hneg, applySign_saturateMag (n := 2 ^ 127) _ (decide_eq_decide.2 (iff_of_true hquot le_rfl))
      fun h => absurd h (lt_irrefl _)]
    cases a.neg <;> decide
  · rw [if_neg hb]
    by_cases hover : 2 ^ 127 ≤ a.v.natAbs * fpnOne / b.v.natAbs
    · rw [if_pos (.inr hover)] at hquot
      exact applySign_saturateMag _ (decide_eq_decide.2 (iff_of_true hquot hover)) fun h => absurd hover (not_le.2 h)
    · rw [if_neg (by rintro (h | h); exacts [hb (Int.natAbs_eq_zero.1 h), hover h])] at hquot
      exact applySign_saturateMag _ (by rw [hquot]) fun _ => hquot

/-! ### The symmetric range -/

namespace Fpn

/-- The end of the symmetric range on the side of `s`, or `s`. -/
def clamp (s : ℤ) : ℤ := max (-fpnMax) (min s fpnMax)

variable {a b : Fpn}

theorem clamp_within (s : ℤ) : -fpnMax ≤ clamp s ∧ clamp s ≤ fpnMax := by
  have hmax : fpnMax = 2 ^ 127 - 1 := rfl
  unfold clamp
  omega

/-- The overflow of the machine clamps all but `-2¹²⁷`. -/
theorem saturate_clamp_iff (s : ℤ) : (saturate s).v = clamp s ↔ s ≠ -(fpnMax + 1) := by
  have hmax : fpnMax = 2 ^ 127 - 1 := rfl
  rw [saturate_eq, clamp]
  split
  · omega
  · split <;> omega

theorem ofMagnitude_clamp (neg : Bool) (mag : ℕ) :
    (ofMagnitude neg mag).v = clamp (if neg then -(mag : ℤ) else mag) := by
  have hmax : fpnMax = 2 ^ 127 - 1 := rfl
  rw [ofMagnitude_eq, clamp]
  cases neg with
  | false =>
    rw [if_neg Bool.false_ne_true, if_neg Bool.false_ne_true]
    omega
  | true =>
    rw [if_pos rfl, if_pos rfl]
    omega

theorem mul_clamp (a b : Fpn) : (a.mul b).v = clamp ((a.v * b.v).tdiv fpnOne) := by
  rw [mul, ofMagnitude_clamp]
  exact congrArg clamp (signed_mul_div a.v b.v fpnOne)

theorem divNoAssert_clamp (a b : Fpn) :
    (a.divNoAssert b).v = if b.v = 0 then (if a.v < 0 then -fpnMax else fpnMax)
      else clamp ((a.v * fpnOne).tdiv b.v) := by
  unfold divNoAssert
  split
  · exact if_congr decide_eq_true_iff rfl rfl
  · rw [ofMagnitude_clamp]
    exact congrArg clamp (signed_div a.v b.v fpnOne)

/-- The four operations are exact, truncated towards zero, and clamped to the symmetric range. -/
structure Clamped (a b : Fpn) : Prop where
  add : (fp2Addsat a.word b.word).toInt = clamp (a.v + b.v)
  sub : (fp2Sub a.word b.word).toInt = clamp (a.v - b.v)
  mul : (fp2Mul a.word b.word).toInt = clamp ((a.v * b.v).tdiv fpnOne)
  div : (fp2Div a.word b.word).toInt =
    if b.v = 0 then (if a.v < 0 then -fpnMax else fpnMax) else clamp ((a.v * fpnOne).tdiv b.v)

/-- No result leaves the symmetric range then. -/
theorem Clamped.within (h : Clamped a b) {r : U128}
    (hr : r ∈ [fp2Addsat a.word b.word, fp2Sub a.word b.word, fp2Mul a.word b.word, fp2Div a.word b.word]) :
    -fpnMax ≤ r.toInt ∧ r.toInt ≤ fpnMax := by
  have hends : -fpnMax ≤ (if a.v < 0 then -fpnMax else fpnMax) ∧ (if a.v < 0 then -fpnMax else fpnMax) ≤ fpnMax := by
    split <;> decide
  simp only [List.mem_cons, List.not_mem_nil, or_false] at hr
  obtain rfl | rfl | rfl | rfl := hr
  · exact h.add ▸ clamp_within _
  · exact h.sub ▸ clamp_within _
  · exact h.mul ▸ clamp_within _
  · rw [h.div]
    split
    · exact hends
    · exact clamp_within _

/-- In the symmetric range the operations clamp unless a sum or a difference is exactly `-2¹²⁷`. -/
theorem clamped_iff (a b : Fpn) (ha : -fpnMax ≤ a.v) (hb : -fpnMax ≤ b.v) :
    Clamped a b ↔ a.v + b.v ≠ -(fpnMax + 1) ∧ a.v - b.v ≠ -(fpnMax + 1) := by
  rw [← saturate_clamp_iff, ← saturate_clamp_iff]
  constructor
  · intro h
    exact ⟨(fp2Addsat_addSat a b).symm.trans h.add, (fp2Sub_sub a b).symm.trans h.sub⟩
  · rintro ⟨hadd, hsub⟩
    exact
      { add := (fp2Addsat_addSat a b).trans hadd
        sub := (fp2Sub_sub a b).trans hsub
        mul := (fp2Mul_mul ha hb).trans (mul_clamp a b)
        div := (fp2Div_divNoAssert ha).trans (divNoAssert_clamp a b) }

/-- One half, and minus one half. -/
def sampleHalves : Fpn × Fpn := (saturate 9223372036854775808, saturate (-9223372036854775808))

theorem clamped_iff_halves : Clamped sampleHalves.1 sampleHalves.2 ↔
    sampleHalves.1.v + sampleHalves.2.v ≠ -(fpnMax + 1) ∧ sampleHalves.1.v - sampleHalves.2.v ≠ -(fpnMax + 1) :=
  clamped_iff sampleHalves.1 sampleHalves.2 (by decide) (by decide)

/-- Minus `2⁶²`, whose payload is `-2¹²⁶`. -/
def sampleLow : Fpn := fromInt (-4611686018427387904)

/-- Twice that number is the one below the symmetric range. -/
theorem addsat_leaves_range :
    -fpnMax ≤ sampleLow.v ∧ (fp2Addsat sampleLow.word sampleLow.word).toInt = -(fpnMax + 1) ∧
    clamp (sampleLow.v + sampleLow.v) = -fpnMax ∧ ¬Clamped sampleLow sampleLow :=
  ⟨by decide +kernel, by decide +kernel, by decide +kernel, fun h => absurd h.add (by decide +kernel)⟩

end Fpn

end FoxTrader
