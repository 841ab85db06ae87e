import FoxTrader.Lib.WordProduct
import FoxTrader.MoneyExact

/-! # Multiplying money in machine words

    `Money_Mul` works on 128-bit words: magnitudes by a sign mask, the 256-bit product from the four
    products of 64-bit halves, the quotient by 10⁸ from a product with a 127-bit constant, half-even
    rounding, and saturation by a mask. Below 2¹²⁷ the product and the quotient are exact, so on the
    closure of money the words compute `Money.mul`. -/

namespace FoxTrader

open Lib

/-! ### Words -/

/-- `unsigned __int128`. -/
abbrev U128 := BitVec 128

/-- A comparison as a word. -/
def wordOf (b : Bool) : U128 := (BitVec.ofBool b).setWidth 128

def i128Abs (v : U128) : U128 :=
  let s := v.sshiftRight 127
  (v ^^^ s) - s

def i128Cneg (v : U128) (neg : Bool) : U128 :=
  let m := -wordOf neg
  (v ^^^ m) - m

/-- `product = hi·2^128 + lo`. -/
structure U256 where
  hi : U128
  lo : U128

def umul128x128_256 (a b : U128) : U256 :=
  let aLo := a.setWidth 64
  let aHi := (a >>> 64).setWidth 64
  let bLo := b.setWidth 64
  let bHi := (b >>> 64).setWidth 64
  let ll := aLo.setWidth 128 * bLo.setWidth 128
  let lh := aLo.setWidth 128 * bHi.setWidth 128
  let hl := aHi.setWidth 128 * bLo.setWidth 128
  let hh := aHi.setWidth 128 * bHi.setWidth 128
  let mid := lh + hl + (ll >>> 64)
  let shifted := hh + (mid >>> 64)
  ⟨shifted, (mid.setWidth 64).setWidth 128 <<< 64 ||| (ll.setWidth 64).setWidth 128⟩

/-- `MONEY_SCALE`. -/
def moneyScaleWord : U128 := 100000000

structure DivmulQr where
  q : U128
  r : U128

/-- The constant `M` of the reduction. -/
def divmulMagic : U128 := 0x55e63b88c230e77e#128 <<< 64 ||| 0x7ee106959b5d3e1f#128

def divmulPow10 (P : U128) : DivmulQr :=
  let pm := umul128x128_256 P divmulMagic
  let q := pm.hi >>> 25
  let r := P - q * moneyScaleWord
  ⟨q, r⟩

def moneyRoundHalfEven (q r d : U128) : U128 :=
  let half := d >>> 1
  let up := wordOf (half < r) ||| (wordOf (r = half) &&& wordOf (d &&& 1 = 0) &&& (q &&& 1))
  q + up

/-- The value with the bits that it leaves in `money_op_flags`. -/
def moneyMul (a b : U128) : Flagged 64 U128 :=
  let neg := xor (a.slt 0) (b.slt 0)
  let amag := i128Abs a
  let bmag := i128Abs b
  let p := umul128x128_256 amag bmag
  let dr := divmulPow10 p.lo
  let mag := moneyRoundHalfEven dr.q dr.r moneyScaleWord
  let lim := (1#128 <<< 63) - 1
  let ovf := wordOf (p.hi ≠ 0) ||| wordOf (lim < mag)
  let ofM := 0 - ovf
  let sat := (mag &&& ~~~ofM) ||| (lim &&& ofM)
  ⟨i128Cneg sat neg, ovf.setWidth 64⟩

/-! ### The product -/

theorem toNat_mul_halves (x y : BitVec 64) : (x.setWidth 128 * y.setWidth 128).toNat = x.toNat * y.toNat := by
  have hlt : x.toNat * y.toNat < 2 ^ 128 :=
    (Nat.mul_lt_mul'' x.isLt y.isLt).trans_eq (Nat.pow_add 2 64 64).symm
  rw [BitVec.toNat_mul, BitVec.toNat_setWidth_of_le (by decide), BitVec.toNat_setWidth_of_le (by decide),
    Nat.mod_eq_of_lt hlt]

theorem toNat_halves (a : U128) :
    (a.setWidth 64).toNat = a.toNat % 2 ^ 64 ∧ ((a >>> 64).setWidth 64).toNat = a.toNat / 2 ^ 64 := by
  have hlt := a.isLt
  refine ⟨BitVec.toNat_setWidth .., ?_⟩
  rw [BitVec.toNat_setWidth, BitVec.toNat_ushiftRight, Nat.shiftRight_eq_div_pow, Nat.mod_eq_of_lt (by omega)]

/-- Two words side by side. -/
theorem toNat_join (hi lo : BitVec 64) :
    (hi.setWidth 128 <<< 64 ||| lo.setWidth 128).toNat = hi.toNat * 2 ^ 64 + lo.toNat := by
  have hhi := hi.isLt
  rw [BitVec.toNat_or, BitVec.toNat_shiftLeft, BitVec.toNat_setWidth_of_le (by decide),
    BitVec.toNat_setWidth_of_le (by decide), Nat.shiftLeft_eq, Nat.mod_eq_of_lt (by omega), ← Nat.shiftLeft_eq,
    ← Nat.shiftLeft_add_eq_or_of_lt lo.isLt, Nat.shiftLeft_eq]

/-- The product of two words below 2¹²⁷ is exact. -/
theorem umul_exact {a b : U128} (ha : a.toNat < 2 ^ 127) (hb : b.toNat < 2 ^ 127) :
    (umul128x128_256 a b).hi.toNat * 2 ^ 128 + (umul128x128_256 a b).lo.toNat = a.toNat * b.toNat := by
  obtain ⟨halo, hahi⟩ := toNat_halves a
  obtain ⟨hblo, hbhi⟩ := toNat_halves b
  have hsplit := split_product (2 ^ 64) (a.toNat / 2 ^ 64) (a.toNat % 2 ^ 64) (b.toNat / 2 ^ 64) (b.toNat % 2 ^ 64)
  rw [Nat.div_add_mod', Nat.div_add_mod'] at hsplit
  have ha₁ : a.toNat / 2 ^ 64 ≤ 2 ^ 63 - 1 := by omega
  have hb₁ : b.toNat / 2 ^ 64 ≤ 2 ^ 63 - 1 := by omega
  rw [← halo, ← hahi, ← hblo, ← hbhi] at hsplit
  rw [← hahi] at ha₁
  rw [← hbhi] at hb₁
  unfold umul128x128_256
  dsimp only
  generalize a.setWidth 64 = aLo at hsplit ⊢
  generalize (a >>> 64).setWidth 64 = aHi at hsplit ha₁ ⊢
  generalize b.setWidth 64 = bLo at hsplit ⊢
  generalize (b >>> 64).setWidth 64 = bHi at hsplit hb₁ ⊢
  have hword : ∀ x : BitVec 64, x.toNat ≤ 2 ^ 64 - 1 := fun x => Nat.le_sub_one_of_lt x.isLt
  have hll := Nat.mul_le_mul (hword aLo) (hword bLo)
  have hlh := Nat.mul_le_mul (hword aLo) hb₁
  have hhl := Nat.mul_le_mul ha₁ (hword bLo)
  have hhh := Nat.mul_le_mul ha₁ hb₁
  -- The middle word holds both cross products and the carry, as the upper halves are below 2⁶³.
  have hmid : (aLo.setWidth 128 * bHi.setWidth 128 + aHi.setWidth 128 * bLo.setWidth 128 +
      (aLo.setWidth 128 * bLo.setWidth 128) >>> 64).toNat =
        aLo.toNat * bHi.toNat + aHi.toNat * bLo.toNat + aLo.toNat * bLo.toNat / 2 ^ 64 := by
    rw [BitVec.toNat_add, BitVec.toNat_add, BitVec.toNat_ushiftRight, toNat_mul_halves, toNat_mul_halves,
      toNat_mul_halves, Nat.shiftRight_eq_div_pow]
    omega
  rw [toNat_join, BitVec.toNat_add, BitVec.toNat_ushiftRight, BitVec.toNat_setWidth, BitVec.toNat_setWidth, hmid,
    toNat_mul_halves, toNat_mul_halves, Nat.shiftRight_eq_div_pow, Nat.mod_eq_of_lt]
  · exact hsplit
  · omega

theorem umul_hi {a b : U128} (ha : a.toNat < 2 ^ 127) (hb : b.toNat < 2 ^ 127) :
    (umul128x128_256 a b).hi.toNat = a.toNat * b.toNat / 2 ^ 128 := by
  have hexact := umul_exact ha hb
  have hlo := (umul128x128_256 a b).lo.isLt
  omega

theorem umul_lo {a b : U128} (ha : a.toNat < 2 ^ 127) (hb : b.toNat < 2 ^ 127) :
    (umul128x128_256 a b).lo.toNat = a.toNat * b.toNat % 2 ^ 128 := by
  have hexact := umul_exact ha hb
  have hlo := (umul128x128_256 a b).lo.isLt
  omega

/-! ### The reduction -/

/-- `2¹⁵³` is below `M · 10⁸` by less than `2²⁶`, so no dividend below `2¹²⁷` sees the difference. -/
theorem mul_magic_div {p : ℕ} (hp : p < 2 ^ 127) : p * divmulMagic.toNat / 2 ^ 153 = p / moneyScale := by
  have hgap : divmulMagic.toNat * moneyScale - 2 ^ 153 = 38027008 := by decide
  refine reciprocal_div (by decide) (by decide) ?_
  rw [hgap]
  omega

theorem divmulPow10_exact {P : U128} (hP : P.toNat < 2 ^ 127) :
    (divmulPow10 P).q.toNat = P.toNat / moneyScale ∧ (divmulPow10 P).r.toNat = P.toNat % moneyScale := by
  have hmagic : divmulMagic.toNat < 2 ^ 127 := by decide
  have hscale : moneyScaleWord.toNat = moneyScale := by decide
  have hq : (divmulPow10 P).q.toNat = P.toNat / moneyScale := by
    rw [divmulPow10, BitVec.toNat_ushiftRight, umul_hi hP hmagic, Nat.shiftRight_eq_div_pow, Nat.div_div_eq_div_mul,
      ← Nat.pow_add]
    exact mul_magic_div hP
  have hr : (divmulPow10 P).r = P - (divmulPow10 P).q * moneyScaleWord := rfl
  have hle : P.toNat / moneyScale * moneyScale ≤ P.toNat := Nat.div_mul_le_self ..
  have hprod : ((divmulPow10 P).q * moneyScaleWord).toNat = P.toNat / moneyScale * moneyScale := by
    rw [BitVec.toNat_mul, hq, hscale, Nat.mod_eq_of_lt (by omega)]
  refine ⟨hq, ?_⟩
  rw [hr, BitVec.toNat_sub_of_le (by rw [BitVec.le_def, hprod]; exact hle), hprod]
  exact (Nat.mod_eq_sub_div_mul ..).symm

/-! ### Rounding, sign and saturation -/

theorem wordOf_eq (b : Bool) : wordOf b = if b then 1 else 0 := by cases b <;> decide

theorem toNat_wordOf (b : Bool) : (wordOf b).toNat = if b then 1 else 0 := by cases b <;> decide

theorem wordOf_or (b c : Bool) : wordOf b ||| wordOf c = wordOf (b || c) := by cases b <;> cases c <;> decide

theorem wordOf_and (b c : Bool) : wordOf b &&& wordOf c = wordOf (b && c) := by cases b <;> cases c <;> decide

/-- The lowest bit as a word. -/
theorem and_one_eq_wordOf (q : U128) : q &&& 1 = wordOf (decide (q.toNat % 2 = 1)) := by
  refine BitVec.eq_of_toNat_eq ?_
  rw [BitVec.toNat_and, toNat_wordOf]
  show q.toNat &&& 1 = _
  rw [Nat.and_one_is_mod]
  rcases Nat.mod_two_eq_zero_or_one q.toNat with h | h <;> simp [h]

theorem moneyRoundHalfEven_toNat {q r d : U128} (hq : q.toNat < 2 ^ 127) :
    (moneyRoundHalfEven q r d).toNat = Money.roundHalfEven q.toNat r.toNat d.toNat := by
  have hhalf : (d >>> 1).toNat = d.toNat / 2 := by rw [BitVec.toNat_ushiftRight, Nat.shiftRight_eq_div_pow]
  have hodd : (d &&& 1 = 0) ↔ d.toNat % 2 = 0 := by
    rw [and_one_eq_wordOf, wordOf_eq]
    rcases Nat.mod_two_eq_zero_or_one d.toNat with h | h <;> simp [h]
  have hlt : (d >>> 1 < r) ↔ d.toNat / 2 < r.toNat := by rw [BitVec.lt_def, hhalf]
  have heq : (r = d >>> 1) ↔ r.toNat = d.toNat / 2 := by rw [← hhalf]; exact BitVec.toNat_inj.symm
  unfold moneyRoundHalfEven Money.roundHalfEven
  dsimp only
  rw [and_one_eq_wordOf q, wordOf_and, wordOf_and, wordOf_or, BitVec.toNat_add, toNat_wordOf]
  simp only [hlt, heq, hodd, Bool.or_eq_true, Bool.and_eq_true, decide_eq_true_eq, and_assoc, gt_iff_lt]
  refine Nat.mod_eq_of_lt ?_
  split <;> omega

/-- The payload of money as a word. -/
def Money.word (a : Money) : U128 := BitVec.ofInt 128 a.v

theorem Money.abs_le (a : Money) : a.v.natAbs ≤ 2 ^ 63 - 1 := by
  have hl := a.lower
  have hu := a.upper
  have hmax : moneyMax = 2 ^ 63 - 1 := rfl
  omega

theorem Money.word_toInt (a : Money) : a.word.toInt = a.v := by
  have habs := a.abs_le
  rw [Money.word, BitVec.toInt_ofInt, Int.bmod_eq_of_le] <;> omega

theorem sshiftRight_sign (v : U128) : v.sshiftRight 127 = -wordOf (decide (v.toInt < 0)) := by
  have hl := v.le_toInt
  have hu := v.toInt_lt
  refine BitVec.eq_of_toInt_eq ?_
  rw [BitVec.toInt_sshiftRight, Int.shiftRight_eq_div_pow]
  by_cases hneg : v.toInt < 0
  · rw [decide_eq_true hneg, show (-wordOf true).toInt = -1 by decide]
    omega
  · rw [decide_eq_false hneg, show (-wordOf false).toInt = 0 by decide]
    omega

/-- A mask of ones complements and adds one. -/
theorem i128Cneg_eq (v : U128) (neg : Bool) : i128Cneg v neg = if neg then -v else v := by
  unfold i128Cneg
  cases neg with
  | false => simp [wordOf_eq]
  | true =>
    have hones : -wordOf true = BitVec.allOnes 128 := by decide
    dsimp only
    rw [hones, BitVec.xor_allOnes, if_pos rfl, BitVec.neg_eq_not_add, BitVec.sub_eq_add_neg]
    exact congrArg (~~~v + ·) (by decide : -BitVec.allOnes 128 = 1#128)

theorem i128Abs_eq (v : U128) : i128Abs v = i128Cneg v (decide (v.toInt < 0)) := by
  rw [i128Abs, sshiftRight_sign]
  rfl

theorem i128Abs_word (a : Money) : (i128Abs a.word).toNat = a.v.natAbs := by
  have habs := a.abs_le
  rw [i128Abs_eq, i128Cneg_eq, Money.word_toInt]
  by_cases hneg : a.v < 0
  · rw [decide_eq_true hneg, if_pos rfl, BitVec.toNat_neg, Money.word, BitVec.toNat_ofInt]
    omega
  · rw [decide_eq_false hneg, if_neg Bool.false_ne_true, Money.word, BitVec.toNat_ofInt]
    omega

/-- The mask keeps the magnitude or takes the limit. -/
theorem blend_eq (mag lim : U128) (ovf : Bool) :
    (mag &&& ~~~(0 - wordOf ovf)) ||| (lim &&& (0 - wordOf ovf)) = if ovf then lim else mag := by
  cases ovf with
  | false =>
    have hzeros : 0 - wordOf false = 0#128 := by decide
    rw [hzeros, BitVec.not_zero, BitVec.and_allOnes, BitVec.and_zero, BitVec.or_zero, if_neg Bool.false_ne_true]
  | true =>
    have hones : 0 - wordOf true = BitVec.allOnes 128 := by decide
    rw [hones, BitVec.not_allOnes, BitVec.and_allOnes, BitVec.and_zero, BitVec.zero_or, if_pos rfl]

theorem i128Cneg_toInt {mag : U128} (h : mag.toNat ≤ 2 ^ 63 - 1) (neg : Bool) :
    (i128Cneg mag neg).toInt = if neg then -(mag.toNat : ℤ) else mag.toNat := by
  have hmag : mag.toInt = mag.toNat := BitVec.toInt_eq_toNat_of_lt (by omega)
  rw [i128Cneg_eq]
  cases neg with
  | false => exact hmag
  | true =>
    rw [if_pos rfl, if_pos rfl, BitVec.toInt_neg, hmag, Int.bmod_eq_of_le] <;> omega

/-! ### The multiplication -/

/-- The rounded magnitude of a product of money. -/
def roundedProduct (a b : Money) : ℕ :=
  Money.roundHalfEven (a.v.natAbs * b.v.natAbs / moneyScale) (a.v.natAbs * b.v.natAbs % moneyScale) moneyScale

theorem moneyMul_words (a b : Money) :
    (moneyMul a.word b.word).val.toInt =
        Money.signed a b (if 2 ^ 63 - 1 < roundedProduct a b then 2 ^ 63 - 1 else roundedProduct a b) ∧
      (moneyMul a.word b.word).flags = if 2 ^ 63 - 1 < roundedProduct a b then Money.flagOverflow else 0 := by
  have ha := i128Abs_word a
  have hb := i128Abs_word b
  have hprod : a.v.natAbs * b.v.natAbs ≤ (2 ^ 63 - 1) * (2 ^ 63 - 1) := Nat.mul_le_mul a.abs_le b.abs_le
  have ha' : (i128Abs a.word).toNat < 2 ^ 127 := by have := a.abs_le; omega
  have hb' : (i128Abs b.word).toNat < 2 ^ 127 := by have := b.abs_le; omega
  have hhi : (umul128x128_256 (i128Abs a.word) (i128Abs b.word)).hi = 0 := by
    refine BitVec.eq_of_toNat_eq ?_
    rw [umul_hi ha' hb', ha, hb]
    exact Nat.div_eq_of_lt (by omega)
  have hlo : (umul128x128_256 (i128Abs a.word) (i128Abs b.word)).lo.toNat = a.v.natAbs * b.v.natAbs := by
    rw [umul_lo ha' hb', ha, hb]
    exact Nat.mod_eq_of_lt (by omega)
  obtain ⟨hq, hr⟩ := divmulPow10_exact (P := (umul128x128_256 (i128Abs a.word) (i128Abs b.word)).lo) (by omega)
  rw [hlo] at hq hr
  have hscale : moneyScaleWord.toNat = moneyScale := by decide
  have hlim : ((1#128 <<< 63) - 1).toNat = 2 ^ 63 - 1 := by decide
  have hround : (moneyRoundHalfEven (divmulPow10 (umul128x128_256 (i128Abs a.word) (i128Abs b.word)).lo).q
      (divmulPow10 (umul128x128_256 (i128Abs a.word) (i128Abs b.word)).lo).r moneyScaleWord).toNat =
        roundedProduct a b := by
    rw [moneyRoundHalfEven_toNat (hq.trans_lt ((Nat.div_le_self ..).trans_lt (by omega))), hq, hr, hscale]
    rfl
  have hneg : xor (a.word.slt 0) (b.word.slt 0) = xor (decide (a.v < 0)) (decide (b.v < 0)) := by
    rw [BitVec.slt, BitVec.slt, Money.word_toInt, Money.word_toInt]
    rfl
  unfold moneyMul
  dsimp only
  rw [hhi, hneg]
  generalize moneyRoundHalfEven (divmulPow10 (umul128x128_256 (i128Abs a.word) (i128Abs b.word)).lo).q
    (divmulPow10 (umul128x128_256 (i128Abs a.word) (i128Abs b.word)).lo).r moneyScaleWord = mag at hround ⊢
  have hzero : decide ((0 : U128) ≠ 0) = false := rfl
  have hovf : decide ((1#128 <<< 63) - 1 < mag) = decide (2 ^ 63 - 1 < roundedProduct a b) :=
    decide_eq_decide.2 (by rw [BitVec.lt_def, hlim, hround])
  rw [wordOf_or, blend_eq, hzero, hovf, Bool.false_or]
  by_cases hover : 2 ^ 63 - 1 < roundedProduct a b
  · rw [if_pos hover, if_pos hover, decide_eq_true hover, if_pos rfl, i128Cneg_toInt hlim.le, hlim]
    exact ⟨rfl, by decide⟩
  · rw [if_neg hover, if_neg hover, decide_eq_false hover, if_neg Bool.false_ne_true,
      i128Cneg_toInt (hround.trans_le (Nat.le_of_not_lt hover)), hround]
    exact ⟨rfl, by decide⟩

/-- A magnitude past the closure saturates on its own side. -/
theorem saturate_magnitude (neg : Bool) (mag : ℕ) :
    (Money.saturate (if neg then -(mag : ℤ) else mag)).val.v =
        (if neg then -((if 2 ^ 63 - 1 < mag then 2 ^ 63 - 1 else mag : ℕ) : ℤ)
          else (if 2 ^ 63 - 1 < mag then 2 ^ 63 - 1 else mag : ℕ)) ∧
      (Money.saturate (if neg then -(mag : ℤ) else mag)).flags = if 2 ^ 63 - 1 < mag then Money.flagOverflow
        else 0 := by
  have hmax : moneyMax = 2 ^ 63 - 1 := rfl
  by_cases hover : 2 ^ 63 - 1 < mag
  · rw [if_pos hover, if_pos hover, Money.saturate, dif_neg (by cases neg <;> simp <;> omega)]
    refine ⟨?_, rfl⟩
    cases neg with
    | false =>
      have hneg : ¬(mag : ℤ) < 0 := by omega
      simp [Money.ceiling, hneg, hmax]
    | true =>
      have hpos : 0 < mag := by omega
      simp [Money.ceiling, hpos, hmax]
  · rw [if_neg hover, if_neg hover, Money.saturate, dif_pos (by cases neg <;> simp <;> omega)]
    exact ⟨rfl, rfl⟩

/-- The words compute the product of money. -/
theorem moneyMul_mul (a b : Money) :
    (moneyMul a.word b.word).val.toInt = (a.mul b).val.v ∧ (moneyMul a.word b.word).flags = (a.mul b).flags := by
  obtain ⟨hval, hflags⟩ := moneyMul_words a b
  obtain ⟨hval', hflags'⟩ := saturate_magnitude (xor (decide (a.v < 0)) (decide (b.v < 0))) (roundedProduct a b)
  exact ⟨hval.trans hval'.symm, hflags.trans hflags'.symm⟩

theorem roundedProduct_eq (a b : Money) : (roundedProduct a b : ℤ) = halfEven (|a.v| * |b.v|) moneyScale := by
  rw [roundedProduct, Money.roundHalfEven_eq _ (by decide), Nat.cast_mul, Int.natCast_natAbs, Int.natCast_natAbs]

/-- The multiplication of money is the nearest payload to the product, a tie to the even one, and past
    the closure its end with the overflow bit; the product of words and the reduction are exact. -/
theorem money_mul_nearest (a b : Money) {x y P : U128} (hx : x.toNat < 2 ^ 127) (hy : y.toNat < 2 ^ 127)
    (hP : P.toNat < 2 ^ 127) :
    (umul128x128_256 x y).hi.toNat * 2 ^ 128 + (umul128x128_256 x y).lo.toNat = x.toNat * y.toNat ∧
      (divmulPow10 P).q.toNat = P.toNat / moneyScale ∧ (divmulPow10 P).r.toNat = P.toNat % moneyScale ∧
      (moneyMul a.word b.word).val.toInt =
        a.side * b.side * min (halfEven (|a.v| * |b.v|) moneyScale) moneyMax ∧
      (moneyMul a.word b.word).flags =
        if moneyMax < halfEven (|a.v| * |b.v|) moneyScale then Money.flagOverflow else 0 := by
  obtain ⟨hq, hr⟩ := divmulPow10_exact hP
  obtain ⟨hval, hflags⟩ := moneyMul_words a b
  have hmax : moneyMax = ((2 ^ 63 - 1 : ℕ) : ℤ) := rfl
  refine ⟨umul_exact hx hy, hq, hr, ?_, ?_⟩
  · rw [hval, Money.signed_eq, ← roundedProduct_eq, hmax]
    refine congrArg (a.side * b.side * ·) ?_
    split <;> omega
  · rw [hflags, ← roundedProduct_eq, hmax]
    exact if_congr Nat.cast_lt.symm rfl rfl

/-- Three and minus five. -/
def sampleFactors : Money × Money := ((Money.fromInt 3).val, (Money.fromInt (-5)).val)

theorem money_mul_nearest_signed :
    (umul128x128_256 3 5).hi.toNat * 2 ^ 128 + (umul128x128_256 3 5).lo.toNat = (3 : U128).toNat * (5 : U128).toNat ∧
      (divmulPow10 150000000).q.toNat = (150000000 : U128).toNat / moneyScale ∧
      (divmulPow10 150000000).r.toNat = (150000000 : U128).toNat % moneyScale ∧
      (moneyMul sampleFactors.1.word sampleFactors.2.word).val.toInt =
        sampleFactors.1.side * sampleFactors.2.side *
          min (halfEven (|sampleFactors.1.v| * |sampleFactors.2.v|) moneyScale) moneyMax ∧
      (moneyMul sampleFactors.1.word sampleFactors.2.word).flags =
        if moneyMax < halfEven (|sampleFactors.1.v| * |sampleFactors.2.v|) moneyScale then Money.flagOverflow
          else 0 :=
  money_mul_nearest sampleFactors.1 sampleFactors.2 (by decide) (by decide) (by decide)

end FoxTrader
