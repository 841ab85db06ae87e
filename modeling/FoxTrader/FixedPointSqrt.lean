import FoxTrader.FixedPointWords
import FoxTrader.Lib.NewtonSqrt

/-! # The square root of a fixed-point number

    `fp2_sqrt` runs twelve Newton steps from a power of two that the bit length of the number gives. On
    payloads the quotient is `v · 2⁶⁴ / y`, the half is a multiplication with `2⁶³`, and nothing
    saturates, so the twelve steps are those of the integer square root of `v · 2⁶⁴`. -/

namespace FoxTrader

open Lib

/-- `__builtin_clzll`. -/
def clzll (x : BitVec 64) : ℕ := x.clz.toNat

/-- The place of the top set bit. -/
def topBit (m : U128) : ℕ :=
  let hi := (m >>> 64).setWidth 64
  let lo := m.setWidth 64
  if hi ≠ 0 then 127 - clzll hi else 63 - clzll lo

/-- One half. -/
def fp2Half : U128 := 1#128 <<< 63

/-- `y = (y + a / y) / 2`. -/
def sqrtStep (a y : U128) : U128 := fp2Mul (fp2Addsat y (fp2Div a y)) fp2Half

/-- `k` steps from the seed. -/
def sqrtSteps (a : U128) : ℕ → U128
  | 0 => 1#128 <<< ((topBit a + 64) / 2)
  | k + 1 => sqrtStep a (sqrtSteps a k)

def fp2Sqrt (a : U128) : U128 := if a.sle 0 then 0 else sqrtSteps a 12

/-! ### The seed -/

theorem clzll_spec {x : BitVec 64} (hx : x ≠ 0) :
    clzll x < 64 ∧ 2 ^ (63 - clzll x) ≤ x.toNat ∧ x.toNat < 2 ^ (63 - clzll x + 1) := by
  have hclz : x.clz < 64#64 := BitVec.clz_lt_iff_ne_zero.2 hx
  have hlt : clzll x < 64 := BitVec.lt_def.1 hclz
  have hlow : 2 ^ (63 - clzll x) ≤ x.toNat := BitVec.two_pow_sub_clz_le_toNat_of_ne_zero (by decide) hx
  have hup : x.toNat < 2 ^ (64 - clzll x) := BitVec.toNat_lt_two_pow_sub_clz
  exact ⟨hlt, hlow, hup.trans_eq (congrArg _ (by omega))⟩

/-- The top set bit is the bit length less one. -/
theorem topBit_spec {m : U128} (hm : m.toNat ≠ 0) : 2 ^ topBit m ≤ m.toNat ∧ m.toNat < 2 ^ (topBit m + 1) := by
  obtain ⟨hlo, hhi⟩ := toNat_halves m
  have hsplit := Nat.div_add_mod m.toNat (2 ^ 64)
  rw [← hhi, ← hlo] at hsplit
  have hlow := (m.setWidth 64).isLt
  unfold topBit
  dsimp only
  generalize (m >>> 64).setWidth 64 = hi at hsplit hhi ⊢
  generalize m.setWidth 64 = lo at hsplit hlow hlo ⊢
  split
  next hne =>
    obtain ⟨hlt, hfrom, hto⟩ := clzll_spec hne
    have hpow : 2 ^ (127 - clzll hi) = 2 ^ 64 * 2 ^ (63 - clzll hi) := by
      rw [← Nat.pow_add]
      exact congrArg _ (by omega)
    rw [Nat.pow_succ] at hto ⊢
    rw [hpow]
    omega
  next heq =>
    have hzero : hi.toNat = 0 := by
      rw [not_not.1 heq]
      rfl
    rw [hzero, Nat.mul_zero, Nat.zero_add] at hsplit
    have hne : lo ≠ 0 := by
      rintro rfl
      exact hm hsplit.symm
    rw [← hsplit]
    exact (clzll_spec hne).2

/-- The seed is not above the root, and above half of it. -/
theorem seed_near {v t : ℕ} (hlow : 2 ^ t ≤ v) (hup : v < 2 ^ (t + 1)) :
    2 ^ ((t + 64) / 2) ≤ Nat.sqrt (v * fpnOne) ∧ Nat.sqrt (v * fpnOne) < 2 * 2 ^ ((t + 64) / 2) := by
  have hone : fpnOne = 2 ^ 64 := rfl
  have hpow : 2 ^ (t + 64) = 2 ^ t * 2 ^ 64 := Nat.pow_add ..
  have hpow' : 2 ^ (t + 1 + 64) = 2 ^ (t + 1) * 2 ^ 64 := Nat.pow_add ..
  obtain ⟨h, hh⟩ : ∃ h, (t + 64) / 2 = h := ⟨_, rfl⟩
  have hbelow : 2 ^ (h + h) ≤ 2 ^ (t + 64) := Nat.pow_le_pow_right (by decide) (by omega)
  have habove : 2 ^ (t + 1 + 64) ≤ 2 ^ (h + 1 + (h + 1)) := Nat.pow_le_pow_right (by decide) (by omega)
  rw [Nat.pow_add 2 h h] at hbelow
  have hdouble : 2 ^ (h + 1) = 2 * 2 ^ h := Nat.pow_succ'
  rw [Nat.pow_add 2 (h + 1) (h + 1), hdouble] at habove
  rw [hh, hone, Nat.le_sqrt, Nat.sqrt_lt]
  exact ⟨hbelow.trans (by omega), habove.trans_lt' (by omega)⟩

/-! ### The steps -/

/-- A number in the range is not clamped. -/
theorem Fpn.clamp_natCast {n : ℕ} (hn : n < 2 ^ 127) : Fpn.clamp n = n := by
  have hmax : fpnMax = 2 ^ 127 - 1 := rfl
  unfold Fpn.clamp
  omega

theorem mul_half (m : ℕ) : m * 2 ^ 63 / 2 ^ 64 = m / 2 := by omega

/-- Near the seed a step does not saturate: it is the step of the integer square root. -/
theorem sqrtStep_toInt {a y : U128} {p v n : ℕ} (ha : a.toInt = v) (hy : y.toInt = n) (hp : 0 < p) (hp' : p ≤ 2 ^ 95)
    (hlow : p ≤ n) (hup : n ≤ 4 * p) (hv : v * fpnOne < 4 * p * p) :
    (sqrtStep a y).toInt = newtonStep (v * fpnOne) n := by
  have hmax : fpnMax = 2 ^ 127 - 1 := rfl
  have hquot : v * fpnOne / n < 4 * p := (Nat.div_le_div_left hlow hp).trans_lt ((Nat.div_lt_iff_lt_mul hp).2 hv)
  obtain ⟨q, hq⟩ : ∃ q, v * fpnOne / n = q := ⟨_, rfl⟩
  rw [hq] at hquot
  have hdiv : (fp2Div a y).toInt = q := by
    have hwords := fp2Div_divNoAssert (a := .ofWord a) (b := .ofWord y) (by show -fpnMax ≤ a.toInt; omega)
    rw [Fpn.word_ofWord, Fpn.word_ofWord, Fpn.divNoAssert_clamp, if_neg (by show ¬y.toInt = 0; omega)] at hwords
    rw [hwords]
    show Fpn.clamp ((a.toInt * fpnOne).tdiv y.toInt) = _
    rw [ha, hy, ← Nat.cast_mul, ← hq]
    exact Fpn.clamp_natCast (by omega)
  have hsum : (fp2Addsat y (fp2Div a y)).toInt = (n + q : ℕ) := by
    have hwords := fp2Addsat_addSat (.ofWord y) (.ofWord (fp2Div a y))
    rw [Fpn.word_ofWord, Fpn.word_ofWord] at hwords
    rw [hwords]
    show (Fpn.saturate (y.toInt + (fp2Div a y).toInt)).v = _
    rw [hy, hdiv, Fpn.saturate_v (by omega) (by omega), Nat.cast_add]
  have hhalf : fp2Half.toInt = (2 ^ 63 : ℕ) := by decide
  have hmul := fp2Mul_mul (a := .ofWord (fp2Addsat y (fp2Div a y))) (b := .ofWord fp2Half)
    (by show -fpnMax ≤ (fp2Addsat y (fp2Div a y)).toInt; omega) (by show -fpnMax ≤ fp2Half.toInt; omega)
  rw [Fpn.word_ofWord, Fpn.word_ofWord, Fpn.mul_clamp] at hmul
  rw [sqrtStep, hmul, newtonStep, hq]
  show Fpn.clamp (((fp2Addsat y (fp2Div a y)).toInt * fp2Half.toInt).tdiv fpnOne) = _
  rw [hsum, hhalf, ← Nat.cast_mul]
  show Fpn.clamp ((n + q) * 2 ^ 63 / 2 ^ 64 : ℕ) = _
  rw [mul_half]
  exact Fpn.clamp_natCast (by omega)

/-- The payload of a positive word. -/
theorem toNat_of_toInt {a : U128} {v : ℕ} (ha : a.toInt = v) : a.toNat = v ∧ v < 2 ^ 127 := by
  have hlt := a.toInt_lt
  rw [BitVec.toInt_eq_toNat_cond] at ha hlt
  split at ha <;> omega

/-- The seed of a positive number against the root of its payload. -/
structure Seeded (v p : ℕ) : Prop where
  low : 2 ^ 32 ≤ p
  up : p ≤ 2 ^ 95
  le_root : p ≤ Nat.sqrt (v * fpnOne)
  root_lt : Nat.sqrt (v * fpnOne) < 2 * p

theorem seeded {a : U128} {v : ℕ} (ha : a.toInt = v) (hv : v ≠ 0) : Seeded v (2 ^ ((topBit a + 64) / 2)) := by
  obtain ⟨hnat, hlt⟩ := toNat_of_toInt ha
  obtain ⟨hlow, hup⟩ := topBit_spec (m := a) (hnat ▸ hv)
  rw [hnat] at hlow hup
  obtain ⟨hroot, hroot'⟩ := seed_near hlow hup
  have htop : topBit a < 127 := by
    by_contra hfar
    have hpow : 2 ^ 127 ≤ 2 ^ topBit a := Nat.pow_le_pow_right (by decide) (by omega)
    omega
  exact ⟨Nat.pow_le_pow_right (by decide) (by omega), Nat.pow_le_pow_right (by decide) (by omega), hroot, hroot'⟩

theorem seed_toInt {e : ℕ} (he : 2 ^ e ≤ 2 ^ 95) : (1#128 <<< e).toInt = (2 ^ e : ℕ) := by
  have hshift : (1#128 <<< e).toNat = 2 ^ e := by
    rw [BitVec.toNat_shiftLeft, Nat.shiftLeft_eq, BitVec.toNat_one (by decide), Nat.one_mul,
      Nat.mod_eq_of_lt (by omega)]
  rw [BitVec.toInt_eq_toNat_of_lt (by omega), hshift]

/-- Every step is that of the integer square root of `v · 2⁶⁴`. -/
theorem sqrtSteps_toInt {a : U128} {v : ℕ} (ha : a.toInt = v) (hv : v ≠ 0) (k : ℕ) :
    (sqrtSteps a k).toInt = newtonRun (v * fpnOne) (2 ^ ((topBit a + 64) / 2)) k := by
  obtain ⟨hlow, hup, hroot, hroot'⟩ := seeded ha hv
  have hinit : (sqrtSteps a 0).toInt = (2 ^ ((topBit a + 64) / 2) : ℕ) := seed_toInt hup
  generalize 2 ^ ((topBit a + 64) / 2) = p at *
  have hpos : 0 < p := by omega
  have hfour : v * fpnOne < 4 * p * p := by nlinarith only [Nat.sqrt_lt.1 hroot']
  -- The steps stay between the seed and four times the seed, so that none saturates.
  refine (?_ : _ ∧ p ≤ newtonRun (v * fpnOne) p k ∧ newtonRun (v * fpnOne) p k ≤ 4 * p).1
  induction k with
  | zero => exact ⟨hinit, le_rfl, Nat.le_mul_of_pos_left p (by decide)⟩
  | succ k ih =>
    obtain ⟨hval, hge, hle⟩ := ih
    refine ⟨sqrtStep_toInt ha hval hpos hup hge hle hfour, hroot.trans (sqrt_le_newtonStep (hpos.trans_le hge)), ?_⟩
    have hquot : v * fpnOne / newtonRun (v * fpnOne) p k < 4 * p :=
      (Nat.div_le_div_left hge hpos).trans_lt ((Nat.div_lt_iff_lt_mul hpos).2 hfour)
    show newtonStep _ _ ≤ _
    rw [newtonStep]
    omega

/-- Twelve steps from the bit length reach the integer square root of `v · 2⁶⁴`, or one above it. -/
theorem sqrt_within_one (a : Fpn) (ha : 0 < a.v) :
    (fp2Sqrt a.word).toInt = Nat.sqrt (a.v.toNat * fpnOne) ∨
      (fp2Sqrt a.word).toInt = Nat.sqrt (a.v.toNat * fpnOne) + 1 := by
  have hv : a.word.toInt = (a.v.toNat : ℤ) := by rw [a.word_toInt, Int.toNat_of_nonneg ha.le]
  have hne : a.v.toNat ≠ 0 := by omega
  have hpos : a.word.sle 0 = false := by
    rw [BitVec.sle, a.word_toInt]
    exact decide_eq_false (not_le.2 ha)
  obtain ⟨hlow, hup, hroot, hroot'⟩ := seeded hv hne
  have hsmall : Nat.sqrt (a.v.toNat * fpnOne) < 2 ^ (3 * 2 ^ 6 - 1) :=
    hroot'.trans_le ((Nat.mul_le_mul_left 2 hup).trans (by decide))
  have hnear := newtonRun_near (k := 6) hroot hroot' ((by decide : 4 ≤ 2 ^ 32).trans hlow) hsmall 4
  rw [fp2Sqrt, hpos, if_neg Bool.false_ne_true, sqrtSteps_toInt hv hne]
  exact hnear.imp (congrArg Nat.cast) (congrArg Nat.cast)

/-- The root of four. -/
theorem sqrt_within_one_four : (fp2Sqrt (Fpn.fromInt 4).word).toInt = Nat.sqrt ((Fpn.fromInt 4).v.toNat * fpnOne) ∨
    (fp2Sqrt (Fpn.fromInt 4).word).toInt = Nat.sqrt ((Fpn.fromInt 4).v.toNat * fpnOne) + 1 :=
  sqrt_within_one (Fpn.fromInt 4) (by decide)

end FoxTrader
