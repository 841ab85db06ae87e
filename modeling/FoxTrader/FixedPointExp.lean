import FoxTrader.FixedPointCasts
import FoxTrader.Lib.SignedWord
import FoxTrader.Lib.TruncatedSeries

/-! # The exponential of a binary fixed-point number

    `fp2_exp` takes a rounded multiple of ln 2 out of its argument, sums nine terms of the Taylor series
    at what is left and shifts the sum by the multiple. The multiple is an `int64_t` that is narrowed to an
    `int` before the shift. From zero down to `-expReach` the narrowing keeps it and the result is between
    zero and one (`exp_unit`). -/

namespace FoxTrader

open Lib Float.Model

namespace Fpn

/-- `m · 2^e` cut to an integer. -/
def scaleCut (m : ℕ) (e : ℤ) : ℕ := if 0 ≤ e then m * 2 ^ e.toNat else m / 2 ^ (-e).toNat

/-- `fp2_from_double`: the whole part above the cut fraction, which is the magnitude in payload, cut. -/
def fromDouble (input : Float) : Fpn :=
  if ¬(input ≥ -9.0e18 ∧ input ≤ 9.0e18) then ceiling (input < 0.0)
  else
    match input.toModel.unpack with
    | .finite s m e _ => ofMagnitude (s.apply 1 < 0) (scaleCut m (e + 64))
    | _ => zero

def one : Fpn := fromInt 1

def ln2 : Fpn := fromDouble 0.6931471805599453

def invLn2 : Fpn := fromDouble 1.4426950408889634

/-- `inv_fact` from its second entry on. -/
def invFact : List Fpn :=
  [fromDouble 1.0, fromDouble 0.5, fromDouble (1.0 / 6.0), fromDouble (1.0 / 24.0), fromDouble (1.0 / 120.0),
    fromDouble (1.0 / 720.0), fromDouble (1.0 / 5040.0), fromDouble (1.0 / 40320.0)]

/-- The multiple of ln 2 that is nearest, a tie away from zero. -/
def expMultiple (value : Fpn) : ℤ :=
  let q := value.mul invLn2
  let qRounded := if q.neg then q.sub half else q.addSat half
  let qint := int64 (qRounded.v.natAbs / fpnOne : ℕ)
  if qRounded.neg then -qint else qint

/-- The argument without `k` times ln 2. -/
def expRest (value : Fpn) (k : ℤ) : Fpn :=
  let kLn2 := (fromInt k.natAbs).mul ln2
  value.sub (if k < 0 then kLn2.negate else kLn2)

/-- One trip of the series: the power and the sum. -/
def taylorStep (r : Fpn) (s : Fpn × Fpn) (c : Fpn) : Fpn × Fpn :=
  let rPow := s.1.mul r
  (rPow, s.2.addSat (rPow.mul c))

def taylor (r : Fpn) : Fpn := (invFact.foldl (taylorStep r) (one, one)).2

/-- The shift by `k`, which is narrowed first. The bit is the sum of two `int`s; where it leaves the type,
    which C does not define, it is kept as the integer. -/
def expShift (result : Fpn) (k : ℤ) : Fpn :=
  let seedBit := 64 + int32 k
  if seedBit < 0 then zero
  else if seedBit ≥ 128 then result
  else result.mul (ofWord (1#128 <<< seedBit.toNat))

/-- `fp2_exp`. -/
def exp (value : Fpn) : Fpn :=
  let k := expMultiple value
  expShift (taylor (expRest value k)) k

/-! ### The constants -/

theorem one_v : one.v = 18446744073709551616 := by decide

theorem half_v : half.v = 9223372036854775808 := by decide

theorem ln2_v : ln2.v = 12786308645202655232 := by decide +kernel

theorem invLn2_v : invLn2.v = 26613026195688644608 := by decide +kernel

theorem invFact_v : invFact.map Fpn.v =
    [18446744073709551616, 9223372036854775808, 3074457345618258432, 768614336404564608, 153722867280912928,
      25620477880152156, 3660068268593165, 457508533574145] := by
  decide +kernel

/-- The inverse factorials never grow, and the first is one. -/
theorem invFact_chain : (((fpnOne : ℕ) : ℤ) :: invFact.map Fpn.v).IsChain (fun c d => d ≤ c) := by
  rw [invFact_v]
  decide

theorem invFact_unit : ∀ c ∈ invFact, 0 ≤ c.v ∧ c.v ≤ fpnOne := by
  have hall : ∀ v ∈ invFact.map Fpn.v, 0 ≤ v ∧ v ≤ fpnOne := by
    rw [invFact_v]
    decide
  exact fun c hc => hall c.v (List.mem_map_of_mem hc)

/-! ### Products that are not below zero -/

theorem ofMagnitude_false_nonneg (mag : ℕ) : 0 ≤ (ofMagnitude false mag).v := by
  by_cases h : (mag : ℤ) ≤ fpnMax
  · rw [ofMagnitude_v h]
    exact Int.natCast_nonneg mag
  · rw [ofMagnitude, if_neg h]
    decide

theorem mul_nonneg_v {a b : Fpn} (ha : 0 ≤ a.v) (hb : 0 ≤ b.v) : 0 ≤ (a.mul b).v := by
  have hsign : xor a.neg b.neg = false := by
    rw [neg, neg, decide_eq_false (not_lt.2 ha), decide_eq_false (not_lt.2 hb), Bool.xor_self]
  rw [mul, hsign]
  exact ofMagnitude_false_nonneg _

theorem square_nonneg_v (a : Fpn) : 0 ≤ (a.mul a).v := by
  rw [mul, Bool.xor_self]
  exact ofMagnitude_false_nonneg _

/-- A share of a value is in the range. -/
theorem mulFits_share {a d : Fpn} (ha : 0 ≤ a.v) (hd : 0 ≤ d.v ∧ d.v ≤ fpnOne) : MulFits a d := by
  have hup := a.upper
  obtain ⟨m, hm⟩ := Int.eq_ofNat_of_zero_le ha
  obtain ⟨n, hn⟩ := Int.eq_ofNat_of_zero_le hd.1
  have hshare : m * n / fpnOne ≤ m := by
    rw [hn] at hd
    exact Nat.div_le_of_le_mul (mul_comm fpnOne m ▸ Nat.mul_le_mul_left m (Int.ofNat_le.1 hd.2))
  unfold MulFits
  rw [hm, hn, Int.natAbs_natCast, Int.natAbs_natCast]
  exact (Int.ofNat_le.2 hshare).trans (hm ▸ hup)

theorem mul_share {a d : Fpn} (ha : 0 ≤ a.v) (hd : 0 ≤ d.v ∧ d.v ≤ fpnOne) :
    (a.mul d).v = (a.v * d.v).tdiv fpnOne :=
  mul_tdiv (mulFits_share ha hd)

theorem share_mul {a d : Fpn} (ha : 0 ≤ a.v) (hd : 0 ≤ d.v ∧ d.v ≤ fpnOne) :
    (d.mul a).v = (d.v * a.v).tdiv fpnOne := by
  have hfits : MulFits a d := mulFits_share ha hd
  unfold MulFits at hfits
  rw [mul_comm] at hfits
  exact mul_tdiv hfits

/-! ### The series -/

/-- A product of two numbers that are at most one, cut towards zero. -/
theorem mul_unit {a b : Fpn} (ha : |a.v| ≤ fpnOne) (hb : |b.v| ≤ fpnOne) :
    (a.mul b).v = (a.v * b.v).tdiv fpnOne ∧ |(a.mul b).v| ≤ fpnOne := by
  have hbound : a.v.natAbs * b.v.natAbs / fpnOne ≤ fpnOne := by
    rw [Int.abs_eq_natAbs, Int.ofNat_le] at ha hb
    exact Nat.div_le_of_le_mul (Nat.mul_le_mul ha hb)
  have hfits : MulFits a b := by
    unfold MulFits fpnMax
    unfold fpnOne at hbound ⊢
    omega
  refine ⟨mul_tdiv hfits, ?_⟩
  rw [mul_tdiv hfits, Int.abs_eq_natAbs, Int.natAbs_tdiv, Int.natAbs_mul]
  exact Int.ofNat_le.2 hbound

/-- One trip is a step of the unbounded series while the sum is short. -/
theorem taylorStep_v {r c : Fpn} {s : Fpn × Fpn} {m : ℕ} (hr : |r.v| ≤ fpnOne) (hc : 0 ≤ c.v ∧ c.v ≤ fpnOne)
    (hpower : |s.1.v| ≤ fpnOne) (hsum : |s.2.v| ≤ m * fpnOne) (hm : m < 1000) :
    ((taylorStep r s c).1.v, (taylorStep r s c).2.v) = seriesStep fpnOne r.v (s.1.v, s.2.v) c.v ∧
      |(taylorStep r s c).1.v| ≤ fpnOne ∧ |(taylorStep r s c).2.v| ≤ (m + 1 : ℕ) * fpnOne := by
  have hcoeff : |c.v| ≤ fpnOne := abs_le.2 ⟨by linarith [hc.1], hc.2⟩
  obtain ⟨hpow, hpowUnit⟩ := mul_unit hpower hr
  obtain ⟨hterm, htermUnit⟩ := mul_unit hpowUnit hcoeff
  have hlong : |s.2.v + ((s.1.mul r).mul c).v| ≤ (m + 1 : ℕ) * fpnOne := by
    refine (abs_add_le _ _).trans ?_
    push_cast at hsum htermUnit ⊢
    linarith
  have hfits : Fits (s.2.v + ((s.1.mul r).mul c).v) := by
    have h := abs_le.1 hlong
    unfold Fits fpnMax
    unfold fpnOne at h
    omega
  have hadd : (taylorStep r s c).2.v = s.2.v + ((s.1.mul r).mul c).v := addSat_v hfits
  refine ⟨?_, hpowUnit, by rwa [hadd]⟩
  rw [hadd, hterm]
  show ((s.1.mul r).v, s.2.v + ((s.1.mul r).v * c.v).tdiv fpnOne) = _
  rw [hpow]
  rfl

theorem foldl_taylorStep_v {r : Fpn} (hr : |r.v| ≤ fpnOne) (cs : List Fpn) :
    ∀ (s : Fpn × Fpn) (m : ℕ), (∀ c ∈ cs, 0 ≤ c.v ∧ c.v ≤ fpnOne) → |s.1.v| ≤ fpnOne →
      |s.2.v| ≤ m * fpnOne → m + cs.length ≤ 1000 →
      (cs.foldl (taylorStep r) s).2.v = ((cs.map Fpn.v).foldl (seriesStep fpnOne r.v) (s.1.v, s.2.v)).2 := by
  induction cs with
  | nil => exact fun _ _ _ _ _ _ => rfl
  | cons c cs ih =>
    intro s m hcs hpower hsum hm
    rw [List.length_cons] at hm
    obtain ⟨hstep, hpower', hsum'⟩ :=
      taylorStep_v hr (hcs c List.mem_cons_self) hpower hsum (by omega)
    rw [List.map_cons, List.foldl_cons, List.foldl_cons, ← hstep]
    exact ih _ (m + 1) (fun d hd => hcs d (List.mem_cons_of_mem c hd)) hpower' hsum' (by omega)

/-- The nine terms in saturating arithmetic are the truncated series. -/
theorem taylor_v {r : Fpn} (hr : |r.v| ≤ fpnOne) : (taylor r).v = series fpnOne r.v (invFact.map Fpn.v) := by
  have hone : |one.v| ≤ fpnOne := by decide
  exact foldl_taylorStep_v hr invFact (one, one) 1 invFact_unit hone (by rwa [Nat.cast_one, one_mul]) (by decide)

/-- The sum is at most two, and at most one when nothing was added to the argument. -/
theorem taylor_bounds {r : Fpn} (hr : |r.v| ≤ 9223372036854775808) :
    0 ≤ (taylor r).v ∧ (taylor r).v ≤ 2 * fpnOne ∧ (r.v ≤ 0 → (taylor r).v ≤ fpnOne) := by
  obtain ⟨hlow, hup⟩ := abs_le.1 hr
  have hone : 0 < fpnOne := by decide
  have hscale : ((fpnOne : ℕ) : ℤ) = 18446744073709551616 := by decide
  have hcoeffs : ∀ c ∈ invFact.map Fpn.v, 0 ≤ c ∧ c ≤ fpnOne :=
    List.forall_mem_map.2 invFact_unit
  rw [taylor_v (hr.trans (by decide))]
  rcases le_total r.v 0 with hneg | hpos
  · obtain ⟨hbelow, habove⟩ :=
      series_swings hone (by omega) hneg invFact_chain fun c hc => (hcoeffs c hc).1
    exact ⟨hbelow, by linarith, fun _ => habove⟩
  · obtain ⟨hbelow, habove⟩ := series_half hone hpos (by omega) hcoeffs
    refine ⟨by linarith, habove, fun hzero => ?_⟩
    exact (series_swings hone (by omega) hzero invFact_chain fun c hc => (hcoeffs c hc).1).2

/-! ### Taking the multiple of ln 2 out -/

/-- The longest argument below zero whose multiple of ln 2 an `int` still holds. -/
def expReach : ℕ := 27458388740246891385587978366

/-- The nearest multiple, the logarithm of two inverted in payload. -/
def multipleOf (u : ℕ) : ℕ :=
  (u * 26613026195688644608 / 18446744073709551616 + 9223372036854775808) / 18446744073709551616

theorem multipleOf_le_iff (u : ℕ) : multipleOf u ≤ 2147483648 ↔ u ≤ expReach := by
  unfold multipleOf expReach
  omega

/-- What the rounding leaves is at most a half in payload. -/
theorem multipleOf_near {u : ℕ} (hu : u ≤ expReach) :
    |(multipleOf u : ℤ) * 12786308645202655232 - u| ≤ 9223372036854775808 := by
  have hn : multipleOf u ≤ 2147483648 := (multipleOf_le_iff u).2 hu
  unfold multipleOf at hn ⊢
  rw [abs_le]
  constructor <;> omega

theorem expMultiple_v {value : Fpn} {u : ℕ} (hv : value.v = -u) (hu : u ≤ expReach) :
    expMultiple value = -(multipleOf u : ℤ) := by
  have hn : multipleOf u ≤ 2147483648 := (multipleOf_le_iff u).2 hu
  have hscale : fpnOne = 18446744073709551616 := by decide
  have hfits : MulFits value invLn2 := by
    have habs : invLn2.v.natAbs = 26613026195688644608 := by
      rw [invLn2_v]
      rfl
    unfold MulFits fpnMax
    rw [hv, habs, Int.natAbs_neg, Int.natAbs_natCast, hscale]
    unfold expReach at hu
    omega
  have hq : (value.mul invLn2).v = -(u * 26613026195688644608 / 18446744073709551616 : ℕ) := by
    rw [mul_tdiv hfits, hv, invLn2_v, neg_mul, Int.neg_tdiv, hscale]
    rfl
  unfold multipleOf at hn ⊢
  unfold expMultiple
  dsimp only
  generalize value.mul invLn2 = q at hq ⊢
  generalize u * 26613026195688644608 / 18446744073709551616 = w at hn hq ⊢
  rcases Nat.eq_zero_or_pos w with hzero | hpos
  · have hneg : q.neg = false := decide_eq_false (by omega)
    have hsum : (q.addSat half).v = 9223372036854775808 := by
      rw [addSat_v (by unfold Fits fpnMax; rw [half_v]; omega), half_v, hq, hzero]
      rfl
    rw [hneg, if_neg Bool.false_ne_true]
    have hplus : (q.addSat half).neg = false := decide_eq_false (by omega)
    rw [hplus, if_neg Bool.false_ne_true, hsum, hzero]
    decide
  · have hneg : q.neg = true := decide_eq_true (by omega)
    have hdiff : (q.sub half).v = -((w + 9223372036854775808 : ℕ) : ℤ) := by
      rw [sub_v (by unfold Fits fpnMax; rw [half_v]; omega), half_v, hq]
      omega
    rw [hneg, if_pos rfl]
    have hminus : (q.sub half).neg = true := decide_eq_true (by omega)
    rw [hminus, if_pos rfl, hdiff, Int.natAbs_neg, Int.natAbs_natCast, hscale,
      int64_of_mem (by omega) (by omega)]

/-- What is left of the argument. -/
theorem expRest_v {value : Fpn} {u n : ℕ} (hv : value.v = -u) (hu : u ≤ expReach) (hn : n ≤ 2147483648) :
    (expRest value (-(n : ℤ))).v = n * 12786308645202655232 - u := by
  have hscale : fpnOne = 18446744073709551616 := by decide
  have hwhole : Fits ((n : ℤ) * fpnOne) := by
    unfold Fits fpnMax
    rw [hscale]
    omega
  have hprod : MulFits (fromInt n) ln2 := by
    have habs : ln2.v.natAbs = 12786308645202655232 := by
      rw [ln2_v]
      rfl
    unfold MulFits fpnMax
    rw [fromInt_v hwhole, habs, Int.natAbs_mul, Int.natAbs_natCast, Int.natAbs_natCast, hscale]
    omega
  have hmul : ((fromInt n).mul ln2).v = n * 12786308645202655232 := by rw [fromInt_mul_v hwhole hprod, ln2_v]
  have hsigned : (if -(n : ℤ) < 0 then ((fromInt n).mul ln2).negate else (fromInt n).mul ln2).v =
      -(n * 12786308645202655232) := by
    split
    next hlt =>
      rw [negate, saturate_v] <;> rw [hmul] <;> unfold fpnMax <;> omega
    next hzero => omega
  unfold expReach at hu
  unfold expRest
  dsimp only
  rw [Int.natAbs_neg, Int.natAbs_natCast, sub_v]
  · rw [hsigned, hv]
    ring
  · rw [hsigned, hv]
    unfold Fits fpnMax
    omega

/-! ### The shift -/

theorem ofWord_shift {n : ℕ} (hn : n ≤ 64) : (ofWord (1#128 <<< n)).v = 2 ^ n := by
  have hpow : 2 ^ n ≤ 2 ^ 64 := Nat.pow_le_pow_right (by decide) hn
  show (1#128 <<< n).toInt = 2 ^ n
  rw [BitVec.toInt_eq_toNat_of_lt] <;> rw [BitVec.toNat_shiftLeft, Nat.shiftLeft_eq, BitVec.toNat_ofNat]
  · rw [Nat.mod_eq_of_lt (by omega), Nat.one_mod_eq_one.2 (by decide), one_mul]
    norm_cast
  · rw [Nat.mod_eq_of_lt (by omega), Nat.one_mod_eq_one.2 (by decide), one_mul]
    omega

/-- A sum of at most two, or one when it stays in place, is shifted to at most one. -/
theorem expShift_unit {result : Fpn} {n : ℕ} (hn : n ≤ 2147483648) (hlow : 0 ≤ result.v)
    (hup : result.v ≤ 2 * fpnOne) (hplace : n = 0 → result.v ≤ fpnOne) :
    0 ≤ (expShift result (-(n : ℤ))).v ∧ (expShift result (-(n : ℤ))).v ≤ fpnOne := by
  have hscale : ((fpnOne : ℕ) : ℤ) = 18446744073709551616 := by decide
  unfold expShift
  dsimp only
  rw [int32_of_mem (by omega) (by omega)]
  by_cases hfar : 64 + -(n : ℤ) < 0
  · rw [if_pos hfar]
    exact ⟨le_rfl, by decide⟩
  · rw [if_neg hfar, if_neg (by omega)]
    have hbit : (64 + -(n : ℤ)).toNat = 64 - n := by omega
    rw [hbit]
    obtain ⟨v, hv⟩ := Int.eq_ofNat_of_zero_le hlow
    have hlong : v * 2 ^ (64 - n) ≤ fpnOne * fpnOne := by
      rw [hv] at hup hplace
      rcases Nat.eq_zero_or_pos n with hzero | hpos
      · rw [hzero]
        exact Nat.mul_le_mul (Int.ofNat_le.1 (hplace hzero)) le_rfl
      · have hpow : 2 ^ (64 - n) ≤ 2 ^ 63 := Nat.pow_le_pow_right (by decide) (by omega)
        calc v * 2 ^ (64 - n) ≤ 2 * fpnOne * 2 ^ 63 := Nat.mul_le_mul (by exact_mod_cast hup) hpow
          _ = fpnOne * fpnOne := by decide
    have hcut : v * 2 ^ (64 - n) / fpnOne ≤ fpnOne := Nat.div_le_of_le_mul hlong
    have hshift : (ofWord (1#128 <<< (64 - n))).v = ((2 ^ (64 - n) : ℕ) : ℤ) := by
      rw [ofWord_shift (Nat.sub_le 64 n)]
      norm_cast
    have hfits : MulFits result (ofWord (1#128 <<< (64 - n))) := by
      unfold MulFits fpnMax
      rw [hv, hshift, Int.natAbs_natCast, Int.natAbs_natCast]
      omega
    have hmul : (result.mul (ofWord (1#128 <<< (64 - n)))).v = (v * 2 ^ (64 - n) / fpnOne : ℕ) := by
      rw [mul_tdiv hfits, hv, hshift, ← Int.natCast_mul]
      rfl
    rw [hmul]
    exact ⟨Int.natCast_nonneg _, Int.ofNat_le.2 hcut⟩

theorem exp_eq {value : Fpn} {u : ℕ} (hv : value.v = -u) (hu : u ≤ expReach) :
    exp value = expShift (taylor (expRest value (-(multipleOf u : ℤ)))) (-(multipleOf u : ℤ)) := by
  rw [exp, expMultiple_v hv hu]

/-- From zero down to the reach, the exponential is between zero and one. -/
theorem exp_unit {value : Fpn} {u : ℕ} (hv : value.v = -u) (hu : u ≤ expReach) :
    0 ≤ (exp value).v ∧ (exp value).v ≤ fpnOne := by
  have hn : multipleOf u ≤ 2147483648 := (multipleOf_le_iff u).2 hu
  have hrest : (expRest value (-(multipleOf u : ℤ))).v = multipleOf u * 12786308645202655232 - u :=
    expRest_v hv hu hn
  have hnear : |(expRest value (-(multipleOf u : ℤ))).v| ≤ 9223372036854775808 := by
    rw [hrest]
    exact multipleOf_near hu
  have hplace : multipleOf u = 0 → (expRest value (-(multipleOf u : ℤ))).v ≤ 0 := by
    intro hzero
    rw [hrest, hzero, Nat.cast_zero, zero_mul, zero_sub]
    exact neg_nonpos.2 (Int.natCast_nonneg u)
  obtain ⟨hpos, htwo, hone⟩ := taylor_bounds hnear
  rw [exp_eq hv hu]
  exact expShift_unit hn hpos htwo fun hzero => hone (hplace hzero)

end Fpn

end FoxTrader
