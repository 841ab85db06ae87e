import FoxTrader.Lib.LongDivision
import FoxTrader.MoneyWords

/-! # The long division of a 256-bit dividend

    `udiv256_qr` divides `hi · 2¹²⁸ + lo` by a word in 128 trips on 128-bit words. The shift of the upper
    word drops its top bit, which is zero as long as the remainder stays below a divisor of at most
    `2¹²⁷`; then the words are the long division of numbers. -/

namespace FoxTrader

open Lib

/-- The locals of the loop. -/
structure UdivLoop where
  remHi : U128
  remLo : U128
  q : U128

namespace UdivLoop

/-- One trip. -/
def trip (bMag : U128) (s : UdivLoop) : UdivLoop :=
  let remHi := s.remHi <<< 1 ||| s.remLo >>> 127
  let ge := decide (bMag ≤ remHi)
  { remHi := if ge then remHi - bMag else remHi
    remLo := s.remLo <<< 1
    q := s.q <<< 1 ||| wordOf ge }

/-- The first `k` trips. -/
def trips (bMag : U128) (s : UdivLoop) : ℕ → UdivLoop
  | 0 => s
  | k + 1 => trip bMag (trips bMag s k)

end UdivLoop

structure UdivQr where
  q : U128
  r : U128

def udiv256Qr (hi lo bMag : U128) : UdivQr :=
  let s := UdivLoop.trips bMag ⟨hi, lo, 0⟩ 128
  ⟨s.q, s.remHi⟩

/-! ### The trips on numbers -/

/-- A shifted word with a bit in the place that the shift has left. -/
theorem toNat_shift_or {x bit : U128} (hx : x.toNat < 2 ^ 127) (hbit : bit.toNat < 2) :
    (x <<< 1 ||| bit).toNat = 2 * x.toNat + bit.toNat := by
  have hbit' : bit.toNat < 2 ^ 1 := hbit
  rw [BitVec.toNat_or, BitVec.toNat_shiftLeft, Nat.shiftLeft_eq, Nat.mod_eq_of_lt (by omega), ← Nat.shiftLeft_eq,
    ← Nat.shiftLeft_add_eq_or_of_lt hbit', Nat.shiftLeft_eq]
  omega

theorem toNat_shift_wordOf {q : U128} (hq : q.toNat < 2 ^ 127) (ge : Bool) :
    (q <<< 1 ||| wordOf ge).toNat = 2 * q.toNat + if ge then 1 else 0 := by
  rw [toNat_shift_or hq (by rw [toNat_wordOf]; split <;> decide), toNat_wordOf]

namespace UdivLoop

/-- The numbers in the words. -/
def toNat (s : UdivLoop) : LongDiv := ⟨s.remHi.toNat, s.remLo.toNat, s.q.toNat⟩

variable {s : UdivLoop} {hi bMag : U128} {k : ℕ}

/-- A trip that drops no bit is a trip of the long division. -/
theorem toNat_trip (hrem : s.remHi.toNat < 2 ^ 127) (hq : s.q.toNat < 2 ^ 127) :
    (s.trip bMag).toNat = s.toNat.step 128 bMag.toNat := by
  have hlow : (s.remLo >>> 127).toNat = s.remLo.toNat / 2 ^ 127 := by
    rw [BitVec.toNat_ushiftRight, Nat.shiftRight_eq_div_pow]
  have hlt := s.remLo.isLt
  have hshift : (s.remHi <<< 1 ||| s.remLo >>> 127).toNat = 2 * s.remHi.toNat + s.remLo.toNat / 2 ^ 127 := by
    rw [toNat_shift_or hrem (by omega), hlow]
  have hdouble : (s.remLo <<< 1).toNat = 2 * s.remLo.toNat % 2 ^ 128 := by
    rw [BitVec.toNat_shiftLeft, Nat.shiftLeft_eq, Nat.mul_comm]
  have hge : (bMag ≤ s.remHi <<< 1 ||| s.remLo >>> 127) ↔
    bMag.toNat ≤ 2 * s.remHi.toNat + s.remLo.toNat / 2 ^ 127 := by
    rw [BitVec.le_def, hshift]
  unfold trip LongDiv.step toNat
  dsimp only
  rw [toNat_shift_wordOf hq, hdouble]
  by_cases hfits : bMag.toNat ≤ 2 * s.remHi.toNat + s.remLo.toNat / 2 ^ 127
  · rw [decide_eq_true (hge.2 hfits), if_pos rfl, if_pos rfl, if_pos hfits, if_pos hfits,
      BitVec.toNat_sub_of_le (hge.2 hfits), hshift]
  · rw [decide_eq_false (mt hge.1 hfits), if_neg Bool.false_ne_true, if_neg Bool.false_ne_true, if_neg hfits,
      if_neg hfits, hshift]

/-- With a divisor of `2¹²⁷` at most, above the upper word, no trip drops a bit. -/
theorem toNat_trips (lo : U128) (hb : bMag.toNat ≤ 2 ^ 127) (hhi : hi.toNat < bMag.toNat) (hk : k ≤ 128) :
    (trips bMag ⟨hi, lo, 0⟩ k).toNat = LongDiv.run 128 bMag.toNat ⟨hi.toNat, lo.toNat, 0⟩ k := by
  induction k with
  | zero => rfl
  | succ k ih =>
    have hrun := ih (Nat.le_of_succ_le hk)
    have hdiv : (LongDiv.run 128 bMag.toNat ⟨hi.toNat, lo.toNat, 0⟩ k).Divides 128 bMag.toNat hi.toNat lo.toNat k :=
      .run lo.isLt hhi (Nat.le_of_succ_le hk)
    have hquot : (LongDiv.run 128 bMag.toNat ⟨hi.toNat, lo.toNat, 0⟩ k).quot < 2 ^ k := LongDiv.run_quot_lt
    have hpow : 2 ^ k ≤ 2 ^ 127 := Nat.pow_le_pow_right (by decide) (by omega)
    rw [← hrun] at hdiv hquot
    have hrem := hdiv.rem_lt
    show (trip bMag _).toNat = LongDiv.step 128 _ _
    rw [toNat_trip (hrem.trans_le hb) (hquot.trans_le hpow), hrun]

end UdivLoop

/-- The division is exact where the quotient fits into a word. -/
theorem udiv256Qr_exact (hi lo : U128) {b : U128} (hb : b.toNat ≤ 2 ^ 127) (hhi : hi.toNat < b.toNat) :
    (udiv256Qr hi lo b).q.toNat = (hi.toNat * 2 ^ 128 + lo.toNat) / b.toNat ∧
      (udiv256Qr hi lo b).r.toNat = (hi.toNat * 2 ^ 128 + lo.toNat) % b.toNat := by
  have hrun := UdivLoop.toNat_trips lo hb hhi le_rfl
  obtain ⟨hq, hr⟩ := LongDiv.run_exact (w := 128) lo.isLt hhi
  exact ⟨(congrArg LongDiv.quot hrun).trans hq, (congrArg LongDiv.rem hrun).trans hr⟩

/-- A divisor at or below the upper word leaves a quotient with its top bit set, whatever the remainder
    wraps to. -/
theorem le_udiv256Qr {hi : U128} (lo : U128) {b : U128} (hhi : hi.toNat < 2 ^ 127) (hb : b.toNat ≤ hi.toNat) :
    2 ^ 127 ≤ (udiv256Qr hi lo b).q.toNat := by
  refine (?_ : ∀ k < 128, 2 ^ k ≤ (UdivLoop.trips b ⟨hi, lo, 0⟩ (k + 1)).q.toNat ∧
    (UdivLoop.trips b ⟨hi, lo, 0⟩ (k + 1)).q.toNat < 2 ^ (k + 1)) 127 (by decide) |>.1
  intro k
  induction k with
  | zero =>
    intro _
    have hlow : (lo >>> 127).toNat < 2 := by
      have hlt := lo.isLt
      rw [BitVec.toNat_ushiftRight, Nat.shiftRight_eq_div_pow]
      omega
    have hge : b ≤ hi <<< 1 ||| lo >>> 127 := by
      rw [BitVec.le_def, toNat_shift_or hhi hlow]
      omega
    have hone : (UdivLoop.trips b ⟨hi, lo, 0⟩ (0 + 1)).q = 1 := by
      show (0 : U128) <<< 1 ||| wordOf (decide (b ≤ hi <<< 1 ||| lo >>> 127)) = 1
      rw [decide_eq_true hge]
      decide
    rw [hone]
    decide
  | succ k ih =>
    intro hk
    obtain ⟨hlow, hup⟩ := ih (Nat.lt_of_succ_lt hk)
    have hpow : 2 ^ (k + 1) ≤ 2 ^ 127 := Nat.pow_le_pow_right (by decide) (by omega)
    show _ ≤ (UdivLoop.trip b _).q.toNat ∧ (UdivLoop.trip b _).q.toNat < _
    rw [UdivLoop.trip]
    dsimp only
    rw [toNat_shift_wordOf (hup.trans_le hpow), Nat.pow_succ 2 (k + 1)]
    rw [Nat.pow_succ] at hup ⊢
    split <;> omega

end FoxTrader
