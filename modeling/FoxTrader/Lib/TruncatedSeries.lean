import Mathlib.Algebra.Order.Group.Unbundled.Int
import Mathlib.Algebra.Order.Ring.Int
import Mathlib.Data.List.Chain
import Mathlib.Tactic.Linarith

/-! # Truncated power series

    A power series summed in integers worth `1 / one`: the power is multiplied by the argument, then by
    the coefficient, and each product is cut towards zero. With coefficients that never grow, a negative
    argument makes the sum swing below its start and a small positive one at most doubles it, whatever
    the cuts do. -/

namespace Lib

variable {one : ℕ} {r : ℤ} {c : ℤ} {s : ℤ × ℤ} {cs : List ℤ}

/-- One term: the power so far and the sum so far. -/
def seriesStep (one : ℕ) (r : ℤ) (s : ℤ × ℤ) (c : ℤ) : ℤ × ℤ :=
  ((s.1 * r).tdiv one, s.2 + ((s.1 * r).tdiv one * c).tdiv one)

/-- The sum of the terms with the coefficients `cs`, the start included. -/
def series (one : ℕ) (r : ℤ) (cs : List ℤ) : ℤ := (cs.foldl (seriesStep one r) (one, one)).2

/-! ### Cuts towards zero -/

theorem mul_tdiv_nonneg {a b : ℤ} (ha : 0 ≤ a) (hb : 0 ≤ b) : 0 ≤ (a * b).tdiv one :=
  Int.tdiv_nonneg (mul_nonneg ha hb) (Int.natCast_nonneg one)

/-- A factor that is at most one does not lengthen what it is multiplied with. -/
theorem mul_tdiv_le (hone : 0 < one) {a b : ℤ} (ha : 0 ≤ a) (hb : b ≤ one) : (a * b).tdiv one ≤ a := by
  have hpos : (0 : ℤ) < one := Int.natCast_pos.2 hone
  have h := Int.tdiv_le_tdiv hpos (mul_le_mul_of_nonneg_left hb ha)
  rwa [Int.mul_tdiv_cancel a hpos.ne'] at h

theorem mul_tdiv_mono (hone : 0 < one) {a b d e : ℤ} (ha : 0 ≤ a) (hab : a ≤ b) (hd : 0 ≤ d) (hde : d ≤ e) :
    (a * d).tdiv one ≤ (b * e).tdiv one :=
  Int.tdiv_le_tdiv (Int.natCast_pos.2 hone) (mul_le_mul hab hde hd (ha.trans hab))

/-! ### A positive argument -/

/-- With the argument at most a half, a term is paid by what the power loses. -/
theorem seriesStep_half (hone : 0 < one) (hr : 0 ≤ r) (hhalf : 2 * r ≤ one) (hc : 0 ≤ c ∧ c ≤ one) (hs : 0 ≤ s.1) :
    0 ≤ (seriesStep one r s c).1 ∧ s.2 ≤ (seriesStep one r s c).2 ∧
      (seriesStep one r s c).2 + (seriesStep one r s c).1 ≤ s.2 + s.1 := by
  have hpower : 0 ≤ (s.1 * r).tdiv one := mul_tdiv_nonneg hs hr
  have hterm : ((s.1 * r).tdiv one * c).tdiv one ≤ (s.1 * r).tdiv one := mul_tdiv_le hone hpower hc.2
  have hdouble : 2 * (s.1 * r).tdiv one ≤ s.1 := by
    have hlow : (one : ℤ) * (s.1 * r).tdiv one ≤ s.1 * r := Int.mul_tdiv_self_le (mul_nonneg hs hr)
    have hup : s.1 * (2 * r) ≤ s.1 * one := mul_le_mul_of_nonneg_left hhalf hs
    have hscaled : (one : ℤ) * (2 * (s.1 * r).tdiv one) ≤ one * s.1 := by linarith
    exact le_of_mul_le_mul_left hscaled (Int.natCast_pos.2 hone)
  refine ⟨hpower, ?_, ?_⟩
  · exact le_add_of_nonneg_right (mul_tdiv_nonneg hpower hc.1)
  · show s.2 + ((s.1 * r).tdiv one * c).tdiv one + (s.1 * r).tdiv one ≤ s.2 + s.1
    linarith

theorem foldl_seriesStep_half (hone : 0 < one) (hr : 0 ≤ r) (hhalf : 2 * r ≤ one) :
    ∀ {cs : List ℤ} {s : ℤ × ℤ}, (∀ c ∈ cs, 0 ≤ c ∧ c ≤ one) → 0 ≤ s.1 →
      0 ≤ (cs.foldl (seriesStep one r) s).1 ∧ s.2 ≤ (cs.foldl (seriesStep one r) s).2 ∧
        (cs.foldl (seriesStep one r) s).2 + (cs.foldl (seriesStep one r) s).1 ≤ s.2 + s.1
  | [], _, _, hs => ⟨hs, le_rfl, le_rfl⟩
  | c :: cs, s, hcs, hs => by
    have hstep := seriesStep_half hone hr hhalf (hcs c List.mem_cons_self) hs
    have hrest := foldl_seriesStep_half hone hr hhalf (fun d hd => hcs d (List.mem_cons_of_mem c hd)) hstep.1
    exact ⟨hrest.1, hstep.2.1.trans hrest.2.1, hrest.2.2.trans hstep.2.2⟩

/-- A small positive argument keeps the sum between one and two. -/
theorem series_half (hone : 0 < one) (hr : 0 ≤ r) (hhalf : 2 * r ≤ one) (hcs : ∀ c ∈ cs, 0 ≤ c ∧ c ≤ one) :
    one ≤ series one r cs ∧ series one r cs ≤ 2 * one := by
  have h := foldl_seriesStep_half (s := (one, one)) hone hr hhalf hcs (Int.natCast_nonneg one)
  exact ⟨h.2.1, by unfold series; linarith [h.1, h.2.2]⟩

/-! ### A negative argument -/

/-- The last term was added to a sum that is still at most one, or taken from one that is still above zero. -/
def Swings (one : ℕ) (c : ℤ) (s : ℤ × ℤ) : Prop :=
  (0 ≤ s.1 ∧ (s.1 * c).tdiv one ≤ s.2 ∧ s.2 ≤ one) ∨ (s.1 ≤ 0 ∧ 0 ≤ s.2 ∧ s.2 ≤ one - (-s.1 * c).tdiv one)

/-- The terms change sign and do not grow. -/
theorem swings_step {d : ℤ} (hone : 0 < one) (hlow : -(one : ℤ) ≤ r) (hr : r ≤ 0) (hd : 0 ≤ d) (hdc : d ≤ c)
    (h : Swings one c s) : Swings one d (seriesStep one r s d) := by
  rcases h with ⟨hs, hterm, hup⟩ | ⟨hs, hsum, hterm⟩
  · refine Or.inr ?_
    have hflip : -(s.1 * r).tdiv one = (s.1 * -r).tdiv one := by rw [mul_neg, Int.neg_tdiv]
    have hpower : 0 ≤ -(s.1 * r).tdiv one := hflip ▸ mul_tdiv_nonneg hs (neg_nonneg.2 hr)
    have hshort : -(s.1 * r).tdiv one ≤ s.1 := hflip ▸ mul_tdiv_le hone hs (by linarith)
    have hnext : (-(s.1 * r).tdiv one * d).tdiv one ≤ (s.1 * c).tdiv one :=
      mul_tdiv_mono hone hpower hshort hd hdc
    have hsign : ((s.1 * r).tdiv one * d).tdiv one = -(-(s.1 * r).tdiv one * d).tdiv one := by
      rw [neg_mul, Int.neg_tdiv, neg_neg]
    refine ⟨by exact neg_nonneg.1 hpower, ?_, ?_⟩
    · show 0 ≤ s.2 + ((s.1 * r).tdiv one * d).tdiv one
      linarith
    · show s.2 + ((s.1 * r).tdiv one * d).tdiv one ≤ one - (-(s.1 * r).tdiv one * d).tdiv one
      linarith
  · refine Or.inl ?_
    have hback : 0 ≤ -s.1 := neg_nonneg.2 hs
    have hflip : (s.1 * r).tdiv one = (-s.1 * -r).tdiv one := by rw [neg_mul_neg]
    have hpower : 0 ≤ (s.1 * r).tdiv one := hflip ▸ mul_tdiv_nonneg hback (neg_nonneg.2 hr)
    have hshort : (s.1 * r).tdiv one ≤ -s.1 := hflip ▸ mul_tdiv_le hone hback (by linarith)
    have hnext : ((s.1 * r).tdiv one * d).tdiv one ≤ (-s.1 * c).tdiv one :=
      mul_tdiv_mono hone hpower hshort hd hdc
    refine ⟨hpower, ?_, ?_⟩
    · exact le_add_of_nonneg_left hsum
    · show s.2 + ((s.1 * r).tdiv one * d).tdiv one ≤ one
      linarith

theorem Swings.mem (hc : 0 ≤ c) (h : Swings one c s) : 0 ≤ s.2 ∧ s.2 ≤ one := by
  rcases h with ⟨hs, hterm, hup⟩ | ⟨hs, hsum, hterm⟩
  · exact ⟨(mul_tdiv_nonneg hs hc).trans hterm, hup⟩
  · have hlast : 0 ≤ (-s.1 * c).tdiv one := mul_tdiv_nonneg (neg_nonneg.2 hs) hc
    exact ⟨hsum, by linarith⟩

theorem foldl_swings (hone : 0 < one) (hlow : -(one : ℤ) ≤ r) (hr : r ≤ 0) :
    ∀ {cs : List ℤ} {c : ℤ} {s : ℤ × ℤ}, (c :: cs).IsChain (fun c d => d ≤ c) → 0 ≤ c → (∀ d ∈ cs, 0 ≤ d) →
      Swings one c s → 0 ≤ (cs.foldl (seriesStep one r) s).2 ∧ (cs.foldl (seriesStep one r) s).2 ≤ one
  | [], _, _, _, hc, _, h => h.mem hc
  | d :: cs, c, s, hchain, _, hcs, h => by
    obtain ⟨hdc, hrest⟩ := List.isChain_cons_cons.1 hchain
    have hd : 0 ≤ d := hcs d List.mem_cons_self
    have hstep : Swings one d (seriesStep one r s d) := swings_step hone hlow hr hd hdc h
    rw [List.foldl_cons]
    exact foldl_swings hone hlow hr hrest hd (fun e he => hcs e (List.mem_cons_of_mem d he)) hstep

/-- A negative argument that is at least minus one keeps the sum between zero and one. -/
theorem series_swings (hone : 0 < one) (hlow : -(one : ℤ) ≤ r) (hr : r ≤ 0)
    (hchain : ((one : ℤ) :: cs).IsChain (fun c d => d ≤ c)) (hcs : ∀ c ∈ cs, 0 ≤ c) :
    0 ≤ series one r cs ∧ series one r cs ≤ one := by
  have hpos : (0 : ℤ) < one := Int.natCast_pos.2 hone
  refine foldl_swings hone hlow hr hchain hpos.le hcs (Or.inl ⟨hpos.le, ?_, le_rfl⟩)
  rw [Int.mul_tdiv_cancel _ hpos.ne']

end Lib
