import FoxTrader.Lib.TruncatedSeries
import Mathlib.Data.List.Induction

/-! # Decaying averages

    An average that keeps a share of itself and takes the rest of the share from a sample, in integers
    worth `1 / one` with each product cut towards zero. As long as the share kept is between nothing and
    everything, the average never leaves the range from zero to its largest sample: the two shares make
    one, and the cuts only take away. -/

namespace Lib

/-- What an average is given: a value to start from, or a sample and the share that it keeps of itself. -/
inductive AverageAct where
  | seed (sample : ℤ)
  | blend (decay sample : ℤ)

namespace AverageAct

def sample : AverageAct → ℤ
  | .seed s => s
  | .blend _ s => s

/-- A sample that is not below zero under a share that is one. -/
def Weighs (one : ℕ) : AverageAct → Prop
  | .seed s => 0 ≤ s
  | .blend d s => (0 ≤ d ∧ d ≤ one) ∧ 0 ≤ s

end AverageAct

def averageStep (one : ℕ) (x : ℤ) : AverageAct → ℤ
  | .seed s => s
  | .blend d s => (x * d).tdiv one + ((one - d) * s).tdiv one

variable {one : ℕ} {x d s : ℤ} {act : AverageAct}

/-- Both shares of the larger of the two values are at most that value. -/
theorem blend_le_max (hone : 0 < one) (hx : 0 ≤ x) (hs : 0 ≤ s) (hd : 0 ≤ d ∧ d ≤ one) :
    (x * d).tdiv one + ((one - d) * s).tdiv one ≤ max x s := by
  have hpos : (0 : ℤ) < one := Int.natCast_pos.2 hone
  have hrest : 0 ≤ one - d := sub_nonneg.2 hd.2
  have hkept : (x * d).tdiv one ≤ (max x s * d).tdiv one :=
    mul_tdiv_mono hone hx (le_max_left x s) hd.1 le_rfl
  have htaken : ((one - d) * s).tdiv one ≤ ((one - d) * max x s).tdiv one :=
    mul_tdiv_mono hone hrest le_rfl hs (le_max_right x s)
  have hmax : 0 ≤ max x s := hx.trans (le_max_left x s)
  have hlow : one * (max x s * d).tdiv one ≤ max x s * d := Int.mul_tdiv_self_le (mul_nonneg hmax hd.1)
  have hhigh : one * ((one - d) * max x s).tdiv one ≤ (one - d) * max x s :=
    Int.mul_tdiv_self_le (mul_nonneg hrest hmax)
  have hboth : one * ((max x s * d).tdiv one + ((one - d) * max x s).tdiv one) ≤ one * max x s := by linarith
  linarith [le_of_mul_le_mul_left hboth hpos]

theorem averageStep_nonneg (hx : 0 ≤ x) (h : act.Weighs one) : 0 ≤ averageStep one x act := by
  cases act with
  | seed s => exact h
  | blend d s => exact add_nonneg (mul_tdiv_nonneg hx h.1.1) (mul_tdiv_nonneg (sub_nonneg.2 h.1.2) h.2)

theorem averageStep_le (hone : 0 < one) (hx : 0 ≤ x) (h : act.Weighs one) :
    averageStep one x act ≤ max x act.sample := by
  cases act with
  | seed s => exact le_max_right x s
  | blend d s => exact blend_le_max hone hx h.2 h.1

/-- The largest sample, or zero before any. -/
def largestSample (acts : List AverageAct) : ℤ := acts.foldl (fun m act => max m act.sample) 0

theorem largestSample_concat (acts : List AverageAct) (act : AverageAct) :
    largestSample (acts ++ [act]) = max (largestSample acts) act.sample := List.foldl_concat ..

/-- A whole run stays between zero and its largest sample. -/
theorem averageRun_mem (hone : 0 < one) :
    ∀ acts : List AverageAct, (∀ act ∈ acts, act.Weighs one) →
      0 ≤ acts.foldl (averageStep one) 0 ∧ acts.foldl (averageStep one) 0 ≤ largestSample acts := by
  intro acts
  induction acts using List.reverseRecOn with
  | nil => exact fun _ => ⟨le_rfl, le_rfl⟩
  | append_singleton acts act ih =>
    intro h
    have hact : act.Weighs one := h act List.mem_concat_self
    obtain ⟨hlow, hup⟩ := ih fun b hb => h b (List.mem_append_left [act] hb)
    rw [List.foldl_concat, largestSample_concat]
    exact ⟨averageStep_nonneg hlow hact,
      (averageStep_le hone hlow hact).trans (max_le_max hup le_rfl)⟩

end Lib
