import FoxTrader.BucketRing
import FoxTrader.FixedPointCasts
import FoxTrader.Lib.RingCursor
import FoxTrader.Lib.Run

/-! # The regression feeder

    `RegressionFeederX` is a ring of the last eight samples, and `LinearRegression3X_Fit` a least squares
    fit in binary fixed point over them and their positions. A feeder that is given nothing but zeros
    fits the flat line: no slope, no intercept, and no `R²` either. -/

namespace FoxTrader

open Lib

/-- `MAX_WINDOW`. -/
abbrev maxWindow : ℕ := 8

/-- `RegressionFeederX`. -/
structure RegressionFeeder where
  priceSamples : ℕ → Fpn
  head : ℕ
  count : ℕ

/-- `LinearRegression3XResult`, its model unfolded. -/
structure LinearRegressionResult where
  slope : Fpn
  intercept : Fpn
  rSquared : Fpn
  deriving DecidableEq

/-! ### The fit -/

namespace LinearRegression

/-- The five sums of `LinearRegression3X_Fit`. -/
structure Sums where
  sumX : Fpn
  sumY : Fpn
  sumXY : Fpn
  sumX2 : Fpn
  sumY2 : Fpn

def Sums.add (s : Sums) (p : Fpn × Fpn) : Sums where
  sumX := s.sumX.addSat p.1
  sumY := s.sumY.addSat p.2
  sumXY := s.sumXY.addSat (p.1.mul p.2)
  sumX2 := s.sumX2.addSat (p.1.mul p.1)
  sumY2 := s.sumY2.addSat (p.2.mul p.2)

def sums (points : List (Fpn × Fpn)) : Sums := points.foldl Sums.add ⟨.zero, .zero, .zero, .zero, .zero⟩

/-- `LinearRegression3X_Fit`. -/
def fit (points : List (Fpn × Fpn)) : LinearRegressionResult :=
  let s := sums points
  let n := Fpn.fromInt points.length
  let numerator := (n.mul s.sumXY).sub (s.sumX.mul s.sumY)
  let denominator := (n.mul s.sumX2).sub (s.sumX.mul s.sumX)
  let denomNonzero := !denominator.isZero
  let safeDenom := if denomNonzero then denominator else .fromInt 1
  let slope := if denomNonzero then numerator.divNoAssert safeDenom else .zero
  let rawIntercept := ((s.sumY.mul s.sumX2).sub (s.sumX.mul s.sumXY)).divNoAssert safeDenom
  let ssTotal := (n.mul s.sumY2).sub (s.sumY.mul s.sumY)
  let totalNonzero := !ssTotal.isZero && denomNonzero
  let safeTotal := if totalNonzero then ssTotal else .fromInt 1
  { slope
    intercept := if denomNonzero then rawIntercept else .zero
    rSquared := if totalNonzero then slope.mul (numerator.divNoAssert safeTotal) else .zero }

end LinearRegression

/-! ### The ring -/

namespace RegressionFeeder

/-- `RegressionFeederX_Init`. -/
def init : RegressionFeeder := ⟨fun _ => .zero, 0, 0⟩

/-- `RegressionFeederX_Push`. -/
def push (f : RegressionFeeder) (price : Fpn) : RegressionFeeder where
  priceSamples := Function.update f.priceSamples f.head price
  head := (f.head + 1) % maxWindow
  count := if f.count < maxWindow then f.count + 1 else f.count

/-- The cell of the sample `i`, the oldest first. -/
def cell (f : RegressionFeeder) (i : ℕ) : ℕ := (f.head + maxWindow - f.count + i) % maxWindow

/-- `RegressionFeederX_Compute`. -/
def compute (f : RegressionFeeder) : LinearRegressionResult :=
  LinearRegression.fit ((List.range f.count).map fun i : ℕ => (.fromInt i, f.priceSamples (f.cell i)))

theorem push_count (f : RegressionFeeder) (price : Fpn) (h : f.count ≤ maxWindow) :
    (f.push price).count = min (f.count + 1) maxWindow := by
  rw [push]
  dsimp only
  split <;> omega

/-- Only zeros have been pushed. -/
def Still (f : RegressionFeeder) : Prop := ∀ i, f.priceSamples i = .zero

theorem still_init : init.Still := fun _ => rfl

theorem Still.push {f : RegressionFeeder} (h : f.Still) : (f.push .zero).Still := by
  intro i
  show Function.update f.priceSamples f.head .zero i = .zero
  by_cases hi : i = f.head
  · rw [hi, Function.update_self]
  · rw [Function.update_of_ne hi, h i]

end RegressionFeeder

/-! ### The flat line -/

namespace Fpn

@[simp] theorem saturate_zero : saturate 0 = .zero := Fpn.ext (saturate_v (by decide) (by decide))

@[simp] theorem ofMagnitude_zero (neg : Bool) : ofMagnitude neg 0 = .zero := by
  cases neg <;> exact Fpn.ext (ofMagnitude_v (by decide))

@[simp] theorem mul_zero (a : Fpn) : a.mul .zero = .zero := by
  rw [mul, zero_v, Int.natAbs_zero, Nat.mul_zero, Nat.zero_div, ofMagnitude_zero]

@[simp] theorem zero_mul (a : Fpn) : Fpn.zero.mul a = .zero := by
  rw [mul, zero_v, Int.natAbs_zero, Nat.zero_mul, Nat.zero_div, ofMagnitude_zero]

@[simp] theorem sub_zero (a : Fpn) : a.sub .zero = a :=
  Fpn.ext (by rw [sub, zero_v, Int.sub_zero, saturate_v a.lower a.upper])

@[simp] theorem addSat_zero (a : Fpn) : a.addSat .zero = a :=
  Fpn.ext (by rw [addSat, zero_v, Int.add_zero, saturate_v a.lower a.upper])

@[simp] theorem negate_zero : Fpn.zero.negate = .zero := by
  rw [negate, zero_v, Int.neg_zero, saturate_zero]

theorem zero_divNoAssert {a : Fpn} (h : a.isZero = false) : Fpn.zero.divNoAssert a = .zero := by
  have ha : a.v ≠ 0 := of_decide_eq_false h
  rw [divNoAssert, if_neg ha, zero_v, Int.natAbs_zero, Nat.zero_mul, Nat.zero_div, ofMagnitude_zero]

@[simp] theorem isZero_zero : Fpn.zero.isZero = true := rfl

end Fpn

namespace LinearRegression

/-- The sums with a `y` in them stay at zero. -/
theorem sums_flat (points : List (Fpn × Fpn)) (h : ∀ p ∈ points, p.2 = .zero) :
    (sums points).sumY = .zero ∧ (sums points).sumXY = .zero ∧ (sums points).sumY2 = .zero := by
  induction points using List.reverseRecOn with
  | nil => exact ⟨rfl, rfl, rfl⟩
  | append_singleton points p ih =>
    obtain ⟨hy, hxy, hy2⟩ := ih fun q hq => h q (List.mem_append_left _ hq)
    have hp : p.2 = .zero := h p (List.mem_append_right _ (List.mem_singleton_self p))
    have hfold : sums (points ++ [p]) = (sums points).add p := by
      rw [sums, List.foldl_append]
      rfl
    rw [hfold]
    refine ⟨?_, ?_, ?_⟩
    · show (sums points).sumY.addSat p.2 = .zero
      rw [hy, hp, Fpn.addSat_zero]
    · show (sums points).sumXY.addSat (p.1.mul p.2) = .zero
      rw [hxy, hp, Fpn.mul_zero, Fpn.addSat_zero]
    · show (sums points).sumY2.addSat (p.2.mul p.2) = .zero
      rw [hy2, hp, Fpn.mul_zero, Fpn.addSat_zero]

theorem fit_flat (points : List (Fpn × Fpn)) (h : ∀ p ∈ points, p.2 = .zero) :
    fit points = ⟨.zero, .zero, .zero⟩ := by
  obtain ⟨hy, hxy, hy2⟩ := sums_flat points h
  have hdiv (d : Fpn) : (if (!d.isZero) = true then Fpn.zero.divNoAssert (if (!d.isZero) = true then d else .fromInt 1)
      else .zero) = .zero := by
    cases hd : d.isZero with
    | true => rfl
    | false => exact Fpn.zero_divNoAssert hd
  unfold fit
  dsimp only
  rw [hy, hxy, hy2]
  simp only [Fpn.mul_zero, Fpn.zero_mul, Fpn.sub_zero, hdiv, Fpn.isZero_zero, Bool.not_true, Bool.false_and,
    Bool.false_eq_true, if_false]

end LinearRegression

theorem RegressionFeeder.Still.compute {f : RegressionFeeder} (h : f.Still) :
    f.compute = ⟨.zero, .zero, .zero⟩ := by
  refine LinearRegression.fit_flat _ fun p hp => ?_
  obtain ⟨i, -, rfl⟩ := List.mem_map.1 hp
  exact h _

end FoxTrader
