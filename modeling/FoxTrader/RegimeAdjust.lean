import FoxTrader.FeeFloor
import FoxTrader.FixedPointExp
import FoxTrader.StrategyBuild

/-! # Positions across a regime switch

    When the regime changes, the targets and stops of the positions entered under the old regime's
    strategy are moved: widened with the deviation towards a trend, tightened away from it, and then
    clamped against each other. The last clamp always pulls the stop down to a share of the distance of
    the target that was just moved.

    That share holds after every transition, and after a tightening one the stop is no further away than
    the target (`regimeAdjustPositions_adjusted`). Going into a trend the target moves first, so the last
    clamp can lower a stop that was fine before. -/

namespace FoxTrader

open Lib Function

/-! ### The regimes by their ids -/

def regimeRanging : ℤ := 0
def regimeTrending : ℤ := 1
def regimeVolatile : ℤ := 2
def regimeTrendingDown : ℤ := 3
def regimeMildTrend : ℤ := 4

/-- `Regime_ToStrategy`; the strategy of a mild trend depends on the build. -/
def regimeToStrategy (mildTrendDefault : Strategy) (regime : ℤ) : Strategy :=
  if regime = regimeTrending then .momentum
  else if regime = regimeVolatile then .simpleDip
  else if regime = regimeMildTrend then mildTrendDefault
  else .meanReversion

/-! ### One position -/

/-- What the adjustment reads of the configuration. -/
structure AdjustCfg where
  takeProfitPct : Money
  stopLossPct : Money
  feeRate : Money
  feeFloorMult : Money
  minSlTpRatio : Money
  momentumTpMult : Fpn
  momentumSlMult : Fpn

/-- `FPN_FromDouble` of `100.0` and `1.3`. -/
def Fpn.hundred : Fpn := .saturate 1844674407370955161600

def Fpn.mildFactor : Fpn := .saturate 23980767295822417920

/-- A multiple of the deviation. -/
def stddevOffset (stddev mult : Fpn) : Flagged 64 Money := Money.fromBinary (stddev.mul mult)

/-- The deviation at a percentage, which counts a hundredfold. -/
def pctOffset (stddev : Fpn) (pct : Money) : Flagged 64 Money :=
  Money.fromBinary (stddev.mul ((Fpn.ofMoney pct).mul Fpn.hundred))

def mildOffset (stddev : Fpn) (pct : Money) : Flagged 64 Money :=
  Money.fromBinary ((stddev.mul ((Fpn.ofMoney pct).mul Fpn.hundred)).mul Fpn.mildFactor)

/-- The target that covers the fees of both ways. -/
def tpFeeFloor (cfg : AdjustCfg) (entryPrice : Money) : Flagged 64 Money := do
  entryPrice.add (← (← entryPrice.mul cfg.feeRate).mul cfg.feeFloorMult)

namespace Position

def raiseTp (pos : Position) (offset : Flagged 64 Money) : Flagged 64 Position := do
  let wideTp ← pos.entryPrice.add (← offset)
  return { pos with takeProfitPrice := pos.takeProfitPrice.max wideTp }

/-- A tighter target, yet one that covers the fees. -/
def lowerTp (pos : Position) (cfg : AdjustCfg) (offset : Flagged 64 Money) : Flagged 64 Position := do
  let tightTp ← pos.entryPrice.add (← offset)
  let feeFloor ← tpFeeFloor cfg pos.entryPrice
  return { pos with takeProfitPrice := (pos.takeProfitPrice.min tightTp).max feeFloor }

def raiseSl (pos : Position) (offset : Flagged 64 Money) : Flagged 64 Position := do
  let tightSl ← pos.entryPrice.sub (← offset)
  return { pos with stopLossPrice := pos.stopLossPrice.max tightSl }

def lowerSl (pos : Position) (offset : Flagged 64 Money) : Flagged 64 Position := do
  let wideSl ← pos.entryPrice.sub (← offset)
  return { pos with stopLossPrice := pos.stopLossPrice.min wideSl }

/-- The stop no further away than the target. -/
def ceilSl (pos : Position) : Flagged 64 Position := do
  let tpDist ← pos.takeProfitPrice.sub pos.entryPrice
  let slCeiling ← pos.entryPrice.sub tpDist
  return { pos with stopLossPrice := pos.stopLossPrice.max slCeiling }

/-- The stop no nearer than a share of the target. -/
def floorSl (pos : Position) (ratio : Money) : Flagged 64 Position := do
  let tpDist ← pos.takeProfitPrice.sub pos.entryPrice
  let minSlDist ← tpDist.mul ratio
  let slFloor ← pos.entryPrice.sub minSlDist
  return { pos with stopLossPrice := pos.stopLossPrice.min slFloor }

end Position

/-- The branch of a transition, in the order of the source. -/
def adjustPosition (cfg : AdjustCfg) (stddev : Fpn) (oldRegime newRegime : ℤ) (pos : Position) :
    Flagged 64 Position :=
  if oldRegime = regimeRanging ∧ newRegime = regimeTrending then do
    let pos ← pos.raiseTp (stddevOffset stddev cfg.momentumTpMult)
    let pos ← pos.raiseSl (stddevOffset stddev cfg.momentumSlMult)
    pos.floorSl cfg.minSlTpRatio
  else if oldRegime = regimeRanging ∧ newRegime = regimeMildTrend then do
    let pos ← pos.raiseTp (mildOffset stddev cfg.takeProfitPct)
    pos.floorSl cfg.minSlTpRatio
  else if oldRegime = regimeMildTrend ∧ newRegime = regimeTrending then do
    let pos ← pos.raiseTp (stddevOffset stddev cfg.momentumTpMult)
    let pos ← pos.raiseSl (stddevOffset stddev cfg.momentumSlMult)
    pos.floorSl cfg.minSlTpRatio
  else if (oldRegime = regimeTrending ∨ oldRegime = regimeTrendingDown ∨ oldRegime = regimeMildTrend) ∧
      newRegime = regimeRanging then do
    let pos ← pos.lowerTp cfg (pctOffset stddev cfg.takeProfitPct)
    let pos ← pos.lowerSl (pctOffset stddev cfg.stopLossPct)
    let pos ← pos.ceilSl
    pos.floorSl cfg.minSlTpRatio
  else if oldRegime = regimeTrending ∧ newRegime = regimeMildTrend then do
    let pos ← pos.lowerTp cfg (mildOffset stddev cfg.takeProfitPct)
    let pos ← pos.ceilSl
    pos.floorSl cfg.minSlTpRatio
  else if newRegime = regimeTrendingDown then do
    let pos ← pos.lowerTp cfg (stddevOffset stddev cfg.momentumTpMult)
    let pos ← pos.raiseSl (stddevOffset stddev cfg.momentumSlMult)
    let pos ← pos.ceilSl
    pos.floorSl cfg.minSlTpRatio
  else pure pos

/-! ### The walk over the slots -/

/-- Held, and entered under the old regime's strategy. -/
def enteredUnder (p : Portfolio) (entryStrategy : SlotIdx → ℕ) (oldStrategy : Strategy) (slot : SlotIdx) : Bool :=
  p.active slot && entryStrategy slot == oldStrategy.id

/-- One turn of the walk. -/
def adjustSlot (oldStrategy : Strategy) (cfg : AdjustCfg) (stddev : Fpn) (oldRegime newRegime : ℤ)
    (entryStrategy : SlotIdx → ℕ) (p : Portfolio) (slot : SlotIdx) : Flagged 64 Portfolio :=
  if enteredUnder p entryStrategy oldStrategy slot then do
    let pos ← adjustPosition cfg stddev oldRegime newRegime (p.positions slot)
    return { p with positions := update p.positions slot pos }
  else pure p

/-- `Regime_AdjustPositions`. -/
def regimeAdjustPositions (mildTrendDefault : Strategy) (cfg : AdjustCfg) (priceStddev : Fpn)
    (oldRegime newRegime : ℤ) (entryStrategy : SlotIdx → ℕ) (portfolio : Portfolio) : Flagged 64 Portfolio :=
  if priceStddev.isZero then pure portfolio
  else
    (List.finRange 16).foldlM (adjustSlot (regimeToStrategy mildTrendDefault oldRegime) cfg priceStddev oldRegime
      newRegime entryStrategy) portfolio

section Walk

variable (oldStrategy : Strategy) (cfg : AdjustCfg) (stddev : Fpn) (oldRegime newRegime : ℤ)
  (entryStrategy : SlotIdx → ℕ)

theorem adjustSlot_active (p : Portfolio) (slot : SlotIdx) :
    (adjustSlot oldStrategy cfg stddev oldRegime newRegime entryStrategy p slot).val.active = p.active := by
  unfold adjustSlot
  split <;> rfl

theorem adjustSlot_self (p : Portfolio) (slot : SlotIdx) :
    (adjustSlot oldStrategy cfg stddev oldRegime newRegime entryStrategy p slot).val.positions slot =
      if enteredUnder p entryStrategy oldStrategy slot then
        (adjustPosition cfg stddev oldRegime newRegime (p.positions slot)).val
      else p.positions slot := by
  unfold adjustSlot
  split
  · exact update_self ..
  · rfl

theorem adjustSlot_of_ne (p : Portfolio) {slot i : SlotIdx} (h : i ≠ slot) :
    (adjustSlot oldStrategy cfg stddev oldRegime newRegime entryStrategy p slot).val.positions i =
      p.positions i := by
  unfold adjustSlot
  split
  · exact update_of_ne h ..
  · rfl

theorem foldlM_adjustSlot_active (l : List SlotIdx) (p : Portfolio) :
    (l.foldlM (adjustSlot oldStrategy cfg stddev oldRegime newRegime entryStrategy) p).val.active = p.active :=
  Flagged.foldlM_keeps (fun p' => p'.active = p.active)
    (fun p' slot h => (adjustSlot_active oldStrategy cfg stddev oldRegime newRegime entryStrategy p' slot).trans h)
    l rfl

theorem foldlM_adjustSlot_not_mem (l : List SlotIdx) (p : Portfolio) {i : SlotIdx} (h : i ∉ l) :
    (l.foldlM (adjustSlot oldStrategy cfg stddev oldRegime newRegime entryStrategy) p).val.positions i =
      p.positions i := by
  induction l generalizing p with
  | nil => rfl
  | cons slot l ih =>
    rw [List.foldlM_cons, Flagged.bind_val, ih _ fun hi => h (List.mem_cons_of_mem _ hi)]
    exact adjustSlot_of_ne _ _ _ _ _ _ p fun hi => h (hi ▸ List.mem_cons_self)

/-- Every slot of the walk is adjusted once, from the position it had. -/
theorem foldlM_adjustSlot_mem {l : List SlotIdx} (hl : l.Nodup) (p : Portfolio) {i : SlotIdx} (h : i ∈ l) :
    (l.foldlM (adjustSlot oldStrategy cfg stddev oldRegime newRegime entryStrategy) p).val.positions i =
      if enteredUnder p entryStrategy oldStrategy i then
        (adjustPosition cfg stddev oldRegime newRegime (p.positions i)).val
      else p.positions i := by
  induction l generalizing p with
  | nil => exact absurd h List.not_mem_nil
  | cons slot l ih =>
    obtain ⟨hslot, hl⟩ := List.nodup_cons.1 hl
    rw [List.foldlM_cons, Flagged.bind_val]
    rcases List.mem_cons.1 h with rfl | hi
    · rw [foldlM_adjustSlot_not_mem _ _ _ _ _ _ _ _ hslot, adjustSlot_self]
    · have hne : i ≠ slot := fun he => hslot (he ▸ hi)
      rw [ih hl _ hi, adjustSlot_of_ne _ _ _ _ _ _ p hne, enteredUnder, enteredUnder, adjustSlot_active]

end Walk

/-! ### Distances from the entry -/

namespace Money

theorem max_v (a b : Money) : (a.max b).v = Max.max a.v b.v := by
  unfold Money.max
  split <;> omega

theorem min_v (a b : Money) : (a.min b).v = Min.min a.v b.v := by
  unfold Money.min
  split <;> omega

theorem sub_eq (a b : Money) : a.sub b = saturate (a.v - b.v) := congrArg saturate Int.sub_eq_add_neg.symm

variable {entry tp x y : Money}

theorem sub_le (hx : 0 ≤ x.v) : (entry.sub x).val.v ≤ entry.v := by
  rw [sub_eq]
  exact saturate_le_of_le (by omega)

theorem sub_lt (entry : Money) (hx : 0 < x.v) (he : -moneyMax < entry.v) : (entry.sub x).val.v < entry.v := by
  have hupper := entry.upper
  rw [sub_eq]
  have := saturate_cases (entry.v - x.v)
  omega

theorem sub_anti (h : x.v ≤ y.v) : (entry.sub y).val.v ≤ (entry.sub x).val.v := by
  rw [sub_eq, sub_eq]
  exact saturate_mono (by omega)

theorem le_add (entry : Money) (hx : 0 ≤ x.v) : entry.v ≤ (entry.add x).val.v := by
  have hupper := entry.upper
  rw [add]
  have := saturate_cases (entry.v + x.v)
  omega

theorem lt_add (entry : Money) (hx : 0 < x.v) (he : entry.v < moneyMax) : entry.v < (entry.add x).val.v := by
  have hlower := entry.lower
  rw [add]
  have := saturate_cases (entry.v + x.v)
  omega

theorem dist_nonneg (h : entry.v ≤ tp.v) : 0 ≤ (tp.sub entry).val.v := by
  rw [sub_eq]
  exact saturate_nonneg (by omega)

theorem dist_pos (h : entry.v < tp.v) : 0 < (tp.sub entry).val.v := by
  have hmax : 0 < moneyMax := by decide
  rw [sub_eq]
  have := saturate_cases (tp.v - entry.v)
  omega

theorem dist_mono (h : x.v ≤ y.v) : (x.sub entry).val.v ≤ (y.sub entry).val.v := by
  rw [sub_eq, sub_eq]
  exact saturate_mono (by omega)

/-- A share of what is not negative, rounded. -/
theorem mul_share_le (hx : 0 ≤ x.v) (hy : y.v ≤ moneyScale) : (x.mul y).val.v ≤ x.v := by
  have hmono : halfEven (x.v * y.v) moneyScale ≤ halfEven (x.v * moneyScale) moneyScale :=
    halfEven_mono (by decide) (mul_le_mul_of_nonneg_left hy hx)
  rw [halfEven_mul (by decide)] at hmono
  rw [mul_eq]
  exact saturate_le_of_le hmono

/-- The share is exact up to half a unit. -/
theorem mul_share_near (hx : 0 ≤ x.v) (hy0 : 0 ≤ y.v) (hy : y.v ≤ moneyScale) :
    2 * (x.v * y.v) ≤ (2 * (x.mul y).val.v + 1) * moneyScale := by
  have hmono : halfEven (x.v * y.v) moneyScale ≤ halfEven (x.v * moneyScale) moneyScale :=
    halfEven_mono (by decide) (mul_le_mul_of_nonneg_left hy hx)
  rw [halfEven_mul (by decide)] at hmono
  have hclean : (saturate (halfEven (x.v * y.v) moneyScale)).Clean := by
    have hupper := x.upper
    have hnonneg : 0 ≤ halfEven (x.v * y.v) moneyScale := halfEven_nonneg (Int.mul_nonneg hx hy0) (by decide)
    exact saturate_clean_iff.2 ⟨by omega, by omega⟩
  rw [mul_eq, saturate_v hclean]
  rcases (halfEven_le_iff (x := x.v * y.v) (d := moneyScale) (by decide)).1 le_rfl with h | ⟨h, -⟩
  · exact h.le
  · exact h.le

theorem fromBinary_nonneg {b : Fpn} (hb : 0 ≤ b.v) : 0 ≤ (fromBinary b).val.v :=
  saturate_nonneg (halfEven_nonneg (Int.mul_nonneg hb (by decide)) (by decide))

end Money

/-! ### The marks of a position -/

namespace Position

/-- How far the target is from the entry. -/
def tpDist (pos : Position) : Money := (pos.takeProfitPrice.sub pos.entryPrice).val

/-- The share of the target's distance that the stop keeps. -/
def minSlDist (pos : Position) (ratio : Money) : Money := (pos.tpDist.mul ratio).val

/-- The highest stop that keeps the share. -/
def highestSl (pos : Position) (ratio : Money) : Money := (pos.entryPrice.sub (pos.minSlDist ratio)).val

/-- The lowest stop that is no further away than the target. -/
def lowestSl (pos : Position) : Money := (pos.entryPrice.sub pos.tpDist).val

variable {pos : Position} {ratio : Money}

theorem minSlDist_nonneg (hratio : 0 ≤ ratio.v) (h : pos.entryPrice.v ≤ pos.takeProfitPrice.v) :
    0 ≤ (pos.minSlDist ratio).v := Money.mul_nonneg (Money.dist_nonneg h) hratio

theorem highestSl_le (hratio : 0 ≤ ratio.v) (h : pos.entryPrice.v ≤ pos.takeProfitPrice.v) :
    (pos.highestSl ratio).v ≤ pos.entryPrice.v := Money.sub_le (minSlDist_nonneg hratio h)

theorem lowestSl_le_highestSl (hratio : ratio.v ≤ moneyScale) (h : pos.entryPrice.v ≤ pos.takeProfitPrice.v) :
    pos.lowestSl.v ≤ (pos.highestSl ratio).v := Money.sub_anti (Money.mul_share_le (Money.dist_nonneg h) hratio)

theorem lowestSl_lt (pos : Position) (he : -moneyMax < pos.entryPrice.v) (h : pos.entryPrice.v < pos.takeProfitPrice.v) :
    pos.lowestSl.v < pos.entryPrice.v := Money.sub_lt _ (Money.dist_pos h) he

/-- A nearer target leaves the stop more room. -/
theorem highestSl_anti {pos' : Position} (hratio : 0 ≤ ratio.v) (hentry : pos'.entryPrice = pos.entryPrice)
    (h : pos'.takeProfitPrice.v ≤ pos.takeProfitPrice.v) : (pos.highestSl ratio).v ≤ (pos'.highestSl ratio).v := by
  unfold highestSl minSlDist tpDist
  rw [hentry]
  exact Money.sub_anti (Money.mul_mono hratio (Money.dist_mono h))

end Position

/-! ### What a transition leaves of a position -/

/-- The transitions that raise the target. -/
def Widens (oldRegime newRegime : ℤ) : Prop :=
  oldRegime = regimeRanging ∧ (newRegime = regimeTrending ∨ newRegime = regimeMildTrend) ∨
    oldRegime = regimeMildTrend ∧ newRegime = regimeTrending

/-- The transitions that tighten the target. -/
def Tightens (oldRegime newRegime : ℤ) : Prop :=
  (oldRegime = regimeTrending ∨ oldRegime = regimeTrendingDown ∨ oldRegime = regimeMildTrend) ∧
      newRegime = regimeRanging ∨
    oldRegime = regimeTrending ∧ newRegime = regimeMildTrend ∨ newRegime = regimeTrendingDown

/-- How far from the entry a tightened target is set. -/
def tightTpOffset (cfg : AdjustCfg) (stddev : Fpn) (newRegime : ℤ) : Flagged 64 Money :=
  if newRegime = regimeRanging then pctOffset stddev cfg.takeProfitPct
  else if newRegime = regimeMildTrend then mildOffset stddev cfg.takeProfitPct
  else stddevOffset stddev cfg.momentumTpMult

/-- Multipliers and percentages that are not negative, and a ratio up to one. -/
structure AdjustCfg.Sane (cfg : AdjustCfg) : Prop where
  takeProfitPct : 0 ≤ cfg.takeProfitPct.v
  stopLossPct : 0 ≤ cfg.stopLossPct.v
  momentumTpMult : 0 ≤ cfg.momentumTpMult.v
  momentumSlMult : 0 ≤ cfg.momentumSlMult.v
  ratio : 0 ≤ cfg.minSlTpRatio.v
  ratio_le : cfg.minSlTpRatio.v ≤ moneyScale

/-- What a transition leaves of a position. -/
structure Adjusted (cfg : AdjustCfg) (stddev : Fpn) (oldRegime newRegime : ℤ) (pos pos' : Position) : Prop where
  frame : pos' = { pos with takeProfitPrice := pos'.takeProfitPrice, stopLossPrice := pos'.stopLossPrice }
  target_ge : pos.entryPrice.v ≤ pos'.takeProfitPrice.v
  /-- Strictly above, unless the tight target and the fees are both worth nothing. -/
  target_gt : (Tightens oldRegime newRegime → 0 < (tightTpOffset cfg stddev newRegime).val.v ∨
      pos.entryPrice.v < (tpFeeFloor cfg pos.entryPrice).val.v) →
    pos.entryPrice.v < pos'.takeProfitPrice.v
  stop_le : pos'.stopLossPrice.v ≤ pos.entryPrice.v
  /-- Strictly below, unless the stop was pulled up to the entry or the target lies there. -/
  stop_lt : pos.entryPrice.v < pos'.takeProfitPrice.v →
    (newRegime = regimeTrending ∨ newRegime = regimeTrendingDown →
      0 < (stddevOffset stddev cfg.momentumSlMult).val.v) →
    pos'.stopLossPrice.v < pos.entryPrice.v
  share : pos'.stopLossPrice.v ≤ (pos'.highestSl cfg.minSlTpRatio).v
  ceiling : Tightens oldRegime newRegime → pos'.lowestSl.v ≤ pos'.stopLossPrice.v
  fees : Tightens oldRegime newRegime → (tpFeeFloor cfg pos.entryPrice).val.v ≤ pos'.takeProfitPrice.v
  /-- Into a trend a stop that kept its share is lowered to the one of a target further away at most. -/
  into_trend : newRegime = regimeTrending → pos.stopLossPrice.v ≤ (pos.highestSl cfg.minSlTpRatio).v →
    pos.stopLossPrice.v ≤ pos'.stopLossPrice.v ∨
      pos.takeProfitPrice.v < pos'.takeProfitPrice.v ∧ pos'.stopLossPrice = pos'.highestSl cfg.minSlTpRatio
  into_downtrend : newRegime = regimeTrendingDown →
    pos.stopLossPrice.v ≤ (pos.highestSl cfg.minSlTpRatio).v →
    (tpFeeFloor cfg pos.entryPrice).val.v ≤ pos.takeProfitPrice.v →
    pos.stopLossPrice.v ≤ pos'.stopLossPrice.v

section Branches

variable {cfg : AdjustCfg} {stddev : Fpn} {pos : Position}

theorem stddevOffset_nonneg {mult : Fpn} (hsd : 0 ≤ stddev.v) (h : 0 ≤ mult.v) :
    0 ≤ (stddevOffset stddev mult).val.v := Money.fromBinary_nonneg (Fpn.mul_nonneg_v hsd h)

theorem hundredfold_nonneg {pct : Money} (h : 0 ≤ pct.v) : 0 ≤ ((Fpn.ofMoney pct).mul Fpn.hundred).v := by
  have hpct : 0 ≤ (Fpn.ofMoney pct).v := by
    have hmono := toBinary_mono (a := Money.zero) (b := pct) h
    rw [moneyToBinary_word, moneyToBinary_word] at hmono
    have hzero : (Fpn.ofMoney Money.zero).v = 0 := by decide
    omega
  exact Fpn.mul_nonneg_v hpct (by decide)

theorem pctOffset_nonneg {pct : Money} (hsd : 0 ≤ stddev.v) (h : 0 ≤ pct.v) : 0 ≤ (pctOffset stddev pct).val.v :=
  Money.fromBinary_nonneg (Fpn.mul_nonneg_v hsd (hundredfold_nonneg h))

theorem mildOffset_nonneg {pct : Money} (hsd : 0 ≤ stddev.v) (h : 0 ≤ pct.v) : 0 ≤ (mildOffset stddev pct).val.v :=
  Money.fromBinary_nonneg (Fpn.mul_nonneg_v (Fpn.mul_nonneg_v hsd (hundredfold_nonneg h)) (by decide))

theorem tightTpOffset_nonneg (hcfg : cfg.Sane) (hsd : 0 ≤ stddev.v) (newRegime : ℤ) :
    0 ≤ (tightTpOffset cfg stddev newRegime).val.v := by
  unfold tightTpOffset
  split_ifs
  · exact pctOffset_nonneg hsd hcfg.takeProfitPct
  · exact mildOffset_nonneg hsd hcfg.takeProfitPct
  · exact stddevOffset_nonneg hsd hcfg.momentumTpMult

/-- The last clamp of every branch: a target `t` not below the entry, and a stop pulled down from `x`. -/
theorem adjusted_of_floor (hcfg : cfg.Sane) {oldRegime newRegime : ℤ} {pos' : Position} (x t : Money)
    (hpos' : pos' = { pos with
      takeProfitPrice := t
      stopLossPrice := x.min (({ pos with takeProfitPrice := t } : Position).highestSl cfg.minSlTpRatio) })
    (ht : pos.entryPrice.v ≤ t.v)
    (hgt : (Tightens oldRegime newRegime → 0 < (tightTpOffset cfg stddev newRegime).val.v ∨
      pos.entryPrice.v < (tpFeeFloor cfg pos.entryPrice).val.v) → pos.entryPrice.v < t.v)
    (hx : pos.entryPrice.v < t.v → (newRegime = regimeTrending ∨ newRegime = regimeTrendingDown →
      0 < (stddevOffset stddev cfg.momentumSlMult).val.v) → x.v < pos.entryPrice.v)
    (htight : Tightens oldRegime newRegime →
      ({ pos with takeProfitPrice := t } : Position).lowestSl.v ≤ x.v ∧
        (tpFeeFloor cfg pos.entryPrice).val.v ≤ t.v)
    (htrend : newRegime = regimeTrending → pos.stopLossPrice.v ≤ x.v)
    (hdown : newRegime = regimeTrendingDown → pos.stopLossPrice.v ≤ x.v ∧
      ((tpFeeFloor cfg pos.entryPrice).val.v ≤ pos.takeProfitPrice.v → t.v ≤ pos.takeProfitPrice.v)) :
    Adjusted cfg stddev oldRegime newRegime pos pos' := by
  have hhigh : pos'.highestSl cfg.minSlTpRatio =
      ({ pos with takeProfitPrice := t } : Position).highestSl cfg.minSlTpRatio := by rw [hpos']; rfl
  have hlow : pos'.lowestSl = ({ pos with takeProfitPrice := t } : Position).lowestSl := by rw [hpos']; rfl
  have htp : pos'.takeProfitPrice = t := by rw [hpos']
  have hsl : pos'.stopLossPrice.v = Min.min x.v (pos'.highestSl cfg.minSlTpRatio).v := by
    rw [hhigh, ← Money.min_v, hpos']
  have hle : (pos'.highestSl cfg.minSlTpRatio).v ≤ pos.entryPrice.v := by
    rw [hhigh]
    exact Position.highestSl_le hcfg.ratio ht
  have horder : pos'.lowestSl.v ≤ (pos'.highestSl cfg.minSlTpRatio).v := by
    rw [hhigh, hlow]
    exact Position.lowestSl_le_highestSl hcfg.ratio_le ht
  have hanti : t.v ≤ pos.takeProfitPrice.v →
      (pos.highestSl cfg.minSlTpRatio).v ≤ (pos'.highestSl cfg.minSlTpRatio).v := by
    intro h
    rw [hhigh]
    exact Position.highestSl_anti hcfg.ratio rfl h
  exact
    { frame := by rw [htp, hpos']
      target_ge := by rw [htp]; exact ht
      target_gt := fun h => by rw [htp]; exact hgt h
      stop_le := by rw [hsl]; omega
      stop_lt := by
        intro h hoffset
        rw [htp] at h
        have := hx h hoffset
        rw [hsl]
        omega
      share := by rw [hsl]; omega
      ceiling := by
        intro h
        have := (htight h).1
        rw [← hlow] at this
        rw [hsl]
        omega
      fees := fun h => by rw [htp]; exact (htight h).2
      into_trend := by
        intro h hkept
        have hstop := htrend h
        by_cases hlt : (pos'.highestSl cfg.minSlTpRatio).v < pos.stopLossPrice.v
        · refine Or.inr ⟨?_, Money.ext ?_⟩
          · rw [htp]
            by_contra hnot
            have := hanti (by omega)
            omega
          · rw [hsl]
            omega
        · refine Or.inl ?_
          rw [hsl]
          omega
      into_downtrend := by
        intro h hkept hfees
        obtain ⟨hstop, htarget⟩ := hdown h
        have := hanti (htarget hfees)
        rw [hsl]
        omega }

theorem not_tightens_trending (oldRegime : ℤ) : ¬Tightens oldRegime regimeTrending := by
  unfold Tightens regimeTrending regimeRanging regimeMildTrend regimeTrendingDown
  omega

/-- Into a trend, from a range or a mild trend. -/
theorem adjusted_of_trend (hcfg : cfg.Sane) {oldRegime newRegime : ℤ} (hnew : newRegime = regimeTrending)
    (hsl : pos.stopLossPrice.v < pos.entryPrice.v) (htp : pos.entryPrice.v < pos.takeProfitPrice.v) :
    Adjusted cfg stddev oldRegime newRegime pos
      (do let pos ← pos.raiseTp (stddevOffset stddev cfg.momentumTpMult)
          let pos ← pos.raiseSl (stddevOffset stddev cfg.momentumSlMult)
          pos.floorSl cfg.minSlTpRatio : Flagged 64 Position).val := by
  have hlower := pos.stopLossPrice.lower
  have hnot : ¬Tightens oldRegime newRegime := by
    rw [hnew]
    exact not_tightens_trending oldRegime
  refine adjusted_of_floor hcfg
    (pos.stopLossPrice.max (pos.entryPrice.sub (stddevOffset stddev cfg.momentumSlMult).val).val)
    (pos.takeProfitPrice.max (pos.entryPrice.add (stddevOffset stddev cfg.momentumTpMult).val).val) rfl ?_ ?_ ?_
    (fun h => absurd h hnot) ?_ ?_
  · rw [Money.max_v]
    omega
  · rw [Money.max_v]
    omega
  · intro _ hoffset
    have := Money.sub_lt pos.entryPrice (hoffset (.inl hnew)) (by omega)
    rw [Money.max_v]
    omega
  · intro _
    rw [Money.max_v]
    omega
  · intro h
    rw [hnew] at h
    cases h

/-- Into a mild trend, from a range. -/
theorem adjusted_of_mild (hcfg : cfg.Sane) {oldRegime newRegime : ℤ} (hold : oldRegime = regimeRanging)
    (hnew : newRegime = regimeMildTrend) (hsl : pos.stopLossPrice.v < pos.entryPrice.v)
    (htp : pos.entryPrice.v < pos.takeProfitPrice.v) :
    Adjusted cfg stddev oldRegime newRegime pos
      (do let pos ← pos.raiseTp (mildOffset stddev cfg.takeProfitPct)
          pos.floorSl cfg.minSlTpRatio : Flagged 64 Position).val := by
  have hnot : ¬Tightens oldRegime newRegime := by
    unfold Tightens
    rw [hold, hnew]
    decide
  refine adjusted_of_floor hcfg pos.stopLossPrice
    (pos.takeProfitPrice.max (pos.entryPrice.add (mildOffset stddev cfg.takeProfitPct).val).val) rfl ?_ ?_
    (fun _ _ => hsl) (fun h => absurd h hnot) (fun _ => le_rfl) ?_
  · rw [Money.max_v]
    omega
  · rw [Money.max_v]
    omega
  · intro h
    rw [hnew] at h
    cases h

/-- The target of a tightening transition, from its offset. -/
def tightTarget (cfg : AdjustCfg) (pos : Position) (offset : Money) : Money :=
  (pos.takeProfitPrice.min (pos.entryPrice.add offset).val).max (tpFeeFloor cfg pos.entryPrice).val

theorem tightTarget_ge {offset : Money} (hoffset : 0 ≤ offset.v)
    (htp : pos.entryPrice.v < pos.takeProfitPrice.v) : pos.entryPrice.v ≤ (tightTarget cfg pos offset).v := by
  have := Money.le_add pos.entryPrice hoffset
  rw [tightTarget, Money.max_v, Money.min_v]
  omega

theorem tightTarget_gt {offset : Money} (htp : pos.entryPrice.v < pos.takeProfitPrice.v)
    (h : 0 < offset.v ∨ pos.entryPrice.v < (tpFeeFloor cfg pos.entryPrice).val.v) :
    pos.entryPrice.v < (tightTarget cfg pos offset).v := by
  have hupper := pos.takeProfitPrice.upper
  rw [tightTarget, Money.max_v, Money.min_v]
  rcases h with h | h
  · have := Money.lt_add pos.entryPrice h (by omega)
    omega
  · omega

theorem tightTarget_fees (offset : Money) :
    (tpFeeFloor cfg pos.entryPrice).val.v ≤ (tightTarget cfg pos offset).v := by
  rw [tightTarget, Money.max_v]
  omega

theorem tightTarget_le {offset : Money} (h : (tpFeeFloor cfg pos.entryPrice).val.v ≤ pos.takeProfitPrice.v) :
    (tightTarget cfg pos offset).v ≤ pos.takeProfitPrice.v := by
  rw [tightTarget, Money.max_v, Money.min_v]
  omega

/-- A tightening transition: the stop before the two clamps is `x`. -/
theorem adjusted_of_tight (hcfg : cfg.Sane) (hsd : 0 ≤ stddev.v) {oldRegime newRegime : ℤ} {pos' : Position}
    (x : Money) (hnew : newRegime ≠ regimeTrending)
    (hpos' : pos' = { pos with
      takeProfitPrice := tightTarget cfg pos (tightTpOffset cfg stddev newRegime).val
      stopLossPrice := (x.max ({ pos with
          takeProfitPrice := tightTarget cfg pos (tightTpOffset cfg stddev newRegime).val } : Position).lowestSl).min
        (({ pos with takeProfitPrice := tightTarget cfg pos (tightTpOffset cfg stddev newRegime).val } :
          Position).highestSl cfg.minSlTpRatio) })
    (hsl : pos.stopLossPrice.v < pos.entryPrice.v) (htp : pos.entryPrice.v < pos.takeProfitPrice.v)
    (htight : Tightens oldRegime newRegime)
    (hx : (newRegime = regimeTrendingDown → 0 < (stddevOffset stddev cfg.momentumSlMult).val.v) →
      x.v < pos.entryPrice.v)
    (hdown : newRegime = regimeTrendingDown → pos.stopLossPrice.v ≤ x.v) :
    Adjusted cfg stddev oldRegime newRegime pos pos' := by
  have hlower := pos.stopLossPrice.lower
  refine adjusted_of_floor hcfg _ _ hpos' (tightTarget_ge (tightTpOffset_nonneg hcfg hsd _) htp)
    (fun h => tightTarget_gt htp (h htight)) ?_ (fun _ => ⟨?_, tightTarget_fees _⟩) (fun h => absurd h hnew)
    fun h => ⟨?_, tightTarget_le⟩
  · intro hgt hoffset
    have hlow := Position.lowestSl_lt
      { pos with takeProfitPrice := tightTarget cfg pos (tightTpOffset cfg stddev newRegime).val }
      (show -moneyMax < pos.entryPrice.v by omega) hgt
    have hbelow := hx fun h => hoffset (.inr h)
    rw [Money.max_v]
    exact max_lt hbelow hlow
  · rw [Money.max_v]
    exact le_max_right _ _
  · rw [Money.max_v]
    exact (hdown h).trans (le_max_left _ _)

/-- Into a range, from any trend. -/
theorem adjusted_of_range (hcfg : cfg.Sane) (hsd : 0 ≤ stddev.v) {oldRegime newRegime : ℤ}
    (hnew : newRegime = regimeRanging) (htight : Tightens oldRegime newRegime)
    (hsl : pos.stopLossPrice.v < pos.entryPrice.v) (htp : pos.entryPrice.v < pos.takeProfitPrice.v) :
    Adjusted cfg stddev oldRegime newRegime pos
      (do let pos ← pos.lowerTp cfg (pctOffset stddev cfg.takeProfitPct)
          let pos ← pos.lowerSl (pctOffset stddev cfg.stopLossPct)
          let pos ← pos.ceilSl
          pos.floorSl cfg.minSlTpRatio : Flagged 64 Position).val := by
  have hoffset : tightTpOffset cfg stddev newRegime = pctOffset stddev cfg.takeProfitPct := if_pos hnew
  refine adjusted_of_tight hcfg hsd
    (pos.stopLossPrice.min (pos.entryPrice.sub (pctOffset stddev cfg.stopLossPct).val).val) ?_ ?_ hsl htp htight
    (fun _ => ?_) fun h => ?_
  · rw [hnew]
    decide
  · rw [hoffset]
    rfl
  · rw [Money.min_v]
    omega
  · rw [hnew] at h
    cases h

/-- From a trend into a mild one. -/
theorem adjusted_of_weakening (hcfg : cfg.Sane) (hsd : 0 ≤ stddev.v) {oldRegime newRegime : ℤ}
    (hnew : newRegime = regimeMildTrend) (htight : Tightens oldRegime newRegime)
    (hsl : pos.stopLossPrice.v < pos.entryPrice.v) (htp : pos.entryPrice.v < pos.takeProfitPrice.v) :
    Adjusted cfg stddev oldRegime newRegime pos
      (do let pos ← pos.lowerTp cfg (mildOffset stddev cfg.takeProfitPct)
          let pos ← pos.ceilSl
          pos.floorSl cfg.minSlTpRatio : Flagged 64 Position).val := by
  have hoffset : tightTpOffset cfg stddev newRegime = mildOffset stddev cfg.takeProfitPct := by
    rw [tightTpOffset, hnew, if_neg (by decide), if_pos rfl]
  refine adjusted_of_tight hcfg hsd pos.stopLossPrice ?_ ?_ hsl htp htight (fun _ => hsl) fun _ => le_rfl
  · rw [hnew]
    decide
  · rw [hoffset]
    rfl

/-- Into a downtrend. -/
theorem adjusted_of_downtrend (hcfg : cfg.Sane) (hsd : 0 ≤ stddev.v) {oldRegime newRegime : ℤ}
    (hnew : newRegime = regimeTrendingDown) (htight : Tightens oldRegime newRegime)
    (hsl : pos.stopLossPrice.v < pos.entryPrice.v) (htp : pos.entryPrice.v < pos.takeProfitPrice.v) :
    Adjusted cfg stddev oldRegime newRegime pos
      (do let pos ← pos.lowerTp cfg (stddevOffset stddev cfg.momentumTpMult)
          let pos ← pos.raiseSl (stddevOffset stddev cfg.momentumSlMult)
          let pos ← pos.ceilSl
          pos.floorSl cfg.minSlTpRatio : Flagged 64 Position).val := by
  have hlower := pos.stopLossPrice.lower
  have hoffset : tightTpOffset cfg stddev newRegime = stddevOffset stddev cfg.momentumTpMult := by
    rw [tightTpOffset, hnew, if_neg (by decide), if_neg (by decide)]
  refine adjusted_of_tight hcfg hsd
    (pos.stopLossPrice.max (pos.entryPrice.sub (stddevOffset stddev cfg.momentumSlMult).val).val) ?_ ?_ hsl htp
    htight (fun h => ?_) fun _ => ?_
  · rw [hnew]
    decide
  · rw [hoffset]
    rfl
  · have := Money.sub_lt pos.entryPrice (h hnew) (by omega)
    rw [Money.max_v]
    omega
  · rw [Money.max_v]
    omega

/-- Every transition that moves a position leaves it adjusted. -/
theorem adjustPosition_adjusted (hcfg : cfg.Sane) (hsd : 0 ≤ stddev.v) {oldRegime newRegime : ℤ}
    (hmoves : Widens oldRegime newRegime ∨ Tightens oldRegime newRegime)
    (hsl : pos.stopLossPrice.v < pos.entryPrice.v) (htp : pos.entryPrice.v < pos.takeProfitPrice.v) :
    Adjusted cfg stddev oldRegime newRegime pos (adjustPosition cfg stddev oldRegime newRegime pos).val := by
  unfold adjustPosition
  split_ifs with h1 h2 h3 h4 h5 h6
  · exact adjusted_of_trend hcfg h1.2 hsl htp
  · exact adjusted_of_mild hcfg h2.1 h2.2 hsl htp
  · exact adjusted_of_trend hcfg h3.2 hsl htp
  · exact adjusted_of_range hcfg hsd h4.2 (.inl h4) hsl htp
  · exact adjusted_of_weakening hcfg hsd h5.2 (.inr (.inl h5)) hsl htp
  · exact adjusted_of_downtrend hcfg hsd h6 (.inr (.inr h6)) hsl htp
  · exfalso
    unfold Widens Tightens at hmoves
    tauto

/-- Any other transition leaves a position as it is. -/
theorem adjustPosition_of_none {oldRegime newRegime : ℤ} (hwidens : ¬Widens oldRegime newRegime)
    (htightens : ¬Tightens oldRegime newRegime) : adjustPosition cfg stddev oldRegime newRegime pos = pure pos := by
  unfold Widens at hwidens
  unfold Tightens at htightens
  unfold adjustPosition
  split_ifs <;> first | rfl | tauto

end Branches

/-- The distances of a position in units: the stop keeps the share of the target's up to half a unit, and
    after a tightening transition it is no further away. -/
structure Distances (cfg : AdjustCfg) (oldRegime newRegime : ℤ) (pos : Position) : Prop where
  share : 2 * (cfg.minSlTpRatio.v * (pos.takeProfitPrice.v - pos.entryPrice.v)) ≤
    (2 * (pos.entryPrice.v - pos.stopLossPrice.v) + 1) * moneyScale
  within : Tightens oldRegime newRegime →
    pos.entryPrice.v - pos.stopLossPrice.v ≤ pos.takeProfitPrice.v - pos.entryPrice.v

theorem Position.tpDist_v {pos : Position} (he : 0 ≤ pos.entryPrice.v)
    (hle : pos.entryPrice.v ≤ pos.takeProfitPrice.v) :
    pos.tpDist.v = pos.takeProfitPrice.v - pos.entryPrice.v :=
  Money.sub_v_of_nonneg (he.trans hle) he

/-- For an entry that is not negative the marks are at their distances. -/
theorem Adjusted.distances {cfg : AdjustCfg} (hcfg : cfg.Sane) {stddev : Fpn} {oldRegime newRegime : ℤ}
    {pos pos' : Position} (h : Adjusted cfg stddev oldRegime newRegime pos pos') (he : 0 ≤ pos.entryPrice.v) :
    Distances cfg oldRegime newRegime pos' := by
  have hentry : pos'.entryPrice = pos.entryPrice := by rw [h.frame]
  rw [← hentry] at he
  have hle : pos'.entryPrice.v ≤ pos'.takeProfitPrice.v := by rw [hentry]; exact h.target_ge
  have hdist := Position.tpDist_v he hle
  constructor
  · have hnear := Money.mul_share_near (Money.dist_nonneg hle) hcfg.ratio hcfg.ratio_le
    have hstop := h.share
    rw [Position.highestSl, Money.sub_v_of_nonneg he (Position.minSlDist_nonneg hcfg.ratio hle)] at hstop
    have hroom : (pos'.minSlDist cfg.minSlTpRatio).v ≤ pos'.entryPrice.v - pos'.stopLossPrice.v := by omega
    calc 2 * (cfg.minSlTpRatio.v * (pos'.takeProfitPrice.v - pos'.entryPrice.v))
      _ = 2 * (pos'.tpDist.v * cfg.minSlTpRatio.v) := by rw [hdist, mul_comm cfg.minSlTpRatio.v]
      _ ≤ (2 * (pos'.minSlDist cfg.minSlTpRatio).v + 1) * moneyScale := hnear
      _ ≤ (2 * (pos'.entryPrice.v - pos'.stopLossPrice.v) + 1) * moneyScale :=
        mul_le_mul_of_nonneg_right (by omega) (by decide)
  · intro htight
    have hlow := h.ceiling htight
    rw [Position.lowestSl, Money.sub_v_of_nonneg he (by omega)] at hlow
    omega

/-! ### The positions of a portfolio -/

/-- Every other slot stays as it is, and so does every slot if the price stood still or the transition
    moves nothing; a slot between its stop and its target is adjusted. -/
theorem regimeAdjustPositions_adjusted (mildTrendDefault : Strategy) {cfg : AdjustCfg} (hcfg : cfg.Sane)
    {priceStddev : Fpn} (hsd : 0 ≤ priceStddev.v) (oldRegime newRegime : ℤ) (entryStrategy : SlotIdx → ℕ)
    (portfolio : Portfolio) :
    (regimeAdjustPositions mildTrendDefault cfg priceStddev oldRegime newRegime entryStrategy portfolio).val.active =
        portfolio.active ∧
      ∀ slot,
        (enteredUnder portfolio entryStrategy (regimeToStrategy mildTrendDefault oldRegime) slot = false ∨
            priceStddev.isZero = true ∨ ¬(Widens oldRegime newRegime ∨ Tightens oldRegime newRegime) →
          (regimeAdjustPositions mildTrendDefault cfg priceStddev oldRegime newRegime entryStrategy
            portfolio).val.positions slot = portfolio.positions slot) ∧
        (enteredUnder portfolio entryStrategy (regimeToStrategy mildTrendDefault oldRegime) slot = true →
          priceStddev.isZero = false → Widens oldRegime newRegime ∨ Tightens oldRegime newRegime →
          (portfolio.positions slot).stopLossPrice.v < (portfolio.positions slot).entryPrice.v →
          (portfolio.positions slot).entryPrice.v < (portfolio.positions slot).takeProfitPrice.v →
          Adjusted cfg priceStddev oldRegime newRegime (portfolio.positions slot)
              ((regimeAdjustPositions mildTrendDefault cfg priceStddev oldRegime newRegime entryStrategy
                portfolio).val.positions slot) ∧
            (0 ≤ (portfolio.positions slot).entryPrice.v →
              Distances cfg oldRegime newRegime ((regimeAdjustPositions mildTrendDefault cfg priceStddev oldRegime
                newRegime entryStrategy portfolio).val.positions slot))) := by
  unfold regimeAdjustPositions
  cases hzero : priceStddev.isZero
  · rw [if_neg Bool.false_ne_true]
    refine ⟨foldlM_adjustSlot_active .., fun slot => ?_⟩
    rw [foldlM_adjustSlot_mem _ _ _ _ _ _ (List.nodup_finRange 16) portfolio (List.mem_finRange slot)]
    constructor
    · rintro (h | h | h)
      · rw [h, if_neg Bool.false_ne_true]
      · cases h
      · rw [adjustPosition_of_none (not_or.1 h).1 (not_or.1 h).2, Flagged.pure_val, ite_self]
    · intro h _ hmoves hsl htp
      rw [h, if_pos rfl]
      have hadjusted := adjustPosition_adjusted hcfg hsd hmoves hsl htp
      exact ⟨hadjusted, hadjusted.distances hcfg⟩
  · rw [if_pos rfl]
    exact ⟨rfl, fun slot => ⟨fun _ => rfl, fun _ h => by cases h⟩⟩

/-! A position bought at 100 with its target at 102 and its stop at 99. -/

def samplePos : Position :=
  { Position.empty with
    entryPrice := (Money.fromInt 100).val
    takeProfitPrice := (Money.fromInt 102).val
    stopLossPrice := (Money.fromInt 99).val }

def sampleBought : Portfolio where
  positions := fun _ => samplePos
  active := fun slot => slot == firstIdx

/-- The default multipliers and percentages, with these for the stop. -/
def sampleAdjust (slMult : Fpn) (ratio : Money) : AdjustCfg where
  takeProfitPct := (Money.saturate 1500000).val
  stopLossPct := (Money.saturate 1000000).val
  feeRate := (Money.saturate 100000).val
  feeFloorMult := (Money.fromInt 3).val
  minSlTpRatio := ratio
  momentumTpMult := Fpn.fromInt 2
  momentumSlMult := slMult

theorem sampleAdjust_sane : (sampleAdjust (Fpn.fromInt 1) (Money.saturate 50000000).val).Sane := by
  constructor <;> decide +kernel

theorem regimeAdjustPositions_held :
    Adjusted (sampleAdjust (Fpn.fromInt 1) (Money.saturate 50000000).val) (Fpn.fromInt 5) regimeTrending
        regimeRanging (sampleBought.positions firstIdx)
        ((regimeAdjustPositions .meanReversion (sampleAdjust (Fpn.fromInt 1) (Money.saturate 50000000).val)
          (Fpn.fromInt 5) regimeTrending regimeRanging (fun _ => 1) sampleBought).val.positions firstIdx) ∧
      (0 ≤ (sampleBought.positions firstIdx).entryPrice.v →
        Distances (sampleAdjust (Fpn.fromInt 1) (Money.saturate 50000000).val) regimeTrending regimeRanging
          ((regimeAdjustPositions .meanReversion (sampleAdjust (Fpn.fromInt 1) (Money.saturate 50000000).val)
            (Fpn.fromInt 5) regimeTrending regimeRanging (fun _ => 1) sampleBought).val.positions firstIdx)) :=
  ((regimeAdjustPositions_adjusted .meanReversion sampleAdjust_sane
    (show 0 ≤ (Fpn.fromInt 5).v by decide +kernel) regimeTrending regimeRanging (fun _ => 1) sampleBought).2 firstIdx).2 (by decide +kernel)
    (by decide +kernel) (by unfold Widens Tightens; decide) (by decide +kernel) (by decide +kernel)

/-- Into a trend the stop goes from 99 down to 95, though it kept the share of its target, was no further
    away than that and the target covered the fees; and without a multiplier and a ratio it goes up to the
    entry. -/
theorem regimeAdjustPositions_lowered :
    (samplePos.stopLossPrice.v ≤ (samplePos.highestSl (Money.saturate 50000000).val).v ∧
        samplePos.lowestSl.v ≤ samplePos.stopLossPrice.v ∧
        (tpFeeFloor (sampleAdjust (Fpn.fromInt 1) (Money.saturate 50000000).val) samplePos.entryPrice).val.v ≤
          samplePos.takeProfitPrice.v ∧
        ((regimeAdjustPositions .meanReversion (sampleAdjust (Fpn.fromInt 1) (Money.saturate 50000000).val)
          (Fpn.fromInt 5) regimeRanging regimeTrending (fun _ => 0) sampleBought).val.positions
            firstIdx).stopLossPrice = (Money.fromInt 95).val ∧
        (Money.fromInt 95).val.v < samplePos.stopLossPrice.v) ∧
      ((regimeAdjustPositions .meanReversion (sampleAdjust Fpn.zero Money.zero) (Fpn.fromInt 5) regimeRanging
        regimeTrending (fun _ => 0) sampleBought).val.positions firstIdx).stopLossPrice = samplePos.entryPrice := by
  decide +kernel

end FoxTrader
