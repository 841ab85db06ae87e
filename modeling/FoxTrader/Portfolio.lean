import Mathlib.Logic.Function.Basic
import FoxTrader.Money

/-! # Portfolio slots and the arithmetic of their legs

    A portfolio is sixteen slots, each a position and a bit that says it is held. Orders fill in
    legs: a buy leg opens its slot or is averaged into it, a sell leg takes its quantity out and
    with it a share of the entry fee, the last leg taking exactly what is left. The live handlers
    and the replay fold both go through these operations. -/

namespace FoxTrader

open Lib Function

/-! ### Index spaces -/

/-- A portfolio slot, below `MAX_PORTFOLIO_POSITIONS`. -/
abbrev SlotIdx := Fin 16

/-- An execution node, below `MAX_EXECUTION_NODES`. -/
abbrev NodeIdx := Fin 16

/-- The first slot, and the first node. -/
def firstIdx : Fin 16 := 0

/-- The index after it. -/
def nextIdx : Fin 16 := 1

/-- `BITMAP_SLOT_NODE`: the node that owns a slot; with partial exits on a node owns two. -/
def slotNode (partialOn : Bool) (slot : SlotIdx) : NodeIdx :=
  ⟨slot.val >>> partialOn.toNat, lt_of_le_of_lt (Nat.shiftRight_le ..) slot.isLt⟩

/-! ### Positions -/

structure Position where
  takeProfitPrice : Money
  stopLossPrice : Money
  quantity : Money
  entryPrice : Money
  entryFee : Money
  originalTp : Money
  originalSl : Money
  entryTimestampUs : Nat
  pairIndex : Int

/-- `Position_Reset`. -/
def Position.empty : Position :=
  { takeProfitPrice := .zero, stopLossPrice := .zero, quantity := .zero, entryPrice := .zero, entryFee := .zero
    originalTp := .zero, originalSl := .zero, entryTimestampUs := 0, pairIndex := -1 }

structure Portfolio where
  positions : SlotIdx → Position
  active : SlotIdx → Bool

structure PositionEntryArgs where
  entryPrice : Money
  quantity : Money
  takeProfitPrice : Money
  stopLossPrice : Money
  entryFee : Money
  entryTimestampUs : Nat := 0
  pairIndex : Int := -1

/-- `Money_FillGross`. -/
def Money.fillGross (entryPrice exitPrice quantity : Money) : Flagged 64 Money := do
  (← exitPrice.sub entryPrice).mul quantity

/-- The share of the remaining entry fee a leg takes: all of it on the last leg. -/
def entryFeeShare (entryFeeRemaining qLeg posQty : Money) : Flagged 64 Money :=
  if qLeg.eq posQty then pure entryFeeRemaining else do (← entryFeeRemaining.mul qLeg).div posQty

/-- `Portfolio_ConsumeEntryFeeLeg`: the leg's share of the entry fee, and what remains. -/
def consumeEntryFeeLeg (entryFeeRemaining qLeg posQty : Money) : Flagged 64 (Money × Money) := do
  let leg ← entryFeeShare entryFeeRemaining qLeg posQty
  let rest ← entryFeeRemaining.sub leg
  return (leg, rest)

/-- What a sell takes: its quantity, at most what is held. -/
def clampQty (qty held : Money) : Money := if qty.gt held then held else qty

namespace Portfolio

def init : Portfolio := { positions := fun _ => .empty, active := fun _ => false }

/-- `Portfolio_OpenSlot`; a zero timestamp stands for the wall clock. -/
def openSlot (p : Portfolio) (slot : SlotIdx) (args : PositionEntryArgs) (nowUs : Nat) : Portfolio where
  positions := update p.positions slot
    { takeProfitPrice := args.takeProfitPrice, stopLossPrice := args.stopLossPrice
      quantity := args.quantity, entryPrice := args.entryPrice, entryFee := args.entryFee
      originalTp := args.takeProfitPrice, originalSl := args.stopLossPrice
      entryTimestampUs := if args.entryTimestampUs ≠ 0 then args.entryTimestampUs else nowUs
      pairIndex := args.pairIndex }
  active := update p.active slot true

/-- `Portfolio_CloseSlotLeg`: the leg's gross; the slot is given up exactly when nothing is left. -/
def closeSlotLeg (p : Portfolio) (slot : SlotIdx) (exitPrice qLeg : Money) :
    Flagged 64 (Money × Portfolio) := do
  let pos := p.positions slot
  let gross ← Money.fillGross pos.entryPrice exitPrice qLeg
  let quantity ← pos.quantity.sub qLeg
  return (gross,
    { positions := update p.positions slot { pos with quantity }
      active := if quantity.isZero then update p.active slot false else p.active })

/-- `Portfolio_AccumulateSlotLeg`: quantity and fee add, the entry price is their weighted mean. -/
def accumulateSlotLeg (p : Portfolio) (slot : SlotIdx) (fillPrice qLeg feeLeg : Money) :
    Flagged 64 Portfolio := do
  let pos := p.positions slot
  let oldNotional ← pos.entryPrice.mul pos.quantity
  let legNotional ← fillPrice.mul qLeg
  let quantity ← pos.quantity.add qLeg
  let entryPrice ← (← oldNotional.add legNotional).div quantity
  let entryFee ← pos.entryFee.add feeLeg
  return { p with positions := update p.positions slot { pos with quantity, entryPrice, entryFee } }

/-- Write the entry fee a leg left behind. -/
def setEntryFee (p : Portfolio) (slot : SlotIdx) (entryFee : Money) : Portfolio :=
  { p with positions := update p.positions slot { p.positions slot with entryFee } }

/-- What a sell leg takes: its share of the entry fee, its gross, and the portfolio it leaves. -/
structure ClosedLeg where
  entryFee : Money
  gross : Money
  portfolio : Portfolio

/-- `Portfolio_ConsumeEntryFeeLeg` and `Portfolio_CloseSlotLeg`, the two calls of every sell leg. -/
def takeLeg (p : Portfolio) (slot : SlotIdx) (exitPrice qLeg : Money) : Flagged 64 ClosedLeg := do
  let entryFee ← consumeEntryFeeLeg (p.positions slot).entryFee qLeg (p.positions slot).quantity
  let closed ← (p.setEntryFee slot entryFee.2).closeSlotLeg slot exitPrice qLeg
  return { entryFee := entryFee.1, gross := closed.1, portfolio := closed.2 }

end Portfolio

/-- Nothing is left of a quantity exactly when the leg took all of it. -/
theorem Money.sub_isZero_iff {a b : Money} : (a.sub b).val.isZero = true ↔ a = b := by
  constructor
  · intro h
    rw [Money.isZero_iff] at h
    unfold Money.sub Money.add Money.saturate at h
    split at h
    · have hv := congrArg Money.v h
      exact Money.ext (by simp only [Money.neg, Money.zero_v] at hv; omega)
    · have hv := congrArg Money.v h
      unfold Money.ceiling at hv
      split at hv <;> simp [Money.zero, moneyMax] at hv
  · rintro rfl
    rw [Money.sub_self]
    rfl

/-- Whatever share a leg takes, share and remainder make up the fee. -/
theorem consumeEntryFeeLeg_v {fee qLeg posQty : Money} (h : (consumeEntryFeeLeg fee qLeg posQty).Clean) :
    (consumeEntryFeeLeg fee qLeg posQty).val.1.v + (consumeEntryFeeLeg fee qLeg posQty).val.2.v = fee.v := by
  simp only [consumeEntryFeeLeg, Flagged.clean_bind, Flagged.clean_pure, and_true] at h
  simp only [consumeEntryFeeLeg, Flagged.bind_val, Flagged.pure_val, Money.sub_v h.2]
  omega

/-- The last leg takes the whole fee. -/
theorem consumeEntryFeeLeg_flat (fee qty : Money) : consumeEntryFeeLeg fee qty qty = pure (fee, .zero) := by
  have hshare : entryFeeShare fee qty qty = pure fee := if_pos (Money.eq_iff.2 rfl)
  rw [consumeEntryFeeLeg, hshare, pure_bind, Money.sub_self, pure_bind]

/-! ### What a leg leaves behind -/

namespace Portfolio

variable {p : Portfolio} {slot : SlotIdx} {price qLeg : Money}

/-- A sell leg leaves the other slots alone. -/
theorem takeLeg_of_ne {i : SlotIdx} (hne : i ≠ slot) (price qLeg : Money) :
    (p.takeLeg slot price qLeg).val.portfolio.active i = p.active i ∧
      (p.takeLeg slot price qLeg).val.portfolio.positions i = p.positions i := by
  simp only [takeLeg, closeSlotLeg, setEntryFee, Flagged.bind_val, Flagged.pure_val]
  refine ⟨?_, by rw [update_of_ne hne, update_of_ne hne]⟩
  split
  · exact update_of_ne hne ..
  · rfl

theorem takeLeg_quantity (p : Portfolio) (slot : SlotIdx) (price qLeg : Money) :
    ((p.takeLeg slot price qLeg).val.portfolio.positions slot).quantity =
      ((p.positions slot).quantity.sub qLeg).val := by
  simp only [takeLeg, closeSlotLeg, setEntryFee, Flagged.bind_val, Flagged.pure_val, update_self]

/-- The slot is given up exactly when nothing is left in it. -/
theorem takeLeg_active (hactive : p.active slot = true) (price qLeg : Money) :
    (p.takeLeg slot price qLeg).val.portfolio.active slot = !((p.positions slot).quantity.sub qLeg).val.isZero := by
  simp only [takeLeg, closeSlotLeg, setEntryFee, Flagged.bind_val, Flagged.pure_val, update_self]
  split
  next hflat => rw [update_self, hflat, Bool.not_true]
  next hheld => rw [hactive, eq_false_of_ne_true hheld, Bool.not_false]

theorem takeLeg_entryFee (p : Portfolio) (slot : SlotIdx) (price qLeg : Money) :
    ((p.takeLeg slot price qLeg).val.portfolio.positions slot).entryFee =
      (consumeEntryFeeLeg (p.positions slot).entryFee qLeg (p.positions slot).quantity).val.2 := by
  simp only [takeLeg, closeSlotLeg, setEntryFee, Flagged.bind_val, Flagged.pure_val, update_self]

end Portfolio

end FoxTrader
