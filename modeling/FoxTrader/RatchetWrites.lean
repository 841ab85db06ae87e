import FoxTrader.FixedPoint
import FoxTrader.GateParameters

/-! # The writers of the ratchets

    A node's pending pack carries two ratchets, which raise the stop and the target of the open trade.
    Every writer goes through one of two writes: a proposal is taken if it is above what is there, and
    the pack is then marked to be pushed. `Strategy_WriteRatchetSL` caps its proposal at the fee floor
    first. -/

namespace FoxTrader

open Lib

/-- What the slow path keeps of a node between its cycles. -/
structure SlowNode where
  pendingParams : GateParameters
  dirty : Bool
  slCooldownRemaining : Nat
  usAtLastRebuild : Nat
  priceAtLastRebuild : Fpn

/-- The taker rate the fee floors go by: the node's own, or its flat one. -/
def takerRate (feeRateTaker feeRate : Money) : Money := if !feeRateTaker.isZero then feeRateTaker else feeRate

/-- The fee floor: `entry × (1 - 3 × fee_taker)`. -/
def slFloor (entryPrice feeTaker : Money) : Flagged 64 Money := do
  let floorPct ← feeTaker.mul (Money.fromInt 3).val
  let floorMult ← (Money.fromInt 1).val.sub floorPct
  entryPrice.mul floorMult

namespace SlowNode

/-- Take `sl` if it is above the ratchet, and say whether it was. -/
def advanceSl (node : SlowNode) (sl : Money) : SlowNode × Bool :=
  if sl.gt node.pendingParams.ratchetSl then
    ({ node with pendingParams := { node.pendingParams with ratchetSl := sl }, dirty := true }, true)
  else (node, false)

def advanceTp (node : SlowNode) (tp : Money) : SlowNode × Bool :=
  if tp.gt node.pendingParams.ratchetTp then
    ({ node with pendingParams := { node.pendingParams with ratchetTp := tp }, dirty := true }, true)
  else (node, false)

/-- The proposal or the fee floor, whichever is lower. -/
def cappedSl (proposedSl entryPrice feeTaker : Money) : Money :=
  if proposedSl.lt (slFloor entryPrice feeTaker).val then proposedSl else (slFloor entryPrice feeTaker).val

/-- `Strategy_WriteRatchetSL`. -/
def writeRatchetSL (node : SlowNode) (proposedSl entryPrice feeTaker : Money) : SlowNode × Bool :=
  if entryPrice.isZero then (node, false) else node.advanceSl (cappedSl proposedSl entryPrice feeTaker)

/-- `Strategy_WriteRatchetTP`. -/
def writeRatchetTP (node : SlowNode) (proposedTp : Money) : SlowNode × Bool :=
  if proposedTp.isZero then (node, false) else node.advanceTp proposedTp

variable {node : SlowNode} {sl tp proposed entry feeTaker : Money}

/-- An accepted stop is the capped proposal, and above the ratchet it replaces. -/
theorem writeRatchetSL_accepted (h : (node.writeRatchetSL proposed entry feeTaker).2 = true) :
    (node.writeRatchetSL proposed entry feeTaker).1.pendingParams.ratchetSl = cappedSl proposed entry feeTaker ∧
      node.pendingParams.ratchetSl.v < (cappedSl proposed entry feeTaker).v := by
  unfold writeRatchetSL advanceSl at h ⊢
  split
  next hzero =>
    rw [if_pos hzero] at h
    exact absurd h Bool.false_ne_true
  next hentry =>
    rw [if_neg hentry] at h
    split
    next habove => exact ⟨rfl, Money.gt_iff.1 habove⟩
    next hbelow =>
      rw [if_neg hbelow] at h
      exact absurd h Bool.false_ne_true

theorem cappedSl_le : (cappedSl proposed entry feeTaker).v ≤ (slFloor entry feeTaker).val.v := by
  unfold cappedSl Money.lt
  split
  next hlt => exact (of_decide_eq_true hlt).le
  next => exact le_rfl

end SlowNode

end FoxTrader
