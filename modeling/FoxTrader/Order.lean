import FoxTrader.MoneyDouble
import FoxTrader.Portfolio
import FoxTrader.OrderEventLog

/-! # Orders, order ids and the commands about them

    An order id packs three lanes: the order-table slot in bits 63..60, the owning node in bits
    59..56 and a counter below. The lanes are disjoint, so packing is a sum and unpacking a
    remainder: whatever the counter, an id names its slot and node, and two ids with different
    counters are different. Results come back from the venue as doubles and C strings. -/

namespace FoxTrader

/-! ### Orders -/

inductive OrderState where
  | pending | submitted | acknowledged | partialFill | filled | rejected | canceled | timeout | unknown
  deriving DecidableEq

/-- `Order_IsTerminal`. -/
def OrderState.isTerminal : OrderState → Bool
  | .filled | .rejected | .canceled | .timeout => true
  | _ => false

/-- The order takes a position out: a sell of either kind. -/
def OrderType.isSell : OrderType → Bool
  | .marketSell | .limitSell => true
  | .marketBuy | .limitBuy => false

/-- What an order binds of its node's configuration. -/
structure PerNodeCfg where
  feeRateMaker : Money
  feeRateTaker : Money
  slippagePct : Money
  deriving DecidableEq

/-- `NULL_PER_NODE_CFG_STUB`. -/
def PerNodeCfg.nullStub : PerNodeCfg := { feeRateMaker := .zero, feeRateTaker := .zero, slippagePct := .zero }

/-- Values bound when the order is submitted and used when its fills arrive. -/
structure OrderPreResolved where
  feeRate : Money
  slippagePct : Money
  tpPct : Money
  deriving DecidableEq

structure Order where
  id : Nat
  type : OrderType
  state : OrderState
  isMaker : Bool
  leg : Nat
  staleWarned : Bool
  portfolioSlot : SlotIdx
  strategyId : Nat
  requestedQty : Money
  filledQty : Money
  avgFillPrice : Money
  intendedTp : Money
  intendedSl : Money
  eventPrice : Money
  submittedAtUs : Nat
  preResolved : OrderPreResolved
  exchangeId : String

namespace Order

/-- A zeroed record of the order table. -/
def blank : Order :=
  { id := 0, type := .marketBuy, state := .pending, isMaker := false, leg := 0, staleWarned := false
    portfolioSlot := firstIdx, strategyId := 0, requestedQty := .zero, filledQty := .zero, avgFillPrice := .zero
    intendedTp := .zero, intendedSl := .zero, eventPrice := .zero, submittedAtUs := 0
    preResolved := ⟨.zero, .zero, .zero⟩, exchangeId := "" }

/-- `Order_Init`. The record's old `tpPct` stays. -/
def init (o : Order) (id : Nat) (portfolioSlot : SlotIdx) (type : OrderType) : Order :=
  { blank with id, type, portfolioSlot, strategyId := 0xFF, preResolved := ⟨.zero, .zero, o.preResolved.tpPct⟩ }

/-- `Order_BindPreResolved`. -/
def bindPreResolved (o : Order) (cfg : PerNodeCfg) : Order :=
  { o with
    preResolved :=
      { o.preResolved with
        feeRate := if o.isMaker then cfg.feeRateMaker else cfg.feeRateTaker
        slippagePct := cfg.slippagePct } }

end Order

/-! ### The lanes of an order id -/

/-- `ORDER_ID_COUNTER_MASK + 1`. -/
abbrev orderIdCounterSize : Nat := 2 ^ 56

/-- A slot of the order table, below `MAX_INFLIGHT_ORDERS`. -/
abbrev OrderSlot := Fin 16

def encodeOrderId (slot : OrderSlot) (node : NodeIdx) (counter : Nat) : Nat :=
  counter % orderIdCounterSize + node.val * 2 ^ 56 + slot.val * 2 ^ 60

/-- `OMS_OrderIdSlot`. -/
def orderIdSlot (id : Nat) : OrderSlot := ⟨id / 2 ^ 60 % 16, Nat.mod_lt _ (by decide)⟩

/-- `OMS_OrderIdNode`. -/
def orderIdNode (id : Nat) : NodeIdx := ⟨id / 2 ^ 56 % 16, Nat.mod_lt _ (by decide)⟩

@[simp] theorem orderIdSlot_encode (slot : OrderSlot) (node : NodeIdx) (counter : Nat) :
    orderIdSlot (encodeOrderId slot node counter) = slot := by
  have hs := slot.isLt
  have hn := node.isLt
  exact Fin.ext (by simp only [orderIdSlot, encodeOrderId, orderIdCounterSize]; omega)

@[simp] theorem orderIdNode_encode (slot : OrderSlot) (node : NodeIdx) (counter : Nat) :
    orderIdNode (encodeOrderId slot node counter) = node := by
  have hs := slot.isLt
  have hn := node.isLt
  exact Fin.ext (by simp only [orderIdNode, encodeOrderId, orderIdCounterSize]; omega)

/-- Zero, the id of no order, decodes to slot 0. -/
@[simp] theorem orderIdSlot_zero : orderIdSlot 0 = 0 := rfl

theorem encode_mod (slot : OrderSlot) (node : NodeIdx) (counter : Nat) :
    encodeOrderId slot node counter % orderIdCounterSize = counter % orderIdCounterSize := by
  simp only [encodeOrderId, orderIdCounterSize]
  omega

/-! ### Commands -/

structure OrderResult where
  success : Bool
  exchangeId : String
  avgFillPrice : Float
  fillQty : Float
  errorMessage : String
  isMaker : Bool
  orderComplete : Bool
  venueTerminal : Bool
  commission : Float
  commissionAsset : String

inductive CommandType where
  | fillResult | wsFill | reconcile
  deriving DecidableEq

structure Command where
  type : CommandType
  orderId : Nat
  result : OrderResult

/-- The payload of the submit queues and the argument of `Submit`. `PushSubmit`'s range guard is
    the type of its slot. -/
structure SubmitCommand where
  portfolioSlot : SlotIdx
  orderType : OrderType
  qty : Money
  leg : Nat
  nodeCfg : Option PerNodeCfg
  strategyId : Nat := 0xFF
  intendedTp : Money := .zero
  intendedSl : Money := .zero
  eventPrice : Money := .zero
  tpPct : Money := .zero

end FoxTrader
