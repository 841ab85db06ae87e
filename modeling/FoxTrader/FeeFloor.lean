import FoxTrader.LegRounding
import FoxTrader.RatchetWrites

/-! # What closing at the fee floor earns

    The fee floor of a stop is meant to leave a trade that is closed at it enough to pay its fees. It is
    `entry × (1 - 3 × fee)`, which is below the entry: the trade loses on the price and pays both fees on
    top. All that saves it is rounding, where the loss and the fees are each worth half a payload or
    less. -/

namespace FoxTrader

open Lib Function

namespace Money

variable {a b : Money}

theorem saturate_nonneg_iff {s : ℤ} : 0 ≤ (saturate s).val.v ↔ 0 ≤ s := by
  have hpos : 0 < moneyMax := by decide
  have := saturate_cases s
  omega

theorem saturate_eq_zero_iff {s : ℤ} : (saturate s).val.v = 0 ↔ s = 0 := by
  have hpos : 0 < moneyMax := by decide
  have := saturate_cases s
  omega

/-- A product rounds to nothing exactly when it is worth half a payload at most. -/
theorem mul_eq_zero_iff :
    (a.mul b).val.v = 0 ↔ -(moneyScale : ℤ) ≤ 2 * (a.v * b.v) ∧ 2 * (a.v * b.v) ≤ moneyScale := by
  rw [mul_eq, saturate_eq_zero_iff, halfEven_eq_zero_iff (by decide)]

theorem mul_mono {a' : Money} (hb : 0 ≤ b.v) (h : a.v ≤ a'.v) : (a.mul b).val.v ≤ (a'.mul b).val.v := by
  rw [mul_eq, mul_eq]
  exact saturate_mono (halfEven_mono (by decide) (Int.mul_le_mul_of_nonneg_right h hb))

theorem mul_nonpos (ha : a.v ≤ 0) (hb : 0 ≤ b.v) : (a.mul b).val.v ≤ 0 := by
  rw [mul_eq]
  exact saturate_le_of_le (k := .zero) (halfEven_nonpos (Int.mul_nonpos_of_nonpos_of_nonneg ha hb) (by decide))

/-- The difference of what is not negative does not saturate. -/
theorem sub_v_of_nonneg (ha : 0 ≤ a.v) (hb : 0 ≤ b.v) : (a.sub b).val.v = a.v - b.v := by
  have hupper := a.upper
  have hupper' := b.upper
  refine sub_v (saturate_clean_iff.2 ?_)
  simp only [neg]
  omega

end Money

/-! ### The floor -/

/-- Below a rate of a third the floor is a share of the entry. -/
theorem slFloor_v {entry rate : Money} (hrate : 0 ≤ rate.v) (hthird : 3 * rate.v < moneyScale) :
    (slFloor entry rate).val = (Money.saturate (halfEven (entry.v * (moneyScale - 3 * rate.v)) moneyScale)).val := by
  have hthree : (rate.mul (Money.fromInt 3).val).val.v = 3 * rate.v := by
    have hv : (Money.fromInt 3).val.v = 3 * moneyScale := by decide
    have hclean : (Money.saturate (3 * rate.v)).Clean := by
      rw [Money.saturate_clean_iff]
      unfold moneyMax moneyScale at *
      omega
    have hexpand : rate.v * (3 * (moneyScale : ℤ)) = 3 * rate.v * moneyScale := by ring
    rw [Money.mul_eq, hv, hexpand, halfEven_mul (by decide), Money.saturate_v hclean]
  have hone : ((Money.fromInt 1).val.sub (rate.mul (Money.fromInt 3).val).val).val.v = moneyScale - 3 * rate.v := by
    have hv : (Money.fromInt 1).val.v = moneyScale := by decide
    rw [Money.sub_v_of_nonneg (by rw [hv]; decide) (by rw [hthree]; omega), hthree, hv]
  simp only [slFloor, Flagged.bind_val]
  rw [Money.mul_eq, hone]

/-- An entry the floor of which is above nothing is above nothing itself, and above its floor. -/
theorem slFloor_le {entry rate : Money} (hrate : 0 ≤ rate.v) (hthird : 3 * rate.v < moneyScale)
    (hfloor : 0 < (slFloor entry rate).val.v) : 0 < entry.v ∧ (slFloor entry rate).val.v ≤ entry.v := by
  have hmult : 0 ≤ (moneyScale : ℤ) - 3 * rate.v := by omega
  rw [slFloor_v hrate hthird] at hfloor ⊢
  have hentry : 0 < entry.v := by
    by_contra hneg
    have hle :=
      halfEven_nonpos (d := moneyScale) (Int.mul_nonpos_of_nonpos_of_nonneg (Int.not_lt.1 hneg) hmult)
        (by decide)
    exact absurd (Money.saturate_le_of_le (k := .zero) hle) (not_le.2 hfloor)
  refine ⟨hentry, Money.saturate_le_of_le ?_⟩
  calc halfEven (entry.v * (moneyScale - 3 * rate.v)) moneyScale
      ≤ halfEven (entry.v * moneyScale) moneyScale :=
        halfEven_mono (by decide) (Int.mul_le_mul_of_nonneg_left (by omega) hentry.le)
    _ = entry.v := halfEven_mul (by decide) _

/-! ### The net -/

namespace Books

variable {c : OmsConfig} {b : Books} {o : Order} {nowUs : Nat} {price qty fee : Money} {slot : SlotIdx}

/-- The net a sell leg of `qLeg` books: its gross less its share of the entry fee and its own fee. -/
def sellNet (b : Books) (slot : SlotIdx) (price qLeg fee : Money) : Flagged 64 Money := do
  let leg ← b.portfolio.takeLeg slot price qLeg
  let totalFee ← leg.entryFee.add fee
  leg.gross.sub totalFee

/-- It is what the sell handler emits, to the ledger and to the trade log. -/
theorem handleSellFill_net (hheld : b.portfolio.active o.portfolioSlot = true)
    (hsome : (b.sellQty o.portfolioSlot qty).isZero = false) :
    ∃ fe : FillEvent, ∃ rec : EmitRecord, (b.handleSellFill c o price qty fee).val.composer =
        ((b.composer.fillEmit c fe).val).emitRecord c rec ∧
      fe.net = (b.sellNet o.portfolioSlot price (b.sellQty o.portfolioSlot qty) fee).val ∧ rec.net = fe.net := by
  unfold handleSellFill
  simp only [hheld, hsome, Bool.not_true, Bool.false_eq_true, if_false]
  exact ⟨_, _, rfl, rfl, rfl⟩

/-- The books after a buy leg at the computed fee. -/
def bought (c : OmsConfig) (nowUs : Nat) (b : Books) (o : Order) (price qty : Money) : Books :=
  (b.handleBuyFill c nowUs o price qty (computedFee o price qty).val).val

/-- What a buy leg leaves in a slot that was flat. -/
theorem bought_slot (c : OmsConfig) (nowUs : Nat) (b : Books) (o : Order) (price qty : Money)
    (hflat : b.portfolio.active o.portfolioSlot = false) :
    (b.bought c nowUs o price qty).portfolio.active o.portfolioSlot = true ∧
      ((b.bought c nowUs o price qty).portfolio.positions o.portfolioSlot).entryPrice = price ∧
      ((b.bought c nowUs o price qty).portfolio.positions o.portfolioSlot).quantity = qty ∧
      ((b.bought c nowUs o price qty).portfolio.positions o.portfolioSlot).entryFee =
        (computedFee o price qty).val := by
  simp only [bought, handleBuyFill, openOrAccumulate, hflat, Bool.false_eq_true, if_false, Flagged.bind_val,
    Flagged.pure_val, Portfolio.openSlot, update_self]
  exact ⟨trivial, trivial, trivial, trivial⟩

/-- The net of a leg that takes all there is. -/
theorem sellNet_flat (hqty : (b.portfolio.positions slot).quantity = qty) :
    (b.sellNet slot price qty fee).val =
      ((Money.fillGross (b.portfolio.positions slot).entryPrice price qty).val.sub
        ((b.portfolio.positions slot).entryFee.add fee).val).val := by
  simp only [sellNet, Portfolio.takeLeg, Portfolio.closeSlotLeg, Portfolio.setEntryFee, Flagged.bind_val,
    Flagged.pure_val, update_self, hqty, consumeEntryFeeLeg_flat]

end Books

/-- The loss of `qty` at `stop`, and the fee of the entry, are each half a payload at most. -/
def Dust (entry qty rate stop : Money) : Prop :=
  2 * ((entry.v - stop.v) * qty.v) ≤ moneyScale ∧ 2 * ((entry.mul qty).val.v * rate.v) ≤ moneyScale

instance (entry qty rate stop : Money) : Decidable (Dust entry qty rate stop) := inferInstanceAs (Decidable (_ ∧ _))

theorem computedFee_val {o : Order} {price qty : Money} :
    (Books.computedFee o price qty).val = ((price.mul qty).val.mul o.preResolved.feeRate).val := by
  rw [Books.computedFee, Flagged.bind_val]

theorem fillGross_val (entry stop qty : Money) :
    (Money.fillGross entry stop qty).val = ((stop.sub entry).val.mul qty).val := by
  rw [Money.fillGross, Flagged.bind_val]

/-- A sale below the entry is no loss exactly when there is next to nothing to lose. -/
theorem net_nonneg_iff {entry stop qty rate : Money} (hstop : 0 ≤ stop.v) (hle : stop.v ≤ entry.v) (hqty : 0 < qty.v)
    (hrate : 0 < rate.v) :
    0 ≤ ((Money.fillGross entry stop qty).val.sub
        (((entry.mul qty).val.mul rate).val.add ((stop.mul qty).val.mul rate).val).val).val.v ↔
          Dust entry qty rate stop := by
  have hentry : 0 ≤ entry.v := hstop.trans hle
  have hdiff : (stop.sub entry).val.v = stop.v - entry.v := Money.sub_v_of_nonneg hstop hentry
  have hnotional : 0 ≤ (entry.mul qty).val.v := Money.mul_nonneg hentry hqty.le
  have hproduct : 0 ≤ (entry.mul qty).val.v * rate.v := Int.mul_nonneg hnotional hrate.le
  -- the gross is a loss, and each fee is a cost
  have hgross : (Money.fillGross entry stop qty).val.v ≤ 0 := by
    rw [fillGross_val]
    exact Money.mul_nonpos (by omega) hqty.le
  have hentryFee : 0 ≤ ((entry.mul qty).val.mul rate).val.v := Money.mul_nonneg hnotional hrate.le
  have hexitFee : 0 ≤ ((stop.mul qty).val.mul rate).val.v :=
    Money.mul_nonneg (Money.mul_nonneg hstop hqty.le) hrate.le
  have hfees : ((stop.mul qty).val.mul rate).val.v ≤ ((entry.mul qty).val.mul rate).val.v :=
    Money.mul_mono hrate.le (Money.mul_mono hqty.le hle)
  have hloss : (stop.v - entry.v) * qty.v = -((entry.v - stop.v) * qty.v) := by ring
  have hlossNonneg : 0 ≤ (entry.v - stop.v) * qty.v := Int.mul_nonneg (by omega) hqty.le
  have hgrossZero : (Money.fillGross entry stop qty).val.v = 0 ↔ 2 * ((entry.v - stop.v) * qty.v) ≤ moneyScale := by
    rw [fillGross_val, Money.mul_eq_zero_iff, hdiff, hloss]
    omega
  have hfeeZero : ((entry.mul qty).val.mul rate).val.v = 0 ↔ 2 * ((entry.mul qty).val.v * rate.v) ≤ moneyScale := by
    rw [Money.mul_eq_zero_iff]
    omega
  have hfeesZero : ((((entry.mul qty).val.mul rate).val.add ((stop.mul qty).val.mul rate).val).val).v = 0 ↔
      ((entry.mul qty).val.mul rate).val.v = 0 := by
    rw [Money.add, Money.saturate_eq_zero_iff]
    omega
  have hfeesNonneg : 0 ≤ (((entry.mul qty).val.mul rate).val.add ((stop.mul qty).val.mul rate).val).val.v :=
    Money.saturate_nonneg (by omega)
  rw [Dust, ← hgrossZero, ← hfeeZero, ← hfeesZero]
  generalize (((entry.mul qty).val.mul rate).val.add ((stop.mul qty).val.mul rate).val).val = fees at hfeesNonneg ⊢
  generalize (Money.fillGross entry stop qty).val = gross at hgross ⊢
  rw [Money.sub, Money.add, Money.saturate_nonneg_iff]
  have hneg : fees.neg.v = -fees.v := rfl
  omega

/-- Buying at `entry` and selling at `stop`, which is not above it, at one fee rate: the net that the sale
    books is no loss exactly when the position is dust. -/
theorem roundTrip_net_nonneg_iff (c : OmsConfig) (nowUs : Nat) (b : Books) (buy sell : Order)
    {entry stop qty rate : Money}
    (hflat : b.portfolio.active buy.portfolioSlot = false) (hslot : sell.portfolioSlot = buy.portfolioSlot)
    (hbuy : buy.preResolved.feeRate = rate) (hsell : sell.preResolved.feeRate = rate) (hqty : 0 < qty.v)
    (hrate : 0 < rate.v)
    (hstop : 0 ≤ stop.v) (hle : stop.v ≤ entry.v) :
    ∃ fe : FillEvent, ∃ rec : EmitRecord,
      ((b.bought c nowUs buy entry qty).handleSellFill c sell stop qty (Books.computedFee sell stop qty).val).val.composer =
        ((b.bought c nowUs buy entry qty).composer.fillEmit c fe).val.emitRecord c rec ∧
      rec.net = fe.net ∧ (0 ≤ fe.net.v ↔ Dust entry qty rate stop) := by
  obtain ⟨hactive, hprice, hquantity, hfee⟩ := Books.bought_slot c nowUs b buy entry qty hflat
  rw [← hslot] at hactive hprice hquantity hfee
  generalize b.bought c nowUs buy entry qty = held at hactive hprice hquantity hfee ⊢
  have hall : held.sellQty sell.portfolioSlot qty = qty := by
    rw [Books.sellQty, hquantity, clampQty, ite_self]
  have hsome : (held.sellQty sell.portfolioSlot qty).isZero = false := by
    rw [hall]
    exact decide_eq_false hqty.ne'
  obtain ⟨fe, rec, hcomposer, hnet, hrec⟩ := Books.handleSellFill_net hactive hsome
  refine ⟨fe, rec, hcomposer, hrec, ?_⟩
  rw [hnet, hall, Books.sellNet_flat hquantity, hprice, hfee, computedFee_val, computedFee_val, hbuy, hsell]
  exact net_nonneg_iff hstop hle hqty hrate

namespace SlowNode

/-- For every entry, quantity, rate and proposal: closing a position at the stop that the write accepts
    is no loss exactly when the position is dust. -/
theorem stop_net_nonneg_iff (c : OmsConfig) (nowUs : Nat) (b : Books) (buy sell : Order) (node : SlowNode)
    {entry stop qty rate : Money} (feeRate proposed : Money) (hflat : b.portfolio.active buy.portfolioSlot = false)
    (hslot : sell.portfolioSlot = buy.portfolioSlot) (hbuy : buy.preResolved.feeRate = rate)
    (hsell : sell.preResolved.feeRate = rate) (hqty : 0 < qty.v) (hrate : 0 < rate.v)
    (hthird : 3 * rate.v < moneyScale)
    (hratchet : 0 ≤ node.pendingParams.ratchetSl.v)
    (haccept : (node.writeRatchetSL proposed entry (takerRate rate feeRate)).2 = true)
    (hstop : stop = (node.writeRatchetSL proposed entry (takerRate rate feeRate)).1.pendingParams.ratchetSl) :
    ∃ fe : FillEvent, ∃ rec : EmitRecord,
      ((b.bought c nowUs buy entry qty).handleSellFill c sell stop qty (Books.computedFee sell stop qty).val).val.composer =
        ((b.bought c nowUs buy entry qty).composer.fillEmit c fe).val.emitRecord c rec ∧
      rec.net = fe.net ∧ (0 ≤ fe.net.v ↔ Dust entry qty rate stop) := by
  have htaker : takerRate rate feeRate = rate := by
    have hnonzero : rate.isZero = false := decide_eq_false hrate.ne'
    rw [takerRate, hnonzero]
    rfl
  rw [htaker] at haccept hstop
  obtain ⟨hcap, habove⟩ := writeRatchetSL_accepted haccept
  rw [hcap] at hstop
  have hpositive : 0 < stop.v := by
    rw [hstop]
    omega
  have hfloor : stop.v ≤ (slFloor entry rate).val.v := by
    rw [hstop]
    exact cappedSl_le
  obtain ⟨-, hbelow⟩ := slFloor_le hrate.le hthird (hpositive.trans_le hfloor)
  exact roundTrip_net_nonneg_iff c nowUs b buy sell hflat hslot hbuy hsell hqty hrate hpositive.le
    (hfloor.trans hbelow)

/-- A node that has no ratchet yet. -/
def sampleUnratcheted : SlowNode where
  pendingParams := .init
  dirty := false
  slCooldownRemaining := 0
  usAtLastRebuild := 0
  priceAtLastRebuild := .zero

/-- A tenth of a percent. -/
def sampleTaker : Money := (Money.saturate 100000).val

/-- A hundred. -/
def sampleEntry : Money := (Money.fromInt 100).val

/-- Ten units. -/
def sampleQty : Money := (Money.fromInt 10).val

/-- An order of slot 0 at that rate. -/
def sampleRated (type : OrderType) : Order :=
  let o := Order.blank.init 1 firstIdx type
  { o with preResolved := { o.preResolved with feeRate := sampleTaker } }

/-- Books that hold nothing. -/
def sampleFlat : Books := (OrderManagerState.init Money.zero none).books

/-- The node after a stop of 200 was proposed for an entry of 100. -/
def sampleRatcheted : SlowNode × Bool :=
  sampleUnratcheted.writeRatchetSL (Money.fromInt 200).val sampleEntry (takerRate sampleTaker .zero)

def sampleStop : Money := sampleRatcheted.1.pendingParams.ratchetSl

theorem stop_net_nonneg_iff_hundred :
    let held := sampleFlat.bought samplePaper 0 (sampleRated .marketBuy) sampleEntry sampleQty
    let fee := (Books.computedFee (sampleRated .marketSell) sampleStop sampleQty).val
    ∃ fe : FillEvent, ∃ rec : EmitRecord,
      (held.handleSellFill samplePaper (sampleRated .marketSell) sampleStop sampleQty fee).val.composer =
        (held.composer.fillEmit samplePaper fe).val.emitRecord samplePaper rec ∧
      rec.net = fe.net ∧ (0 ≤ fe.net.v ↔ Dust sampleEntry sampleQty sampleTaker sampleStop) :=
  stop_net_nonneg_iff samplePaper 0 sampleFlat (sampleRated .marketBuy)
    (sampleRated .marketSell) sampleUnratcheted .zero
    (Money.fromInt 200).val (by decide +kernel) rfl rfl rfl (by decide +kernel) (by decide +kernel)
      (by decide +kernel)
    (by decide +kernel) (by decide +kernel) rfl

/-- The stop is raised to 99.7, and the sale at it loses almost five. -/
theorem stop_net_negative :
    let held := sampleFlat.bought samplePaper 0 (sampleRated .marketBuy) sampleEntry sampleQty
    let fee := (Books.computedFee (sampleRated .marketSell) sampleStop sampleQty).val
    let sold := (held.handleSellFill samplePaper (sampleRated .marketSell) sampleStop sampleQty fee).val
    sampleRatcheted.2 = true ∧ sampleStop.v = 9970000000 ∧ 0 < sampleTaker.v ∧ 3 * sampleTaker.v < moneyScale ∧
      sold.portfolio.active firstIdx = false ∧ held.composer.ledger.realizedPnl.v = 0 ∧
      sold.composer.ledger.realizedPnl.v = -499700000 := by
  decide +kernel

/-- A single payload is dust. -/
example : Dust sampleEntry (Money.saturate 1).val sampleTaker sampleStop := by decide +kernel

end SlowNode

end FoxTrader
