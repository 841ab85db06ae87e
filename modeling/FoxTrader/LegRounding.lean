import FoxTrader.Holdings
import FoxTrader.Lib.HalfEven
import FoxTrader.MoneyExact

/-! # What the two roundings of a leg do to a share and to a mean

    The share of the entry fee a leg takes, and the entry price two legs average to, are each a
    product rounded to eight digits and then a quotient. The quotient carries the rounding of the
    product along and divides it by a quantity, so that below one unit held the share may pass the
    fee it is a share of, and the mean may pass both prices it is the mean of. How far the products
    were rounded is the gain, and `ShareFits` and `MeanFits` say which gains do no harm. -/

namespace FoxTrader

open Lib Function

namespace Money

/-- Saturation only takes off a number that is not negative. -/
theorem saturate_le {s : ℤ} (h : 0 ≤ s) : (saturate s).val.v ≤ s := by
  have hpos : 0 ≤ moneyMax := by decide
  have := saturate_cases s
  omega

theorem saturate_mono {s t : ℤ} (h : s ≤ t) : (saturate s).val.v ≤ (saturate t).val.v := by
  have hlower := (saturate t).val.lower
  have hupper := (saturate s).val.upper
  have hs := saturate_cases s
  have ht := saturate_cases t
  omega

theorem saturate_le_of_le {s : ℤ} {k : Money} (h : s ≤ k.v) : (saturate s).val.v ≤ k.v := by
  have hlow := k.lower
  have hup := k.upper
  have := saturate_cases s
  omega

theorem saturate_le_iff {s : ℤ} {k : Money} (hk : k.v < moneyMax) : (saturate s).val.v ≤ k.v ↔ s ≤ k.v := by
  have := saturate_cases s
  exact ⟨fun h => by omega, saturate_le_of_le⟩

end Money

/-! ### The share of the fee -/

/-- The gain of the product does not carry the share past the fee. -/
def ShareFits (fee qLeg posQty : Money) : Prop :=
  let gain := halfEvenGain (fee.v * qLeg.v) moneyScale
  let room := 2 * (fee.v * (posQty.v - qLeg.v)) + posQty.v
  qLeg = posQty ∨ 2 * gain < room ∨ 2 * gain = room ∧ fee.v % 2 = 0

instance (fee qLeg posQty : Money) : Decidable (ShareFits fee qLeg posQty) :=
  inferInstanceAs (Decidable (_ ∨ _ ∨ _ ∧ _))

variable {fee qLeg posQty : Money}

theorem entryFeeShare_nonneg (hfee : 0 ≤ fee.v) (hleg : 0 < qLeg.v) (hle : qLeg.v ≤ posQty.v) :
    0 ≤ (entryFeeShare fee qLeg posQty).val.v := by
  unfold entryFeeShare
  split
  · exact hfee
  · exact Money.div_nonneg (Money.mul_nonneg hfee hleg.le) (hleg.trans_le hle).le

/-- A gain is half a unit at most. -/
theorem shareFits_of_le (h : (moneyScale : ℤ) < 2 * (fee.v * (posQty.v - qLeg.v)) + posQty.v) :
    ShareFits fee qLeg posQty := by
  have hgain := (halfEvenGain_le (x := fee.v * qLeg.v) (d := moneyScale) (by decide)).2
  exact .inr (.inl (hgain.trans_lt h))

/-- A leg takes no more than the fee exactly when the gain fits. -/
theorem entryFeeShare_le_iff (hfee : 0 ≤ fee.v) (hleg : 0 < qLeg.v) (hle : qLeg.v ≤ posQty.v) :
    (entryFeeShare fee qLeg posQty).val.v ≤ fee.v ↔ ShareFits fee qLeg posQty := by
  unfold entryFeeShare
  by_cases hlast : qLeg = posQty
  · rw [if_pos (Money.eq_iff.2 hlast)]
    exact iff_of_true le_rfl (.inl hlast)
  have hlt : qLeg.v < posQty.v := hle.lt_of_ne fun h => hlast (Money.ext h)
  have hpos : 0 < posQty.v := hleg.trans hlt
  have hd : ((posQty.v.toNat : ℕ) : ℤ) = posQty.v := Int.toNat_of_nonneg hpos.le
  have hroom : (2 * fee.v + 1) * posQty.v =
    2 * (fee.v * qLeg.v) + (2 * (fee.v * (posQty.v - qLeg.v)) + posQty.v) := by ring
  have hgain : halfEven (fee.v * qLeg.v) moneyScale * moneyScale =
      fee.v * qLeg.v + halfEvenGain (fee.v * qLeg.v) moneyScale := by
    unfold halfEvenGain
    omega
  have hbound := (halfEvenGain_le (x := fee.v * qLeg.v) (d := moneyScale) (by decide)).2
  have hnum := Int.mul_nonneg hfee hleg.le
  rw [if_neg (fun h => hlast (Money.eq_iff.1 h)), Flagged.bind_val, Money.div_eq _ hpos, Money.mul_eq]
  rcases lt_or_ge (moneyScale : ℤ) (2 * (fee.v * (posQty.v - qLeg.v)) + posQty.v) with hfits | hsmall
  · -- No gain is that large; what saturation takes off the product only helps.
    refine iff_of_true ?_ (shareFits_of_le hfits)
    have hsat := Money.saturate_le (halfEven_nonneg hnum (by decide : 0 < moneyScale))
    have hmul := Int.mul_le_mul_of_nonneg_right hsat (by decide : (0 : ℤ) ≤ moneyScale)
    refine Money.saturate_le_of_le ?_
    rw [halfEven_le_iff (by omega), hd, hroom]
    omega
  · -- Below a unit nothing saturates.
    have hfee' : fee.v * 1 ≤ fee.v * (posQty.v - qLeg.v) := Int.mul_le_mul_of_nonneg_left (by omega) hfee
    have hleg' : fee.v * qLeg.v ≤ moneyScale * moneyScale := by
      exact Int.mul_le_mul (by omega) (by omega) hleg.le (by decide)
    have hclean : (Money.saturate (halfEven (fee.v * qLeg.v) moneyScale)).Clean := by
      rw [Money.saturate_clean_iff]
      have hnonneg := halfEven_nonneg hnum (by decide : 0 < moneyScale)
      unfold moneyMax moneyScale at *
      omega
    have hbelow : fee.v < moneyMax := by
      unfold moneyMax moneyScale at *
      omega
    rw [Money.saturate_v hclean, Money.saturate_le_iff hbelow, halfEven_le_iff (by omega), hd, hroom, hgain]
    simp only [ShareFits, hlast, false_or]
    generalize halfEvenGain (fee.v * qLeg.v) moneyScale = gain
    omega

theorem consumeEntryFeeLeg_rest_nonneg (hfee : 0 ≤ fee.v) (hleg : 0 < qLeg.v) (hle : qLeg.v ≤ posQty.v)
    (hfits : ShareFits fee qLeg posQty) : 0 ≤ (consumeEntryFeeLeg fee qLeg posQty).val.2.v := by
  have hshare := (entryFeeShare_le_iff hfee hleg hle).2 hfits
  simp only [consumeEntryFeeLeg, Flagged.bind_val, Flagged.pure_val, Money.sub, Money.add, Money.neg]
  exact Money.saturate_nonneg (by omega)

/-! ### Legs sold one after another -/

instance (p : Portfolio) : Decidable p.Stocked :=
  inferInstanceAs (Decidable (∀ i, p.active i = true → 0 < (p.positions i).quantity.v))

/-- A sell leg as `handle_sell_fill` is handed it. -/
structure SellLeg where
  order : Order
  price : Money
  qty : Money
  fee : Money

namespace Books

variable {c : OmsConfig} {b : Books} {leg : SellLeg}

def sellStep (c : OmsConfig) (b : Books) (leg : SellLeg) : Books :=
  (b.handleSellFill c leg.order leg.price leg.qty leg.fee).val

/-- What the leg sells, if anything, takes a share that fits. -/
def LegFits (b : Books) (leg : SellLeg) : Prop :=
  let pos := b.portfolio.positions leg.order.portfolioSlot
  b.portfolio.active leg.order.portfolioSlot = true →
    ShareFits pos.entryFee (clampQty leg.qty pos.quantity) pos.quantity

/-- No slot tracks less than nothing of its entry fee. -/
def FeesLeft (b : Books) : Prop := ∀ i, 0 ≤ (b.portfolio.positions i).entryFee.v

instance (b : Books) (leg : SellLeg) : Decidable (b.LegFits leg) := inferInstanceAs (Decidable (_ → ShareFits _ _ _))

instance (b : Books) : Decidable b.FeesLeft :=
  inferInstanceAs (Decidable (∀ i, 0 ≤ (b.portfolio.positions i).entryFee.v))

theorem sellStep_portfolio :
    (b.sellStep c leg).portfolio = b.portfolio.sold leg.order.portfolioSlot leg.price leg.qty :=
  handleSellFill_portfolio ..

theorem feesLeft_sellStep (hst : b.portfolio.Stocked) (hfees : b.FeesLeft) (hqty : 0 ≤ leg.qty.v)
    (hfits : b.LegFits leg) :
    (b.sellStep c leg).FeesLeft := by
  intro i
  rw [sellStep_portfolio]
  rcases eq_or_ne i leg.order.portfolioSlot with rfl | hne
  · unfold Portfolio.sold
    split
    next => exact hfees _
    next hactive =>
      have hactive' : b.portfolio.active leg.order.portfolioSlot = true := by simpa using hactive
      split
      next => exact hfees _
      next hsome =>
        have hheld := hst _ hactive'
        have hclamp := Portfolio.clampQty_v leg.qty (b.portfolio.positions leg.order.portfolioSlot).quantity
        have hne : (clampQty leg.qty (b.portfolio.positions leg.order.portfolioSlot).quantity).v ≠ 0 := fun hzero =>
          hsome (Money.isZero_iff.2 (Money.ext hzero))
        rw [Portfolio.takeLeg_entryFee]
        refine consumeEntryFeeLeg_rest_nonneg (hfees _) ?_ ?_ (hfits hactive')
        · split at hclamp <;> omega
        · split at hclamp <;> omega
  · rw [(Portfolio.sold_of_ne hne leg.price leg.qty).2]
    exact hfees i

theorem stocked_sellStep (hst : b.portfolio.Stocked) (hqty : 0 ≤ leg.qty.v) :
    (b.sellStep c leg).portfolio.Stocked := by
  rw [sellStep_portfolio]
  exact Portfolio.sold_stocked hqty hst _ _

theorem feesLeft_run {legs : List SellLeg} (hst : b.portfolio.Stocked) (hfees : b.FeesLeft)
    (hfits : Steps (sellStep c) (fun b leg => 0 ≤ leg.qty.v ∧ b.LegFits leg) b legs) :
    (run (sellStep c) b legs).FeesLeft := by
  have hstep : ∀ (b : Books) leg, b.portfolio.Stocked ∧ b.FeesLeft → 0 ≤ leg.qty.v ∧ b.LegFits leg →
      (b.sellStep c leg).portfolio.Stocked ∧ (b.sellStep c leg).FeesLeft :=
    fun b leg h hok => ⟨stocked_sellStep h.1 hok.1, feesLeft_sellStep h.1 h.2 hok.1 hok.2⟩
  exact (run_inv_of_steps hstep legs ⟨hst, hfees⟩ hfits).2

end Books

/-- The leg's share is between nothing and the fee exactly when the gain fits, and no sequence of
    sell legs that fit takes a slot's fee below zero. -/
theorem consumeEntryFeeLeg_between_iff (c : OmsConfig) :
    (∀ fee qLeg posQty : Money, 0 ≤ fee.v → 0 < qLeg.v → qLeg.v ≤ posQty.v →
      (0 ≤ (consumeEntryFeeLeg fee qLeg posQty).val.1.v ∧ (consumeEntryFeeLeg fee qLeg posQty).val.1.v ≤ fee.v ↔
        ShareFits fee qLeg posQty)) ∧
      ∀ (b : Books) (legs : List SellLeg), b.portfolio.Stocked → b.FeesLeft →
        Steps (Books.sellStep c) (fun b leg => 0 ≤ leg.qty.v ∧ b.LegFits leg) b legs →
        (run (Books.sellStep c) b legs).FeesLeft := by
  refine ⟨fun fee qLeg posQty hfee hleg hle => ?_, fun b legs hst hfees hfits => Books.feesLeft_run hst hfees hfits⟩
  have hnonneg := entryFeeShare_nonneg hfee hleg hle
  have hiff := entryFeeShare_le_iff hfee hleg hle
  simp only [consumeEntryFeeLeg, Flagged.bind_val, Flagged.pure_val]
  exact ⟨fun h => hiff.1 h.2, fun h => ⟨hnonneg, hiff.2 h⟩⟩

/-- One slot holding `qty` at `price` with `fee` of its entry fee left, in payloads. -/
def sampleHeld (price qty fee : Int) : Portfolio :=
  Portfolio.init.openSlot firstIdx
    { entryPrice := (Money.saturate price).val, quantity := (Money.saturate qty).val, takeProfitPrice := .zero
      stopLossPrice := .zero, entryFee := (Money.saturate fee).val } 0

def sampleHeldBooks (price qty fee : Int) : Books :=
  { (OrderManagerState.init .zero none).books with portfolio := sampleHeld price qty fee }

def sampleSellLeg (price qty : Int) : SellLeg where
  order := Order.blank.init 1 firstIdx .marketSell
  price := (Money.saturate price).val
  qty := (Money.saturate qty).val
  fee := .zero

/-- Half of one unit at a fee of a tenth, then the other half. -/
theorem consumeEntryFeeLeg_between_iff_halves :
    (let fee := (Money.saturate 10000000).val
      let half := (Money.saturate 50000000).val
      let unit := (Money.saturate 100000000).val
      0 ≤ (consumeEntryFeeLeg fee half unit).val.1.v ∧ (consumeEntryFeeLeg fee half unit).val.1.v ≤ fee.v ↔
        ShareFits fee half unit) ∧
      (run (Books.sellStep samplePaper) (sampleHeldBooks 100000000 100000000 10000000)
        [sampleSellLeg 100000000 50000000, sampleSellLeg 100000000 50000000]).FeesLeft :=
  ⟨(consumeEntryFeeLeg_between_iff samplePaper).1 (Money.saturate 10000000).val (Money.saturate 50000000).val
      (Money.saturate 100000000).val (by decide) (by decide) (by decide),
    (consumeEntryFeeLeg_between_iff samplePaper).2 _ _ (by decide) (by decide) (by decide)⟩

/-- A fee of one hundred-millionth is apportioned twice over, and the tracker owes the difference. -/
theorem share_passes_the_fee :
    ¬(∀ fee qLeg posQty : Money, 0 ≤ fee.v → 0 < qLeg.v → qLeg.v ≤ posQty.v →
      0 ≤ (consumeEntryFeeLeg fee qLeg posQty).val.1.v ∧ (consumeEntryFeeLeg fee qLeg posQty).val.1.v ≤ fee.v) ∧
      (((sampleHeldBooks 100000000 60000000 1).sellStep samplePaper (sampleSellLeg 100000000 50000001)).portfolio.positions
        firstIdx).entryFee.v = -1 := by
  refine ⟨fun h => ?_, by decide +kernel⟩
  have hle := (h (Money.saturate 1).val (Money.saturate 50000001).val (Money.saturate 60000000).val (by decide) (by decide)
    (by decide)).2
  exact absurd hle (by decide)

/-! ### The mean of two legs -/

/-- The gain of the two notionals together. -/
def notionalGain (old price held qLeg : Money) : ℤ :=
  halfEvenGain (old.v * held.v) moneyScale + halfEvenGain (price.v * qLeg.v) moneyScale

/-- The gain does not carry the mean past the dearer of the two prices, nor below the cheaper. -/
def MeanFits (old price held qLeg : Money) : Prop :=
  let gain := notionalGain old price held qLeg
  let qty := held.v + qLeg.v
  let above := 2 * ((old.max price).v * qty - (old.v * held.v + price.v * qLeg.v)) + qty
  let below := 2 * ((old.min price).v * qty - (old.v * held.v + price.v * qLeg.v)) - qty
  (2 * gain < above ∨ 2 * gain = above ∧ (old.max price).v % 2 = 0) ∧
    (below < 2 * gain ∨ below = 2 * gain ∧ (old.min price).v % 2 = 0)

namespace Portfolio

variable {p : Portfolio} {slot : SlotIdx} {price feeLeg : Money}

/-- The entry price after a leg that saturates nowhere, as one rounding of the rounded notionals. -/
theorem accumulateSlotLeg_entryPrice (hheld : 0 < (p.positions slot).quantity.v) (hleg : 0 < qLeg.v)
    (hclean : (p.accumulateSlotLeg slot price qLeg feeLeg).Clean) :
    let pos := p.positions slot
    let notional := pos.entryPrice.v * pos.quantity.v + price.v * qLeg.v
    ((p.accumulateSlotLeg slot price qLeg feeLeg).val.positions slot).entryPrice.v =
      halfEven (notional + notionalGain pos.entryPrice price pos.quantity qLeg) (pos.quantity.v + qLeg.v).toNat := by
  simp only [accumulateSlotLeg, Flagged.clean_bind, Flagged.bind_val, Flagged.pure_val, update_self] at hclean ⊢
  obtain ⟨hold, hadd, hqty, hsum, hdiv, -⟩ := hclean
  generalize p.positions slot = pos at *
  have hd := Money.add_v hqty
  generalize (pos.quantity.add qLeg).val = qty at *
  rw [Money.div_eq _ (by omega)] at hdiv ⊢
  rw [Money.saturate_v hdiv, Money.add_v hsum, hd]
  rw [Money.mul_eq] at hold hadd ⊢
  rw [Money.mul_eq, Money.saturate_v hold, Money.saturate_v hadd]
  congr 1
  unfold notionalGain halfEvenGain
  ring

/-- The mean lies between the two prices exactly when the gain fits. -/
theorem accumulateSlotLeg_between_iff (hheld : 0 < (p.positions slot).quantity.v) (hleg : 0 < qLeg.v)
    (hclean : (p.accumulateSlotLeg slot price qLeg feeLeg).Clean) :
    let old := (p.positions slot).entryPrice
    let mean := ((p.accumulateSlotLeg slot price qLeg feeLeg).val.positions slot).entryPrice
    (old.min price).v ≤ mean.v ∧ mean.v ≤ (old.max price).v ↔
      MeanFits old price (p.positions slot).quantity qLeg := by
  have hmean := accumulateSlotLeg_entryPrice hheld hleg hclean
  dsimp only at hmean ⊢
  rw [hmean]
  generalize p.positions slot = pos at *
  have hd : (((pos.quantity.v + qLeg.v).toNat : ℕ) : ℤ) = pos.quantity.v + qLeg.v := Int.toNat_of_nonneg (by omega)
  have hpos : 0 < (pos.quantity.v + qLeg.v).toNat := by omega
  rw [le_halfEven_iff hpos, halfEven_le_iff hpos, hd, and_comm]
  simp only [MeanFits]
  generalize notionalGain pos.entryPrice price pos.quantity qLeg = gain
  generalize (pos.entryPrice.max price).v = hi
  generalize (pos.entryPrice.min price).v = lo
  generalize pos.entryPrice.v * pos.quantity.v + price.v * qLeg.v = notional
  generalize pos.quantity.v + qLeg.v = qty
  have hhi : (2 * hi + 1) * qty = 2 * (hi * qty) + qty := by ring
  have hlo : (2 * lo - 1) * qty = 2 * (lo * qty) - qty := by ring
  rw [hhi, hlo]
  omega

/-- A second unit at 200 on a unit bought at 100. -/
theorem accumulateSlotLeg_between_iff_pair :
    let p := sampleHeld 10000000000 100000000 0
    let price := (Money.saturate 20000000000).val
    let qLeg := (Money.saturate 100000000).val
    let mean := ((p.accumulateSlotLeg firstIdx price qLeg .zero).val.positions firstIdx).entryPrice
    ((p.positions firstIdx).entryPrice.min price).v ≤ mean.v ∧
      mean.v ≤ ((p.positions firstIdx).entryPrice.max price).v ↔
      MeanFits (p.positions firstIdx).entryPrice price (p.positions firstIdx).quantity qLeg :=
  accumulateSlotLeg_between_iff (by decide) (by decide) (by decide)

/-- Two legs of one hundred-millionth, both at 1.5, are held at 2. -/
theorem mean_leaves_the_prices :
    ¬(∀ (p : Portfolio) (slot : SlotIdx) (price qLeg feeLeg : Money), p.active slot = true →
      0 < (p.positions slot).quantity.v →
      0 < qLeg.v → 0 < price.v → (p.accumulateSlotLeg slot price qLeg feeLeg).Clean →
      ((p.positions slot).entryPrice.min price).v ≤
        ((p.accumulateSlotLeg slot price qLeg feeLeg).val.positions slot).entryPrice.v ∧
        ((p.accumulateSlotLeg slot price qLeg feeLeg).val.positions slot).entryPrice.v ≤
          ((p.positions slot).entryPrice.max price).v) := by
  intro h
  have hle := (h (sampleHeld 150000000 1 0) firstIdx (Money.saturate 150000000).val (Money.saturate 1).val .zero (by decide)
    (by decide) (by decide) (by decide) (by decide)).2
  exact absurd hle (by decide)

end Portfolio

end FoxTrader
