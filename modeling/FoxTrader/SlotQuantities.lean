import FoxTrader.Holdings

/-! # The quantity of a slot and its active bit

    The bit and the quantity are kept apart, by the open, the averaging in, the clamp and the close.
    Whatever the results say, no slot holds less than nothing, a slot given up holds nothing, and no
    slot is sold more than was bought. Only the other half of the match can fail: a leg is admitted
    on its double and booked in its payload, so that a first leg of less than half a unit opens a
    slot with nothing in it. -/

namespace FoxTrader

open Lib Function

namespace Portfolio

variable {p p' : Portfolio} {i slot : SlotIdx} {o : Order} {price qty fee tp : Money} {nowUs : Nat}

/-- No slot holds less than nothing, and one that is not active holds nothing. -/
def Solvent (p : Portfolio) : Prop :=
  ∀ i, 0 ≤ (p.positions i).quantity.v ∧ (p.active i = false → (p.positions i).quantity.v = 0)

/-- A slot is active exactly while it holds something. -/
def Consistent (p : Portfolio) : Prop :=
  ∀ i, (p.active i = true ↔ 0 < (p.positions i).quantity.v) ∧ 0 ≤ (p.positions i).quantity.v

theorem consistent_iff : p.Consistent ↔ p.Solvent ∧ p.Stocked := by
  constructor
  · intro h
    refine ⟨fun i => ⟨(h i).2, fun hflat => ?_⟩, fun i => (h i).1.1⟩
    have hnot : ¬0 < (p.positions i).quantity.v := fun hpos => Bool.false_ne_true (hflat.symm.trans ((h i).1.2 hpos))
    exact le_antisymm (not_lt.1 hnot) (h i).2
  · rintro ⟨hsolvent, hst⟩ i
    refine ⟨⟨hst i, fun hpos => ?_⟩, (hsolvent i).1⟩
    by_contra hflat
    exact hpos.ne' ((hsolvent i).2 (Bool.eq_false_of_not_eq_true hflat))

theorem Solvent.congr (hsame : ∀ i, p.SameAt i p') (h : p.Solvent) : p'.Solvent := by
  intro i
  rw [(hsame i).active, (hsame i).quantity]
  exact h i

theorem Consistent.congr (hsame : ∀ i, p.SameAt i p') (h : p.Consistent) : p'.Consistent := by
  intro i
  rw [(hsame i).active, (hsame i).quantity]
  exact h i

theorem Solvent.held_v (h : p.Solvent) (i : SlotIdx) : (p.held i).v = (p.positions i).quantity.v := by
  unfold held
  rcases hactive : p.active i with _ | _
  · exact ((h i).2 hactive).symm
  · rfl

/-- A sell leg leaves no slot in debt. -/
theorem Solvent.sold (h : p.Solvent) (hqty : 0 ≤ qty.v) (slot : SlotIdx) (price : Money) :
    (p.sold slot price qty).Solvent := by
  intro i
  rcases eq_or_ne i slot with rfl | hne
  · unfold Portfolio.sold
    rcases hactive : p.active i with _ | _
    · exact h i
    simp only [Bool.not_true, Bool.false_eq_true, if_false]
    split
    next => exact h i
    next =>
      have hleft := sub_clampQty_v hqty (h i).1
      rw [takeLeg_active hactive, takeLeg_quantity]
      refine ⟨by split at hleft <;> omega, fun hflat => ?_⟩
      simpa [Money.isZero] using hflat
  · obtain ⟨hactive, hpos⟩ := sold_of_ne hne price qty (p := p)
    rw [hactive, hpos]
    exact h i

/-- What a buy leg makes of its slot's quantity. -/
theorem openOrAccumulate_quantity (p : Portfolio) (o : Order) (price qty fee tp : Money) (nowUs : Nat) :
    (Books.openOrAccumulate p o price qty fee tp nowUs).val.active o.portfolioSlot = true ∧
      ((Books.openOrAccumulate p o price qty fee tp nowUs).val.positions o.portfolioSlot).quantity =
        if p.active o.portfolioSlot then ((p.positions o.portfolioSlot).quantity.add qty).val else qty := by
  unfold Books.openOrAccumulate
  rcases hactive : p.active o.portfolioSlot with _ | _
  · simp only [Bool.false_eq_true, if_false, openSlot, Flagged.pure_val, update_self, and_self]
  · simp only [if_true, accumulateSlotLeg, Flagged.bind_val, Flagged.pure_val, update_self]
    exact ⟨hactive, trivial⟩

theorem Solvent.openOrAccumulate (h : p.Solvent) (hqty : 0 ≤ qty.v) :
    (Books.openOrAccumulate p o price qty fee tp nowUs).val.Solvent := by
  intro i
  rcases eq_or_ne i o.portfolioSlot with rfl | hne
  · obtain ⟨hactive, hquantity⟩ := openOrAccumulate_quantity p o price qty fee tp nowUs
    refine ⟨?_, fun hflat => absurd (hflat.symm.trans hactive) Bool.false_ne_true⟩
    rw [hquantity]
    split
    · exact (h _).1.trans (Money.add_ge (h _).1 hqty).1
    · exact hqty
  · have hother : (Books.openOrAccumulate p o price qty fee tp nowUs).val.active i = p.active i ∧
        (Books.openOrAccumulate p o price qty fee tp nowUs).val.positions i = p.positions i :=
      Books.openOrAccumulate_of_ne hne
    rw [hother.1, hother.2]
    exact h i

/-- An opening leg of nothing is what leaves an active slot empty. -/
theorem Consistent.openOrAccumulate_iff (h : p.Consistent) (hqty : 0 ≤ qty.v) :
    (Books.openOrAccumulate p o price qty fee tp nowUs).val.Consistent ↔
      ¬(p.active o.portfolioSlot = false ∧ qty = .zero) := by
  obtain ⟨hsolvent, hst⟩ := consistent_iff.1 h
  rw [consistent_iff, and_iff_right (hsolvent.openOrAccumulate hqty)]
  obtain ⟨hactive, hquantity⟩ := openOrAccumulate_quantity p o price qty fee tp nowUs
  constructor
  · rintro hafter ⟨hflat, rfl⟩
    have hpos := hafter _ hactive
    rw [hquantity, hflat, if_neg Bool.false_ne_true, Money.zero_v] at hpos
    exact lt_irrefl _ hpos
  · intro hnot i hi
    rcases eq_or_ne i o.portfolioSlot with rfl | hne
    · rw [hquantity]
      rcases hbefore : p.active o.portfolioSlot with _ | _
      · exact hqty.lt_of_ne fun hzero => hnot ⟨hbefore, Money.ext hzero.symm⟩
      · exact (hst _ hbefore).trans_le (Money.add_ge (hsolvent _).1 hqty).1
    · have hother : (Books.openOrAccumulate p o price qty fee tp nowUs).val.active i = p.active i ∧
          (Books.openOrAccumulate p o price qty fee tp nowUs).val.positions i = p.positions i :=
        Books.openOrAccumulate_of_ne hne
      rw [hother.1] at hi
      rw [hother.2]
      exact hst i hi

theorem Consistent.sold (h : p.Consistent) (hqty : 0 ≤ qty.v) : (p.sold slot price qty).Consistent := by
  obtain ⟨hsolvent, hst⟩ := consistent_iff.1 h
  exact consistent_iff.2 ⟨hsolvent.sold hqty slot price, sold_stocked hqty hst slot price⟩

theorem SameAt.symm (h : p.SameAt i p') : p'.SameAt i p := ⟨h.active.symm, h.quantity.symm⟩

end Portfolio

namespace OrderManagerState

variable {c : OmsConfig} {s : OrderManagerState} {a : Act} {i : SlotIdx}

/-! ### One leg -/

/-- What a leg makes of the positions: nothing, a buy of its payload, or a sell of it. -/
theorem bookLeg_portfolio (c : OmsConfig) (us : Nat) (b : Books) (o : Order) (r : OrderResult) :
    (¬r.fillQty > 0.0 ∧ (bookLeg c us b o r).val.portfolio = b.portfolio) ∨
      (r.fillQty > 0.0 ∧ o.type.isSell = false ∧ ∃ fee tp, (bookLeg c us b o r).val.portfolio =
        (Books.openOrAccumulate b.portfolio o o.avgFillPrice (moneyFromDoublePayload r.fillQty) fee tp us).val) ∨
      (r.fillQty > 0.0 ∧ o.type.isSell = true ∧ (bookLeg c us b o r).val.portfolio =
        b.portfolio.sold o.portfolioSlot o.avgFillPrice (moneyFromDoublePayload r.fillQty)) := by
  unfold bookLeg
  by_cases hqty : r.fillQty > 0.0
  · rw [if_pos hqty]
    rcases hsell : o.type.isSell with _ | _
    · refine .inr (.inl ⟨hqty, rfl, ?_⟩)
      simp only [Books.handleFill, Flagged.bind_val]
      cases htype : o.type with
      | marketBuy | limitBuy =>
        simp only [Books.handleBuyFill, Flagged.bind_val, Flagged.pure_val, Books.auditAppend_portfolio]
        exact ⟨_, _, rfl⟩
      | marketSell | limitSell =>
        exact absurd ((congrArg OrderType.isSell htype).symm.trans hsell) Bool.false_ne_true.symm
    · exact .inr (.inr ⟨hqty, rfl, Books.handleFill_sell hsell ..⟩)
  · rw [if_neg hqty]
    exact .inl ⟨hqty, rfl⟩

/-- A leg moves its own slot's quantity only, up if it is a buy and down if it is a sell. -/
theorem bookLeg_quantity {b : Books} (us : Nat) (h : b.portfolio.Solvent) (o : Order) (r : OrderResult) :
    (∀ i, i ≠ o.portfolioSlot →
      ((bookLeg c us b o r).val.portfolio.positions i).quantity.v = (b.portfolio.positions i).quantity.v) ∧
      (o.type.isSell = false → (b.portfolio.positions o.portfolioSlot).quantity.v ≤
        ((bookLeg c us b o r).val.portfolio.positions o.portfolioSlot).quantity.v) ∧
      (o.type.isSell = true → ((bookLeg c us b o r).val.portfolio.positions o.portfolioSlot).quantity.v ≤
        (b.portfolio.positions o.portfolioSlot).quantity.v) := by
  obtain ⟨hnonneg, hflat⟩ := h o.portfolioSlot
  rcases bookLeg_portfolio c us b o r with ⟨-, hleg⟩ | ⟨hqty, hbuy, fee, tp, hleg⟩ | ⟨hqty, hsell, hleg⟩
  · rw [hleg]
    exact ⟨fun _ _ => rfl, fun _ => le_rfl, fun _ => le_rfl⟩
  · have hpay := moneyFromDoublePayload_nonneg hqty
    rw [hleg]
    refine ⟨fun i hne => ?_, fun _ => ?_, fun hsell => absurd (hbuy.symm.trans hsell) Bool.false_ne_true⟩
    · rw [(Books.openOrAccumulate_of_ne hne).2]
    · rw [(Portfolio.openOrAccumulate_quantity ..).2]
      split
      · exact (Money.add_ge hnonneg hpay).1
      next hclosed => exact (hflat (Bool.eq_false_of_not_eq_true hclosed)).le.trans hpay
  · have hpay := moneyFromDoublePayload_nonneg hqty
    have hafter := (h.sold hpay o.portfolioSlot o.avgFillPrice).held_v o.portfolioSlot
    have hheld := Portfolio.sold_held hpay (fun _ => hnonneg) o.avgFillPrice
    rw [hafter, h.held_v] at hheld
    rw [hleg]
    refine ⟨fun i hne => ?_, fun hbuy => absurd (hbuy.symm.trans hsell) Bool.false_ne_true, fun _ => ?_⟩
    · rw [(Portfolio.sold_of_ne hne _ _).2]
    · rw [hheld]
      split <;> omega

/-- The turn opens a slot with a leg whose payload is nothing. -/
def OpensEmpty (s : OrderManagerState) (a : Act) : Prop :=
  ∃ x ∈ s.executed a, x.1.result.fillQty > 0.0 ∧ (s.orders x.2).type.isSell = false ∧
    s.books.portfolio.active (s.orders x.2).portfolioSlot = false ∧ moneyFromDoublePayload x.1.result.fillQty = .zero

theorem solvent_act (h : s.books.portfolio.Solvent) : (s.act c a).val.books.portfolio.Solvent := by
  obtain ⟨us, hsame⟩ := act_portfolio c s a
  refine Portfolio.Solvent.congr hsame ?_
  rcases hexec : s.executed a with _ | ⟨cmd, j⟩
  · exact h
  rcases bookLeg_portfolio c us s.books (legOrder (s.priced j cmd.result) cmd.result).val cmd.result with
    ⟨-, hleg⟩ | ⟨hqty, -, fee, tp, hleg⟩ | ⟨hqty, -, hleg⟩
  · rw [afterLeg, hleg]
    exact h
  · rw [afterLeg, hleg]
    exact h.openOrAccumulate (moneyFromDoublePayload_nonneg hqty)
  · rw [afterLeg, hleg]
    exact h.sold (moneyFromDoublePayload_nonneg hqty) _ _

/-- A turn keeps bit and quantity together exactly if it opens no slot with nothing. -/
theorem consistent_act_iff (h : s.books.portfolio.Consistent) :
    (s.act c a).val.books.portfolio.Consistent ↔ ¬s.OpensEmpty a := by
  obtain ⟨us, hsame⟩ := act_portfolio c s a
  have hafter : (s.act c a).val.books.portfolio.Consistent ↔ (s.afterLeg c us (s.executed a)).Consistent :=
    ⟨Portfolio.Consistent.congr fun i => (hsame i).symm, Portfolio.Consistent.congr hsame⟩
  rw [hafter]
  unfold OpensEmpty
  rcases hexec : s.executed a with _ | ⟨cmd, j⟩
  · exact iff_of_true h (by simp)
  simp only [Option.mem_some_iff, exists_eq_left']
  rcases bookLeg_portfolio c us s.books (legOrder (s.priced j cmd.result) cmd.result).val cmd.result with
    ⟨hnone, hleg⟩ | ⟨hqty, hbuy, fee, tp, hleg⟩ | ⟨hqty, hsell, hleg⟩
  · rw [afterLeg, hleg]
    exact iff_of_true h fun hopen => hnone hopen.1
  · rw [afterLeg, hleg, h.openOrAccumulate_iff (moneyFromDoublePayload_nonneg hqty)]
    exact not_congr ⟨fun hopen => ⟨hqty, hbuy, hopen⟩, fun hopen => hopen.2.2⟩
  · rw [afterLeg, hleg]
    exact iff_of_true (h.sold (moneyFromDoublePayload_nonneg hqty))
      fun hopen => Bool.false_ne_true (hopen.2.1.symm.trans hsell)

/-! ### What is bought and what is sold -/

/-- What a slot's quantity grows by in a turn. -/
def growth (c : OmsConfig) (s : OrderManagerState) (a : Act) (i : SlotIdx) : ℤ :=
  ((s.act c a).val.books.portfolio.positions i).quantity.v - (s.books.portfolio.positions i).quantity.v

/-- The turn books a leg on the slot, of an order on that side. -/
def legOn (s : OrderManagerState) (a : Act) (i : SlotIdx) (isSell : Bool) : Bool :=
  (s.executed a).any fun x => (s.orders x.2).portfolioSlot = i && (s.orders x.2).type.isSell == isSell

def bought (c : OmsConfig) (i : SlotIdx) (s : OrderManagerState) (a : Act) : ℤ :=
  if s.legOn a i false then s.growth c a i else 0

def soldOff (c : OmsConfig) (i : SlotIdx) (s : OrderManagerState) (a : Act) : ℤ :=
  if s.legOn a i true then -s.growth c a i else 0

/-- Only legs move quantities: buys put in, sells take out. -/
theorem growth_eq (h : s.books.portfolio.Solvent) :
    s.growth c a i = bought c i s a - soldOff c i s a ∧ 0 ≤ bought c i s a ∧ 0 ≤ soldOff c i s a := by
  obtain ⟨us, hsame⟩ := act_portfolio c s a
  have hgrowth : s.growth c a i =
      ((s.afterLeg c us (s.executed a)).positions i).quantity.v - (s.books.portfolio.positions i).quantity.v := by
    rw [growth, (hsame i).quantity]
  unfold bought soldOff legOn
  generalize s.growth c a i = g at hgrowth ⊢
  rcases hexec : s.executed a with _ | ⟨cmd, j⟩
  · rw [hexec, afterLeg] at hgrowth
    simp only [Option.any_none, Bool.false_eq_true, if_false]
    omega
  obtain ⟨hother, hbuy, hsell⟩ :=
    bookLeg_quantity (c := c) us h (legOrder (s.priced j cmd.result) cmd.result).val cmd.result
  rw [hexec, afterLeg] at hgrowth
  simp only [Option.any_some]
  by_cases hslot : i = (s.orders j).portfolioSlot
  · subst hslot
    by_cases hside : (s.orders j).type.isSell = true
    · have hless : g ≤ 0 := hgrowth.trans_le (Int.sub_nonpos_of_le (hsell hside))
      simp [hside, hless]
    · replace hside := Bool.eq_false_of_not_eq_true hside
      have hmore : 0 ≤ g := (Int.sub_nonneg_of_le (hbuy hside)).trans_eq hgrowth.symm
      simp [hside, hmore]
  · have hsame' := hother i hslot
    simp only [Ne.symm hslot, decide_false, Bool.false_and, Bool.false_eq_true, if_false]
    omega

/-- What a turn buys into slot `i` and sells out of it. -/
def flows (c : OmsConfig) (i : SlotIdx) (s : OrderManagerState) (a : Act) : List (ℤ × ℤ) :=
  [(bought c i s a, soldOff c i s a)]

def totalBought (c : OmsConfig) (i : SlotIdx) (s : OrderManagerState) (as : List Act) : ℤ :=
  ((outputs (step c) (flows c i) s as).map Prod.fst).sum

def totalSold (c : OmsConfig) (i : SlotIdx) (s : OrderManagerState) (as : List Act) : ℤ :=
  ((outputs (step c) (flows c i) s as).map Prod.snd).sum

/-- In every run from boot no slot is in debt or sold more than was bought, and bit and quantity agree all along
    exactly if no turn opens a slot with nothing. -/
theorem quantities_of_run (c : OmsConfig) (startingBalance : Money) (tradeLog : Option (List (EmitRecord × Money)))
    (as : List Act) :
    let s := init startingBalance tradeLog
    (Steps (step c) (fun s a => ¬s.OpensEmpty a) s as ↔
        ∀ bs, bs <+: as → (run (step c) s bs).books.portfolio.Consistent) ∧
      (run (step c) s as).books.portfolio.Solvent ∧ ∀ i, totalSold c i s as ≤ totalBought c i s as := by
  have hstart : (init startingBalance tradeLog).books.portfolio.Consistent := fun i => by
    exact ⟨iff_of_false Bool.false_ne_true (lt_irrefl _), le_rfl⟩
  have hsolvent := (Portfolio.consistent_iff.1 hstart).1
  have hkeeps : ∀ (s : OrderManagerState) a, s.books.portfolio.Consistent →
      ((s.step c a).books.portfolio.Consistent ↔ ¬s.OpensEmpty a) := fun s a h => consistent_act_iff h
  have hsolvents : ∀ (s : OrderManagerState) a, s.books.portfolio.Solvent → (s.step c a).books.portfolio.Solvent :=
    fun s a h => solvent_act h
  refine ⟨steps_iff_prefixes hkeeps as hstart, run_inv hsolvents as hsolvent, fun i => ?_⟩
  have hstep : ∀ (s : OrderManagerState) a (ys : List (ℤ × ℤ)),
      s.books.portfolio.Solvent ∧
        (ys.map Prod.fst).sum - (ys.map Prod.snd).sum = (s.books.portfolio.positions i).quantity.v →
      True → (s.step c a).books.portfolio.Solvent ∧
        ((ys ++ flows c i s a).map Prod.fst).sum - ((ys ++ flows c i s a).map Prod.snd).sum =
          ((s.step c a).books.portfolio.positions i).quantity.v := by
    rintro s a ys ⟨h, hsum⟩ -
    have hgrowth : s.growth c a i = bought c i s a - soldOff c i s a := (growth_eq h).1
    refine ⟨solvent_act h, ?_⟩
    unfold growth at hgrowth
    simp only [flows, List.map_append, List.map_cons, List.map_nil, List.sum_append, List.sum_singleton]
    change _ = ((s.act c a).val.books.portfolio.positions i).quantity.v
    omega
  have hrun := run_outputs hstep as [] ⟨hsolvent, rfl⟩ (steps_of_forall fun _ _ => trivial)
  have hnonneg := (hrun.1 i).1
  have hsum := hrun.2
  rw [List.nil_append] at hsum
  unfold totalSold totalBought
  omega

/-- A live buy whose first leg is four billionths of a unit. -/
def sampleCrumb : List Act :=
  [.submit (sampleTrade firstIdx .marketBuy 2), .processFill (sampleLeg 1 0.000000004 false)]

theorem empty_slot_opened :
    ¬∀ as i, ((run (step (sampleLive [1])) (init .zero none) as).books.portfolio.active i = true ↔
      0 < ((run (step (sampleLive [1])) (init .zero none) as).books.portfolio.positions i).quantity.v) := by
  intro h
  have hpos := (h sampleCrumb firstIdx).1 (by decide +kernel)
  exact absurd hpos (by decide +kernel)

end OrderManagerState

end FoxTrader
