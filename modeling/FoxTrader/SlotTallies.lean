import FoxTrader.ScheduleIndependence

/-! # What the legs of each slot come to

    The legs of a slot leave their quantity, fee and profit behind whatever the legs of other slots do
    in between, so the positions and the ledger's figures need no more than the order of the legs within
    each slot. This is coarser than the desks of the nodes, which also know the rows and the numbers of
    the events, and holds with or without an aggregator. -/

namespace FoxTrader

open Lib Function

/-- The slot a leg is booked on. -/
def BookedLeg.ownSlot (l : BookedLeg) : Option SlotIdx := some l.slot

/-- What each slot makes of its own legs, from the positions `p` on. -/
def slotDesks (c : OmsConfig) (p : Portfolio) (ls : List BookedLeg) : SlotIdx → NodeDesk :=
  foldOn BookedLeg.ownSlot (NodeDesk.leg c) { portfolio := p, seq := 0, events := [] } ls

theorem slotDesks_snoc (c : OmsConfig) (p : Portfolio) (ls : List BookedLeg) (l : BookedLeg) :
    slotDesks c p (ls ++ [l]) = update (slotDesks c p ls) l.slot ((slotDesks c p ls l.slot).leg c l) :=
  foldOn_snoc_some BookedLeg.ownSlot (NodeDesk.leg c) _ rfl ls

/-- A figure of the ledger that a fill moves by a weight its number does not matter to. -/
structure LedgerFigure where
  figure : Ledger → ℤ
  weight : FillEvent → ℤ
  applied : ∀ l fe, (Ledger.applyFill l fe).Clean → figure (l.applyFill fe).val = figure l + weight fe
  unnumbered : ∀ fe seq, weight { fe with seq } = weight fe

namespace LedgerFigure

def total (F : LedgerFigure) : Composer.Total := .ofLedger F.figure F.weight F.applied

theorem net_unnumbered (fe : FillEvent) (seq : ℕ) : ({ fe with seq } : FillEvent).net.v = fe.net.v := rfl

theorem fee_unnumbered (fe : FillEvent) (seq : ℕ) : ({ fe with seq } : FillEvent).fee.v = fe.fee.v := rfl

theorem balance_applied (l : Ledger) (fe : FillEvent) (hc : (l.applyFill fe).Clean) :
    (l.applyFill fe).val.balance.v = l.balance.v + fe.net.v := (Ledger.applyFill_v hc).1

theorem realizedPnl_applied (l : Ledger) (fe : FillEvent) (hc : (l.applyFill fe).Clean) :
    (l.applyFill fe).val.realizedPnl.v = l.realizedPnl.v + fe.net.v := (Ledger.applyFill_v hc).2.1

theorem totalFees_applied (l : Ledger) (fe : FillEvent) (hc : (l.applyFill fe).Clean) :
    (l.applyFill fe).val.totalFees.v = l.totalFees.v + fe.fee.v := (Ledger.applyFill_v hc).2.2

def balance : LedgerFigure := ⟨(·.balance.v), (·.net.v), balance_applied, net_unnumbered⟩

def realizedPnl : LedgerFigure := ⟨(·.realizedPnl.v), (·.net.v), realizedPnl_applied, net_unnumbered⟩

def totalFees : LedgerFigure := ⟨(·.totalFees.v), (·.fee.v), totalFees_applied, fee_unnumbered⟩

end LedgerFigure

/-- The live books are what the slots made of the legs since the books `b₀`. -/
structure Tallied (c : OmsConfig) (b₀ : Books) (ls : List BookedLeg) (b : Books) : Prop where
  slots : ∀ slot, SameSlot False b.portfolio (slotDesks c b₀.portfolio ls slot).portfolio slot
  figures : ∀ F : LedgerFigure, F.total.settled b.composer =
    F.total.settled b₀.composer + ∑ slot, ((slotDesks c b₀.portfolio ls slot).events.map F.weight).sum

namespace Tallied

variable {c : OmsConfig} {b₀ b b' : Books} {ls ls' : List BookedLeg} {l : BookedLeg} {o : Order} {nowUs : Nat}
  {price qty : Money}

theorem start (c : OmsConfig) (b : Books) : Tallied c b [] b := by
  refine ⟨fun _ => .of_eq rfl rfl, fun F => ?_⟩
  have hzero : ∑ _slot : SlotIdx, ([].map F.weight).sum = 0 := Finset.sum_const_zero
  exact ((congrArg _ hzero).trans (add_zero _)).symm

theorem congr (h : Tallied c b₀ ls b) (hslots : ∀ slot, SameSlot False b'.portfolio b.portfolio slot)
    (hfigures : ∀ F : LedgerFigure, F.total.settled b'.composer = F.total.settled b.composer) : Tallied c b₀ ls b' :=
  ⟨fun slot => (hslots slot).trans (h.slots slot), fun F => (hfigures F).trans (h.figures F)⟩

/-- Only what the slots make of the legs matters. -/
theorem of_slotDesks (h : Tallied c b₀ ls b) (hdesks : slotDesks c b₀.portfolio ls' = slotDesks c b₀.portfolio ls) :
    Tallied c b₀ ls' b := by
  refine ⟨?_, ?_⟩ <;> rw [hdesks]
  · exact h.slots
  · exact h.figures

theorem booked (h : Tallied c b₀ ls b) (hleg : Books.Booked c False l b (slotDesks c b₀.portfolio ls l.slot) b') :
    Tallied c b₀ (ls ++ [l]) b' := by
  rcases hleg with hdesk | ⟨fe, record, q, hslot, -, -, hdesk, hcomposer, hclean, -, hsame, hothers, -⟩
  · exact h.of_slotDesks (by rw [slotDesks_snoc, hdesk, update_eq_self])
  have hdesks := slotDesks_snoc c b₀.portfolio ls l
  rw [hdesk] at hdesks
  refine ⟨fun i => ?_, fun F => ?_⟩
  · rw [hdesks]
    rcases eq_or_ne i l.slot with rfl | hne
    · rw [update_self]
      exact hsame
    · rw [update_of_ne hne]
      exact (SameSlot.of_eq (hothers i hne).1 (hothers i hne).2).trans (h.slots i)
  · rw [hcomposer, Composer.Total.settled_emitRecord, LedgerFigure.total,
      Composer.Total.settled_fillEmit_ofLedger hclean,
      ← LedgerFigure.total, h.figures F, hdesks,
      sum_update_field (slotDesks c b₀.portfolio ls) l.slot _ fun d => (d.events.map F.weight).sum]
    simp only [NodeDesk.post, List.map_append, List.sum_append, List.map_singleton, List.sum_singleton, F.unnumbered]
    ring

/-- Books with the same holdings and fills are told apart by no tally. -/
theorem congr_fills (h : Tallied c b₀ ls b) (hslots : ∀ slot, SameSlot False b'.portfolio b.portfolio slot)
    (hfills : b.composer.SameFills b'.composer) : Tallied c b₀ ls b' :=
  h.congr hslots fun F => F.total.settled_congr hfills.ledger hfills.nodes hfills.fillRings

open OrderManagerState in
/-- A turn's leg is one more leg, and nothing else it does matters to the tallies. -/
theorem act {s : OrderManagerState} {a : Act} (h : Tallied c b₀ ls s.books) (hc : (s.act c a).Clean) :
    Tallied c b₀ (ls ++ s.legsOf a) (s.act c a).val.books := by
  refine books_act_booked (Tallied c b₀ ls) (Tallied c b₀ (ls ++ s.legsOf a)) ?_ ?_ ?_ ?_ ?_ ?_ h hc
  · intro hidle hb
    rwa [hidle, List.append_nil]
  · intro b' hfills hportfolio _ hb
    exact hb.congr_fills (fun _ => .of_eq (by rw [hportfolio]) (by rw [hportfolio])) hfills
  · intro l hl b b' _ _ hb hbook
    rw [hl]
    exact hb.booked (hbook False _ (hb.slots l.slot))
  · intro b b' hfills hportfolio _ hb
    exact hb.congr_fills (fun _ => .of_eq (by rw [hportfolio]) (by rw [hportfolio])) hfills
  · exact fun _ b hb hclean => hb.congr (fun _ => .of_eq rfl rfl) fun F => F.total.settled_fillRingsApply hclean
  · exact fun b dc _ hb => hb.congr (applyDrag_sameSlot b.portfolio dc) fun _ => rfl

open OrderManagerState in
/-- The books after turns that saturate nothing are what the slots made of the turns' legs. -/
theorem run {s : OrderManagerState} (as : List Act)
    (hclean : Steps (step c) (fun s a => (s.act c a).Clean) s as) :
    Tallied c s.books (legs c s as) (Lib.run (step c) s as).books := by
  have hstep : ∀ (t : OrderManagerState) (a : Act) (ls : List BookedLeg), Tallied c s.books ls t.books →
      (t.act c a).Clean → Tallied c s.books (ls ++ t.legsOf a) (t.step c a).books := fun _ _ _ h hc => h.act hc
  exact run_outputs hstep as [] (start c s.books) hclean

end Tallied

/-- The totals of the ledger, which slots are held and how much in each are the same in both books. -/
structure SameTotals (b b' : Books) : Prop where
  balance : b.composer.ledger.balance = b'.composer.ledger.balance
  realizedPnl : b.composer.ledger.realizedPnl = b'.composer.ledger.realizedPnl
  totalFees : b.composer.ledger.totalFees = b'.composer.ledger.totalFees
  active : b.portfolio.active = b'.portfolio.active
  quantity : ∀ slot, (b.portfolio.positions slot).quantity = (b'.portfolio.positions slot).quantity

/-- Legs that come in the same order in every slot come to the same totals, once the same fills are
    waiting. -/
theorem Tallied.sameTotals {c : OmsConfig} {b₀ b b' : Books} {ls ls' : List BookedLeg} (h : Tallied c b₀ ls b)
    (h' : Tallied c b₀ ls' b')
    (hlegs : ∀ slot, ls.filter (fun l => l.slot = slot) = ls'.filter fun l => l.slot = slot)
    (hwaiting : b.composer.pendingFills = b'.composer.pendingFills) : SameTotals b b' := by
  have hdesks : slotDesks c b₀.portfolio ls = slotDesks c b₀.portfolio ls' := by
    refine foldOn_congr BookedLeg.ownSlot (NodeDesk.leg c) _ fun slot => ?_
    simpa only [BookedLeg.ownSlot, Option.some_inj] using hlegs slot
  replace h := h.of_slotDesks hdesks.symm
  have hfigure : ∀ F : LedgerFigure, F.figure b.composer.ledger = F.figure b'.composer.ledger := by
    intro F
    have hsettled := (h.figures F).trans (h'.figures F).symm
    rw [Composer.Total.settled, Composer.Total.settled, hwaiting] at hsettled
    exact add_right_cancel hsettled
  have hslot := fun slot => (h.slots slot).trans (h'.slots slot).symm
  exact ⟨Money.ext (hfigure .balance), Money.ext (hfigure .realizedPnl), Money.ext (hfigure .totalFees),
    funext fun slot => (hslot slot).active, fun slot => (hslot slot).quantity⟩

end FoxTrader
