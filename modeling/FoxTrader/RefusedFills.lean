import FoxTrader.OrderOutcomes

/-! # What a refused result leaves behind

    `ProcessFillCommand` refuses a stray fill, a result for an order it does not know, one for an
    order already filled, and, at the tripwire, a response with a quantity after legs were booked.
    The first three come before anything is written. The tripwire comes after: the venue's name for
    the order and the refused leg's price are then on the record already. -/

namespace FoxTrader.OrderManagerState

open Lib Function

variable {c : OmsConfig} {s : OrderManagerState} {cmd : Command}

/-- The slot whose order refuses the command at the tripwire. -/
def tripping (s : OrderManagerState) (cmd : Command) : Option OrderSlot :=
  if cmd.orderId = 0 ∧ cmd.type = .wsFill then none
  else
    (s.occupant cmd.orderId).filter fun i =>
      decide ((s.orders i).state ≠ .filled) && cmd.result.success && !isAck cmd.result && restAfterLegs cmd
        (s.orders i)

/-- A command that is not processed does nothing but what the tripwire has let through. -/
theorem processFillCommand_refused (hrefused : (s.processFillCommand c cmd).val.2 = false) :
    s.processFillCommand c cmd =
      match s.tripping cmd with
      | none => pure (s, false)
      | some i => pure (s.setOrder i (s.priced i cmd.result), false) := by
  unfold processFillCommand at hrefused ⊢
  unfold tripping
  split
  next => rfl
  next hnamed =>
    rw [if_neg hnamed] at hrefused
    rcases hocc : s.occupant cmd.orderId with _ | i
    · rfl
    simp only [hocc] at hrefused
    simp only [Option.filter_some]
    by_cases hfilled : (s.orders i).state = .filled
    · simp only [hfilled, if_true, ne_eq, not_true, decide_false, Bool.false_and, Bool.false_eq_true, if_false]
    simp only [hfilled, if_false] at hrefused ⊢
    rcases hsuccess : cmd.result.success with _ | _
    · rw [hsuccess] at hrefused
      exact absurd hrefused Bool.false_ne_true.symm
    simp only [hsuccess, if_true, processExecution] at hrefused ⊢
    by_cases hack : isAck cmd.result = true
    · rw [if_pos hack] at hrefused
      exact absurd hrefused Bool.false_ne_true.symm
    have htrips : restAfterLegs cmd (s.priced i cmd.result) = restAfterLegs cmd (s.orders i) := rfl
    rw [if_neg hack] at hrefused ⊢
    by_cases htrip : restAfterLegs cmd (s.orders i) = true
    · simp [htrips, htrip, hfilled, hack]
    · rw [htrips, if_neg htrip] at hrefused
      exact absurd hrefused Bool.false_ne_true.symm

/-- The tripwire stays out of it, or the record carries the refused name and price already. -/
def RefusalSilent (s : OrderManagerState) (cmd : Command) : Prop :=
  ∀ i, s.tripping cmd = some i →
    (s.orders i).exchangeId = cmd.result.exchangeId ∧
      (s.orders i).avgFillPrice = moneyFromDoublePayload cmd.result.avgFillPrice

theorem setOrder_eq_iff {i : OrderSlot} {o : Order} : s.setOrder i o = s ↔ o = s.orders i := by
  constructor
  · intro h
    have horder := congrFun (congrArg orders h) i
    exact (update_self ..).symm.trans horder
  · rintro rfl
    rw [setOrder, update_eq_self]

theorem priced_eq_iff {i : OrderSlot} {r : OrderResult} :
    s.priced i r = s.orders i ↔
      (s.orders i).exchangeId = r.exchangeId ∧ (s.orders i).avgFillPrice = moneyFromDoublePayload r.avgFillPrice := by
  unfold priced named
  generalize s.orders i = o
  constructor
  · intro h
    exact ⟨(congrArg Order.exchangeId h).symm, (congrArg Order.avgFillPrice h).symm⟩
  · rintro ⟨hname, hprice⟩
    rw [← hname, ← hprice]

/-- A refused command leaves the state as it was exactly when the tripwire had nothing to let
    through. -/
theorem refused_unchanged_iff (hrefused : (s.processFillCommand c cmd).val.2 = false) :
    s.processFillCommand c cmd = pure (s, false) ↔ s.RefusalSilent cmd := by
  rw [processFillCommand_refused hrefused]
  unfold RefusalSilent
  rcases htrip : s.tripping cmd with _ | i
  · exact iff_of_true rfl nofun
  · simp only [Option.some_inj]
    constructor
    · rintro h _ rfl
      exact priced_eq_iff.1 (setOrder_eq_iff.1 (congrArg (fun m => m.val.1) h))
    · intro h
      rw [priced_eq_iff.2 (h i rfl), setOrder_eq_iff.2 rfl]

/-- A live buy of two units, one of them executed so far. -/
def sampleHalfFilled : List Act :=
  [.submit (sampleTrade firstIdx .marketBuy 2), .processFill (sampleLeg 1 1 false)]

/-- The response to its submission, late, for the whole of it at 100. -/
def sampleLateResponse : Command := { sampleLeg 1 2 true with type := .fillResult }

/-- The same, for another price. -/
def sampleLateDearer : Command :=
  { sampleLateResponse with result := { sampleLateResponse.result with avgFillPrice := 200 } }

theorem refused_unchanged_iff_late :
    let s := run (step (sampleLive [1])) (init .zero none) sampleHalfFilled
    s.processFillCommand (sampleLive [1]) sampleLateResponse = pure (s, false) ↔ s.RefusalSilent sampleLateResponse :=
  refused_unchanged_iff (by decide +kernel)

/-- The leg is refused and its price is taken. -/
theorem refused_price_taken :
    ¬(∀ (acts : List Act) (cmd : Command),
      ((run (step (sampleLive [1])) (init .zero none) acts).processFillCommand (sampleLive [1]) cmd).val.2 = false →
      ((run (step (sampleLive [1])) (init .zero none) acts).processFillCommand (sampleLive [1]) cmd).val.1 =
        run (step (sampleLive [1])) (init .zero none) acts) := by
  intro h
  have hkept := h sampleHalfFilled sampleLateDearer (by decide +kernel)
  have hprice := congrArg (fun s => (s.orders firstIdx).avgFillPrice) hkept
  revert hprice
  decide +kernel

end FoxTrader.OrderManagerState
