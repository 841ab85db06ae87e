import FoxTrader.Lib.Run

/-! # What goes into a machine and what comes out

    A machine that takes items in and hands them out holds some of them in order. If every step moves
    its items between the three, so does every run (`run_flow`): what came in is what went out and,
    behind it, what is still held. A machine whose turns use up a budget that other steps may fill
    again is done once it had turns enough (`turns_le`). -/

namespace Lib

variable {σ α β : Type*} {step : σ → α → σ}

section Flow

variable {input output : σ → α → List β} {held : σ → List β} {Inv : σ → Prop}

/-- Every step hands out from the front of what is held and takes in at its back. -/
theorem run_flow (hinv : ∀ s a, Inv s → Inv (step s a))
    (hstep : ∀ s a, Inv s → held s ++ input s a = output s a ++ held (step s a)) :
    ∀ {s : σ} (as : List α), Inv s →
      held s ++ outputs step input s as = outputs step output s as ++ held (run step s as)
  | s, [], _ => List.append_nil _
  | s, a :: as, h => by
    calc held s ++ outputs step input s (a :: as)
        = held s ++ input s a ++ outputs step input (step s a) as := (List.append_assoc ..).symm
      _ = output s a ++ (held (step s a) ++ outputs step input (step s a) as) := by
          rw [hstep s a h, List.append_assoc]
      _ = output s a ++ (outputs step output (step s a) as ++ held (run step (step s a) as)) := by
          rw [run_flow hinv hstep as (hinv s a h)]
      _ = outputs step output s (a :: as) ++ held (run step s (a :: as)) := (List.append_assoc ..).symm

end Flow

/-- From states that put nothing out and stay so, nothing comes out. -/
theorem outputs_eq_nil {output : σ → α → List β} {Inv : σ → Prop} (hinv : ∀ s a, Inv s → Inv (step s a))
    (hstep : ∀ s a, Inv s → output s a = []) : ∀ {s : σ} (as : List α), Inv s → outputs step output s as = []
  | _, [], _ => rfl
  | s, a :: as, h => by rw [outputs, hstep s a h, outputs_eq_nil hinv hstep as (hinv s a h), List.append_nil]

/-- A run that gets somewhere it did not start gets there by one of its steps. -/
theorem exists_crossing {Done : σ → Prop} {s : σ} {as : List α} (hs : ¬Done s) (hdone : Done (run step s as)) :
    ∃ before a after, as = before ++ a :: after ∧ ¬Done (run step s before) ∧ Done (step (run step s before) a) := by
  induction as generalizing s with
  | nil => exact absurd hdone hs
  | cons a as ih =>
    by_cases hnext : Done (step s a)
    · exact ⟨[], a, as, rfl, hs, hnext⟩
    · obtain ⟨before, b, after, rfl, hbefore, hb⟩ := ih hnext hdone
      exact ⟨a :: before, b, after, rfl, hbefore, hb⟩

section Turns

variable {Inv Done : σ → Prop} {budget : σ → ℕ} {turn refill : σ → α → ℕ}

/-- What each action adds up to over a run. -/
def total (step : σ → α → σ) (f : σ → α → ℕ) : σ → List α → ℕ
  | _, [] => 0
  | s, a :: as => f s a + total step f (step s a) as

/-- Until it is done, each turn is paid for out of the budget. -/
theorem turns_le (hinv : ∀ s a, Inv s → Inv (step s a)) (hdone : ∀ s a, Done s → Done (step s a))
    (hstep : ∀ s a, Inv s → ¬Done (step s a) → budget (step s a) + turn s a ≤ budget s + refill s a) :
    ∀ {s : σ} (as : List α), Inv s → ¬Done (run step s as) →
      budget (run step s as) + total step turn s as ≤ budget s + total step refill s as
  | _, [], _, _ => Nat.le_refl _
  | s, a :: as, h, hlive => by
    have hfirst : ¬Done (step s a) := fun hd => hlive (run_inv hdone as hd)
    have hrest := turns_le hinv hdone hstep as (hinv s a h) hlive
    have hhead := hstep s a h hfirst
    rw [run_cons]
    simp only [total]
    omega

end Turns

end Lib
