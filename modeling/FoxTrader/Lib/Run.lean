import Mathlib.Logic.Basic
import Mathlib.Data.List.Basic

/-! # Runs of a deterministic step function

    A machine is a step function `step : σ → α → σ`: an action says which party moves and what it
    is handed, so a list of actions is one interleaving and every interleaving is such a list.
    `run` folds the step over it. The rules below are the only inductions over runs the rest of the
    development makes: an invariant kept by every step holds after every run (`run_inv`), one kept
    by every step that meets a side condition holds after every run whose steps all meet it
    (`run_inv_of_steps`), and either may speak of what the turns put out (`run_outputs`). -/

namespace Lib

variable {σ α : Type*}

/-- The state after the actions `as`, from `s`. -/
def run (step : σ → α → σ) (s : σ) (as : List α) : σ := as.foldl step s

@[simp] theorem run_nil (step : σ → α → σ) (s : σ) : run step s [] = s := rfl

@[simp] theorem run_cons (step : σ → α → σ) (s : σ) (a : α) (as : List α) :
    run step s (a :: as) = run step (step s a) as := rfl

theorem run_append (step : σ → α → σ) (s : σ) (as bs : List α) :
    run step s (as ++ bs) = run step (run step s as) bs := List.foldl_append ..

/-- Every step of the run of `as` from `s` meets `ok` in the state it starts from. -/
def Steps (step : σ → α → σ) (ok : σ → α → Prop) : σ → List α → Prop
  | _, [] => True
  | s, a :: as => ok s a ∧ Steps step ok (step s a) as

instance decidableSteps (step : σ → α → σ) (ok : σ → α → Prop) [∀ s a, Decidable (ok s a)] :
    ∀ s as, Decidable (Steps step ok s as)
  | _, [] => isTrue trivial
  | s, a :: as =>
    have := decidableSteps step ok (step s a) as
    inferInstanceAs (Decidable (ok s a ∧ Steps step ok (step s a) as))

/-- An invariant of the step is an invariant of the run. -/
theorem run_inv {step : σ → α → σ} {Inv : σ → Prop} (hstep : ∀ s a, Inv s → Inv (step s a)) :
    ∀ {s : σ} (as : List α), Inv s → Inv (run step s as)
  | _, [], h => h
  | _, a :: as, h => run_inv hstep as (hstep _ a h)

/-- An invariant kept by the steps that meet `ok` survives a run all of whose steps meet it. -/
theorem run_inv_of_steps {step : σ → α → σ} {ok : σ → α → Prop} {Inv : σ → Prop}
    (hstep : ∀ s a, Inv s → ok s a → Inv (step s a)) :
    ∀ {s : σ} (as : List α), Inv s → Steps step ok s as → Inv (run step s as)
  | _, [], h, _ => h
  | _, a :: as, h, hs => run_inv_of_steps hstep as (hstep _ a h hs.1) hs.2

/-- A side condition on the actions alone is met by a run if every action meets it. -/
theorem steps_of_forall {step : σ → α → σ} {ok : α → Prop} :
    ∀ {s : σ} {as : List α}, (∀ a ∈ as, ok a) → Steps step (fun _ a => ok a) s as
  | _, [], _ => trivial
  | _, a :: _, h => ⟨h a List.mem_cons_self, steps_of_forall fun b hb => h b (List.mem_cons_of_mem a hb)⟩

/-- Where a step keeps the invariant exactly if it meets `ok`, the runs all of whose steps meet `ok` are those
    that never leave it. -/
theorem steps_iff_prefixes {step : σ → α → σ} {ok : σ → α → Prop} {Inv : σ → Prop}
    (hstep : ∀ s a, Inv s → (Inv (step s a) ↔ ok s a)) :
    ∀ {s : σ} (as : List α), Inv s → (Steps step ok s as ↔ ∀ bs, bs <+: as → Inv (run step s bs))
  | s, [], h => by
    refine iff_of_true trivial fun bs hbs => ?_
    rw [List.prefix_nil.1 hbs]
    exact h
  | s, a :: as, h => by
    constructor
    · rintro ⟨hok, hsteps⟩ bs hbs
      rcases bs with _ | ⟨b, bs⟩
      · exact h
      · obtain ⟨rfl, htail⟩ := List.cons_prefix_cons.1 hbs
        exact (steps_iff_prefixes hstep as ((hstep s b h).2 hok)).1 hsteps bs htail
    · intro hall
      have hnext : Inv (step s a) := hall [a] (List.cons_prefix_cons.2 ⟨rfl, List.nil_prefix⟩)
      refine ⟨(hstep s a h).1 hnext, (steps_iff_prefixes hstep as hnext).2 fun bs hbs => ?_⟩
      exact hall (a :: bs) (List.cons_prefix_cons.2 ⟨rfl, hbs⟩)

/-- What a run puts out, turn after turn. -/
def outputs {β : Type*} (step : σ → α → σ) (out : σ → α → List β) : σ → List α → List β
  | _, [] => []
  | s, a :: as => out s a ++ outputs step out (step s a) as

theorem outputs_append {β : Type*} (step : σ → α → σ) (out : σ → α → List β) (s : σ) (as bs : List α) :
    outputs step out s (as ++ bs) = outputs step out s as ++ outputs step out (run step s as) bs := by
  induction as generalizing s with
  | nil => rfl
  | cons a as ih => simp only [List.cons_append, outputs, run_cons, ih, List.append_assoc]

/-- What holds of the state and what was put out so far, if the steps that meet `ok` keep it. -/
theorem run_outputs {β : Type*} {step : σ → α → σ} {ok : σ → α → Prop} {out : σ → α → List β}
    {Inv : σ → List β → Prop}
    (hstep : ∀ s a ys, Inv s ys → ok s a → Inv (step s a) (ys ++ out s a)) :
    ∀ {s : σ} (as : List α) (ys : List β), Inv s ys → Steps step ok s as →
      Inv (run step s as) (ys ++ outputs step out s as)
  | _, [], ys, h, _ => (List.append_nil ys).symm ▸ h
  | s, a :: as, ys, h, hs => by
    rw [run_cons, outputs, ← List.append_assoc]
    exact run_outputs hstep as (ys ++ out s a) (hstep s a ys h hs.1) hs.2

/-- What holds of the state and the actions so far. -/
theorem run_history {step : σ → α → σ} {ok : σ → α → Prop} (Inv : σ → List α → Prop)
    (hstep : ∀ s a as, Inv s as → ok s a → Inv (step s a) (as ++ [a])) :
    ∀ {s : σ} (as bs : List α), Inv s as → Steps step ok s bs → Inv (run step s bs) (as ++ bs)
  | _, as, [], h, _ => (List.append_nil as).symm ▸ h
  | s, as, b :: bs, h, hs => by
    rw [run_cons, List.append_cons]
    exact run_history Inv hstep (as ++ [b]) bs (hstep s b as h hs.1) hs.2

theorem steps_append {step : σ → α → σ} {ok : σ → α → Prop} {s : σ} {as bs : List α} :
    Steps step ok s (as ++ bs) ↔ Steps step ok s as ∧ Steps step ok (run step s as) bs := by
  induction as generalizing s with
  | nil => simp [Steps]
  | cons a as ih => simp only [List.cons_append, Steps, run_cons, ih, and_assoc]

theorem steps_and {step : σ → α → σ} {ok ok' : σ → α → Prop} {s : σ} {as : List α} :
    Steps step (fun s a => ok s a ∧ ok' s a) s as ↔ Steps step ok s as ∧ Steps step ok' s as := by
  induction as generalizing s with
  | nil => simp [Steps]
  | cons a as ih => simp only [Steps, ih, and_and_and_comm]

end Lib
