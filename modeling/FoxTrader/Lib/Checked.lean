import Mathlib.Data.List.Forall2
import Mathlib.Data.List.Basic

/-! # Loops that may refuse

    Rules for loops in `Except`: what a loop that went through has made of each of its items
    (`mapM_ok_iff`), and that it goes through if every turn does from a state that meets an invariant
    (`foldlM_goes_through`). -/

namespace Lib

variable {ε α β σ : Type}

@[simp]
theorem ok_bind (a : α) (f : α → Except ε β) : (Except.ok a >>= f) = f a := rfl

/-- A step that went through came from one that did. -/
theorem bind_ok {x : Except ε α} {f : α → Except ε β} {b : β} (h : (x >>= f) = .ok b) :
    ∃ a, x = .ok a ∧ f a = .ok b := by
  cases x with
  | error e => nomatch h
  | ok a => exact ⟨a, rfl, h⟩

theorem ok_ne_error (a : α) (e : ε) : (Except.ok a : Except ε α) ≠ .error e := by
  intro h
  cases h

/-- A step does not refuse for a reason neither of its parts has. -/
theorem bind_ne_error {x : Except ε α} {f : α → Except ε β} {e : ε} (hx : x ≠ .error e)
    (hf : ∀ a, x = .ok a → f a ≠ .error e) :
    (x >>= f) ≠ .error e := by
  cases x with
  | error e' => exact fun h => hx (congrArg Except.error (Except.error.inj h))
  | ok a => exact hf a rfl

theorem mapM_ne_error {f : α → Except ε β} {e : ε} {l : List α} (h : ∀ x ∈ l, f x ≠ .error e) :
    l.mapM f ≠ .error e := by
  induction l with
  | nil =>
    rw [List.mapM_nil]
    exact ok_ne_error _ _
  | cons x xs ih =>
    rw [List.mapM_cons]
    refine bind_ne_error (h x List.mem_cons_self) fun y _ => ?_
    refine bind_ne_error (ih fun x hx => h x (List.mem_cons_of_mem _ hx)) fun ys _ => ?_
    exact ok_ne_error _ _

theorem foldlM_ne_error {f : σ → α → Except ε σ} {e : ε} {l : List α} (h : ∀ s, ∀ x ∈ l, f s x ≠ .error e) (s : σ) :
    l.foldlM f s ≠ .error e := by
  induction l generalizing s with
  | nil => exact ok_ne_error _ _
  | cons x xs ih =>
    rw [List.foldlM_cons]
    exact bind_ne_error (h s x List.mem_cons_self) fun t _ => ih (fun s x hx => h s x (List.mem_cons_of_mem _ hx)) t

theorem mapM_ok_iff {f : α → Except ε β} {xs : List α} {ys : List β} :
    xs.mapM f = .ok ys ↔ List.Forall₂ (fun x y => f x = .ok y) xs ys := by
  induction xs generalizing ys with
  | nil =>
    rw [List.mapM_nil, List.forall₂_nil_left_iff]
    exact ⟨fun h => (Except.ok.inj h).symm, fun h => congrArg Except.ok h.symm⟩
  | cons x xs ih =>
    rw [List.mapM_cons, List.forall₂_cons_left_iff]
    constructor
    · intro h
      obtain ⟨y, hy, h⟩ := bind_ok h
      obtain ⟨rest, hrest, h⟩ := bind_ok h
      exact ⟨y, rest, hy, ih.1 hrest, (Except.ok.inj h).symm⟩
    · rintro ⟨y, rest, hy, hrest, rfl⟩
      rw [hy, ih.2 hrest]
      rfl

/-- A loop all of whose items go through. -/
theorem exists_mapM_ok {f : α → Except ε β} {l : List α} (h : ∀ x ∈ l, ∃ y, f x = .ok y) :
    ∃ ys, l.mapM f = .ok ys := by
  induction l with
  | nil => exact ⟨[], rfl⟩
  | cons x xs ih =>
    obtain ⟨y, hy⟩ := h x List.mem_cons_self
    obtain ⟨ys, hys⟩ := ih fun x hx => h x (List.mem_cons_of_mem _ hx)
    refine ⟨y :: ys, ?_⟩
    rw [List.mapM_cons, hy, hys]
    rfl

/-- A loop goes through if every turn goes through from a state that meets the invariant. -/
theorem foldlM_goes_through {f : σ → α → Except ε σ} (Inv : σ → List α → Prop) (total : List α)
    (hstep : ∀ s done x rest, total = done ++ x :: rest → Inv s done → ∃ s', f s x = .ok s' ∧ Inv s' (done ++ [x]))
    {s₀ : σ} (h₀ : Inv s₀ []) : ∃ s, total.foldlM f s₀ = .ok s ∧ Inv s total := by
  have hrest : ∀ (xs done : List α) (s : σ), total = done ++ xs → Inv s done → ∃ s', xs.foldlM f s = .ok s' ∧
    Inv s' total := by
    intro xs
    induction xs with
    | nil =>
      rintro done s rfl h
      exact ⟨s, rfl, by rwa [List.append_nil]⟩
    | cons x xs ih =>
      intro done s htotal h
      obtain ⟨t, ht, hinv⟩ := hstep s done x xs htotal h
      obtain ⟨s', hs', hend⟩ := ih (done ++ [x]) t (by rw [htotal, List.append_assoc, List.singleton_append]) hinv
      exact ⟨s', by rw [List.foldlM_cons, ht]; exact hs', hend⟩
  exact hrest total [] s₀ rfl h₀

/-- A loop that does not refuse for a reason is any loop that has the same turns where they do not. -/
theorem foldlM_congr_of_ne_error {f g : σ → α → Except ε σ} {e : ε}
    (h : ∀ s x, f s x ≠ .error e → g s x = f s x) {l : List α}
    {s : σ} (hl : l.foldlM f s ≠ .error e) : l.foldlM g s = l.foldlM f s := by
  induction l generalizing s with
  | nil => rfl
  | cons x xs ih =>
    rw [List.foldlM_cons] at hl ⊢
    rw [List.foldlM_cons]
    have hx : f s x ≠ .error e := fun hx => hl (by rw [hx]; rfl)
    rw [h s x hx]
    cases hfx : f s x with
    | error e' => rfl
    | ok t =>
      rw [hfx, ok_bind] at hl
      exact ih hl

/-- What every turn that goes through preserves, holds at the end. -/
theorem foldlM_ok_inv {f : σ → α → Except ε σ} (Inv : σ → List α → Prop) (total : List α)
    (hstep : ∀ s done x rest s', total = done ++ x :: rest → Inv s done → f s x = .ok s' → Inv s' (done ++ [x]))
    {s₀ s : σ} (h₀ : Inv s₀ []) (h : total.foldlM f s₀ = .ok s) : Inv s total := by
  have hrest : ∀ (xs done : List α) (t : σ), total = done ++ xs → Inv t done → xs.foldlM f t = .ok s →
    Inv s total := by
    intro xs
    induction xs with
    | nil =>
      rintro done t rfl hinv ht
      obtain rfl := Except.ok.inj ht
      rwa [List.append_nil]
    | cons x xs ih =>
      intro done t htotal hinv ht
      rw [List.foldlM_cons] at ht
      obtain ⟨t', ht', hfold⟩ := bind_ok ht
      exact ih (done ++ [x]) t' (by rw [htotal, List.append_assoc, List.singleton_append])
        (hstep t done x xs t' htotal hinv ht') hfold
  exact hrest total [] s₀ rfl h₀ h

end Lib
