import Mathlib.Logic.Basic

/-! # Values computed under sticky fault flags

    Arithmetic that saturates instead of failing raises a bit in a status word and goes on. A
    `Flagged` value carries the bits raised on its way; binding ORs them, so they stick. A
    computation is `Clean` when no bit is up, which is what "no operation saturated" means, and
    `clean_bind` splits it into the same statement about its parts. -/

namespace Lib

/-- A value and the fault bits raised while computing it. -/
structure Flagged (w : Nat) (α : Type) where
  val : α
  flags : BitVec w

namespace Flagged

variable {w : Nat} {α β : Type}

instance : Monad (Flagged w) where
  pure x := ⟨x, 0⟩
  bind m f := ⟨(f m.val).val, m.flags ||| (f m.val).flags⟩

instance : LawfulMonad (Flagged w) := LawfulMonad.mk' _
  (fun _ => by simp only [Functor.map, Function.comp_apply]; exact congrArg _ (BitVec.or_zero ..))
  (fun _ _ => congrArg _ (BitVec.zero_or ..))
  (fun _ _ _ => congrArg _ (BitVec.or_assoc ..))

/-- No fault bit is up. -/
def Clean (m : Flagged w α) : Prop := m.flags = 0

instance (m : Flagged w α) : Decidable m.Clean := inferInstanceAs (Decidable (m.flags = 0))

@[simp] theorem pure_val (x : α) : (pure x : Flagged w α).val = x := rfl

@[simp] theorem pure_flags (x : α) : (pure x : Flagged w α).flags = 0 := rfl

@[simp] theorem bind_val (m : Flagged w α) (f : α → Flagged w β) :
    (m >>= f).val = (f m.val).val := rfl

@[simp] theorem bind_flags (m : Flagged w α) (f : α → Flagged w β) :
    (m >>= f).flags = m.flags ||| (f m.val).flags := rfl

@[simp] theorem map_val (f : α → β) (m : Flagged w α) : (f <$> m).val = f m.val := rfl

@[simp] theorem map_flags (f : α → β) (m : Flagged w α) : (f <$> m).flags = m.flags := BitVec.or_zero ..

theorem or_eq_zero {a b : BitVec w} : a ||| b = 0 ↔ a = 0 ∧ b = 0 := by
  refine ⟨fun h => ?_, fun ⟨ha, hb⟩ => by simp [ha, hb]⟩
  have hbit : ∀ i, a.getLsbD i = false ∧ b.getLsbD i = false := fun i => by
    have := congrArg (·.getLsbD i) h
    simpa using this
  constructor
  · exact BitVec.eq_of_getLsbD_eq fun i _ => by simp [(hbit i).1]
  · exact BitVec.eq_of_getLsbD_eq fun i _ => by simp [(hbit i).2]

@[simp] theorem clean_pure (x : α) : (pure x : Flagged w α).Clean := rfl

@[simp] theorem clean_bind {m : Flagged w α} {f : α → Flagged w β} :
    (m >>= f).Clean ↔ m.Clean ∧ (f m.val).Clean := or_eq_zero

@[simp] theorem clean_map {f : α → β} {m : Flagged w α} : (f <$> m).Clean ↔ m.Clean := by
  rw [Clean, map_flags, Clean]

/-- The rule for loops, for a claim about clean runs only (`κ` true) or about all of them: an
    invariant of the state and the items to come holds of the state a loop ends in. -/
theorem foldlM_inv_of {σ : Type} {f : σ → α → Flagged w σ} {κ : Prop} (Inv : σ → List α → Prop)
    (hstep : ∀ s a l, Inv s (a :: l) → (κ → (f s a).Clean) → Inv (f s a).val l) :
    ∀ (l : List α) {s : σ}, Inv s l → (κ → (l.foldlM f s).Clean) → Inv (l.foldlM f s).val []
  | [], _, h, _ => h
  | a :: l, s, h, hc => by
    rw [List.foldlM_cons, clean_bind] at hc
    rw [List.foldlM_cons, bind_val]
    exact foldlM_inv_of Inv hstep l (hstep s a l h fun hκ => (hc hκ).1) fun hκ => (hc hκ).2

/-- An invariant of the state and the items to come, kept by every clean turn, holds of the state a
    clean loop ends in. -/
theorem foldlM_inv {σ : Type} {f : σ → α → Flagged w σ} (Inv : σ → List α → Prop)
    (hstep : ∀ s a l, Inv s (a :: l) → (f s a).Clean → Inv (f s a).val l) (l : List α) {s : σ} (h : Inv s l)
    (hc : (l.foldlM f s).Clean) : Inv (l.foldlM f s).val [] :=
  foldlM_inv_of Inv (fun s a l h hclean => hstep s a l h (hclean trivial)) l h fun _ => hc

/-- The same for what every turn keeps, clean or not. -/
theorem foldlM_keeps {σ : Type} {f : σ → α → Flagged w σ} (Inv : σ → Prop)
    (hstep : ∀ s a, Inv s → Inv (f s a).val) (l : List α) {s : σ} (h : Inv s) : Inv (l.foldlM f s).val :=
  foldlM_inv_of (fun s _ => Inv s) (fun s a _ h _ => hstep s a h) l h False.elim

end Flagged

end Lib
