import Mathlib.Data.List.Infix
import Mathlib.Logic.Function.Basic

/-! # Files that only grow

    What the files of a directory hold is a list for each name. It is kept if whatever a file held is
    held afterwards under some name, no two files under the same, with at most more behind it. Appending
    keeps it, and so does moving a file to a name under which nothing is held. -/

namespace Lib

namespace AppendOnly

open Function

variable {κ ρ : Type*}

def Kept (d d' : κ → List ρ) : Prop :=
  ∃ move : κ → κ, (∀ p q, d p ≠ [] → d q ≠ [] → move p = move q → p = q) ∧ ∀ p, d p ≠ [] → d p <+: d' (move p)

/-- A file under another name. -/
def moved [DecidableEq κ] (d : κ → List ρ) (src dst : κ) : κ → List ρ := update (update d dst (d src)) src []

variable {d d' d'' : κ → List ρ}

theorem kept_of_grows (h : ∀ p, d p <+: d' p) : Kept d d' := ⟨id, fun _ _ _ _ heq => heq, fun p _ => h p⟩

theorem Kept.refl (d : κ → List ρ) : Kept d d := kept_of_grows fun _ => List.prefix_rfl

theorem Kept.trans (h : Kept d d') (h' : Kept d' d'') : Kept d d'' := by
  obtain ⟨move, hinj, hmove⟩ := h
  obtain ⟨move', hinj', hmove'⟩ := h'
  have hne : ∀ p, d p ≠ [] → d' (move p) ≠ [] := fun p hp hnil => hp (List.prefix_nil.1 (hnil ▸ hmove p hp))
  refine ⟨fun p => move' (move p), fun p q hp hq heq => ?_, fun p hp => ?_⟩
  · exact hinj p q hp hq (hinj' _ _ (hne p hp) (hne q hq) heq)
  · exact (hmove p hp).trans (hmove' _ (hne p hp))

section Moved

variable [DecidableEq κ] {src dst : κ}

theorem moved_dst (hne : src ≠ dst) : moved d src dst dst = d src := by
  rw [moved, update_of_ne hne.symm, update_self]

theorem moved_src : moved d src dst src = [] := update_self ..

theorem moved_of_ne {p : κ} (hsrc : p ≠ src) (hdst : p ≠ dst) : moved d src dst p = d p := by
  rw [moved, update_of_ne hsrc, update_of_ne hdst]

theorem kept_moved (hne : src ≠ dst) (hfree : d dst = []) : Kept d (moved d src dst) := by
  refine ⟨fun p => if p = src then dst else p, fun p q hp hq heq => ?_, fun p hp => ?_⟩
  · dsimp only at heq
    have hpd : p ≠ dst := fun h => hp (h ▸ hfree)
    have hqd : q ≠ dst := fun h => hq (h ▸ hfree)
    by_cases hps : p = src
    · by_cases hqs : q = src
      · rw [hps, hqs]
      · rw [if_pos hps, if_neg hqs] at heq
        exact absurd heq.symm hqd
    · by_cases hqs : q = src
      · rw [if_neg hps, if_pos hqs] at heq
        exact absurd heq hpd
      · rwa [if_neg hps, if_neg hqs] at heq
  · dsimp only
    by_cases hps : p = src
    · rw [if_pos hps, moved_dst hne, hps]
    · rw [if_neg hps, moved_of_ne hps fun h => hp (h ▸ hfree)]

end Moved

end AppendOnly

end Lib
