import Mathlib.Data.List.DropRight

/-! # The run a list ends in

    How often a value stands at the end of a list without another after it. Appending the value
    lengthens the run by one, appending another ends it, so that a counter that is set back at every
    other value counts the run. -/

namespace Lib

variable {α : Type*} [DecidableEq α] {r x : α} {l : List α} {n : ℕ}

/-- How many of the last elements are `r`, without another between. -/
def trailingRun (r : α) (l : List α) : ℕ := (l.rtakeWhile (· = r)).length

@[simp] theorem trailingRun_nil (r : α) : trailingRun r [] = 0 := rfl

theorem trailingRun_snoc_self (r : α) (l : List α) : trailingRun r (l ++ [r]) = trailingRun r l + 1 := by
  rw [trailingRun, List.rtakeWhile_concat_pos (fun x => decide (x = r)) l r (decide_eq_true rfl), List.length_append]
  rfl

theorem trailingRun_snoc_of_ne (h : x ≠ r) (l : List α) : trailingRun r (l ++ [x]) = 0 := by
  rw [trailingRun, List.rtakeWhile_concat_neg (fun x => decide (x = r)) l x (by simpa using h)]
  rfl

/-- The last `n` are `r` exactly when the run is that long. -/
theorem replicate_suffix_iff : List.replicate n r <:+ l ↔ n ≤ trailingRun r l := by
  induction l using List.reverseRecOn generalizing n with
  | nil => simp
  | append_singleton l x ih =>
    cases n with
    | zero => simp
    | succ n =>
      have hlen : [r].length = [x].length := rfl
      rw [List.replicate_succ', List.suffix_append_inj_of_length_eq hlen]
      by_cases hx : x = r
      · subst hx
        rw [trailingRun_snoc_self]
        simpa using ih
      · rw [trailingRun_snoc_of_ne hx]
        simp [Ne.symm hx]

variable {s : α} {l' : List α}

/-- Two runs that a list ends in are of one value. -/
theorem eq_of_replicate_suffix {m : ℕ} (hn : 0 < n) (hm : 0 < m) (h : List.replicate n r <:+ l)
    (h' : List.replicate m s <:+ l) : r = s := by
  rw [replicate_suffix_iff] at h h'
  induction l using List.reverseRecOn with
  | nil => exact absurd h (by rw [trailingRun_nil]; omega)
  | append_singleton l x _ =>
    have hr : x = r := by
      by_contra hx
      rw [trailingRun_snoc_of_ne hx] at h
      omega
    have hs : x = s := by
      by_contra hx
      rw [trailingRun_snoc_of_ne hx] at h'
      omega
    rw [← hr, hs]

omit [DecidableEq α] in
/-- A run longer than the second part fills it and reaches into the first. -/
theorem replicate_suffix_append (hlt : l'.length < n) (h : List.replicate n r <:+ l ++ l') :
    List.replicate (n - l'.length) r <:+ l ∧ ∀ x ∈ l', x = r := by
  have hsplit : List.replicate n r = List.replicate (n - l'.length) r ++ List.replicate l'.length r := by
    rw [List.replicate_append_replicate, Nat.sub_add_cancel hlt.le]
  rw [hsplit, List.suffix_append_inj_of_length_eq List.length_replicate] at h
  refine ⟨h.1, fun x hx => ?_⟩
  rw [← h.2] at hx
  exact List.eq_of_mem_replicate hx

/-- More of the same after a run. -/
theorem replicate_suffix_append_replicate (h : List.replicate n r <:+ l) (k : ℕ) :
    List.replicate n r <:+ l ++ List.replicate k r := by
  induction k with
  | zero => simpa using h
  | succ k ih =>
    rw [replicate_suffix_iff] at ih ⊢
    rw [List.replicate_succ', ← List.append_assoc, trailingRun_snoc_self]
    exact ih.trans (Nat.le_succ _)

end Lib
