import Mathlib.Logic.Function.Basic
import Mathlib.Data.List.FinRange
import Mathlib.Data.List.Perm.Basic
import Mathlib.Data.Fintype.BigOperators
import Mathlib.Algebra.BigOperators.Group.Finset.Piecewise
import Mathlib.Tactic.Abel

/-! # Lanes

    Several producers each push onto a queue of their own and one consumer empties the queues in a
    fixed order, lowest first. What it sees is the concatenation of the lanes. A push onto one lane
    is a push onto the whole up to order (`perm_lanes_push`), and exactly so for what only ever goes
    into that lane (`filter_lanes_push`). Totals over per-lane rows move by the row that is written
    (`sum_update`). What each key makes of its own items is `foldOn`, which only depends on each
    key's items in their order, and so not on how the lanes are interleaved. -/

namespace Lib

open Function

variable {α : Type*} {m : ℕ}

/-- The contents of all lanes, lowest lane first. -/
def lanes (f : Fin m → List α) : List α := (List.finRange m).flatMap f

theorem mem_lanes {f : Fin m → List α} {x : α} : x ∈ lanes f ↔ ∃ i, x ∈ f i := by
  simp [lanes]

theorem lanes_eq_nil {f : Fin m → List α} (h : ∀ i, f i = []) : lanes f = [] := by
  simp [lanes, h]

/-- The lanes around lane `i`: writing it leaves what comes before and after it alone. -/
theorem lanes_split (f : Fin m → List α) (i : Fin m) :
    ∃ before after : List (Fin m), i ∉ before ∧ i ∉ after ∧
      ∀ xs, lanes (update f i xs) = before.flatMap f ++ (xs ++ after.flatMap f) := by
  obtain ⟨before, after, hsplit⟩ := List.append_of_mem (List.mem_finRange i)
  have hnodup := List.nodup_finRange m
  rw [hsplit, List.nodup_middle, List.nodup_cons, List.mem_append, not_or] at hnodup
  obtain ⟨⟨hbefore, hafter⟩, -⟩ := hnodup
  have hkeep : ∀ {l : List (Fin m)}, i ∉ l → ∀ xs, l.flatMap (update f i xs) = l.flatMap f := by
    intro l hl xs
    refine List.flatMap_congr fun j hj => update_of_ne ?_ ..
    rintro rfl
    exact hl hj
  refine ⟨before, after, hbefore, hafter, fun xs => ?_⟩
  rw [lanes, hsplit, List.flatMap_append, List.flatMap_cons, hkeep hbefore, hkeep hafter, update_self]

theorem lanes_update_self (f : Fin m → List α) (i : Fin m) : lanes (update f i (f i)) = lanes f := by
  rw [update_eq_self]

/-- A push onto one lane is a push onto the whole, up to order. -/
theorem perm_lanes_push (f : Fin m → List α) (i : Fin m) (x : α) :
    (lanes (update f i (f i ++ [x]))).Perm (x :: lanes f) := by
  obtain ⟨before, after, -, -, hlanes⟩ := lanes_split f i
  have hpush : (before.flatMap f ++ f i ++ x :: after.flatMap f).Perm
    (x :: (before.flatMap f ++ f i ++ after.flatMap f)) :=
    List.perm_middle
  rw [hlanes, ← lanes_update_self f i, hlanes]
  simpa only [List.append_assoc, List.singleton_append] using hpush

/-- Of what only ever goes into lane `i`, a push there is seen last. -/
theorem filter_lanes_push (f : Fin m → List α) (i : Fin m) (x : α) (p : α → Bool)
    (hp : p x = true → ∀ j, j ≠ i → ∀ y ∈ f j, p y = false) :
    (lanes (update f i (f i ++ [x]))).filter p = (lanes f).filter p ++ [x].filter p := by
  obtain ⟨before, after, -, hafter, hlanes⟩ := lanes_split f i
  rw [hlanes, ← lanes_update_self f i, hlanes]
  simp only [List.filter_append, List.append_assoc, List.append_cancel_left_eq]
  rcases hx : p x with _ | _
  · simp [hx]
  have hnone : (after.flatMap f).filter p = [] := by
    rw [List.filter_eq_nil_iff]
    intro y hy
    obtain ⟨j, hj, hy⟩ := List.mem_flatMap.1 hy
    refine ne_true_of_eq_false (hp hx j ?_ y hy)
    rintro rfl
    exact hafter hj
  rw [hnone, List.append_nil, List.nil_append]

/-- Of items that only ever go into the lane they name, each lane is what names it. -/
theorem filter_lanes_own {f : Fin m → List α} {lane : α → Fin m} (hown : ∀ i, ∀ x ∈ f i, lane x = i) (i : Fin m) :
    (lanes f).filter (fun x => lane x = i) = f i := by
  obtain ⟨before, after, hbefore, hafter, hlanes⟩ := lanes_split f i
  have hnone : ∀ {js : List (Fin m)}, i ∉ js → (js.flatMap f).filter (fun x => lane x = i) = [] := by
    intro js hjs
    rw [List.filter_eq_nil_iff]
    intro x hx
    obtain ⟨j, hj, hx⟩ := List.mem_flatMap.1 hx
    refine ne_true_of_eq_false (decide_eq_false fun hlane => hjs ?_)
    rwa [← hlane, hown j x hx]
  have hall : (f i).filter (fun x => lane x = i) = f i :=
    List.filter_eq_self.2 fun x hx => decide_eq_true (hown i x hx)
  rw [← lanes_update_self f i, hlanes, List.filter_append, List.filter_append, hnone hbefore, hnone hafter, hall,
    List.append_nil, List.nil_append]

/-! ### Keyed folds -/

/-! ### Phases -/

section phases

variable {κ : Type*} [DecidableEq κ] {key : α → κ} {first : α → Bool} {xs : List α}

/-- What comes first anyway is in place when it is put in front. -/
theorem filter_append_filter_not (h : xs.Pairwise fun x y => first y = true → first x = true) :
    xs.filter first ++ xs.filter (fun x => !first x) = xs := by
  induction xs with
  | nil => rfl
  | cons x xs ih =>
    obtain ⟨hx, hrest⟩ := List.pairwise_cons.1 h
    rcases hfirst : first x with _ | _
    · have hnone : xs.filter first = [] :=
        List.filter_eq_nil_iff.2 fun y hy hyes => Bool.false_ne_true (hfirst.symm.trans (hx y hy hyes))
      have hall : xs.filter (fun x => !first x) = xs := by
        have := ih hrest
        rwa [hnone, List.nil_append] at this
      rw [List.filter_cons_of_neg (by simp [hfirst]), List.filter_cons_of_pos (by simp [hfirst]), hnone, hall,
        List.nil_append]
    · rw [List.filter_cons_of_pos hfirst, List.filter_cons_of_neg (by simp [hfirst]), List.cons_append, ih hrest]

/-- Items put in front are put in front key by key: each key whose items come in phases has them in
    their order still. -/
theorem filter_phases (h : xs.Pairwise fun x y => key x = key y → first y = true → first x = true) (k : κ) :
    (xs.filter first ++ xs.filter fun x => !first x).filter (fun x => key x = k) = xs.filter fun x => key x = k := by
  have hown : (xs.filter fun x => key x = k).Pairwise fun x y => first y = true → first x = true := by
    rw [List.pairwise_filter]
    refine h.imp fun hxy hx hy => hxy ?_
    exact (of_decide_eq_true hx).trans (of_decide_eq_true hy).symm
  rw [List.filter_append, List.filter_comm, List.filter_comm (fun x => key x = k) fun x => !first x]
  exact filter_append_filter_not hown

end phases

section foldOn

variable {κ σ : Type*} [DecidableEq κ] (key : α → Option κ) (f : σ → α → σ) (s : σ)

/-- What each key makes of its own items. -/
def foldOn (xs : List α) (k : κ) : σ := (xs.filter fun x => key x = some k).foldl f s

theorem foldOn_congr {xs ys : List α}
    (h : ∀ k, xs.filter (fun x => key x = some k) = ys.filter fun x => key x = some k) :
    foldOn key f s xs = foldOn key f s ys :=
  funext fun k => by rw [foldOn, foldOn, h k]

/-- An item of no key changes nothing. -/
theorem foldOn_snoc_none {x : α} (hx : key x = none) (xs : List α) :
    foldOn key f s (xs ++ [x]) = foldOn key f s xs := by
  refine foldOn_congr key f s fun k => ?_
  have hnone : [x].filter (fun x => key x = some k) = [] := by simp [hx]
  rw [List.filter_append, hnone, List.append_nil]

/-- An item changes what its key has, and nothing else. -/
theorem foldOn_snoc_some {x : α} {k : κ} (hx : key x = some k) (xs : List α) :
    foldOn key f s (xs ++ [x]) = update (foldOn key f s xs) k (f (foldOn key f s xs k) x) := by
  funext j
  rcases eq_or_ne j k with rfl | hne
  · rw [update_self, foldOn, foldOn, List.filter_append, List.foldl_append]
    simp [hx]
  · have hother : [x].filter (fun x => key x = some j) = [] := by simp [hx, hne.symm]
    rw [update_of_ne hne, foldOn, foldOn, List.filter_append, hother, List.append_nil]

/-- Items rewritten in what neither the key nor the fold looks at. -/
theorem foldOn_map {g : α → α} (hkey : ∀ x, key (g x) = key x) (hf : ∀ s x, f s (g x) = f s x) (xs : List α) :
    foldOn key f s (xs.map g) = foldOn key f s xs := by
  funext k
  rw [foldOn, foldOn, List.filter_map, List.foldl_map]
  simp only [Function.comp_def, hkey, hf]

end foldOn

/-! ### Totals -/

/-- Writing one row moves the total by the difference. -/
theorem sum_update (f : Fin m → ℤ) (i : Fin m) (x : ℤ) : ∑ j, update f i x j = ∑ j, f j + (x - f i) := by
  rw [Finset.sum_update_of_mem (Finset.mem_univ i), ← Finset.add_sum_erase _ f (Finset.mem_univ i),
    Finset.sdiff_singleton_eq_erase]
  abel

/-- The same for a field of the rows. -/
theorem sum_update_field {ρ : Type*} (rows : Fin m → ρ) (i : Fin m) (row : ρ) (field : ρ → ℤ) :
    ∑ j, field (update rows i row j) = ∑ j, field (rows j) + (field row - field (rows i)) := by
  rw [← sum_update (fun j => field (rows j))]
  exact Finset.sum_congr rfl fun j _ => apply_update (fun _ => field) rows i row j

end Lib
