import Mathlib.Algebra.Order.Group.Int
import Mathlib.Algebra.BigOperators.Group.List.Basic
import Mathlib.Data.List.Nodup
import Mathlib.Data.List.Perm.Subperm
import Mathlib.Order.MinMax
import Mathlib.Tactic.Ring

/-! # Sliding windows

    The window of a list is its last `w` items. A new item is appended to it, and from a full window
    the oldest falls out, so that a sum over the window moves by one term or two, and a sum weighted by
    the position in the window by one more sum. What can still become the least of a window whose
    oldest item falls out are the positions of a staircase: in order of arrival, with values that never
    fall, and for every position of the window one no earlier and no larger. A step keeps a staircase
    by dropping the position that falls out and every step above the new item. -/

namespace Lib

variable {α : Type*} {w : ℕ}

def window (w : ℕ) (l : List α) : List α := l.drop (l.length - w)

theorem length_window (w : ℕ) (l : List α) : (window w l).length = min l.length w := by
  rw [window, List.length_drop]
  omega

/-- Before the window is full it is the whole list. -/
theorem window_of_le {l : List α} (h : l.length ≤ w) : window w l = l := by
  rw [window, Nat.sub_eq_zero_of_le h, List.drop_zero]

theorem mem_window {l : List α} {x : α} : x ∈ window w l ↔ ∃ k, l.length - w ≤ k ∧ l[k]? = some x := by
  rw [window, List.mem_iff_getElem?]
  constructor
  · rintro ⟨i, hi⟩
    exact ⟨l.length - w + i, Nat.le_add_right .., by rwa [List.getElem?_drop] at hi⟩
  · rintro ⟨k, hk, hx⟩
    exact ⟨k - (l.length - w), by rwa [List.getElem?_drop, Nat.add_sub_cancel' hk]⟩

/-- From a full window the oldest falls out. -/
theorem window_snoc_of_le {l : List α} (hw : 0 < w) (h : w ≤ l.length) :
    ∃ x rest, l[l.length - w]? = some x ∧ window w l = x :: rest ∧ ∀ y, window w (l ++ [y]) = rest ++ [y] := by
  have hlt : l.length - w < l.length := by omega
  refine ⟨l[l.length - w], l.drop (l.length - w + 1), List.getElem?_eq_getElem hlt, List.drop_eq_getElem_cons hlt,
    fun y => ?_⟩
  have hlen : (l ++ [y]).length - w = l.length - w + 1 := by
    rw [List.length_append, List.length_singleton]
    omega
  rw [window, hlen, List.drop_append_of_le_length hlt]

/-- Into one that is not full the new item comes alone. -/
theorem window_snoc_of_lt {l : List α} (h : l.length < w) (y : α) : window w (l ++ [y]) = window w l ++ [y] := by
  rw [window_of_le h.le, window_of_le (by rw [List.length_append, List.length_singleton]; exact h)]

/-! ### Sums -/

/-- The sum of the numbers, each times its position. -/
def weightedSum (l : List ℤ) : ℤ := (l.zipIdx.map fun p => (p.2 : ℤ) * p.1).sum

theorem weightedSum_snoc (l : List ℤ) (x : ℤ) : weightedSum (l ++ [x]) = weightedSum l + l.length * x := by
  simp [weightedSum, List.zipIdx_append]

/-- Counting the positions from `k` adds the sum `k` times. -/
theorem sum_zipIdx (l : List ℤ) (k : ℕ) :
    ((l.zipIdx k).map fun p => (p.2 : ℤ) * p.1).sum = weightedSum l + k * l.sum := by
  unfold weightedSum
  induction l generalizing k with
  | nil => simp
  | cons a l ih =>
    simp only [List.zipIdx_cons, List.map_cons, List.sum_cons, ih (k + 1), ih (0 + 1)]
    push_cast
    ring

/-- Without its first the numbers move down by one position. -/
theorem weightedSum_cons (a : ℤ) (l : List ℤ) : weightedSum (a :: l) = weightedSum l + l.sum := by
  have h := sum_zipIdx l (0 + 1)
  rw [weightedSum, List.zipIdx_cons, List.map_cons, List.sum_cons, h]
  push_cast
  ring

/-! ### Staircases -/

/-- Positions of `[lo, hi)` in order, with keys that never fall, and for each position one no earlier whose
    key is no larger. -/
structure Staircase {β : Type*} [LinearOrder β] (key : ℕ → β) (lo hi : ℕ) (q : List ℕ) : Prop where
  within : ∀ k ∈ q, lo ≤ k ∧ k < hi
  inOrder : q.Pairwise (· < ·)
  rising : q.Pairwise fun j k => key j ≤ key k
  covers : ∀ j, lo ≤ j → j < hi → ∃ k ∈ q, j ≤ k ∧ key k ≤ key j

namespace Staircase

variable {β : Type*} [LinearOrder β] {key : ℕ → β} {lo hi k : ℕ} {q p r : List ℕ}

theorem nil (key : ℕ → β) (lo : ℕ) : Staircase key lo lo [] :=
  ⟨fun _ h => absurd h List.not_mem_nil, .nil, .nil, fun _ hlo hhi => absurd hlo (not_le.2 hhi)⟩

/-- Only the keys of the window matter. -/
theorem congr {key' : ℕ → β} (h : Staircase key lo hi q) (hkey : ∀ k, k < hi → key k = key' k) :
    Staircase key' lo hi q := by
  refine ⟨h.within, h.inOrder, h.rising.imp_of_mem fun hj hk hle => ?_, fun j hlo hhi => ?_⟩
  · rwa [← hkey _ (h.within _ hj).2, ← hkey _ (h.within _ hk).2]
  · obtain ⟨k, hk, hjk, hle⟩ := h.covers j hlo hhi
    exact ⟨k, hk, hjk, by rwa [← hkey _ (h.within k hk).2, ← hkey j hhi]⟩

/-- The first step is a least of the window. -/
theorem front_le (h : Staircase key lo hi (k :: q)) {j : ℕ} (hlo : lo ≤ j) (hhi : j < hi) : key k ≤ key j := by
  obtain ⟨i, hi, -, hle⟩ := h.covers j hlo hhi
  rcases List.mem_cons.1 hi with rfl | hmem
  · exact hle
  · exact ((List.pairwise_cons.1 h.rising).1 i hmem).trans hle

theorem ne_nil (h : Staircase key lo hi q) (hlt : lo < hi) : q ≠ [] := by
  obtain ⟨k, hk, -, -⟩ := h.covers lo le_rfl hlt
  exact List.ne_nil_of_mem hk

/-- The oldest position is the first step or none. -/
theorem eq_cons_of_mem (h : Staircase key lo hi q) (hmem : lo ∈ q) : ∃ r, q = lo :: r := by
  obtain ⟨k, r, rfl⟩ := List.exists_cons_of_ne_nil (List.ne_nil_of_mem hmem)
  rcases List.mem_cons.1 hmem with rfl | hlater
  · exact ⟨r, rfl⟩
  · have hlt := (List.pairwise_cons.1 h.inOrder).1 lo hlater
    have hle := (h.within k List.mem_cons_self).1
    omega

/-- There are no more steps than positions. -/
theorem length_le (h : Staircase key lo hi q) : q.length ≤ hi - lo := by
  have hnodup : q.Nodup := h.inOrder.imp fun hlt => hlt.ne
  have hsub : q ⊆ List.range' lo (hi - lo) := fun k hk => by
    obtain ⟨hlo, hhi⟩ := h.within k hk
    exact List.mem_range'_1.2 ⟨hlo, by omega⟩
  simpa using (List.subperm_of_subset hnodup hsub).length_le

/-- The oldest position falls out, and with it the first step if that is where it stood. -/
theorem expire_first (h : Staircase key lo hi (lo :: q)) : Staircase key (lo + 1) hi q := by
  obtain ⟨hfirst, horder⟩ := List.pairwise_cons.1 h.inOrder
  refine ⟨fun k hk => ⟨hfirst k hk, (h.within k (List.mem_cons_of_mem _ hk)).2⟩, horder,
    (List.pairwise_cons.1 h.rising).2, fun j hlo hhi => ?_⟩
  obtain ⟨k, hk, hjk, hle⟩ := h.covers j (by omega) hhi
  rcases List.mem_cons.1 hk with rfl | hmem
  · omega
  · exact ⟨k, hmem, hjk, hle⟩

/-- It falls out alone if no step stood there. -/
theorem expire_none (h : Staircase key lo hi q) (hne : lo ∉ q) : Staircase key (lo + 1) hi q := by
  refine ⟨fun k hk => ?_, h.inOrder, h.rising, fun j hlo hhi => h.covers j (by omega) hhi⟩
  obtain ⟨hlo, hhi⟩ := h.within k hk
  have hk' : k ≠ lo := fun heq => hne (heq ▸ hk)
  omega

/-- Up to a step no key is above its. -/
theorem le_of_mem_take (h : Staircase key lo hi q) {m : ℕ} (hm : q[m]? = some k) {j : ℕ} (hj : j ∈ q.take (m + 1)) :
    key j ≤ key k := by
  rw [List.take_add_one, hm, Option.toList_some] at hj
  have hrising : (q.take m ++ [k]).Pairwise fun j k => key j ≤ key k := by
    have htake := h.rising.sublist (List.take_sublist (m + 1) q)
    rwa [List.take_add_one, hm, Option.toList_some] at htake
  rcases List.mem_append.1 hj with hearlier | hlast
  · exact (List.pairwise_append.1 hrising).2.2 j hearlier k (List.mem_singleton_self k)
  · rw [List.mem_singleton.1 hlast]

/-- A new position drops the steps above it. -/
theorem push (h : Staircase key lo hi (p ++ r)) (hle : lo ≤ hi) (hkeep : ∀ k ∈ p, key k ≤ key hi)
    (hdrop : ∀ k ∈ r, key hi < key k) : Staircase key lo (hi + 1) (p ++ [hi]) := by
  have hmem : ∀ k ∈ p, k ∈ p ++ r := fun k hk => List.mem_append_left r hk
  refine ⟨fun k hk => ?_, ?_, ?_, fun j hlo hhi => ?_⟩
  · rcases List.mem_append.1 hk with hold | hnew
    · obtain ⟨hlo, hhi⟩ := h.within k (hmem k hold)
      omega
    · obtain rfl := List.mem_singleton.1 hnew
      omega
  · refine List.pairwise_append.2 ⟨(List.pairwise_append.1 h.inOrder).1, List.pairwise_singleton ..,
      fun k hk i hi => ?_⟩
    rw [List.mem_singleton.1 hi]
    exact (h.within k (hmem k hk)).2
  · refine List.pairwise_append.2 ⟨(List.pairwise_append.1 h.rising).1, List.pairwise_singleton ..,
      fun k hk i hi => ?_⟩
    rw [List.mem_singleton.1 hi]
    exact hkeep k hk
  · rcases Nat.lt_succ_iff_lt_or_eq.1 hhi with hlt | rfl
    · obtain ⟨k, hk, hjk, hkey⟩ := h.covers j hlo hlt
      rcases List.mem_append.1 hk with hkept | hdropped
      · exact ⟨k, List.mem_append_left _ hkept, hjk, hkey⟩
      · exact ⟨hi, List.mem_append_right _ (List.mem_singleton_self hi), hlt.le, (hdrop k hdropped).le.trans hkey⟩
    · exact ⟨j, List.mem_append_right _ (List.mem_singleton_self j), le_rfl, le_rfl⟩

end Staircase

end Lib
