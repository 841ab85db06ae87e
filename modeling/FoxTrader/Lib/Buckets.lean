import Mathlib.Logic.Function.Basic
import Mathlib.Data.List.Basic
import Mathlib.Data.List.Induction
import Mathlib.Data.List.Nodup
import Mathlib.Data.List.Count

/-! # Stable buckets in one array

    Items with keys are laid out in one array, each key's items in a stretch of their own: the stretches
    start at the running sums of the counts (`starts`), and each item goes to the next free cell of its
    key's stretch (`place`). Read back, the stretch of a key is the items of that key in their order
    (`read_bucket`). -/

namespace Lib

open Function

variable {α : Type*}

/-- The items of a key, in their order. -/
def bucket (k : ℕ) (items : List (ℕ × α)) : List α := (items.filter fun item => item.1 = k).map (·.2)

theorem bucket_snoc_self (items : List (ℕ × α)) (item : ℕ × α) :
    bucket item.1 (items ++ [item]) = bucket item.1 items ++ [item.2] := by
  simp [bucket]

theorem bucket_snoc_of_ne {items : List (ℕ × α)} {item : ℕ × α} {k : ℕ} (h : k ≠ item.1) :
    bucket k (items ++ [item]) = bucket k items := by
  simp [bucket, Ne.symm h]

theorem bucket_cons_self (items : List (ℕ × α)) (k : ℕ) (a : α) :
    bucket k ((k, a) :: items) = a :: bucket k items := by
  simp [bucket]

theorem bucket_cons_of_ne {items : List (ℕ × α)} {item : ℕ × α} {k : ℕ} (h : k ≠ item.1) :
    bucket k (item :: items) = bucket k items := by
  simp [bucket, Ne.symm h]

theorem mem_bucket {items : List (ℕ × α)} {k : ℕ} {a : α} : a ∈ bucket k items ↔ (k, a) ∈ items := by
  simp [bucket]

theorem bucket_nodup {items : List (ℕ × α)} (h : items.Nodup) (k : ℕ) : (bucket k items).Nodup := by
  refine List.Nodup.map_on ?_ (h.filter _)
  rintro ⟨i, a⟩ ha ⟨j, b⟩ hb heq
  have hi : i = k := of_decide_eq_true (List.mem_filter.1 ha).2
  have hj : j = k := of_decide_eq_true (List.mem_filter.1 hb).2
  exact Prod.ext (hi.trans hj.symm) heq

section Erase

variable [DecidableEq α]

theorem bucket_erase_self (k : ℕ) (a : α) : ∀ items : List (ℕ × α),
    bucket k (items.erase (k, a)) = (bucket k items).erase a
  | [] => rfl
  | (j, b) :: items => by
    rcases eq_or_ne (j, b) (k, a) with heq | hne
    · obtain ⟨rfl, rfl⟩ := Prod.mk.inj heq
      rw [List.erase_cons_head, bucket_cons_self, List.erase_cons_head]
    · rw [List.erase_cons_tail (by simpa using hne)]
      rcases eq_or_ne k j with rfl | hk
      · have hba : b ≠ a := fun h => hne (h ▸ rfl)
        rw [bucket_cons_self, bucket_cons_self, List.erase_cons_tail (by simpa using hba),
          bucket_erase_self k a items]
      · rw [bucket_cons_of_ne hk, bucket_cons_of_ne hk, bucket_erase_self k a items]

theorem bucket_erase_of_ne {item : ℕ × α} {k : ℕ} (h : k ≠ item.1) : ∀ items : List (ℕ × α),
    bucket k (items.erase item) = bucket k items
  | [] => rfl
  | other :: items => by
    rcases eq_or_ne other item with rfl | hne
    · rw [List.erase_cons_head, bucket_cons_of_ne h]
    · rw [List.erase_cons_tail (by simpa using hne)]
      rcases eq_or_ne k other.1 with rfl | hk
      · obtain ⟨j, b⟩ := other
        rw [bucket_cons_self, bucket_cons_self, bucket_erase_of_ne h items]
      · rw [bucket_cons_of_ne hk, bucket_cons_of_ne hk, bucket_erase_of_ne h items]

end Erase

theorem bucket_length (k : ℕ) (items : List (ℕ × α)) :
    (bucket k items).length = (items.map (·.1)).countP (· = k) := by
  rw [bucket, List.length_map, List.countP_map, List.countP_eq_length_filter]
  rfl

theorem bucket_map {β : Type*} (f : α → β) (k : ℕ) (items : List (ℕ × α)) :
    bucket k (items.map fun item => (item.1, f item.2)) = (bucket k items).map f := by
  rw [bucket, bucket, List.filter_map, List.map_map, List.map_map]
  rfl

theorem bucket_length_le_of_prefix {done items : List (ℕ × α)} (h : done <+: items) (k : ℕ) :
    (bucket k done).length ≤ (bucket k items).length :=
  ((h.sublist.filter _).map _).length_le

/-- Where the stretch of each key starts. -/
def starts (counts : ℕ → ℕ) : ℕ → ℕ
  | 0 => 0
  | k + 1 => starts counts k + counts k

theorem starts_add_le (counts : ℕ → ℕ) {k k' : ℕ} (h : k < k') : starts counts k + counts k ≤ starts counts k' := by
  induction k' with
  | zero => exact absurd h (Nat.not_lt_zero k)
  | succ k' ih =>
    rw [starts]
    rcases Nat.lt_succ_iff_lt_or_eq.1 h with hlt | rfl
    · exact Nat.le_trans (ih hlt) (Nat.le_add_right ..)
    · exact Nat.le_refl _

/-- A cell belongs to the stretch of one key only. -/
theorem starts_disjoint (counts : ℕ → ℕ) {k k' i j : ℕ} (hi : i < counts k) (hj : j < counts k')
    (h : starts counts k + i = starts counts k' + j) : k = k' := by
  rcases Nat.lt_trichotomy k k' with hlt | heq | hgt
  · have hbefore := starts_add_le counts hlt
    omega
  · exact heq
  · have hafter := starts_add_le counts hgt
    omega

/-- A cell before the last start belongs to a stretch. -/
theorem exists_stretch (counts : ℕ → ℕ) {n i : ℕ} (h : i < starts counts n) :
    ∃ k < n, ∃ j < counts k, i = starts counts k + j := by
  induction n with
  | zero => exact absurd h (Nat.not_lt_zero i)
  | succ n ih =>
    rw [starts] at h
    rcases Nat.lt_or_ge i (starts counts n) with hlt | hge
    · obtain ⟨k, hk, hj⟩ := ih hlt
      exact ⟨k, Nat.lt_succ_of_lt hk, hj⟩
    · exact ⟨n, Nat.lt_succ_self n, i - starts counts n, by omega, by omega⟩

/-- The starts of counted keys count the smaller keys. -/
theorem starts_countP (keys : List ℕ) (n : ℕ) : starts (fun k => keys.countP (· = k)) n = keys.countP (· < n) := by
  induction n with
  | zero => simp [starts]
  | succ n ih =>
    rw [starts, ih]
    clear ih
    induction keys with
    | nil => rfl
    | cons key keys ihk =>
      simp only [List.countP_cons, decide_eq_true_eq]
      split <;> split <;> split <;> omega

/-- The next free cell of each key, and the cells. -/
structure Buckets (α : Type*) where
  cursor : ℕ → ℕ
  cells : ℕ → α

namespace Buckets

def place (b : Buckets α) (item : ℕ × α) : Buckets α :=
  { cursor := update b.cursor item.1 (b.cursor item.1 + 1)
    cells := update b.cells (b.cursor item.1) item.2 }

/-- The layout of all items: each stretch begins where the running sum of the counts is. -/
def layout (cells : ℕ → α) (items : List (ℕ × α)) : Buckets α :=
  items.foldl place { cursor := starts fun k => (bucket k items).length, cells }

/-- What is laid out after some of the items. -/
structure Holds (start : ℕ → ℕ) (done : List (ℕ × α)) (b : Buckets α) : Prop where
  cursor : ∀ k, b.cursor k = start k + (bucket k done).length
  cells : ∀ k j x, (bucket k done)[j]? = some x → b.cells (start k + j) = x

theorem Holds.place {counts : ℕ → ℕ} {done : List (ℕ × α)} {b : Buckets α} (h : Holds (starts counts) done b)
    (item : ℕ × α) (hroom : ∀ k, (bucket k (done ++ [item])).length ≤ counts k) :
    Holds (starts counts) (done ++ [item]) (b.place item) := by
  have hfree : (bucket item.1 done).length < counts item.1 := by
    have hroom' := hroom item.1
    rw [bucket_snoc_self, List.length_append, List.length_singleton] at hroom'
    exact hroom'
  refine ⟨fun k => ?_, fun k j x hx => ?_⟩
  · rcases eq_or_ne k item.1 with rfl | hne
    · simp only [Buckets.place, update_self, h.cursor, bucket_snoc_self, List.length_append,
        List.length_singleton, Nat.add_assoc]
    · simp only [Buckets.place, update_of_ne hne, h.cursor, bucket_snoc_of_ne hne]
  · simp only [Buckets.place, h.cursor]
    rcases eq_or_ne k item.1 with rfl | hne
    · rw [bucket_snoc_self] at hx
      rcases Nat.lt_or_ge j (bucket item.1 done).length with hlt | hge
      · rw [List.getElem?_append_left hlt] at hx
        rw [update_of_ne (by omega), h.cells _ j x hx]
      · rw [List.getElem?_append_right hge, List.getElem?_singleton] at hx
        split at hx
        next hj =>
          obtain rfl : j = (bucket item.1 done).length := by omega
          rw [update_self]
          exact Option.some.inj hx
        next => exact absurd hx.symm (Option.some_ne_none _)
    · rw [bucket_snoc_of_ne hne] at hx
      have hj := (List.getElem?_eq_some_iff.1 hx).1
      have hbound := hroom k
      rw [bucket_snoc_of_ne hne] at hbound
      have hother : starts counts k + j ≠ starts counts item.1 + (bucket item.1 done).length :=
        fun heq => hne (starts_disjoint counts (by omega) hfree heq)
      rw [update_of_ne hother, h.cells k j x hx]

theorem holds_front (cells : ℕ → α) {items : List (ℕ × α)} : ∀ {done}, done <+: items →
    Holds (starts fun k => (bucket k items).length) done
      (done.foldl place { cursor := starts fun k => (bucket k items).length, cells }) := by
  intro done
  induction done using List.reverseRecOn with
  | nil => exact fun _ => ⟨fun _ => rfl, fun _ _ _ hx => absurd hx.symm (Option.some_ne_none _)⟩
  | append_singleton done item ih =>
    intro hdone
    rw [List.foldl_concat]
    exact (ih ((List.prefix_append ..).trans hdone)).place item fun k => bucket_length_le_of_prefix hdone k

theorem holds_layout (cells : ℕ → α) (items : List (ℕ × α)) :
    Holds (starts fun k => (bucket k items).length) items (layout cells items) :=
  holds_front cells List.prefix_rfl

/-- The cells behind the stretches are left as they are. -/
theorem layout_cells_of_le (cells : ℕ → α) {items : List (ℕ × α)} {n i : ℕ} (hkeys : ∀ item ∈ items, item.1 < n)
    (hi : starts (fun k => (bucket k items).length) n ≤ i) : (layout cells items).cells i = cells i := by
  have hprefix : ∀ done, done <+: items →
      (done.foldl place { cursor := starts fun k => (bucket k items).length, cells }).cells i = cells i := by
    intro done
    induction done using List.reverseRecOn with
    | nil => exact fun _ => rfl
    | append_singleton done item ih =>
      intro hdone
      have hbefore : done <+: items := (List.prefix_append ..).trans hdone
      have hroom := bucket_length_le_of_prefix hdone item.1
      rw [bucket_snoc_self, List.length_append, List.length_singleton] at hroom
      have hstretch := starts_add_le (fun k => (bucket k items).length)
        (hkeys item (hdone.subset (List.mem_append_right _ List.mem_cons_self)))
      rw [List.foldl_concat]
      simp only [place, (holds_front cells hbefore).cursor]
      rw [update_of_ne (by omega), ih hbefore]
  exact hprefix items List.prefix_rfl

/-- The stretch of a key is the items of that key. -/
theorem read_bucket (cells : ℕ → α) (items : List (ℕ × α)) (k : ℕ) :
    (List.range (bucket k items).length).map
        (fun j => (layout cells items).cells (starts (fun k => (bucket k items).length) k + j)) =
      bucket k items := by
  refine List.ext_getElem (by simp) fun j _ hj => ?_
  rw [List.getElem_map, List.getElem_range]
  exact (holds_layout cells items).cells k j _ (List.getElem?_eq_getElem hj)

end Buckets

end Lib
