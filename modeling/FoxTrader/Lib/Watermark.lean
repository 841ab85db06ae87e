import Mathlib.Data.List.Nodup
import Mathlib.Order.Lattice
import Mathlib.Data.Nat.Basic

/-! # Batches under a high watermark

    A consumer of batches keeps the highest key it has seen and skips what does not exceed it. The
    watermark moves only between batches, so two items of one batch do not shield each other.
    `watermark` is where it stands, `fresh` what gets through, and `nodup_fresh_iff` says that the
    watermark rules out every repetition but those inside a batch. -/

namespace Lib

variable {α : Type} (key : α → ℕ)

/-- The highest key seen. -/
def watermark (w : ℕ) (xs : List α) : ℕ := xs.foldl (fun m x => max m (key x)) w

/-- What a consumer at watermark `w` takes of the batches. -/
def fresh (w : ℕ) : List (List α) → List α
  | [] => []
  | xs :: batches => xs.filter (fun x => w < key x) ++ fresh (watermark key w xs) batches

variable {key}

theorem watermark_append (w : ℕ) (xs ys : List α) :
    watermark key w (xs ++ ys) = watermark key (watermark key w xs) ys := List.foldl_append

theorem le_watermark (w : ℕ) : ∀ xs : List α, w ≤ watermark key w xs
  | [] => le_rfl
  | x :: xs => (Nat.le_max_left w (key x)).trans (le_watermark _ xs)

theorem le_watermark_of_mem (w : ℕ) : ∀ {xs : List α} {x : α}, x ∈ xs → key x ≤ watermark key w xs
  | y :: xs, x, h => by
    rcases List.mem_cons.1 h with rfl | hmem
    · exact (Nat.le_max_right w (key x)).trans (le_watermark _ xs)
    · exact le_watermark_of_mem (max w (key y)) hmem

/-- The watermark is the old one or a key that was seen. -/
theorem watermark_eq (w : ℕ) : ∀ xs : List α, watermark key w xs = w ∨ ∃ x ∈ xs, key x = watermark key w xs
  | [] => .inl rfl
  | y :: xs => by
    rcases watermark_eq (max w (key y)) xs with h | ⟨x, hmem, h⟩
    · rcases Nat.le_total (key y) w with hle | hle
      · exact .inl (h.trans (Nat.max_eq_left hle))
      · exact .inr ⟨y, List.mem_cons_self, (h.trans (Nat.max_eq_right hle)).symm⟩
    · exact .inr ⟨x, List.mem_cons_of_mem _ hmem, h⟩

/-- An item gets through just when its batch finds the watermark below it. -/
theorem mem_fresh_iff {x : α} : ∀ {w : ℕ} {batches : List (List α)},
    x ∈ fresh key w batches ↔ ∃ before xs after, batches = before ++ xs :: after ∧ x ∈ xs ∧
      watermark key w before.flatten < key x
  | w, [] => by simp [fresh]
  | w, xs :: batches => by
    rw [fresh, List.mem_append, List.mem_filter, decide_eq_true_eq, mem_fresh_iff]
    constructor
    · rintro (⟨hmem, hlt⟩ | ⟨before, ys, after, rfl, hmem, hlt⟩)
      · exact ⟨[], xs, batches, rfl, hmem, hlt⟩
      · exact ⟨xs :: before, ys, after, rfl, hmem, by rwa [List.flatten_cons, watermark_append]⟩
    · rintro ⟨_ | ⟨ys, before⟩, zs, after, heq, hmem, hlt⟩
      · obtain ⟨rfl, rfl⟩ := List.cons.inj heq
        exact .inl ⟨hmem, hlt⟩
      · obtain ⟨rfl, rfl⟩ := List.cons.inj heq
        exact .inr ⟨before, zs, after, rfl, hmem, by rwa [List.flatten_cons, watermark_append] at hlt⟩

theorem lt_of_mem_fresh {x : α} {w : ℕ} {batches : List (List α)} (h : x ∈ fresh key w batches) : w < key x := by
  obtain ⟨before, xs, after, -, -, hlt⟩ := mem_fresh_iff.1 h
  exact (le_watermark w before.flatten).trans_lt hlt

/-- No key gets through twice just when no batch brings one twice. -/
theorem nodup_fresh_iff : ∀ {w : ℕ} {batches : List (List α)}, ((fresh key w batches).map key).Nodup ↔
    ∀ before xs after, batches = before ++ xs :: after →
      ((xs.filter fun x => watermark key w before.flatten < key x).map key).Nodup
  | w, [] => by simp [fresh]
  | w, xs :: batches => by
    have hapart : ∀ a ∈ (xs.filter fun x => w < key x).map key,
        ∀ b ∈ (fresh key (watermark key w xs) batches).map key, a ≠ b := by
      rintro _ ha _ hb rfl
      obtain ⟨x, hx, rfl⟩ := List.mem_map.1 ha
      obtain ⟨y, hy, heq⟩ := List.mem_map.1 hb
      have hle : key x ≤ watermark key w xs := le_watermark_of_mem w (List.mem_filter.1 hx).1
      exact absurd (lt_of_mem_fresh hy) (by omega)
    rw [fresh, List.map_append, List.nodup_append', nodup_fresh_iff]
    constructor
    · rintro ⟨hhead, htail, -⟩ (_ | ⟨ys, before⟩) zs after heq
      · obtain ⟨rfl, rfl⟩ := List.cons.inj heq
        exact hhead
      · obtain ⟨rfl, rfl⟩ := List.cons.inj heq
        rw [List.flatten_cons, watermark_append]
        exact htail before zs after rfl
    · intro h
      refine ⟨h [] xs batches rfl, fun before ys after heq => ?_, fun a ha b => hapart a ha a b rfl⟩
      have := h (xs :: before) ys after (by rw [heq]; rfl)
      rwa [List.flatten_cons, watermark_append] at this

end Lib
