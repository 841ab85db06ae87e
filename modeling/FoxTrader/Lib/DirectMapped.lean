import FoxTrader.Lib.Buckets
import Mathlib.Data.Finset.Card
import Mathlib.Data.Finset.Range

/-! # Direct-mapped slots

    Items with keys go to `n` slots, key `k` to the slot `k % n`. A slot remembers the key it was last
    written for: an item of the same key is folded into it, an item of another key starts it anew. When
    the keys never go down, the slot of a key that is fewer than `n` behind the last one holds the fold
    of the key's whole bucket (`Holds.slot_of_recent`). -/

namespace Lib

open Function

variable {α β : Type*}

namespace DirectMapped

section Fold

variable (seed : α → β) (fold : β → α → β)

/-- The fold of a bucket, started from its first item. -/
def foldBucket : List α → Option β
  | [] => none
  | x :: xs => some (xs.foldl fold (seed x))

theorem foldBucket_snoc (l : List α) (x : α) :
    foldBucket seed fold (l ++ [x]) = some ((foldBucket seed fold l).elim (seed x) (fold · x)) := by
  cases l with
  | nil => rfl
  | cons y ys => simp [foldBucket]

theorem foldBucket_isSome {l : List α} : (foldBucket seed fold l).isSome ↔ l ≠ [] := by
  cases l <;> simp [foldBucket]

/-- What the slot of the key holds after an item of that key. -/
def absorb (slot : Option (ℕ × β)) (item : ℕ × α) : β :=
  slot.elim (seed item.2) fun held => if held.1 = item.1 then fold held.2 item.2 else seed item.2

def write (n : ℕ) (slots : ℕ → Option (ℕ × β)) (item : ℕ × α) : ℕ → Option (ℕ × β) :=
  update slots (item.1 % n) (some (item.1, absorb seed fold (slots (item.1 % n)) item))

/-- What the slots hold after some items: an empty slot has seen no item, any other one holds the
    bucket of a key of its own, the last of its keys. -/
structure Holds (n : ℕ) (items : List (ℕ × α)) (slots : ℕ → Option (ℕ × β)) : Prop where
  empty : ∀ i, slots i = none → ∀ item ∈ items, item.1 % n ≠ i
  held : ∀ i k b, slots i = some (k, b) → k % n = i ∧ foldBucket seed fold (bucket k items) = some b ∧
    ∀ item ∈ items, item.1 % n = i → item.1 ≤ k

end Fold

variable {seed : α → β} {fold : β → α → β} {n : ℕ} {items : List (ℕ × α)} {slots : ℕ → Option (ℕ × β)}

theorem holds_nil : Holds seed fold n [] fun _ => none :=
  ⟨fun _ _ _ h => absurd h List.not_mem_nil, fun _ _ _ h => absurd h.symm (Option.some_ne_none _)⟩

theorem bucket_eq_nil {k : ℕ} (h : ∀ item ∈ items, item.1 ≠ k) : bucket k items = [] := by
  rw [bucket, List.map_eq_nil_iff, List.filter_eq_nil_iff]
  intro item hmem hk
  exact h item hmem (of_decide_eq_true hk)

theorem bucket_ne_nil {k : ℕ} (h : bucket k items ≠ []) : ∃ item ∈ items, item.1 = k := by
  by_contra hnone
  push Not at hnone
  exact h (bucket_eq_nil hnone)

/-- A write goes to the bucket of its key. -/
theorem Holds.absorb_eq (h : Holds seed fold n items slots) {item : ℕ × α} (hlast : ∀ old ∈ items, old.1 ≤ item.1) :
    foldBucket seed fold (bucket item.1 (items ++ [item])) =
      some (absorb seed fold (slots (item.1 % n)) item) := by
  rw [bucket_snoc_self, foldBucket_snoc]
  have hanew : bucket item.1 items = [] →
    (foldBucket seed fold (bucket item.1 items)).elim (seed item.2) (fold · item.2) =
      seed item.2 := fun hnil => by rw [hnil]; rfl
  rcases hslot : slots (item.1 % n) with _ | ⟨k, b⟩
  · exact congrArg some (hanew (bucket_eq_nil fun old hold hk => h.empty _ hslot old hold (hk ▸ rfl)))
  · obtain ⟨hk, hfold, hle⟩ := h.held _ k b hslot
    rcases eq_or_ne k item.1 with rfl | hne
    · rw [hfold]
      simp [absorb]
    · rw [show absorb seed fold (some (k, b)) item = seed item.2 from if_neg hne]
      refine congrArg some (hanew (bucket_eq_nil fun old hold heq => hne ?_))
      -- the held key is one of the items before, so it is not above the new one
      obtain ⟨witness, hmem, hkey⟩ := bucket_ne_nil ((foldBucket_isSome seed fold).1 (Option.isSome_of_mem hfold))
      exact Nat.le_antisymm (hkey ▸ hlast witness hmem) (heq ▸ hle old hold (heq ▸ rfl))

theorem Holds.write (h : Holds seed fold n items slots) {item : ℕ × α} (hlast : ∀ old ∈ items, old.1 ≤ item.1) :
    Holds seed fold n (items ++ [item]) (DirectMapped.write seed fold n slots item) := by
  constructor
  · intro i hi old hold
    rcases eq_or_ne i (item.1 % n) with rfl | hne
    · rw [DirectMapped.write, update_self] at hi
      exact absurd hi (Option.some_ne_none _)
    · rw [DirectMapped.write, update_of_ne hne] at hi
      rcases List.mem_append.1 hold with hbefore | hnew
      · exact h.empty i hi old hbefore
      · rw [List.mem_singleton.1 hnew]
        exact hne.symm
  · intro i k b hi
    rcases eq_or_ne i (item.1 % n) with rfl | hne
    · rw [DirectMapped.write, update_self] at hi
      obtain ⟨rfl, rfl⟩ := Prod.mk.inj (Option.some.inj hi)
      refine ⟨rfl, h.absorb_eq hlast, fun old hold _ => ?_⟩
      rcases List.mem_append.1 hold with hbefore | hnew
      · exact hlast old hbefore
      · rw [List.mem_singleton.1 hnew]
    · rw [DirectMapped.write, update_of_ne hne] at hi
      obtain ⟨hk, hfold, hle⟩ := h.held i k b hi
      have hother : k ≠ item.1 := fun heq => hne (heq ▸ hk.symm)
      refine ⟨hk, by rw [bucket_snoc_of_ne hother, hfold], fun old hold hslot => ?_⟩
      rcases List.mem_append.1 hold with hbefore | hnew
      · exact hle old hbefore hslot
      · rw [List.mem_singleton.1 hnew] at hslot
        exact absurd hslot.symm hne

/-- The slot of a key no more than `n` behind the last one is still that key's. -/
theorem Holds.slot_of_recent (h : Holds seed fold n items slots) {cur k : ℕ} (hcur : ∀ item ∈ items, item.1 ≤ cur)
    (hrecent : cur < k + n) (hne : bucket k items ≠ []) :
    ∃ b, slots (k % n) = some (k, b) ∧ foldBucket seed fold (bucket k items) = some b := by
  obtain ⟨item, hmem, rfl⟩ := bucket_ne_nil hne
  rcases hslot : slots (item.1 % n) with _ | ⟨k, b⟩
  · exact absurd rfl (h.empty _ hslot item hmem)
  · obtain ⟨hk, hfold, hle⟩ := h.held _ k b hslot
    obtain ⟨last, hlast, hkey⟩ := bucket_ne_nil ((foldBucket_isSome seed fold).1 (Option.isSome_of_mem hfold))
    have hup : item.1 ≤ k := hle item hmem rfl
    have hdown : k ≤ cur := hkey ▸ hcur last hlast
    -- two keys of one slot less than a whole turn apart
    have hdvd : (k - item.1) % n = 0 := Nat.sub_mod_eq_zero_of_mod_eq hk
    have hsame : k - item.1 = 0 := by
      rcases Nat.eq_zero_or_pos (k - item.1) with hzero | hpos
      · exact hzero
      · have := Nat.le_of_dvd hpos (Nat.dvd_of_mod_eq_zero hdvd)
        omega
    obtain rfl : k = item.1 := by omega
    exact ⟨b, rfl, hfold⟩

/-- A slot counts when its key is fewer than `n` behind the current one. -/
def Recent (n cur : ℕ) (slot : Option (ℕ × β)) : Prop := ∃ k b, slot = some (k, b) ∧ cur < k + n

theorem Holds.recent_iff (h : Holds seed fold n items slots) {cur i : ℕ} (hcur : ∀ item ∈ items, item.1 ≤ cur) :
    Recent n cur (slots i) ↔ ∃ k, k % n = i ∧ k ≤ cur ∧ cur < k + n ∧ bucket k items ≠ [] := by
  constructor
  · rintro ⟨k, b, hslot, hrecent⟩
    obtain ⟨hk, hfold, -⟩ := h.held i k b hslot
    have hne := (foldBucket_isSome seed fold).1 (Option.isSome_of_mem hfold)
    obtain ⟨last, hlast, rfl⟩ := bucket_ne_nil hne
    exact ⟨last.1, hk, hcur last hlast, hrecent, hne⟩
  · rintro ⟨k, rfl, -, hrecent, hne⟩
    obtain ⟨b, hslot, -⟩ := h.slot_of_recent hcur hrecent hne
    exact ⟨k, b, hslot, hrecent⟩

/-- There are as many slots that count as recent keys with an item. -/
theorem Holds.card_recent (h : Holds seed fold n items slots) {cur : ℕ} (hcur : ∀ item ∈ items, item.1 ≤ cur)
    (hn : 0 < n)
    [DecidablePred fun i => Recent n cur (slots i)] [DecidablePred fun k => cur < k + n ∧ bucket k items ≠ []] :
    ((Finset.range n).filter fun i => Recent n cur (slots i)).card =
      ((Finset.range (cur + 1)).filter fun k => cur < k + n ∧ bucket k items ≠ []).card := by
  symm
  refine Finset.card_nbij (· % n) ?_ ?_ ?_
  · intro k hk
    obtain ⟨hle, hrecent, hne⟩ := Finset.mem_filter.1 hk
    refine Finset.mem_filter.2 ⟨Finset.mem_range.2 (Nat.mod_lt k hn), (h.recent_iff hcur).2 ⟨k, rfl, ?_, hrecent, hne⟩⟩
    exact Nat.lt_succ_iff.1 (Finset.mem_range.1 hle)
  · intro k hk k' hk' hmod
    obtain ⟨hle, hrecent, hne⟩ := Finset.mem_filter.1 hk
    obtain ⟨hle', hrecent', hne'⟩ := Finset.mem_filter.1 hk'
    obtain ⟨b, hslot, -⟩ := h.slot_of_recent hcur hrecent hne
    obtain ⟨b', hslot', -⟩ := h.slot_of_recent hcur hrecent' hne'
    have hmod : k % n = k' % n := hmod
    rw [hmod, hslot'] at hslot
    exact (Prod.mk.inj (Option.some.inj hslot)).1.symm
  · intro i hi
    obtain ⟨hin, hrecent⟩ := Finset.mem_filter.1 hi
    obtain ⟨k, hk, hle, hback, hne⟩ := (h.recent_iff hcur).1 hrecent
    exact ⟨k, Finset.mem_filter.2 ⟨Finset.mem_range.2 (Nat.lt_succ_of_le hle), hback, hne⟩, hk⟩

end DirectMapped

end Lib
