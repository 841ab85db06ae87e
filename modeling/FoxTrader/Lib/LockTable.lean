import Mathlib.Data.List.Nodup
import Mathlib.Data.Option.Basic
import Mathlib.Logic.Function.Basic

/-! # Advisory locks held through descriptors

    A descriptor is a key and the lock of the open file it refers to. Taking a lock is refused while any
    descriptor refers to it; a duplicate refers to the same lock under a key of its own; a lock ends with
    the last descriptor that refers to it. Holders keep a key each and belong to parties. `Claims` says that
    the keys kept are open, each kept by one holder, and that a lock is kept within one party: taking,
    duplicating, closing, letting go and passing on within a party keep it. -/

namespace Lib

structure Descriptor (κ δ : Type*) where
  key : κ
  lock : δ
  deriving DecidableEq

namespace LockTable

variable {κ δ : Type*}

/-- Whether a lock is held, by whatever descriptor. -/
def Held (table : List (Descriptor κ δ)) (d : δ) : Prop := ∃ e ∈ table, e.lock = d

instance [DecidableEq δ] (table : List (Descriptor κ δ)) (d : δ) : Decidable (Held table d) :=
  inferInstanceAs (Decidable (∃ _ ∈ _, _))

/-- The key is nobody's. -/
def Unused (table : List (Descriptor κ δ)) (k : κ) : Prop := ∀ e ∈ table, e.key ≠ k

instance [DecidableEq κ] (table : List (Descriptor κ δ)) (k : κ) : Decidable (Unused table k) :=
  inferInstanceAs (Decidable (∀ _ ∈ _, _))

/-- Closing a key; the lock ends with its last descriptor. -/
def close [DecidableEq κ] (table : List (Descriptor κ δ)) (k : κ) : List (Descriptor κ δ) :=
  table.filter fun e => e.key ≠ k

/-- The lock of a key. -/
def lockOf [DecidableEq κ] (table : List (Descriptor κ δ)) (k : κ) : Option δ :=
  (table.find? fun e => e.key = k).map Descriptor.lock

theorem mem_close [DecidableEq κ] {table : List (Descriptor κ δ)} {k : κ} {e : Descriptor κ δ} :
    e ∈ close table k ↔ e ∈ table ∧ e.key ≠ k := by
  simp [close]

theorem lockOf_eq_some [DecidableEq κ] {table : List (Descriptor κ δ)} {k : κ} {d : δ}
    (h : lockOf table k = some d) : ∃ e ∈ table, e.key = k ∧ e.lock = d := by
  obtain ⟨e, he, hd⟩ := Option.map_eq_some_iff.1 h
  exact ⟨e, List.mem_of_find?_eq_some he, by simpa using List.find?_some he, hd⟩

end LockTable

open LockTable

/-- The holders keep open keys, one each, and no lock is kept by two parties. -/
structure Claims {ι κ δ π : Type*} (party : ι → π) (table : List (Descriptor κ δ)) (keeps : ι → Option κ) :
    Prop where
  keys : (table.map Descriptor.key).Nodup
  isOpen : ∀ i k, keeps i = some k → ∃ e ∈ table, e.key = k
  keeper : ∀ i j k, keeps i = some k → keeps j = some k → i = j
  sole : ∀ i j e f, e ∈ table → f ∈ table → keeps i = some e.key → keeps j = some f.key → e.lock = f.lock →
    party i = party j

namespace Claims

variable {ι κ δ π : Type*} {party : ι → π} {table : List (Descriptor κ δ)} {keeps keeps' : ι → Option κ} {i j : ι}
  {k : κ} {d : δ} {e f : Descriptor κ δ}

theorem eq_of_key (h : Claims party table keeps) (he : e ∈ table) (hf : f ∈ table) (hkey : e.key = f.key) :
    e = f := List.inj_on_of_nodup_map h.keys he hf hkey

/-- Holders may let go of their keys. -/
theorem letGo (h : Claims party table keeps) (hle : ∀ i k, keeps' i = some k → keeps i = some k) :
    Claims party table keeps' where
  keys := h.keys
  isOpen i k hi := h.isOpen i k (hle i k hi)
  keeper i j k hi hj := h.keeper i j k (hle i k hi) (hle j k hj)
  sole i j e f he hf hi hj := h.sole i j e f he hf (hle i _ hi) (hle j _ hj)

/-- Keys may be closed that nobody keeps. -/
theorem filter (h : Claims party table keeps) (p : Descriptor κ δ → Bool)
    (hp : ∀ i e, e ∈ table → keeps i = some e.key → p e) : Claims party (table.filter p) keeps where
  keys := h.keys.sublist (List.filter_sublist.map _)
  isOpen i k hi := by
    obtain ⟨e, he, rfl⟩ := h.isOpen i k hi
    exact ⟨e, List.mem_filter.2 ⟨he, hp i e he hi⟩, rfl⟩
  keeper := h.keeper
  sole i j e f he hf := h.sole i j e f (List.mem_filter.1 he).1 (List.mem_filter.1 hf).1

section Updates

variable [DecidableEq ι]

theorem update_none_le (i : ι) : ∀ j k, Function.update keeps i none j = some k → j ≠ i ∧ keeps j = some k := by
  intro j k hj
  rcases eq_or_ne j i with rfl | hji
  · rw [Function.update_self] at hj
    cases hj
  · exact ⟨hji, by rwa [Function.update_of_ne hji] at hj⟩

/-- A holder without a key may keep a new one, whose lock is its own party's if anybody's. -/
theorem extend (h : Claims party table keeps) (hi : keeps i = none) (hk : Unused table k)
    (hsole : ∀ j f, f ∈ table → keeps j = some f.key → f.lock = d → party j = party i) :
    Claims party (⟨k, d⟩ :: table) (Function.update keeps i (some k)) := by
  have hcases : ∀ j k', Function.update keeps i (some k) j = some k' →
      j = i ∧ k' = k ∨ j ≠ i ∧ keeps j = some k' := by
    intro j k' hj
    rcases eq_or_ne j i with rfl | hji
    · rw [Function.update_self] at hj
      exact .inl ⟨rfl, (Option.some.inj hj).symm⟩
    · rw [Function.update_of_ne hji] at hj
      exact .inr ⟨hji, hj⟩
  have hfresh : ∀ j, keeps j ≠ some k := by
    intro j hj
    obtain ⟨e, he, hke⟩ := h.isOpen j k hj
    exact hk e he hke
  refine ⟨?_, ?_, ?_, ?_⟩
  · refine List.nodup_cons.2 ⟨fun hmem => ?_, h.keys⟩
    obtain ⟨e, he, hke⟩ := List.mem_map.1 hmem
    exact hk e he hke
  · intro j k' hj
    rcases hcases j k' hj with ⟨-, rfl⟩ | ⟨-, hj⟩
    · exact ⟨_, List.mem_cons_self, rfl⟩
    · obtain ⟨e, he, hke⟩ := h.isOpen j k' hj
      exact ⟨e, List.mem_cons_of_mem _ he, hke⟩
  · intro j l k' hj hl
    rcases hcases j k' hj with ⟨rfl, rfl⟩ | ⟨-, hj'⟩
    · rcases hcases l k' hl with ⟨rfl, -⟩ | ⟨-, hl'⟩
      · rfl
      · exact absurd hl' (hfresh l)
    · rcases hcases l k' hl with ⟨-, rfl⟩ | ⟨-, hl'⟩
      · exact absurd hj' (hfresh j)
      · exact h.keeper j l k' hj' hl'
  · intro j l e f he hf hj hl hlock
    rcases List.mem_cons.1 he with rfl | he <;> rcases List.mem_cons.1 hf with rfl | hf
    · rcases hcases j _ hj with ⟨rfl, -⟩ | ⟨-, hj⟩
      · rcases hcases l _ hl with ⟨rfl, -⟩ | ⟨-, hl⟩
        · rfl
        · exact absurd hl (hfresh l)
      · exact absurd hj (hfresh j)
    · rcases hcases j _ hj with ⟨rfl, -⟩ | ⟨-, hj⟩
      · rcases hcases l _ hl with ⟨-, hkf⟩ | ⟨-, hl⟩
        · exact absurd hkf (hk f hf)
        · exact (hsole l f hf hl hlock.symm).symm
      · exact absurd hj (hfresh j)
    · rcases hcases l _ hl with ⟨rfl, -⟩ | ⟨-, hl⟩
      · rcases hcases j _ hj with ⟨-, hke⟩ | ⟨-, hj⟩
        · exact absurd hke (hk e he)
        · exact hsole j e he hj hlock
      · exact absurd hl (hfresh l)
    · rcases hcases j _ hj with ⟨-, hke⟩ | ⟨-, hj⟩
      · exact absurd hke (hk e he)
      · rcases hcases l _ hl with ⟨-, hkf⟩ | ⟨-, hl⟩
        · exact absurd hkf (hk f hf)
        · exact h.sole j l e f he hf hj hl hlock

/-- Taking a lock nobody holds. -/
theorem acquire (h : Claims party table keeps) (hi : keeps i = none) (hk : Unused table k) (hd : ¬Held table d) :
    Claims party (⟨k, d⟩ :: table) (Function.update keeps i (some k)) :=
  h.extend hi hk fun _ f hf _ hlock => absurd ⟨f, hf, hlock⟩ hd

/-- Duplicating the descriptor of a holder of the same party. -/
theorem duplicate (h : Claims party table keeps) (hi : keeps i = none) (hk : Unused table k) (he : e ∈ table)
    (hj : keeps j = some e.key) (hparty : party j = party i) :
    Claims party (⟨k, e.lock⟩ :: table) (Function.update keeps i (some k)) :=
  h.extend hi hk fun l f hf hl hlock => (h.sole l j f e hf he hl hj hlock).trans hparty

/-- Closing the key a holder keeps. -/
theorem close [DecidableEq κ] (h : Claims party table keeps) (hi : keeps i = some k) :
    Claims party (LockTable.close table k) (Function.update keeps i none) := by
  refine (h.letGo fun j k' hj => (update_none_le i j k' hj).2).filter _ fun j e _ hj => ?_
  obtain ⟨hji, hj⟩ := update_none_le i j _ hj
  refine decide_eq_true fun hke => hji (h.keeper j i k ?_ hi)
  rw [hj, hke]

/-- Passing what a holder keeps on to another of its party that keeps none. -/
theorem pass (h : Claims party table keeps) (hij : i ≠ j) (hj : keeps j = none) (hparty : party i = party j) :
    Claims party table (Function.update (Function.update keeps i none) j (keeps i)) := by
  -- each key is kept by the holder it was kept by, or by `j` in the place of `i`
  have hback : ∀ l k, Function.update (Function.update keeps i none) j (keeps i) l = some k →
      ∃ l', keeps l' = some k ∧ party l' = party l ∧ (l' = i ∧ l = j ∨ l' = l ∧ l ≠ i) := by
    intro l k hl
    rcases eq_or_ne l j with rfl | hlj
    · rw [Function.update_self] at hl
      exact ⟨i, hl, hparty, .inl ⟨rfl, rfl⟩⟩
    · rw [Function.update_of_ne hlj] at hl
      obtain ⟨hli, hl⟩ := update_none_le i l k hl
      exact ⟨l, hl, rfl, .inr ⟨rfl, hli⟩⟩
  refine ⟨h.keys, fun l k hl => ?_, fun l m k hl hm => ?_, fun l m e f he hf hl hm hlock => ?_⟩
  · obtain ⟨l', hl', -⟩ := hback l k hl
    exact h.isOpen l' k hl'
  · obtain ⟨l', hl', -, hl⟩ := hback l k hl
    obtain ⟨m', hm', -, hm⟩ := hback m k hm
    have heq := h.keeper l' m' k hl' hm'
    rcases hl with ⟨rfl, rfl⟩ | ⟨rfl, hli⟩ <;> rcases hm with ⟨rfl, rfl⟩ | ⟨rfl, hmi⟩
    · rfl
    · exact absurd heq.symm hmi
    · exact absurd heq hli
    · exact heq
  · obtain ⟨l', hl', hpl, -⟩ := hback l _ hl
    obtain ⟨m', hm', hpm, -⟩ := hback m _ hm
    rw [← hpl, ← hpm]
    exact h.sole l' m' e f he hf hl' hm' hlock

end Updates

end Claims

end Lib
