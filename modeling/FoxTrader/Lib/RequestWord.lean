import Mathlib.Logic.Basic
import Mathlib.Data.List.Induction
import FoxTrader.Lib.Run

/-! # Request words

    Any thread ORs lanes into a shared word; one consumer takes the word whole and leaves it zero.
    `Served` says that what is taken is what was asked for since the last time, and its two readings
    are that no request is lost (the first taking after it has its lanes) and that no lane is served
    without a request of its own (a taking has only lanes asked for since the one before). -/

namespace Lib

/-- What happens to a request word. -/
inductive WordEvent (w : ℕ) where
  | requested (lanes : BitVec w)
  | taken (word : BitVec w)

namespace WordEvent

variable {w : ℕ}

def isTaken : WordEvent w → Bool
  | .requested _ => false
  | .taken _ => true

/-- The word after the events, from `word`. -/
def wordAfter : BitVec w → List (WordEvent w) → BitVec w
  | word, [] => word
  | word, .requested lanes :: es => wordAfter (word ||| lanes) es
  | _, .taken _ :: es => wordAfter 0 es

/-- Every taking finds the word as the events before it left it. -/
def Served : BitVec w → List (WordEvent w) → Prop
  | _, [] => True
  | word, .requested lanes :: es => Served (word ||| lanes) es
  | word, .taken all :: es => all = word ∧ Served 0 es

theorem wordAfter_append : ∀ (word : BitVec w) (es fs : List (WordEvent w)),
    wordAfter word (es ++ fs) = wordAfter (wordAfter word es) fs
  | _, [], _ => rfl
  | word, .requested lanes :: es, fs => wordAfter_append (word ||| lanes) es fs
  | _, .taken _ :: es, fs => wordAfter_append 0 es fs

theorem served_append (word : BitVec w) (es fs : List (WordEvent w)) :
    Served word (es ++ fs) ↔ Served word es ∧ Served (wordAfter word es) fs := by
  induction es generalizing word with
  | nil => simp [Served, wordAfter]
  | cons e es ih =>
    cases e with
    | requested lanes => exact ih (word ||| lanes)
    | taken all => rw [List.cons_append, Served, Served, wordAfter, ih, and_assoc]

/-- A lane stays up until the word is taken. -/
theorem getLsbD_wordAfter {i : ℕ} {word : BitVec w} {es : List (WordEvent w)} (h : word.getLsbD i = true)
    (hes : ∀ e ∈ es, e.isTaken = false) : (wordAfter word es).getLsbD i = true := by
  induction es generalizing word with
  | nil => exact h
  | cons e es ih =>
    cases e with
    | requested lanes =>
      exact ih (by rw [BitVec.getLsbD_or, h, Bool.true_or]) fun e he => hes e (List.mem_cons_of_mem _ he)
    | taken all => exact Bool.noConfusion (hes _ List.mem_cons_self)

/-- A lane that came up was asked for, and the word was not taken since. -/
theorem exists_requested {i : ℕ} {word : BitVec w} {es : List (WordEvent w)}
    (h : (wordAfter word es).getLsbD i = true)
    (hdown : word.getLsbD i = false) : ∃ before lanes after, es = before ++ .requested lanes :: after ∧
      lanes.getLsbD i = true ∧ ∀ e ∈ after, e.isTaken = false := by
  induction es using List.reverseRecOn with
  | nil => exact absurd (hdown.symm.trans h) Bool.false_ne_true
  | append_singleton es e ih =>
    rw [wordAfter_append] at h
    cases e with
    | taken all => exact absurd h (by simp [wordAfter])
    | requested lanes =>
      rw [wordAfter, wordAfter, BitVec.getLsbD_or, Bool.or_eq_true] at h
      rcases h with h | h
      · obtain ⟨before, lanes', after, rfl, hlanes, hafter⟩ := ih h
        refine ⟨before, lanes', after ++ [.requested lanes], by simp, hlanes, fun e he => ?_⟩
        rcases List.mem_append.1 he with he | he
        · exact hafter e he
        · rw [List.mem_singleton.1 he]
          rfl
      · exact ⟨es, lanes, [], rfl, h, fun e he => absurd he List.not_mem_nil⟩

/-- No request is lost: the first taking after it has its lanes. -/
theorem Served.taken_of_requested {i : ℕ} {before mid after : List (WordEvent w)} {word lanes all : BitVec w}
    (h : Served word (before ++ .requested lanes :: (mid ++ .taken all :: after))) (hlane : lanes.getLsbD i = true)
    (hmid : ∀ e ∈ mid, e.isTaken = false) : all.getLsbD i = true := by
  have hserved := ((served_append ..).1 ((served_append ..).1 h).2).2
  rw [hserved.1]
  exact getLsbD_wordAfter (by rw [BitVec.getLsbD_or, hlane, Bool.or_true]) hmid

/-- No lane is served twice: a taking has only lanes asked for since the one before. -/
theorem Served.requested_of_taken {i : ℕ} {before after : List (WordEvent w)} {all : BitVec w}
    (h : Served 0 (before ++ .taken all :: after)) (hlane : all.getLsbD i = true) :
    ∃ earlier lanes since, before = earlier ++ .requested lanes :: since ∧ lanes.getLsbD i = true ∧
      ∀ e ∈ since, e.isTaken = false := by
  have hserved := ((served_append ..).1 h).2
  rw [hserved.1] at hlane
  exact exists_requested hlane (by simp)

/-- Every request is served by one taking, the first after it, and a taking serves nothing else. -/
structure ServedOnce (es : List (WordEvent w)) : Prop where
  none_lost : ∀ before lanes mid all after i, es = before ++ .requested lanes :: (mid ++ .taken all :: after) →
    lanes.getLsbD i = true → (∀ e ∈ mid, e.isTaken = false) → all.getLsbD i = true
  none_repeated : ∀ before all after i, es = before ++ .taken all :: after → all.getLsbD i = true →
    ∃ earlier lanes since, before = earlier ++ .requested lanes :: since ∧ lanes.getLsbD i = true ∧
      ∀ e ∈ since, e.isTaken = false

theorem Served.servedOnce {es : List (WordEvent w)} (h : Served 0 es) : ServedOnce es := by
  refine ⟨?_, ?_⟩
  · rintro before lanes mid all after i rfl hlane hmid
    exact h.taken_of_requested hlane hmid
  · rintro before all after i rfl hlane
    exact h.requested_of_taken hlane

/-- The rule for machines: if every turn treats the word so, every run does. -/
theorem served_outputs {σ α : Type*} {step : σ → α → σ} {out : σ → α → List (WordEvent w)} {word : σ → BitVec w}
    (hword : ∀ s a, word (step s a) = wordAfter (word s) (out s a)) (hserved : ∀ s a, Served (word s) (out s a)) :
    ∀ (as : List α) (s : σ), Served (word s) (outputs step out s as) ∧
      word (run step s as) = wordAfter (word s) (outputs step out s as)
  | [], _ => ⟨trivial, rfl⟩
  | a :: as, s => by
    obtain ⟨ihserved, ihword⟩ := served_outputs hword hserved as (step s a)
    rw [hword] at ihserved ihword
    rw [outputs, served_append, wordAfter_append, run_cons]
    exact ⟨⟨hserved s a, ihserved⟩, ihword⟩

end WordEvent

end Lib
