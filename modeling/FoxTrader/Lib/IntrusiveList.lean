import Mathlib.Logic.Function.Basic
import Mathlib.Data.List.Basic
import Mathlib.Data.List.Nodup

/-! # Intrusive doubly linked lists

    The link words of a list lie in its nodes, and the list is known by the address of its first node.
    `IsList` says which nodes are on the list, in order; a push at the front (`isList_push`) and an unlink
    at any place (`isList_unlink`) keep it, and writes away from the nodes do not touch it
    (`IsList.congr`). -/

namespace Lib

open Function

/-- The link words of the nodes, by address. -/
structure Links (α : Type*) where
  next : α → α
  prev : α → α

namespace Links

variable {α : Type*}

/-- The nodes from `head` on are those of the list, each with the link back to the one before it. -/
def IsList (nil : α) (links : Links α) : α → α → List α → Prop
  | _, head, [] => head = nil
  | before, head, x :: xs => head = x ∧ x ≠ nil ∧ links.prev x = before ∧ IsList nil links x (links.next x) xs

variable {nil : α} {links links' : Links α} {before head x : α} {l : List α}

theorem IsList.congr : ∀ {l : List α} {before head : α},
    (∀ y ∈ l, links'.next y = links.next y ∧ links'.prev y = links.prev y) → IsList nil links before head l →
    IsList nil links' before head l
  | [], _, _, _, h => h
  | x :: xs, _, _, hsame, ⟨hhead, hnil, hprev, hrest⟩ => by
    obtain ⟨hnext, hback⟩ := hsame x List.mem_cons_self
    refine ⟨hhead, hnil, hback.trans hprev, hnext ▸ ?_⟩
    exact hrest.congr fun y hy => hsame y (List.mem_cons_of_mem x hy)

theorem IsList.nil_notMem : ∀ {l : List α} {before head : α}, IsList nil links before head l → nil ∉ l
  | [], _, _, _ => List.not_mem_nil
  | _ :: _, _, _, ⟨_, hnil, _, hrest⟩ => by
    rw [List.mem_cons, not_or]
    exact ⟨hnil.symm, hrest.nil_notMem⟩

theorem IsList.head_eq_nil (h : IsList nil links before head l) : head = nil ↔ l = [] := by
  cases l with
  | nil => exact ⟨fun _ => rfl, fun _ => h⟩
  | cons x xs =>
    obtain ⟨rfl, hnil, -⟩ := h
    exact ⟨fun heq => absurd heq hnil, fun heq => absurd heq (List.cons_ne_nil _ _)⟩

/-- The links say which list it is. -/
theorem IsList.unique : ∀ {l l' : List α} {before head : α}, IsList nil links before head l →
    IsList nil links before head l' → l = l'
  | [], [], _, _, _, _ => rfl
  | [], _ :: _, _, _, h, ⟨hhead, hnil, _⟩ => absurd (hhead.symm.trans h) hnil
  | _ :: _, [], _, _, ⟨hhead, hnil, _⟩, h => absurd (hhead.symm.trans h) hnil
  | x :: xs, y :: ys, _, _, ⟨hx, _, _, hxs⟩, ⟨hy, _, _, hys⟩ => by
    obtain rfl : x = y := hx.symm.trans hy
    rw [hxs.unique hys]

/-- The link back of a node leads to the node before it, which only the first one has outside the list. -/
theorem IsList.prev_of_mem : ∀ {l : List α} {before head : α}, IsList nil links before head l → x ∈ l →
    x = head ∧ links.prev x = before ∨ links.prev x ∈ l
  | y :: ys, before, head, ⟨hhead, _, hprev, hrest⟩, hx => by
    rcases List.mem_cons.1 hx with rfl | hx
    · exact Or.inl ⟨hhead.symm, hprev⟩
    · rcases hrest.prev_of_mem hx with ⟨-, hback⟩ | hin
      · exact Or.inr (hback ▸ List.mem_cons_self)
      · exact Or.inr (List.mem_cons_of_mem y hin)

theorem IsList.next_of_mem : ∀ {l : List α} {before head : α}, IsList nil links before head l → x ∈ l →
    links.next x = nil ∨ links.next x ∈ l
  | y :: ys, _, _, ⟨_, _, _, hrest⟩, hx => by
    rcases List.mem_cons.1 hx with rfl | hx
    · cases ys with
      | nil => exact Or.inl hrest
      | cons z zs => exact Or.inr (hrest.1 ▸ List.mem_cons_of_mem x List.mem_cons_self)
    · exact (hrest.next_of_mem hx).imp_right (List.mem_cons_of_mem y)

theorem IsList.prev_ne_self : ∀ {l : List α} {before head : α}, IsList nil links before head l → l.Nodup →
    before ∉ l → x ∈ l → links.prev x ≠ x
  | y :: ys, before, _, ⟨_, _, hprev, hrest⟩, hnodup, hbefore, hx => by
    obtain ⟨hy, hnodup⟩ := List.nodup_cons.1 hnodup
    rcases List.mem_cons.1 hx with rfl | hx
    · exact fun heq => hbefore (List.mem_cons.2 (Or.inl (hprev.symm.trans heq)))
    · exact hrest.prev_ne_self hnodup hy hx

/-- Of a whole list only the first node has no node before it. -/
theorem IsList.prev_eq_nil (h : IsList nil links nil head l) (hx : x ∈ l) (hnodup : l.Nodup) :
    links.prev x = nil ↔ x = head := by
  constructor
  · intro hprev
    rcases h.prev_of_mem hx with ⟨hhead, -⟩ | hin
    · exact hhead
    · exact absurd (hprev ▸ hin) h.nil_notMem
  · rintro rfl
    cases l with
    | nil => exact absurd hx List.not_mem_nil
    | cons y ys =>
      obtain ⟨rfl, -, hprev, -⟩ := h
      exact hprev

variable [DecidableEq α]

/-- Puts a node in front of the list. -/
def push (nil : α) (links : Links α) (head x : α) : Links α where
  next := update links.next x head
  prev := if head ≠ nil then update (update links.prev x nil) head x else update links.prev x nil

theorem isList_push (h : IsList nil links nil head l) (hnodup : l.Nodup) (hfresh : x ∉ l) (hx : x ≠ nil) :
    IsList nil (push nil links head x) nil x (x :: l) := by
  cases l with
  | nil =>
    obtain rfl : head = nil := h
    exact ⟨rfl, hx, by simp [push], by simp [push, IsList]⟩
  | cons y ys =>
    obtain ⟨rfl, hnil, -, hrest⟩ := h
    obtain ⟨hne, hfresh⟩ := not_or.1 (mt List.mem_cons.2 hfresh)
    have hnotin : head ∉ ys := (List.nodup_cons.1 hnodup).1
    refine ⟨rfl, hx, by simp [push, hnil, hne], by simp [push], hnil, by simp [push, hnil], ?_⟩
    rw [show (push nil links head x).next head = links.next head from update_of_ne (Ne.symm hne) _ _]
    refine hrest.congr fun z hz => ⟨update_of_ne (ne_of_mem_of_not_mem hz hfresh) _ _, ?_⟩
    simp only [push, if_pos hnil]
    rw [update_of_ne (ne_of_mem_of_not_mem hz hnotin), update_of_ne (ne_of_mem_of_not_mem hz hfresh)]

/-- A push writes the new node and the one that was first. -/
theorem push_of_ne {y : α} (hy : y ≠ x) (hhead : y ≠ head) :
    (push nil links head x).next y = links.next y ∧ (push nil links head x).prev y = links.prev y := by
  refine ⟨update_of_ne hy _ _, ?_⟩
  unfold push
  split <;> simp [hy, hhead]

/-- Takes a node out of its list: first the link of the node before it, then the one of the node after. -/
def unlink (nil : α) (links : Links α) (x : α) : Links α :=
  let ahead : Links α :=
    if links.prev x ≠ nil then { links with next := update links.next (links.prev x) (links.next x) } else links
  if ahead.next x ≠ nil then { ahead with prev := update ahead.prev (ahead.next x) (ahead.prev x) } else ahead

theorem unlink_next (y : α) (hself : links.prev x ≠ x) :
    (unlink nil links x).next y = if links.prev x ≠ nil ∧ y = links.prev x then links.next x else links.next y := by
  by_cases hprev : links.prev x = nil
  · by_cases hnext : links.next x = nil <;> simp [unlink, hprev, hnext]
  · by_cases hnext : links.next x = nil <;>
      simp [unlink, hprev, hnext, update_of_ne (Ne.symm hself), update_apply]

theorem unlink_prev (y : α) (hself : links.prev x ≠ x) :
    (unlink nil links x).prev y = if links.next x ≠ nil ∧ y = links.next x then links.prev x else links.prev y := by
  by_cases hprev : links.prev x = nil
  · by_cases hnext : links.next x = nil <;> simp [unlink, hprev, hnext, update_apply]
  · by_cases hnext : links.next x = nil <;>
      simp [unlink, hprev, hnext, update_of_ne (Ne.symm hself), update_apply]

/-- An unlink writes the neighbours of the node. -/
theorem unlink_of_ne {y : α} (hself : links.prev x ≠ x) (hprev : y ≠ links.prev x) (hnext : y ≠ links.next x) :
    (unlink nil links x).next y = links.next y ∧ (unlink nil links x).prev y = links.prev y := by
  rw [unlink_next y hself, unlink_prev y hself, if_neg fun h => hprev h.2, if_neg fun h => hnext h.2]
  exact ⟨rfl, rfl⟩

theorem IsList.unlink_aux (hself : links.prev x ≠ x) : ∀ {l : List α} {before head : α},
    IsList nil links before head l → l.Nodup → before ∉ l → x ∈ l →
    IsList nil (unlink nil links x) before (if head = x then links.next x else head) (l.erase x)
  | y :: ys, before, head, ⟨hhead, hnil, hprev, hrest⟩, hnodup, hbefore, hx => by
    obtain ⟨hy, hnodup⟩ := List.nodup_cons.1 hnodup
    obtain ⟨hbefore, hbefore'⟩ := not_or.1 (mt List.mem_cons.2 hbefore)
    rcases eq_or_ne y x with rfl | hne
    · -- the first node goes: the one after it is told who was before
      rw [List.erase_cons_head, if_pos hhead]
      cases ys with
      | nil => exact hrest
      | cons z zs =>
        obtain ⟨hz, hznil, -, hzs⟩ := hrest
        obtain ⟨hzb, hzsb⟩ := not_or.1 (mt List.mem_cons.2 hbefore')
        have hznotin : z ∉ zs := (List.nodup_cons.1 hnodup).1
        have hsame : ∀ w, w ≠ before → (unlink nil links y).next w = links.next w := fun w hw => by
          rw [unlink_next w hself, if_neg fun h => hw (h.2.trans hprev)]
        refine ⟨hz, hznil, ?_, ?_⟩
        · rw [unlink_prev z hself, if_pos ⟨hz ▸ hznil, hz.symm⟩, hprev]
        · rw [hsame z (Ne.symm hzb)]
          refine hzs.congr fun w hw => ⟨hsame w fun heq => hzsb (heq ▸ hw), ?_⟩
          rw [unlink_prev w hself, if_neg]
          rintro ⟨-, rfl⟩
          exact hznotin (hz ▸ hw)
    · have hin : x ∈ ys := (List.mem_cons.1 hx).resolve_left (Ne.symm hne)
      rw [List.erase_cons_tail (by simpa using hne), if_neg (hhead ▸ hne)]
      have hback : links.prev x = y ↔ links.next y = x := by
        constructor
        · intro heq
          rcases hrest.prev_of_mem hin with ⟨hfirst, -⟩ | hmem
          · exact hfirst.symm
          · exact absurd (heq ▸ hmem) hy
        · rintro rfl
          rcases hrest.prev_of_mem hin with ⟨-, hprev⟩ | hmem
          · exact hprev
          · cases ys with
            | nil => exact absurd hin List.not_mem_nil
            | cons z zs => exact hrest.1 ▸ hrest.2.2.1
      refine ⟨hhead, hnil, ?_, ?_⟩
      · rw [unlink_prev y hself, if_neg, hprev]
        rintro ⟨hnext, rfl⟩
        exact hy ((hrest.next_of_mem hin).resolve_left hnext)
      · have hnext : (unlink nil links x).next y = if links.next y = x then links.next x else links.next y := by
          rw [unlink_next y hself]
          refine if_congr ⟨fun h => hback.1 h.2.symm, fun h => ?_⟩ rfl rfl
          have heq := hback.2 h
          exact ⟨heq ▸ hnil, heq.symm⟩
        rw [hnext]
        exact hrest.unlink_aux hself hnodup hy hin

/-- The node gone, the list is the one without it; the head moves when it was the first. -/
theorem isList_unlink (h : IsList nil links nil head l) (hnodup : l.Nodup) (hx : x ∈ l) :
    IsList nil (unlink nil links x) nil (if links.prev x ≠ nil then head else links.next x) (l.erase x) := by
  have hself := h.prev_ne_self hnodup h.nil_notMem hx
  have hlist := h.unlink_aux hself hnodup h.nil_notMem hx
  have hhead : (if head = x then links.next x else head) = if links.prev x ≠ nil then head else links.next x := by
    by_cases hfirst : head = x
    · rw [if_pos hfirst, if_neg (not_not_intro ((h.prev_eq_nil hx hnodup).2 hfirst.symm))]
    · rw [if_neg hfirst, if_pos fun hnil => hfirst ((h.prev_eq_nil hx hnodup).1 hnil).symm]
  rwa [hhead] at hlist

end Links

end Lib
