import Mathlib.Data.Fintype.Card
import Mathlib.Data.Nat.Nth
import Mathlib.Dynamics.FixedPoints.Basic
import Mathlib.Order.Bounds.Defs

/-! # Sweeping a graph with two children a node

    A sweep takes a node off a stack, notes how deep it stands and puts its children there, the right one
    on top; it stops when the stack would grow past its room. It does not know which nodes it has met.
    If it comes to its end there is a finite tree below the root, and it has found its depth. If there is
    none, the sweep follows the `descent`: right where the right child has no finite tree below it, left
    otherwise. That ends with a full stack if it goes right again and again, and never if it goes only
    left from some node on (`stops_iff`). -/

namespace Lib

namespace StackSweep

variable {ι κ : Type*} (children : ι → Option (ι × ι))

/-- Below the node is a finite tree of this depth, counted in nodes. -/
inductive Depth : ι → ℕ → Prop
  | leaf {v : ι} (h : children v = none) : Depth v 1
  | node {v l r : ι} {a b : ℕ} (h : children v = some (l, r)) (hl : Depth l a) (hr : Depth r b) : Depth v
    (max a b + 1)

/-- A way of so many nodes down to a leaf. -/
inductive Way : ι → ℕ → Prop
  | leaf {v : ι} (h : children v = none) : Way v 1
  | left {v l r : ι} {n : ℕ} (h : children v = some (l, r)) (hl : Way l n) : Way v (n + 1)
  | right {v l r : ι} {n : ℕ} (h : children v = some (l, r)) (hr : Way r n) : Way v (n + 1)

/-- Below the node is a finite tree. -/
def Grounded (v : ι) : Prop := ∃ d, Depth children v d

/-- To be a child. -/
def Child (w v : ι) : Prop := ∃ l r, children v = some (l, r) ∧ (w = l ∨ w = r)

/-- How a sweep ends: with the depth, with a full stack, or not in the steps it had. -/
inductive SweepEnd where
  | depth (d : ℕ)
  | full
  | unfinished
  deriving DecidableEq

/-- The sweep, with nodes on the stack beside their depths. -/
def sweep (cap : ℕ) : ℕ → List (ι × ℕ) → ℕ → SweepEnd
  | _, [], d => .depth d
  | 0, _ :: _, _ => .unfinished
  | fuel + 1, (v, dd) :: rest, d =>
    match children v with
    | none => sweep cap fuel rest (max d dd)
    | some (l, r) => if rest.length + 2 > cap then .full
      else sweep cap fuel ((r, dd + 1) :: (l, dd + 1) :: rest) (max d dd)

variable {children} {v l r : ι} {a b d dd fuel cap n : ℕ} {rest stack : List (ι × ℕ)}

/-! ### Depth -/

theorem Depth.unique (h : Depth children v a) : ∀ {b}, Depth children v b → a = b := by
  induction h with
  | leaf h =>
    rintro b (h' | ⟨h', -, -⟩)
    · rfl
    · rw [h] at h'
      cases h'
  | node h _ _ ihl ihr =>
    rintro b (h' | ⟨h', hl', hr'⟩)
    · rw [h] at h'
      cases h'
    · rw [h] at h'
      obtain ⟨rfl, rfl⟩ := Prod.mk.inj (Option.some.inj h')
      rw [ihl hl', ihr hr']

theorem Depth.pos (h : Depth children v d) : 0 < d := by
  cases h with
  | leaf => exact Nat.one_pos
  | node => exact Nat.succ_pos _

/-- There is a finite tree below a node from which no way down goes on for ever. -/
theorem grounded_iff_acc : Grounded children v ↔ Acc (Child children) v := by
  constructor
  · rintro ⟨d, hd⟩
    induction hd with
    | leaf h =>
      refine ⟨_, fun w hw => ?_⟩
      obtain ⟨l, r, hchildren, -⟩ := hw
      rw [h] at hchildren
      cases hchildren
    | node h _ _ ihl ihr =>
      refine ⟨_, fun w hw => ?_⟩
      obtain ⟨l, r, hchildren, hw⟩ := hw
      rw [h] at hchildren
      obtain ⟨rfl, rfl⟩ := Prod.mk.inj (Option.some.inj hchildren)
      rcases hw with rfl | rfl
      · exact ihl
      · exact ihr
  · intro h
    induction h with
    | intro v _ ih =>
      cases hchildren : children v with
      | none => exact ⟨1, .leaf hchildren⟩
      | some lr =>
        obtain ⟨a, ha⟩ := ih lr.1 ⟨lr.1, lr.2, hchildren, .inl rfl⟩
        obtain ⟨b, hb⟩ := ih lr.2 ⟨lr.1, lr.2, hchildren, .inr rfl⟩
        exact ⟨_, .node hchildren ha hb⟩

/-- The depth is the number of nodes on the longest way down. -/
theorem Depth.isGreatest (h : Depth children v d) : IsGreatest {n | Way children v n} d := by
  induction h with
  | leaf h =>
    refine ⟨.leaf h, ?_⟩
    rintro n (_ | ⟨h', -⟩ | ⟨h', -⟩)
    · exact le_rfl
    · rw [h] at h'
      cases h'
    · rw [h] at h'
      cases h'
  | @node v l r a b h _ _ ihl ihr =>
    constructor
    · rcases le_total a b with hle | hle
      · rw [max_eq_right hle]
        exact .right h ihr.1
      · rw [max_eq_left hle]
        exact .left h ihl.1
    · rintro n (h' | ⟨h', hw⟩ | ⟨h', hw⟩)
      · rw [h] at h'
        cases h'
      · rw [h] at h'
        obtain ⟨rfl, rfl⟩ := Prod.mk.inj (Option.some.inj h')
        exact Nat.succ_le_succ ((ihl.2 hw).trans (le_max_left _ _))
      · rw [h] at h'
        obtain ⟨rfl, rfl⟩ := Prod.mk.inj (Option.some.inj h')
        exact Nat.succ_le_succ ((ihr.2 hw).trans (le_max_right _ _))

/-- Below a node stands one of every smaller depth. -/
theorem Depth.exists_below {S : Set ι} (hclosed : ∀ v ∈ S, ∀ l r, children v = some (l, r) → l ∈ S ∧ r ∈ S)
    (h : Depth children v d) (hv : v ∈ S) : ∀ k, 0 < k → k ≤ d → ∃ w ∈ S, Depth children w k := by
  induction h with
  | @leaf v h =>
    intro k hpos hle
    obtain rfl : k = 1 := by omega
    exact ⟨v, hv, .leaf h⟩
  | @node v l r a b h hl hr ihl ihr =>
    intro k hpos hle
    obtain ⟨hlS, hrS⟩ := hclosed v hv l r h
    rcases Nat.lt_or_ge (max a b) k with hlt | hle'
    · obtain rfl : k = max a b + 1 := by omega
      exact ⟨v, hv, .node h hl hr⟩
    · rcases le_max_iff.1 hle' with hka | hkb
      · exact ihl hlS k hpos hka
      · exact ihr hrS k hpos hkb

/-- A tree is no deeper than there are nodes with finite trees below them. -/
theorem Depth.le_card {S : Finset ι} (hclosed : ∀ v ∈ S, ∀ l r, children v = some (l, r) → l ∈ S ∧ r ∈ S)
    {G : Finset ι} (hG : ∀ v ∈ S, Grounded children v → v ∈ G) (h : Depth children v d) (hv : v ∈ S) :
    d ≤ G.card := by
  have hbelow := h.exists_below (S := {v | v ∈ S}) hclosed hv
  choose w hw using fun k : Fin d => hbelow (k + 1) (Nat.succ_pos _) k.isLt
  have hinj : Function.Injective w := by
    intro k k' heq
    have hdepth := (hw k).2
    rw [heq] at hdepth
    exact Fin.ext (Nat.succ.inj (hdepth.unique (hw k').2))
  have hmaps : ∀ k ∈ (Finset.univ : Finset (Fin d)), w k ∈ G := fun k _ => hG _ (hw k).1 ⟨_, (hw k).2⟩
  have hcard := Finset.card_le_card_of_injOn w hmaps hinj.injOn
  rwa [Finset.card_univ, Fintype.card_fin] at hcard

/-! ### Stretches of a sweep -/

/-- So many steps lead a sweep from one stack and depth to another. -/
def Leads (children : ι → Option (ι × ι)) (cap k : ℕ) (s t : List (ι × ℕ) × ℕ) : Prop :=
  ∀ fuel, sweep children cap (fuel + k) s.1 s.2 = sweep children cap fuel t.1 t.2

/-- The sweep comes to a full stack. -/
def Overflows (children : ι → Option (ι × ι)) (cap : ℕ) (s : List (ι × ℕ) × ℕ) : Prop :=
  ∃ k, ∀ fuel, sweep children cap (fuel + k) s.1 s.2 = .full

theorem Leads.trans {j k : ℕ} {s t u : List (ι × ℕ) × ℕ} (h : Leads children cap j s t)
    (h' : Leads children cap k t u) :
    Leads children cap (k + j) s u := by
  intro fuel
  rw [← Nat.add_assoc, h, h']

theorem Leads.overflows {k : ℕ} {s t : List (ι × ℕ) × ℕ} (h : Leads children cap k s t)
    (h' : Overflows children cap t) :
    Overflows children cap s := by
  obtain ⟨j, hj⟩ := h'
  refine ⟨j + k, fun fuel => ?_⟩
  rw [← Nat.add_assoc, h, hj]

theorem leads_leaf (h : children v = none) : Leads children cap 1 ((v, dd) :: rest, d) (rest, max d dd) := by
  intro fuel
  simp only [sweep, h]

theorem leads_node (h : children v = some (l, r)) (hroom : rest.length + 2 ≤ cap) :
    Leads children cap 1 ((v, dd) :: rest, d) ((r, dd + 1) :: (l, dd + 1) :: rest, max d dd) := by
  intro fuel
  simp only [sweep, h]
  rw [if_neg (Nat.not_lt.2 hroom)]

theorem overflows_node (h : children v = some (l, r)) (hroom : cap < rest.length + 2) :
    Overflows children cap ((v, dd) :: rest, d) := by
  refine ⟨1, fun fuel => ?_⟩
  simp only [sweep, h]
  rw [if_pos hroom]

/-- An end that was reached stays with more steps. -/
theorem sweep_mono : ∀ {fuel stack d}, sweep children cap fuel stack d ≠ .unfinished →
    ∀ k, sweep children cap (fuel + k) stack d = sweep children cap fuel stack d := by
  intro fuel
  induction fuel with
  | zero =>
    intro stack d h k
    match stack with
    | [] => rw [sweep, sweep]
    | _ :: _ => exact absurd rfl h
  | succ fuel ih =>
    intro stack d h k
    match stack with
    | [] => rw [sweep, sweep]
    | (v, dd) :: rest =>
      rw [Nat.add_right_comm]
      cases hv : children v with
      | none =>
        simp only [sweep, hv] at h ⊢
        exact ih h k
      | some lr =>
        obtain ⟨l, r⟩ := lr
        simp only [sweep, hv] at h ⊢
        split at h
        next hfull => rw [if_pos hfull, if_pos hfull]
        next hroom =>
          rw [if_neg hroom, if_neg hroom]
          exact ih h k

/-- Two runs of the sweep that both end, end alike. -/
theorem sweep_agree {fuel fuel' : ℕ} (h : sweep children cap fuel stack d ≠ .unfinished)
    (h' : sweep children cap fuel' stack d ≠ .unfinished) :
    sweep children cap fuel stack d = sweep children cap fuel' stack d := by
  rw [← sweep_mono h fuel', ← sweep_mono h' fuel, Nat.add_comm]

/-! ### Over a finite tree -/

/-- The sweep over a finite tree on the stack notes how deep it goes, unless the stack has no room for that. -/
theorem Depth.leads_or (cap : ℕ) (h : Depth children v n) : ∀ dd d (rest : List (ι × ℕ)),
    (Overflows children cap ((v, dd) :: rest, d) ∧ cap < rest.length + n) ∨
      ∃ k, 0 < k ∧ Leads children cap k ((v, dd) :: rest, d) (rest, max d (dd + n - 1)) := by
  induction h with
  | leaf h =>
    intro dd d rest
    exact .inr ⟨1, Nat.one_pos, leads_leaf h⟩
  | @node v l r a b h hl hr ihl ihr =>
    intro dd d rest
    have ha := hl.pos
    have hb := hr.pos
    rcases Nat.lt_or_ge cap (rest.length + 2) with hfull | hroom
    · exact .inl ⟨overflows_node h hfull, by omega⟩
    have hnode : Leads children cap 1 ((v, dd) :: rest, d) _ := leads_node h hroom
    rcases ihr (dd + 1) (max d dd) ((l, dd + 1) :: rest) with ⟨hfull, hlt⟩ | ⟨k, -, hright⟩
    · rw [List.length_cons] at hlt
      exact .inl ⟨hnode.overflows hfull, by omega⟩
    rcases ihl (dd + 1) (max (max d dd) (dd + 1 + b - 1)) rest with ⟨hfull, hlt⟩ | ⟨j, hj, hleft⟩
    · exact .inl ⟨(hnode.trans hright).overflows hfull, by omega⟩
    · refine .inr ⟨j + (k + 1), by omega, ?_⟩
      have hdepth : max d (dd + (max a b + 1) - 1) = max (max (max d dd) (dd + 1 + b - 1)) (dd + 1 + a - 1) :=
        by omega
      rw [hdepth]
      exact (hnode.trans hright).trans hleft

/-- A sweep that ends has found finite trees below all nodes on its stack. -/
theorem grounded_of_sweep :
    ∀ {fuel stack d}, sweep children cap fuel stack d = .depth n → ∀ p ∈ stack, Grounded children p.1 := by
  intro fuel
  induction fuel with
  | zero =>
    intro stack d h p hp
    match stack with
    | [] => exact absurd hp List.not_mem_nil
    | _ :: _ => cases h
  | succ fuel ih =>
    intro stack d h p hp
    match stack with
    | [] => exact absurd hp List.not_mem_nil
    | (v, dd) :: rest =>
      cases hv : children v with
      | none =>
        simp only [sweep, hv] at h
        rcases List.mem_cons.1 hp with rfl | hp
        · exact ⟨1, .leaf hv⟩
        · exact ih h p hp
      | some lr =>
        obtain ⟨l, r⟩ := lr
        simp only [sweep, hv] at h
        split at h
        next => cases h
        next =>
          rcases List.mem_cons.1 hp with rfl | hp
          · obtain ⟨b, hr⟩ := ih h _ List.mem_cons_self
            obtain ⟨a, hl⟩ := ih h _ (List.mem_cons_of_mem _ List.mem_cons_self)
            exact ⟨_, .node hv hl hr⟩
          · exact ih h p (List.mem_cons_of_mem _ (List.mem_cons_of_mem _ hp))

/-- A sweep that ends has found the depth. -/
theorem depth_of_sweep (h : sweep children cap fuel [(v, 1)] 1 = .depth n) : Depth children v n := by
  obtain ⟨d, hd⟩ := grounded_of_sweep h _ List.mem_cons_self
  have hpos := hd.pos
  rcases hd.leads_or cap 1 1 [] with ⟨⟨k, hk⟩, -⟩ | ⟨k, -, hk⟩
  · have hsame := sweep_agree (by rw [h]; exact SweepEnd.noConfusion) (by rw [hk 0]; exact SweepEnd.noConfusion)
    rw [h, hk 0] at hsame
    cases hsame
  · have hend : sweep children cap (0 + k) [(v, 1)] 1 = .depth (max 1 (1 + d - 1)) := by rw [hk 0, sweep]
    have hsame := sweep_agree (by rw [h]; exact SweepEnd.noConfusion) (by rw [hend]; exact SweepEnd.noConfusion)
    rw [h, hend] at hsame
    obtain rfl : n = d := by
      have := SweepEnd.depth.inj hsame
      omega
    exact hd

/-! ### Where there is none -/

/-- The node has no finite tree below its right child. -/
def TurnsRight (children : ι → Option (ι × ι)) (v : ι) : Prop :=
  ∃ l r, children v = some (l, r) ∧ ¬Grounded children r

open Classical in
/-- The next node of a sweep that has no finite tree below it. -/
noncomputable def descent (children : ι → Option (ι × ι)) (v : ι) : ι :=
  match children v with
  | none => v
  | some (l, r) => if Grounded children r then l else r

/-- There is no finite tree below the root, and from some node on the sweep only goes left. -/
def Lingers (children : ι → Option (ι × ι)) (root : ι) : Prop :=
  ¬Grounded children root ∧ ∃ N, ∀ i, N ≤ i → ¬TurnsRight children ((descent children)^[i] root)

theorem descent_right (h : children v = some (l, r)) (hr : ¬Grounded children r) : descent children v = r := by
  simp only [descent, h]
  rw [if_neg hr]

theorem descent_left (h : children v = some (l, r)) (hr : Grounded children r) : descent children v = l := by
  simp only [descent, h]
  rw [if_pos hr]

theorem turnsRight_iff (h : children v = some (l, r)) : TurnsRight children v ↔ ¬Grounded children r := by
  constructor
  · rintro ⟨l', r', h', hr⟩
    rw [h] at h'
    obtain ⟨rfl, rfl⟩ := Prod.mk.inj (Option.some.inj h')
    exact hr
  · exact fun hr => ⟨l, r, h, hr⟩

theorem exists_children (hv : ¬Grounded children v) : ∃ l r, children v = some (l, r) := by
  cases h : children v with
  | none => exact absurd ⟨1, .leaf h⟩ hv
  | some lr => exact ⟨lr.1, lr.2, rfl⟩

theorem not_grounded_descent (hv : ¬Grounded children v) : ¬Grounded children (descent children v) := by
  obtain ⟨l, r, h⟩ := exists_children hv
  by_cases hr : Grounded children r
  · rw [descent_left h hr]
    rintro ⟨a, hl⟩
    obtain ⟨b, hr⟩ := hr
    exact hv ⟨_, .node h hl hr⟩
  · rwa [descent_right h hr]

theorem not_grounded_iterate (hv : ¬Grounded children v) : ∀ i, ¬Grounded children ((descent children)^[i] v)
  | 0 => hv
  | i + 1 => by
    rw [Function.iterate_succ_apply']
    exact not_grounded_descent (not_grounded_iterate hv i)

open Classical in
/-- The right turns among the first nodes of the descent. -/
noncomputable def turns (children : ι → Option (ι × ι)) (root : ι) : ℕ → ℕ :=
  Nat.count fun i => TurnsRight children ((descent children)^[i] root)

/-- One step down: a right turn leaves one node more on the stack, a left one sweeps over the right child first. -/
theorem leads_descent (cap : ℕ) (hv : ¬Grounded children v) (dd d : ℕ) (rest : List (ι × ℕ)) :
    (Overflows children cap ((v, dd) :: rest, d) ∧
      ((TurnsRight children v ∧ cap < rest.length + 2) ∨
        ∃ l r n, children v = some (l, r) ∧ Depth children r n ∧ cap < rest.length + 1 + n)) ∨
      ∃ k rest' d', 0 < k ∧ (TurnsRight children v → rest'.length = rest.length + 1) ∧
        (¬TurnsRight children v → rest'.length = rest.length) ∧
        Leads children cap k ((v, dd) :: rest, d) ((descent children v, dd + 1) :: rest', d') := by
  obtain ⟨l, r, h⟩ := exists_children hv
  have hturn := turnsRight_iff h
  by_cases hr : Grounded children r
  · have hleft : ¬TurnsRight children v := fun ht => hturn.1 ht hr
    obtain ⟨n, hn⟩ := hr
    have hpos := hn.pos
    rcases Nat.lt_or_ge cap (rest.length + 2) with hfull | hroom
    · exact .inl ⟨overflows_node h hfull, .inr ⟨l, r, n, h, hn, by omega⟩⟩
    have hnode : Leads children cap 1 ((v, dd) :: rest, d) _ := leads_node h hroom
    rcases hn.leads_or cap (dd + 1) (max d dd) ((l, dd + 1) :: rest) with ⟨hfull, hlt⟩ | ⟨k, hk, hright⟩
    · rw [List.length_cons] at hlt
      exact .inl ⟨hnode.overflows hfull, .inr ⟨l, r, n, h, hn, by omega⟩⟩
    · refine .inr ⟨k + 1, rest, max (max d dd) (dd + 1 + n - 1), Nat.succ_pos k, fun ht =>
        absurd ht hleft, fun _ => rfl, ?_⟩
      rw [descent_left h ⟨n, hn⟩]
      exact hnode.trans hright
  · have hright := hturn.2 hr
    rcases Nat.lt_or_ge cap (rest.length + 2) with hfull | hroom
    · exact .inl ⟨overflows_node h hfull, .inl ⟨hright, hfull⟩⟩
    · refine .inr ⟨1, (l, dd + 1) :: rest, max d dd, Nat.one_pos, fun _ => rfl, fun ht => absurd hright ht, ?_⟩
      rw [descent_right h hr]
      exact leads_node h hroom

/-- Where the sweep is after so many nodes of the descent, unless the stack has become full at one of them. -/
theorem leads_iterate {root : ι} (cap : ℕ) (hroot : ¬Grounded children root) (i : ℕ) :
    (Overflows children cap ([(root, 1)], 1) ∧ ∃ j < i,
      (TurnsRight children ((descent children)^[j] root) ∧ cap < turns children root j + 2) ∨
        ∃ l r n, children ((descent children)^[j] root) = some (l, r) ∧ Depth children r n ∧
          cap < turns children root j + 1 + n) ∨
      ∃ k dd rest d, i ≤ k ∧ rest.length = turns children root i ∧
        Leads children cap k ([(root, 1)], 1) (((descent children)^[i] root, dd) :: rest, d) := by
  induction i with
  | zero => exact .inr ⟨0, 1, [], 1, Nat.le_refl 0, by simp [turns], fun _ => rfl⟩
  | succ i ih =>
    rcases ih with ⟨hfull, j, hj, hwhy⟩ | ⟨k, dd, rest, d, hik, hlength, hleads⟩
    · exact .inl ⟨hfull, j, Nat.lt_succ_of_lt hj, hwhy⟩
    rcases leads_descent cap (not_grounded_iterate hroot i) dd d rest with
      ⟨hfull, hwhy⟩ | ⟨j, rest', d', hj, hright, hleft, hstep⟩
    · rw [hlength] at hwhy
      exact .inl ⟨hleads.overflows hfull, i, Nat.lt_succ_self i, hwhy⟩
    · refine .inr ⟨j + k, dd + 1, rest', d', by omega, ?_, ?_⟩
      · rw [turns, Nat.count_succ, ← turns]
        split
        next ht => rw [hright ht, hlength]
        next ht => rw [hleft ht, hlength]; rfl
      · rw [Function.iterate_succ_apply']
        exact hleads.trans hstep

/-- A right turn is not met again if the turns come to an end. -/
theorem turn_once {root : ι} {N i p : ℕ} (hN : ∀ i, N ≤ i → ¬TurnsRight children ((descent children)^[i] root))
    (hp : 0 < p)
    (hturn : TurnsRight children ((descent children)^[i] root)) :
    (descent children)^[i + p] root ≠ (descent children)^[i] root := by
  intro hback
  have hround : (descent children)^[p] ((descent children)^[i] root) = (descent children)^[i] root := by
    rwa [← Function.iterate_add_apply, Nat.add_comm]
  have hperiod : Function.IsFixedPt (descent children)^[p] ((descent children)^[i] root) := hround
  have hagain : (descent children)^[p * N + i] root = (descent children)^[i] root := by
    rw [Function.iterate_add_apply, Function.iterate_mul]
    exact hperiod.iterate N
  have hlate : N ≤ p * N + i := (Nat.le_mul_of_pos_left N hp).trans (Nat.le_add_right _ _)
  rw [← hagain] at hturn
  exact hN _ hlate hturn

section Closed

variable {S : Finset ι} (hclosed : ∀ v ∈ S, ∀ l r, children v = some (l, r) → l ∈ S ∧ r ∈ S)
include hclosed

theorem descent_mem (hv : v ∈ S) : descent children v ∈ S := by
  cases h : children v with
  | none => simpa only [descent, h] using hv
  | some lr =>
    obtain ⟨hl, hr⟩ := hclosed v hv lr.1 lr.2 h
    simp only [descent, h]
    split
    · exact hl
    · exact hr

theorem iterate_mem {root : ι} (hroot : root ∈ S) : ∀ i, (descent children)^[i] root ∈ S
  | 0 => hroot
  | i + 1 => by
    rw [Function.iterate_succ_apply']
    exact descent_mem hclosed (iterate_mem hroot i)

open Classical in
/-- There are more nodes without a finite tree below them than right turns. -/
theorem turns_lt {root : ι} (hmem : root ∈ S) (hlingers : Lingers children root) (i : ℕ) :
    turns children root i + 1 ≤ (S.filter fun v => ¬Grounded children v).card := by
  obtain ⟨hroot, N, hN⟩ := hlingers
  have hinj : Set.InjOn (fun j => (descent children)^[j] root)
      ((Finset.range i).filter fun j => TurnsRight children ((descent children)^[j] root)) := by
    intro j hj k hk heq
    have hjt := (Finset.mem_filter.1 hj).2
    have hkt := (Finset.mem_filter.1 hk).2
    rcases Nat.lt_trichotomy j k with hlt | rfl | hgt
    · obtain ⟨p, rfl⟩ := Nat.exists_eq_add_of_lt hlt
      exact absurd heq.symm (turn_once hN (Nat.succ_pos p) hjt)
    · rfl
    · obtain ⟨p, rfl⟩ := Nat.exists_eq_add_of_lt hgt
      exact absurd heq (turn_once hN (Nat.succ_pos p) hkt)
  have hlast : (descent children)^[N] root ∉ ((Finset.range i).filter fun j =>
      TurnsRight children ((descent children)^[j] root)).image fun j => (descent children)^[j] root := by
    intro hmem
    obtain ⟨j, hj, heq⟩ := Finset.mem_image.1 hmem
    have hturn := (Finset.mem_filter.1 hj).2
    have hsame : (descent children)^[j] root = (descent children)^[N] root := heq
    rw [hsame] at hturn
    exact hN N le_rfl hturn
  have hcount : turns children root i = ((Finset.range i).filter fun j =>
      TurnsRight children ((descent children)^[j] root)).card := by
    rw [turns, Nat.count_eq_card_filter_range]
  rw [hcount, ← Finset.card_image_of_injOn hinj, ← Finset.card_insert_of_notMem hlast]
  refine Finset.card_le_card fun v hv => Finset.mem_filter.2 ?_
  rcases Finset.mem_insert.1 hv with rfl | hv
  · exact ⟨iterate_mem hclosed hmem N, not_grounded_iterate hroot N⟩
  · obtain ⟨j, -, rfl⟩ := Finset.mem_image.1 hv
    exact ⟨iterate_mem hclosed hmem j, not_grounded_iterate hroot j⟩

open Classical in
/-- With room for all nodes on the stack, the sweep of a graph in which it lingers does not end. -/
theorem Lingers.unfinished {root : ι} (hlingers : Lingers children root) (hmem : root ∈ S) (hcap : S.card ≤ cap)
    (fuel : ℕ) :
    sweep children cap fuel [(root, 1)] 1 = .unfinished := by
  have hroot := hlingers.1
  have hsum := Finset.card_filter_add_card_filter_not (s := S) (Grounded children)
  have hroom : ∀ j, TurnsRight children ((descent children)^[j] root) → turns children root j + 2 ≤ cap := by
    intro j hj
    have hnext := turns_lt hclosed hmem hlingers (j + 1)
    rw [turns, Nat.count_succ, if_pos hj, ← turns] at hnext
    omega
  have hfits : ∀ j l r n, children ((descent children)^[j] root) = some (l, r) → Depth children r n →
      turns children root j + 1 + n ≤ cap := by
    intro j l r n hj hn
    have hturns := turns_lt hclosed hmem hlingers j
    have hr := (hclosed _ (iterate_mem hclosed hmem j) l r hj).2
    have hdepth :=
      hn.le_card (G := S.filter (Grounded children)) hclosed (fun v hv hg => Finset.mem_filter.2 ⟨hv, hg⟩) hr
    omega
  rcases leads_iterate cap hroot fuel with ⟨-, j, -, hwhy⟩ | ⟨k, dd, rest, d, hk, -, hleads⟩
  · rcases hwhy with ⟨ht, hlt⟩ | ⟨l, r, n, hj, hn, hlt⟩
    · exact absurd (hroom j ht) (Nat.not_le.2 hlt)
    · exact absurd (hfits j l r n hj hn) (Nat.not_le.2 hlt)
  · have hcut : sweep children cap (0 + k) [(root, 1)] 1 = .unfinished := by rw [hleads 0, sweep]
    by_contra hend
    obtain ⟨more, rfl⟩ := Nat.exists_eq_add_of_le hk
    rw [Nat.zero_add, sweep_mono hend more] at hcut
    exact hend hcut

end Closed

open Classical in
/-- A sweep that goes right again and again comes to a full stack. -/
theorem overflows_of_turns {root : ι} (hroot : ¬Grounded children root)
    (h : ¬∃ N, ∀ i, N ≤ i → ¬TurnsRight children ((descent children)^[i] root)) :
    Overflows children cap ([(root, 1)], 1) := by
  have hinf : (Set.ofPred fun i => TurnsRight children ((descent children)^[i] root)).Infinite := by
    refine Set.infinite_of_not_bddAbove fun ⟨N, hN⟩ => h ⟨N + 1, fun i hi ht => ?_⟩
    have := hN ht
    omega
  have hturn := Nat.nth_mem_of_infinite hinf cap
  rcases leads_iterate cap hroot (Nat.nth (fun i => TurnsRight children ((descent children)^[i] root)) cap) with
    ⟨hfull, -⟩ | ⟨k, dd, rest, d, -, hlength, hleads⟩
  · exact hfull
  · obtain ⟨l, r, hchildren, -⟩ := hturn
    have hcount : rest.length = cap := by rw [hlength, turns, Nat.count_nth_of_infinite hinf]
    exact hleads.overflows (overflows_node hchildren (by omega))

/-- With room for all nodes on the stack, a sweep ends just if it does not linger. -/
theorem stops_iff {S : Finset ι} (hclosed : ∀ v ∈ S, ∀ l r, children v = some (l, r) → l ∈ S ∧ r ∈ S) {root : ι}
    (hmem : root ∈ S)
    (hcap : S.card ≤ cap) :
    (∃ fuel, sweep children cap fuel [(root, 1)] 1 ≠ .unfinished) ↔ ¬Lingers children root := by
  constructor
  · rintro ⟨fuel, hend⟩ hlingers
    exact hend (hlingers.unfinished hclosed hmem hcap fuel)
  · intro hno
    have hends : Overflows children cap ([(root, 1)], 1) →
      ∃ fuel, sweep children cap fuel [(root, 1)] 1 ≠ .unfinished := by
      rintro ⟨k, hk⟩
      exact ⟨0 + k, by rw [hk 0]; exact SweepEnd.noConfusion⟩
    by_cases hroot : Grounded children root
    · obtain ⟨n, hn⟩ := hroot
      rcases hn.leads_or cap 1 1 [] with ⟨hfull, -⟩ | ⟨k, -, hk⟩
      · exact hends hfull
      · exact ⟨0 + k, by rw [hk 0, sweep]; exact SweepEnd.noConfusion⟩
    · exact hends (overflows_of_turns hroot fun hN => hno ⟨hroot, hN⟩)

/-! ### Other names for the nodes -/

section Relabel

variable {children' : κ → Option (κ × κ)} {f : ι → κ} {S : Finset ι}
  (hclosed : ∀ v ∈ S, ∀ l r, children v = some (l, r) → l ∈ S ∧ r ∈ S)
  (hlabel : ∀ v ∈ S, children' (f v) = (children v).map (Prod.map f f))
include hclosed hlabel

theorem depth_relabel (hv : v ∈ S) : Depth children' (f v) n ↔ Depth children v n := by
  constructor
  · intro h
    generalize hw : f v = w at h
    induction h generalizing v with
    | leaf h =>
      rw [← hw, hlabel v hv, Option.map_eq_none_iff] at h
      exact .leaf h
    | node h _ _ ihl ihr =>
      rw [← hw, hlabel v hv] at h
      obtain ⟨⟨l, r⟩, hchildren, heq⟩ := Option.map_eq_some_iff.1 h
      obtain ⟨hl, hr⟩ := hclosed v hv l r hchildren
      obtain ⟨hfl, hfr⟩ := Prod.mk.inj heq
      exact .node hchildren (ihl hl hfl) (ihr hr hfr)
  · intro h
    induction h with
    | @leaf v h => exact .leaf (by rw [hlabel v hv, h]; rfl)
    | @node v l r a b h _ _ ihl ihr =>
      obtain ⟨hl, hr⟩ := hclosed v hv l r h
      exact .node (by rw [hlabel v hv, h]; rfl) (ihl hl) (ihr hr)

/-- The sweep does the same under other names. -/
theorem sweep_relabel (fuel : ℕ) : ∀ (stack : List (ι × ℕ)) (d : ℕ), (∀ p ∈ stack, p.1 ∈ S) →
    sweep children' cap fuel (stack.map fun p => (f p.1, p.2)) d = sweep children cap fuel stack d := by
  induction fuel with
  | zero =>
    intro stack d _
    match stack with
    | [] => rw [List.map_nil, sweep, sweep]
    | _ :: _ => rw [List.map_cons, sweep, sweep]
  | succ fuel ih =>
    intro stack d hstack
    match stack with
    | [] => rw [List.map_nil, sweep, sweep]
    | (v, dd) :: rest =>
      have hv := hstack _ List.mem_cons_self
      have hrest : ∀ p ∈ rest, p.1 ∈ S := fun p hp => hstack p (List.mem_cons_of_mem _ hp)
      cases h : children v with
      | none =>
        have h' : children' (f v) = none := by rw [hlabel v hv, h, Option.map_none]
        simp only [List.map_cons, sweep, h, h']
        exact ih rest _ hrest
      | some lr =>
        obtain ⟨l, r⟩ := lr
        have h' : children' (f v) = some (f l, f r) := by rw [hlabel v hv, h]; rfl
        obtain ⟨hl, hr⟩ := hclosed v hv l r h
        simp only [List.map_cons, sweep, h, h', List.length_map]
        split
        · rfl
        · refine ih ((r, dd + 1) :: (l, dd + 1) :: rest) _ fun p hp => ?_
          rcases List.mem_cons.1 hp with rfl | hp
          · exact hr
          rcases List.mem_cons.1 hp with rfl | hp
          · exact hl
          · exact hrest p hp

end Relabel

end StackSweep

end Lib
