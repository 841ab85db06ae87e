import FoxTrader.Lib.SlidingWindow
import Mathlib.Data.List.Range
import Mathlib.Order.Interval.Finset.Nat

/-! # Rings with an absolute cursor

    A ring of `w` cells whose cursor counts all pushes ever made writes the push `k` to the cell `k % w`.
    `Holds` says that the last `c` of `h` pushes are in their cells, which a push preserves as long as the
    ring has room for what it is to hold; the pushes are then read back in order, and as long as the ring
    is `Aligned` its first `c` cells are those of the last pushes.

    When `w` is replaced by another modulus the cells stay where they are. The last pushes are still in
    their cells if and only if the moduli are the same or both divide the number of pushes before them
    (`mod_agree_iff`). -/

namespace Lib.RingCursor

variable {α : Type*} {w w' h c c' : ℕ} {cells pushed : ℕ → α}

/-- The last `c` of `h` pushes are in their cells. -/
def Holds (w h c : ℕ) (cells pushed : ℕ → α) : Prop :=
  ∀ k, h - c ≤ k → k < h → cells (k % w) = pushed k

theorem Holds.zero (w : ℕ) (cells pushed : ℕ → α) : Holds w 0 0 cells pushed :=
  fun k _ hk => absurd hk (Nat.not_lt_zero k)

/-- Pushes less than `w` apart are in different cells. -/
theorem mod_ne_of_lt {k : ℕ} (hk : k < h) (hlt : h < k + w) : k % w ≠ h % w := by
  intro heq
  have hdvd : w ∣ h - k := Nat.dvd_of_mod_eq_zero (Nat.sub_mod_eq_zero_of_mod_eq heq.symm)
  have hle : w ≤ h - k := Nat.le_of_dvd (Nat.sub_pos_of_lt hk) hdvd
  omega

theorem Holds.push (hholds : Holds w h c cells pushed) (hc : c' ≤ c + 1) (hroom : c' ≤ w) :
    Holds w (h + 1) c' (Function.update cells (h % w) (pushed h)) pushed := by
  intro k hlow hup
  rcases Nat.lt_succ_iff_lt_or_eq.1 hup with hlt | rfl
  · rw [Function.update_of_ne (mod_ne_of_lt hlt (by omega)), hholds k (by omega) hlt]
  · exact Function.update_self ..

/-- Under another modulus that agrees on them the pushes are still in their cells. -/
theorem Holds.rewindow (hholds : Holds w h c cells pushed) (hagree : ∀ k, h - c ≤ k → k < h → k % w = k % w') :
    Holds w' h c cells pushed := by
  intro k hlow hup
  rw [← hagree k hlow hup, hholds k hlow hup]

/-- The last `c` of `h` pushes in order. -/
def recent (h c : ℕ) (pushed : ℕ → α) : List α := (List.range' (h - c) c).map pushed

theorem mem_span {k : ℕ} (hch : c ≤ h) : k ∈ List.range' (h - c) c ↔ h - c ≤ k ∧ k < h := by
  rw [List.mem_range'_1, Nat.sub_add_cancel hch]

/-- One more push is the last. -/
theorem recent_succ (hch : c ≤ h) (pushed : ℕ → α) :
    recent (h + 1) (c + 1) pushed = recent h c pushed ++ [pushed h] := by
  rw [recent, Nat.add_sub_add_right, List.range'_1_concat, List.map_append, Nat.sub_add_cancel hch, recent,
    List.map_singleton]

theorem recent_cons (hch : c + 1 ≤ h) (pushed : ℕ → α) :
    recent h (c + 1) pushed = pushed (h - (c + 1)) :: recent h c pushed := by
  rw [recent, List.range'_succ, List.map_cons, recent, show h - (c + 1) + 1 = h - c by omega]

theorem map_recent {β : Type*} (f : α → β) (h c : ℕ) (pushed : ℕ → α) :
    (recent h c pushed).map f = recent h c fun k => f (pushed k) := by
  rw [recent, List.map_map]
  rfl

/-- They are a window of all pushes. -/
theorem recent_eq_window (hch : c ≤ h) (pushed : ℕ → α) :
    recent h c pushed = window c ((List.range h).map pushed) := by
  rw [window, List.length_map, List.length_range, ← List.map_drop, List.range_eq_range', List.drop_range', recent,
    Nat.zero_add, Nat.sub_sub_self hch, Nat.mul_one]

/-- The cells of the last pushes read in order give the pushes only if they are there. -/
theorem read_eq_iff (hch : c ≤ h) :
    recent h c (fun k => cells (k % w)) = recent h c pushed ↔ Holds w h c cells pushed := by
  rw [recent, recent, List.map_inj_left]
  constructor
  · intro hread k hlow hup
    exact hread k ((mem_span hch).2 ⟨hlow, hup⟩)
  · intro hholds k hk
    obtain ⟨hlow, hup⟩ := (mem_span hch).1 hk
    exact hholds k hlow hup

/-! ### The first cells -/

/-- The cells of the last pushes are the first ones: either these are all cells, or the pushes begin at the first. -/
def Aligned (w h c : ℕ) : Prop := c = w ∨ w ∣ h - c

theorem Aligned.push (ha : Aligned w h c) (hcw : c ≤ w) : Aligned w (h + 1) (if c < w then c + 1 else c) := by
  split
  · next hlt =>
    refine .inr ?_
    rw [Nat.add_sub_add_right]
    exact ha.resolve_left hlt.ne
  · next hfull => exact .inl (Nat.le_antisymm hcw (Nat.not_lt.1 hfull))

theorem mod_of_dvd {i : ℕ} (hdvd : w ∣ h - c) (hi : i < w) : (h - c + i) % w = i := by
  rw [Nat.add_mod, Nat.mod_eq_zero_of_dvd hdvd, Nat.zero_add, Nat.mod_mod, Nat.mod_eq_of_lt hi]

theorem Holds.cells_perm (hholds : Holds w h c cells pushed) (ha : Aligned w h c) (hch : c ≤ h) (hcw : c ≤ w) :
    ((List.range c).map cells).Perm (recent h c pushed) := by
  rw [← (read_eq_iff hch).2 hholds]
  rcases ha with rfl | hdvd
  · -- Over a whole turn every cell is met once.
    have hturn : ((List.range' (h - c) c).map (· % c)).Perm (List.range c) := by
      have hmod := Nat.multiset_Ico_map_mod (h - c) c
      have hrange : Multiset.Ico (h - c) (h - c + c) = (List.range' (h - c) c : Multiset ℕ) := by
        change (List.range' (h - c) (h - c + c - (h - c)) : Multiset ℕ) = _
        rw [Nat.add_sub_cancel_left]
      rw [hrange, Multiset.map_coe] at hmod
      exact Multiset.coe_eq_coe.1 hmod
    have hcells := (hturn.map cells).symm
    rwa [List.map_map] at hcells
  · rw [recent, List.range'_eq_map_range, List.map_map]
    refine List.Perm.of_eq (List.map_inj_left.2 fun i hi => ?_)
    rw [Function.comp_apply, mod_of_dvd hdvd ((List.mem_range.1 hi).trans_le hcw)]

/-! ### Another modulus -/

/-- On the last pushes the moduli agree only if they are the same, or if the pushes begin at the first cell under
    both. -/
theorem mod_agree_iff (hw : 2 ≤ w) (hpos : 0 < c) (hch : c ≤ h) (hcw : c ≤ w) (hcw' : c ≤ w') (ha : Aligned w h c) :
    (∀ k, h - c ≤ k → k < h → k % w = k % w') ↔ w' = w ∨ w ∣ h - c ∧ w' ∣ h - c := by
  constructor
  · intro hagree
    by_contra hnot
    obtain ⟨hne, hdvd⟩ := not_or.1 hnot
    have hfirst : (h - c) % w = (h - c) % w' := hagree (h - c) (Nat.le_refl _) (by omega)
    have hundvd : ¬w ∣ h - c := fun hdiv => hdvd ⟨hdiv, by
      rw [Nat.dvd_iff_mod_eq_zero, ← hfirst]
      exact Nat.mod_eq_zero_of_dvd hdiv⟩
    obtain rfl : c = w := ha.resolve_right hundvd
    -- Some push but the last is in the last cell: the next one is in the first under `w` only.
    have hlt : (h - c) % c < c := Nat.mod_lt _ hpos
    have hpos' : 0 < (h - c) % c := Nat.pos_of_ne_zero fun hzero => hundvd (Nat.dvd_of_mod_eq_zero hzero)
    obtain ⟨k, hk⟩ : ∃ k, k = h - c + (c - 1 - (h - c) % c) := ⟨_, rfl⟩
    have hlast : k % c = c - 1 := by
      have hsum : k = c - 1 + c * ((h - c) / c) := by
        have hdiv := Nat.mod_add_div (h - c) c
        omega
      rw [hsum, Nat.add_mul_mod_self_left, Nat.mod_eq_of_lt (by omega)]
    have hnext : (k + 1) % c = 0 := by
      rw [Nat.add_mod, hlast, Nat.mod_eq_of_lt (a := 1) (by omega), Nat.sub_add_cancel hpos, Nat.mod_self]
    have hlast' := hagree k (by omega) (by omega)
    have hnext' := hagree (k + 1) (by omega) (by omega)
    rw [hlast] at hlast'
    rw [hnext, Nat.add_mod, ← hlast', Nat.mod_eq_of_lt (a := 1) (by omega), Nat.sub_add_cancel hpos,
      Nat.mod_eq_of_lt (by omega)] at hnext'
    omega
  · rintro (rfl | ⟨hdvd, hdvd'⟩) k hlow hup
    · rfl
    · obtain ⟨i, rfl⟩ := Nat.exists_eq_add_of_le hlow
      rw [mod_of_dvd hdvd (by omega), mod_of_dvd hdvd' (by omega)]

/-- What is in a cell was pushed before, and if it is one of the last pushes the cell is its own. -/
def Alone (w h c : ℕ) (cells pushed : ℕ → α) : Prop :=
  ∀ j k, cells j = pushed k → k < h ∧ (h - c ≤ k → j = k % w)

theorem Alone.push (halone : Alone w h c cells pushed) (hinj : pushed.Injective) (hc : c' ≤ c + 1) :
    Alone w (h + 1) c' (Function.update cells (h % w) (pushed h)) pushed := by
  intro j k heq
  by_cases hj : j = h % w
  · subst hj
    rw [Function.update_self] at heq
    obtain rfl : h = k := hinj heq
    exact ⟨Nat.lt_succ_self h, fun _ => rfl⟩
  · rw [Function.update_of_ne hj] at heq
    obtain ⟨hlt, hown⟩ := halone j k heq
    exact ⟨Nat.lt_succ_of_lt hlt, fun hlow => hown (by omega)⟩

theorem Alone.rewindow (halone : Alone w h c cells pushed)
    (hagree : ∀ k, h - c ≤ k → k < h → k % w = k % w') : Alone w' h c cells pushed := by
  intro j k heq
  obtain ⟨hlt, hown⟩ := halone j k heq
  exact ⟨hlt, fun hlow => (hown hlow).trans (hagree k hlow hlt)⟩

/-- Where no push is in another cell, the moduli under which the pushes are in their cells agree on them. -/
theorem Alone.agree_of_holds (halone : Alone w h c cells pushed) (hholds : Holds w' h c cells pushed) :
    ∀ k, h - c ≤ k → k < h → k % w = k % w' :=
  fun k hlow hup => ((halone _ k (hholds k hlow hup)).2 hlow).symm

end Lib.RingCursor
