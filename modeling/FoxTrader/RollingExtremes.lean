import FoxTrader.Lib.SlidingWindow
import FoxTrader.RollingStats

/-! # The deques of the rolling window

    A deque of the window keeps ring-buffer slots. Behind them stand positions of the stream, one for
    each slot since no two in the window share one, and these positions are a staircase of the window:
    dropping the slot that is overwritten is the oldest position falling out, and dropping the worse
    slots at the back, which are all the worse ones because the values only rise towards it, is the
    step of the staircase. -/

namespace FoxTrader

open Lib Function

variable {W : ℕ}

theorem and_mask_eq_mod (hW : W.isPowerOfTwo) (n : ℕ) : n &&& (W - 1) = n % W := by
  obtain ⟨k, rfl⟩ := hW
  exact Nat.and_two_pow_sub_one_eq_mod n k

/-- Two positions less than `W` apart have different slots. -/
theorem mod_ne_of_lt {i j : ℕ} (hlt : i < j) (hspan : j < i + W) : i % W ≠ j % W := by
  intro h
  have hdvd : (j - i) % W = 0 := Nat.sub_mod_eq_zero_of_mod_eq h.symm
  have := Nat.le_of_dvd (by omega) (Nat.dvd_of_mod_eq_zero hdvd)
  omega

namespace SlotDeque

variable {d : SlotDeque}

/-- The slots in a deque, from the front. -/
def slots (W : ℕ) (d : SlotDeque) : List ℕ := (List.range d.size).map fun i => d.dq ((d.head + i) % W)

theorem length_slots : (d.slots W).length = d.size := by rw [slots, List.length_map, List.length_range]

theorem slots_take {m : ℕ} (hm : m ≤ d.size) : ({ d with size := m } : SlotDeque).slots W = (d.slots W).take m := by
  rw [slots, slots, ← List.map_take, List.take_range, Nat.min_eq_left hm]

/-- Without the front. -/
theorem slots_tail (d : SlotDeque) :
    ({ d with head := (d.head + 1) % W, size := d.size - 1 } : SlotDeque).slots W = (d.slots W).tail := by
  unfold slots
  cases d.size with
  | zero => rfl
  | succ n =>
    rw [List.range_succ_eq_map, List.map_cons, List.tail_cons, List.map_map]
    refine List.map_congr_left fun i _ => ?_
    dsimp only [Function.comp]
    rw [Nat.mod_add_mod, Nat.add_assoc, Nat.add_comm 1 i]

/-- With one more slot at the back. -/
theorem slots_snoc {m : ℕ} (hm : m < W) (slot : ℕ) :
    ({ d with dq := update d.dq ((d.head + m) % W) slot, size := m + 1 } : SlotDeque).slots W =
      ({ d with size := m } : SlotDeque).slots W ++ [slot] := by
  unfold slots
  dsimp only
  rw [List.range_succ, List.map_append, List.map_singleton]
  congr 1
  · refine List.map_congr_left fun i hi => ?_
    have hlt := List.mem_range.1 hi
    exact update_of_ne (mod_ne_of_lt (by omega) (by omega)) ..
  · rw [update_self]

/-- Everything behind the size `popBack` leaves is worse, and what is at the back is not. -/
theorem popBack_spec (hW : W.isPowerOfTwo) (dq : ℕ → ℕ) (head : ℕ) (worse : ℕ → Bool) (size : ℕ) :
    popBack W dq head worse size ≤ size ∧
      (∀ i, popBack W dq head worse size ≤ i → i < size → worse (dq ((head + i) % W)) = true) ∧
      ∀ m, popBack W dq head worse size = m + 1 → worse (dq ((head + m) % W)) = false := by
  induction size with
  | zero =>
    refine ⟨le_rfl, fun _ _ hlt => absurd hlt (Nat.not_lt_zero _), fun _ h => ?_⟩
    exact absurd h (Nat.succ_ne_zero _).symm
  | succ n ih =>
    unfold popBack
    rw [and_mask_eq_mod hW]
    split
    next hworse =>
      obtain ⟨hle, hall, hlast⟩ := ih
      refine ⟨by omega, fun i hi hlt => ?_, hlast⟩
      rcases Nat.lt_succ_iff_lt_or_eq.1 hlt with hlt' | rfl
      · exact hall i hi hlt'
      · exact hworse
    next hkeep =>
      refine ⟨le_rfl, fun i hi hlt => absurd hlt (not_lt.2 hi), fun m hm => ?_⟩
      obtain rfl : n = m := Nat.succ_injective hm
      exact Bool.eq_false_of_not_eq_true hkeep

/-- Behind the slots stand the positions of a staircase of `[lo, hi)`. -/
def Holds (W : ℕ) (d : SlotDeque) (key : ℕ → ℤ) (lo hi : ℕ) : Prop :=
  d.head < W ∧ ∃ q, Staircase key lo hi q ∧ d.slots W = q.map (· % W)

variable {key : ℕ → ℤ} {lo hi : ℕ}

theorem holds_nil (hpos : 0 < W) (key : ℕ → ℤ) (dq : ℕ → ℕ) : (SlotDeque.mk dq 0 0).Holds W key 0 0 :=
  ⟨hpos, [], .nil key 0, rfl⟩

theorem expire_eq (hW : W.isPowerOfTwo) (hhead : d.head < W) (evict : Bool) (slot : ℕ) :
    d.expire W evict slot =
      if evict = true ∧ 0 < d.size ∧ d.dq d.head = slot then { d with head := (d.head + 1) % W, size := d.size - 1 }
      else d := by
  unfold expire
  dsimp only
  rw [and_mask_eq_mod hW]
  by_cases h : evict = true ∧ 0 < d.size ∧ d.dq d.head = slot
  · obtain ⟨hevict, hpos, hslot⟩ := h
    simp [hevict, hpos, hslot]
  · have hstays : (evict && decide (0 < d.size) && decide (d.dq d.head = slot)) = false := by
      simpa [and_assoc] using h
    rw [hstays, if_neg h, Bool.toNat_false, Nat.add_zero, Nat.sub_zero, Nat.mod_eq_of_lt hhead]

/-- The front slot, if there is one. -/
theorem head?_slots (hhead : d.head < W) (hpos : 0 < d.size) : (d.slots W).head? = some d.front := by
  obtain ⟨n, hn⟩ := Nat.exists_eq_add_of_lt hpos
  rw [slots, hn, Nat.zero_add, List.range_succ_eq_map, List.map_cons, List.head?_cons, Nat.add_zero,
    Nat.mod_eq_of_lt hhead, front]

/-- The slot that is overwritten leaves the deque exactly if its position stands in it. -/
theorem Holds.expire (hW : W.isPowerOfTwo) (h : d.Holds W key lo hi) {evict : Bool}
    (hfull : evict = true → hi = lo + W) : (d.expire W evict (hi % W)).Holds W key (lo + evict.toNat) hi := by
  obtain ⟨hhead, q, hq, hslots⟩ := h
  have hpos : 0 < W := Nat.zero_lt_of_lt hhead
  have hlen : q.length = d.size := by rw [← length_slots (W := W), hslots, List.length_map]
  rw [expire_eq hW hhead]
  split
  next hfront =>
    obtain ⟨rfl, hsize, hslot⟩ := hfront
    obtain rfl := hfull rfl
    obtain ⟨k, q, rfl⟩ := List.exists_cons_of_length_pos (hlen.symm ▸ hsize)
    have hk : k % W = lo % W := by
      have hsome := head?_slots hhead hsize
      rw [hslots, List.map_cons, List.head?_cons, front, hslot, Nat.add_mod_right] at hsome
      exact Option.some_injective _ hsome
    obtain ⟨hlo, hhi⟩ := hq.within k List.mem_cons_self
    obtain rfl : lo = k := by
      by_contra hne
      exact mod_ne_of_lt (Nat.lt_of_le_of_ne hlo hne) hhi hk.symm
    refine ⟨Nat.mod_lt _ hpos, q, hq.expire_first, ?_⟩
    rw [slots_tail, hslots, List.map_cons, List.tail_cons]
  next hfront =>
    refine ⟨hhead, q, ?_, hslots⟩
    cases evict with
    | false => exact hq
    | true =>
      refine hq.expire_none fun hmem => hfront ?_
      obtain rfl := hfull rfl
      obtain ⟨r, rfl⟩ := hq.eq_cons_of_mem hmem
      have hsize : 0 < d.size := hlen ▸ Nat.succ_pos r.length
      have hsome := head?_slots hhead hsize
      rw [hslots, List.map_cons, List.head?_cons, front] at hsome
      rw [Nat.add_mod_right]
      exact ⟨rfl, hsize, (Option.some_injective _ hsome).symm⟩

/-- The new position is put behind the steps it does not drop. -/
theorem Holds.put (hW : W.isPowerOfTwo) (h : d.Holds W key lo hi) (hle : lo ≤ hi) (hroom : hi < lo + W)
    {worse : ℕ → Bool} (hworse : ∀ k, lo ≤ k → k < hi → worse (k % W) = decide (key hi < key k)) {m : ℕ}
    (hm : popBack W d.dq d.head worse d.size = m) :
    ({ d with dq := update d.dq ((d.head + m) % W) (hi % W), size := m + 1 } : SlotDeque).Holds W key lo
      (hi + 1) := by
  obtain ⟨hhead, q, hq, hslots⟩ := h
  have hlen : q.length = d.size := by rw [← length_slots (W := W), hslots, List.length_map]
  obtain ⟨hms, hdropped, hkept⟩ := popBack_spec hW d.dq d.head worse d.size
  rw [hm] at hms hdropped hkept
  have hworseAt : ∀ {i k}, q[i]? = some k → worse (d.dq ((d.head + i) % W)) = decide (key hi < key k) := by
    intro i k hk
    have hi := (List.getElem?_eq_some_iff.1 hk).1
    have hslot : (d.slots W)[i]? = some (k % W) := by rw [hslots, List.getElem?_map, hk, Option.map_some]
    rw [slots, List.getElem?_map, List.getElem?_range (hlen ▸ hi), Option.map_some] at hslot
    obtain ⟨hlo, hhi⟩ := hq.within k (List.mem_of_getElem? hk)
    rw [Option.some_injective _ hslot, hworse k hlo hhi]
  have hdrop : ∀ k ∈ q.drop m, key hi < key k := by
    intro k hk
    obtain ⟨i, hi⟩ := List.mem_iff_getElem?.1 hk
    rw [List.getElem?_drop] at hi
    have hlt := (List.getElem?_eq_some_iff.1 hi).1
    have hbad := hdropped (m + i) (Nat.le_add_right m i) (hlen ▸ hlt)
    rw [hworseAt hi] at hbad
    exact of_decide_eq_true hbad
  have hkeep : ∀ k ∈ q.take m, key k ≤ key hi := by
    intro k hk
    cases m with
    | zero => exact absurd hk List.not_mem_nil
    | succ n =>
      have hn : q[n]? = some q[n] := List.getElem?_eq_getElem (by omega)
      have hgood := hkept n rfl
      rw [hworseAt hn] at hgood
      exact (hq.le_of_mem_take hn hk).trans (not_lt.1 (of_decide_eq_false hgood))
  have hsize : d.size ≤ hi - lo := hlen ▸ hq.length_le
  rw [← List.take_append_drop m q] at hq
  refine ⟨hhead, q.take m ++ [hi], hq.push hle hkeep hdrop, ?_⟩
  rw [slots_snoc (by omega), slots_take hms, hslots, List.map_append, List.map_take, List.map_singleton]

/-- One turn of a deque: the window moves on by one position. -/
theorem Holds.push (hW : W.isPowerOfTwo) (h : d.Holds W key lo hi) (hle : lo ≤ hi) {evict : Bool}
    (hfull : evict = true → hi = lo + W) (hroom : hi < lo + evict.toNat + W) {worse : ℕ → Bool}
    (hworse : ∀ k, lo + evict.toNat ≤ k → k < hi → worse (k % W) = decide (key hi < key k)) :
    (d.push W evict (hi % W) worse).Holds W key (lo + evict.toNat) (hi + 1) := by
  have hpos : 0 < W := Nat.zero_lt_of_lt h.1
  have hlo : lo + evict.toNat ≤ hi := by
    cases evict with
    | false => exact hle
    | true => exact hfull rfl ▸ Nat.add_le_add_left hpos lo
  unfold SlotDeque.push
  dsimp only
  rw [and_mask_eq_mod hW]
  exact (h.expire hW hfull).put hW hlo hroom hworse rfl

/-- The front is a least of the window. -/
theorem Holds.front_least (h : d.Holds W key lo hi) (hlt : lo < hi) :
    ∃ k, lo ≤ k ∧ k < hi ∧ d.front = k % W ∧ ∀ j, lo ≤ j → j < hi → key k ≤ key j := by
  obtain ⟨hhead, q, hq, hslots⟩ := h
  obtain ⟨k, q, rfl⟩ := List.exists_cons_of_ne_nil (hq.ne_nil hlt)
  have hsize : 0 < d.size := by
    rw [← length_slots (W := W), hslots, List.length_map]
    exact Nat.succ_pos q.length
  have hfront := head?_slots hhead hsize
  rw [hslots, List.map_cons, List.head?_cons] at hfront
  obtain ⟨hlo, hhi⟩ := hq.within k List.mem_cons_self
  exact ⟨k, hlo, hhi, (Option.some_injective _ hfront).symm, fun j hj => hq.front_le hj⟩

/-- Only the keys of the window matter. -/
theorem Holds.congr {key' : ℕ → ℤ} (h : d.Holds W key lo hi) (hkey : ∀ k, k < hi → key k = key' k) :
    d.Holds W key' lo hi := by
  obtain ⟨hhead, q, hq, hslots⟩ := h
  exact ⟨hhead, q, hq.congr hkey, hslots⟩

end SlotDeque

end FoxTrader
