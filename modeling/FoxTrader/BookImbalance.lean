import Mathlib.Data.List.Induction
import FoxTrader.FixedPoint
import FoxTrader.Lib.SignedWord
import FoxTrader.Lib.SlidingWindow

/-! # The book imbalance history

    A ring of the last `W` samples under two running sums: one over the ring, one over its last 64.
    Each sum gives up its oldest sample before the slot at the head is overwritten, and the short one
    finds it 64 slots behind the head. `Holds` says that both are the sums over their windows of
    everything pushed, as long as `W` and the slots counted from it stay in an `int`. -/

namespace FoxTrader

open Lib Function

/-- `SHORT_K`. -/
abbrev shortK : ℕ := 64

/-- `BookImbalanceHistory`; the samples by an `int`. -/
structure BookImbalanceHistory where
  sum : Fpn
  shortSum : Fpn
  count : ℤ
  head : ℤ
  samples : ℤ → Fpn

/-- `BookImbHistory_Init`. -/
def bookImbHistoryInit : BookImbalanceHistory where
  sum := Fpn.zero
  shortSum := Fpn.zero
  count := 0
  head := 0
  samples _ := Fpn.zero

namespace BookImbalanceHistory

/-- The slot `back` before the next one, in the arithmetic of `int`. -/
def slotBefore (W : ℕ) (s : BookImbalanceHistory) (back : ℤ) : ℤ :=
  (int32 (int32 (s.head + int32 W) - back)).tmod (int32 W)

/-- `BookImbHistory_Push`. -/
def push (W : ℕ) (s : BookImbalanceHistory) (sample : Fpn) : BookImbalanceHistory :=
  let full : Bool := s.count ≥ int32 W
  let count := if full then s.count else int32 (s.count + 1)
  let shortSum := if count > shortK then s.shortSum.sub (s.samples (s.slotBefore W shortK)) else s.shortSum
  { sum := (if full then s.sum.sub (s.samples s.head) else s.sum).addSat sample
    shortSum := shortSum.addSat sample
    count
    head := int32 ((s.head + 1) % 4294967296 % W)
    samples := update s.samples s.head sample }

/-- The slot of the sample `i` before the last, in the arithmetic of `int`. -/
def slotBehind (W : ℕ) (s : BookImbalanceHistory) (i : ℤ) : ℤ :=
  (int32 (int32 (int32 (s.head - 1) - i) + int32 W)).tmod (int32 W)

/-- `BookImbHistory_MeanShortFast`. -/
def meanShortFast (s : BookImbalanceHistory) : Fpn :=
  if s.count ≤ 0 then Fpn.zero
  else s.shortSum.divNoAssert (Fpn.fromInt (if s.count < shortK then s.count else shortK))

/-- The loop of `BookImbHistory_MeanShort`: the last `k` samples, newest first. -/
def walk (W : ℕ) (s : BookImbalanceHistory) : ℕ → Fpn
  | 0 => Fpn.zero
  | k + 1 => (walk W s k).addSat (s.samples (s.slotBehind W k))

/-- `BookImbHistory_MeanShort`. -/
def meanShort (W : ℕ) (s : BookImbalanceHistory) (k : ℤ) : Fpn :=
  if s.count ≤ 0 ∨ k ≤ 0 then Fpn.zero
  else
    let k := if k > s.count then s.count else k
    (s.walk W k.toNat).divNoAssert (Fpn.fromInt k)

end BookImbalanceHistory

open BookImbalanceHistory

/-- The history after these samples. -/
def bookImbRun (W : ℕ) (l : List Fpn) : BookImbalanceHistory := l.foldl (push W) bookImbHistoryInit

/-- The sum of some samples. -/
def imbTotal (l : List Fpn) : ℤ := (l.map (·.v)).sum

/-- A sample of magnitude at most one. -/
def IsImbalance (x : Fpn) : Prop := -fpnOne ≤ x.v ∧ x.v ≤ fpnOne

variable {W : ℕ} {l : List Fpn} {x : Fpn} {s : BookImbalanceHistory}

theorem imbTotal_append (l l' : List Fpn) : imbTotal (l ++ l') = imbTotal l + imbTotal l' := by
  rw [imbTotal, List.map_append, List.sum_append, imbTotal, imbTotal]

theorem imbTotal_cons (x : Fpn) (l : List Fpn) : imbTotal (x :: l) = x.v + imbTotal l := by
  rw [imbTotal, List.map_cons, List.sum_cons, imbTotal]

theorem imbTotal_singleton (x : Fpn) : imbTotal [x] = x.v := by
  rw [imbTotal, List.map_singleton, List.sum_singleton]

/-- A sum of samples is at most their number. -/
theorem imbTotal_bound (h : ∀ x ∈ l, IsImbalance x) :
    -(l.length * fpnOne : ℤ) ≤ imbTotal l ∧ imbTotal l ≤ l.length * fpnOne := by
  induction l with
  | nil => simp [imbTotal]
  | cons x l ih =>
    obtain ⟨hlow, hup⟩ := ih fun y hy => h y (List.mem_cons_of_mem _ hy)
    obtain ⟨hxlow, hxup⟩ := h x List.mem_cons_self
    rw [imbTotal_cons, List.length_cons, Nat.cast_succ, add_mul, one_mul]
    constructor <;> linarith

/-- Sums of up to `2 ^ 32` samples are in the range. -/
theorem imbTotal_fits (h : ∀ x ∈ l, IsImbalance x) (hlen : l.length ≤ 4294967296) : Fpn.Fits (imbTotal l) := by
  obtain ⟨hlow, hup⟩ := imbTotal_bound h
  have hmul : (l.length * fpnOne : ℤ) ≤ 4294967296 * fpnOne := by
    have hcast : (l.length : ℤ) ≤ 4294967296 := by exact_mod_cast hlen
    exact mul_le_mul_of_nonneg_right hcast (by decide)
  have hmax : (4294967296 * fpnOne : ℤ) ≤ fpnMax := by decide
  exact ⟨by linarith, by linarith⟩

/-- A running sum takes a sample in. -/
theorem addSat_imbTotal {sum : Fpn} (h : ∀ y ∈ l ++ [x], IsImbalance y) (hlen : (l ++ [x]).length ≤ 4294967296)
    (hsum : sum.v = imbTotal l) : (sum.addSat x).v = imbTotal (l ++ [x]) := by
  have hfits := imbTotal_fits h hlen
  rw [imbTotal_append, imbTotal_singleton, ← hsum] at hfits ⊢
  exact Fpn.addSat_v hfits

/-- A running sum gives its oldest sample up. -/
theorem sub_imbTotal {sum : Fpn} (h : ∀ y ∈ l, IsImbalance y) (hlen : l.length ≤ 4294967296)
    (hsum : sum.v = imbTotal (x :: l)) : (sum.sub x).v = imbTotal l := by
  have hdiff : sum.v - x.v = imbTotal l := by rw [hsum, imbTotal_cons]; ring
  have hfits := imbTotal_fits h hlen
  rw [← hdiff] at hfits ⊢
  exact Fpn.sub_v hfits

/-! ### What the history holds -/

/-- The history after the samples `l`. -/
structure Holds (W : ℕ) (l : List Fpn) (s : BookImbalanceHistory) : Prop where
  count : s.count = (min l.length W : ℕ)
  head : s.head = (l.length % W : ℕ)
  ring : ∀ i x, l.length - W ≤ i → l[i]? = some x → s.samples (i % W : ℕ) = x
  sum : s.sum.v = imbTotal (window W l)
  shortSum : s.shortSum.v = imbTotal (window shortK l)

theorem holds_init (W : ℕ) : Holds W [] bookImbHistoryInit where
  count := by rw [List.length_nil, Nat.zero_min]; rfl
  head := by rw [List.length_nil, Nat.zero_mod]; rfl
  ring i x _ hx := absurd hx (by simp)
  sum := by rw [window_of_le (Nat.zero_le W)]; rfl
  shortSum := by rw [window_of_le (Nat.zero_le _)]; rfl

/-- Going back from the head around the ring. -/
theorem tmod_back {n back : ℕ} (hback : back ≤ n) (hbackW : back ≤ W) :
    ((n % W : ℕ) + (W : ℤ) - back).tmod W = ((n - back) % W : ℕ) := by
  have hcast : ((n % W : ℕ) : ℤ) + W - back = (n % W + (W - back) : ℕ) := by omega
  have hmod : (n % W + (W - back)) % W = (n - back) % W := by
    rw [Nat.mod_add_mod, ← Nat.add_sub_assoc hbackW, Nat.sub_add_comm hback, Nat.add_mod_right]
  rw [hcast, ← Int.ofNat_tmod, hmod]

/-- The arithmetic of `int` finds the slot of the sample `back` before the next one. -/
theorem Holds.slotBefore_eq (h : Holds W l s) (hW : 0 < W) (hint : W ≤ 1073741824) {back : ℕ}
    (hback : back ≤ l.length)
    (hbackW : back ≤ W) : s.slotBefore W back = ((l.length - back) % W : ℕ) := by
  have hlt : l.length % W < W := Nat.mod_lt _ hW
  rw [slotBefore, h.head, int32_natCast (by omega), int32_of_mem (x := _ + (W : ℤ)) (by omega) (by omega),
    int32_of_mem (by omega) (by omega)]
  exact tmod_back hback hbackW

theorem Holds.slotBehind_eq (h : Holds W l s) (hW : 0 < W) (hint : W ≤ 1073741824) {i : ℕ} (hi : i < l.length)
    (hiW : i < W) : s.slotBehind W i = ((l.length - 1 - i) % W : ℕ) := by
  have hlt : l.length % W < W := Nat.mod_lt _ hW
  have hnext : ((l.length % W : ℕ) : ℤ) - 1 - i + W = (l.length % W : ℕ) + W - (i + 1 : ℕ) := by omega
  rw [slotBehind, h.head, int32_natCast (n := W) (by omega), int32_of_mem (x := _ - 1) (by omega) (by omega),
    int32_of_mem (x := _ - (i : ℤ)) (by omega) (by omega), int32_of_mem (by omega) (by omega), hnext, Nat.sub_sub,
    Nat.add_comm 1 i]
  exact tmod_back hi hiW

/-- Where the ring holds the sample `back` before the next one. -/
theorem Holds.samples_slotBefore (h : Holds W l s) (hW : 0 < W) (hint : W ≤ 1073741824) {back : ℕ}
    (hback : back ≤ l.length) (hbackW : back ≤ W) (hx : l[l.length - back]? = some x) :
    s.samples (s.slotBefore W back) = x := by
  rw [h.slotBefore_eq hW hint hback hbackW]
  exact h.ring _ x (Nat.sub_le_sub_left hbackW _) hx

/-- The running sum over the last `w` samples after one more, of which the oldest was given up if there
    are more than `w`. -/
theorem running_sum {w : ℕ} (hw : 0 < w) (hwlen : w ≤ 1073741824) (h : ∀ y ∈ l ++ [x], IsImbalance y)
    {sum oldest : Fpn}
    (hsum : sum.v = imbTotal (window w l)) (holdest : ∀ y, l[l.length - w]? = some y → w ≤ l.length → oldest = y) :
    ((if w ≤ l.length then sum.sub oldest else sum).addSat x).v = imbTotal (window w (l ++ [x])) := by
  have hwin : ∀ y ∈ window w (l ++ [x]), IsImbalance y := fun y hy => h y (List.mem_of_mem_drop hy)
  have hlen : (window w (l ++ [x])).length ≤ 4294967296 := by rw [length_window]; omega
  split
  · rename_i hfull
    obtain ⟨y, rest, hy, hold, hnew⟩ := window_snoc_of_le hw hfull
    rw [hnew] at hwin hlen ⊢
    rw [holdest y hy hfull]
    refine addSat_imbTotal hwin hlen (sub_imbTotal (fun z hz => hwin z (List.mem_append_left _ hz)) ?_ (hsum.trans (by rw [hold])))
    exact (by simp : rest.length ≤ (rest ++ [x]).length).trans hlen
  · rename_i hpart
    rw [window_snoc_of_lt (not_le.1 hpart)] at hwin hlen ⊢
    exact addSat_imbTotal hwin hlen hsum

/-- The ring is full once it has `W` samples. -/
theorem Holds.full_iff (h : Holds W l s) (hint : W ≤ 1073741824) : s.count ≥ int32 W ↔ W ≤ l.length := by
  rw [h.count, int32_natCast (by omega)]
  omega

theorem Holds.push_count (h : Holds W l s) (hint : W ≤ 1073741824) (x : Fpn) :
    (s.push W x).count = (min (l.length + 1) W : ℕ) := by
  show (if decide (s.count ≥ int32 W) = true then s.count else int32 (s.count + 1)) = _
  simp only [decide_eq_true_eq, h.full_iff hint]
  split
  · rw [h.count]
    omega
  · rw [h.count, int32_of_mem (by omega) (by omega)]
    omega

theorem Holds.push_head (h : Holds W l s) (hW : 0 < W) (hint : W ≤ 1073741824) (x : Fpn) :
    (s.push W x).head = ((l.length + 1) % W : ℕ) := by
  have hlt : l.length % W < W := Nat.mod_lt _ hW
  have hmod : (l.length + 1) % W < W := Nat.mod_lt _ hW
  show int32 ((s.head + 1) % 4294967296 % W) = _
  have hnext : (((l.length % W : ℕ) : ℤ) + 1) % 4294967296 % W = ((l.length + 1) % W : ℕ) := by
    rw [Int.emod_eq_of_lt (b := 4294967296) (by omega) (by omega)]
    push_cast
    rw [Int.emod_add_emod]
  rw [h.head, hnext, int32_natCast (by omega)]

theorem Holds.push_ring (h : Holds W l s) {i : ℕ} {y : Fpn} (hi : (l ++ [x]).length - W ≤ i)
    (hy : (l ++ [x])[i]? = some y) : (s.push W x).samples (i % W : ℕ) = y := by
  show update s.samples s.head x (i % W : ℕ) = y
  have hlt : i < (l ++ [x]).length := (List.getElem?_eq_some_iff.1 hy).1
  rw [List.length_append, List.length_singleton] at hi hlt
  rw [h.head]
  by_cases hlast : i = l.length
  · subst hlast
    rw [List.getElem?_concat_length] at hy
    rw [update_self]
    exact Option.some.inj hy
  · -- Fewer than `W` behind the next one, so in another slot.
    have hslot : i % W ≠ l.length % W := by
      intro hsame
      have hdvd : W ∣ l.length - i := Nat.dvd_of_mod_eq_zero (Nat.sub_mod_eq_zero_of_mod_eq hsame.symm)
      exact absurd (Nat.le_of_dvd (by omega) hdvd) (by omega)
    rw [update_of_ne (by exact_mod_cast hslot)]
    rw [List.getElem?_append_left (by omega)] at hy
    exact h.ring i y (by omega) hy

theorem Holds.push (hW : shortK < W) (hint : W ≤ 1073741824) (hl : ∀ y ∈ l ++ [x], IsImbalance y) (h : Holds W l s) :
    Holds W (l ++ [x]) (s.push W x) where
  count := by rw [h.push_count hint, List.length_append, List.length_singleton]
  head := by rw [h.push_head (by omega) hint, List.length_append, List.length_singleton]
  ring i y hi hy := h.push_ring hi hy
  sum := by
    show ((if decide (s.count ≥ int32 W) = true then s.sum.sub (s.samples s.head) else s.sum).addSat x).v = _
    simp only [decide_eq_true_eq, h.full_iff hint]
    refine running_sum (by omega) hint hl h.sum fun y hy hfull => ?_
    rw [h.head, ← h.ring (l.length - W) y le_rfl hy, ← Nat.mod_eq_sub_mod hfull]
  shortSum := by
    have hcount := h.push_count hint x
    show ((if (s.push W x).count > shortK then s.shortSum.sub (s.samples (s.slotBefore W shortK)) else s.shortSum).addSat x).v = _
    have hfull : (s.push W x).count > shortK ↔ shortK ≤ l.length := by rw [hcount]; omega
    simp only [hfull]
    exact running_sum (by decide) (by decide) hl h.shortSum fun y hy hfull =>
      h.samples_slotBefore (by omega) hint hfull hW.le hy

theorem holds_bookImbRun (hW : shortK < W) (hint : W ≤ 1073741824) (hl : ∀ x ∈ l, IsImbalance x) :
    Holds W l (bookImbRun W l) := by
  induction l using List.reverseRecOn with
  | nil => exact holds_init W
  | append_singleton l x ih =>
    rw [bookImbRun, List.foldl_append]
    exact (ih fun y hy => hl y (List.mem_append_left _ hy)).push hW hint hl

/-! ### The two short means -/

/-- The walk over the last `k` samples adds up what the window of `k` holds. -/
theorem Holds.walk_v (h : Holds W l s) (hW : 0 < W) (hint : W ≤ 1073741824) (hl : ∀ x ∈ l, IsImbalance x) {k : ℕ}
    (hk : k ≤ min l.length W) : (s.walk W k).v = imbTotal (window k l) := by
  induction k with
  | zero => rw [window, Nat.sub_zero, List.drop_length]; rfl
  | succ k ih =>
    have hlt : l.length - 1 - k < l.length := by omega
    have hslot : s.samples (s.slotBehind W k) = l[l.length - 1 - k] := by
      rw [h.slotBehind_eq hW hint (by omega) (by omega)]
      exact h.ring _ _ (by omega) (List.getElem?_eq_getElem hlt)
    have hwin : window (k + 1) l = l[l.length - 1 - k] :: window k l := by
      have hstart : l.length - (k + 1) = l.length - 1 - k := by omega
      have hnext : l.length - 1 - k + 1 = l.length - k := by omega
      rw [window, hstart, List.drop_eq_getElem_cons hlt, hnext, window]
    have hfits := imbTotal_fits (l := window (k + 1) l) (fun y hy => hl y (List.mem_of_mem_drop hy))
      (by rw [length_window]; omega)
    rw [hwin, imbTotal_cons, add_comm _ (imbTotal _), ← ih (by omega)] at hfits ⊢
    show ((s.walk W k).addSat (s.samples (s.slotBehind W k))).v = _
    rw [hslot]
    exact Fpn.addSat_v hfits

/-- Both divide the same sum by the same count. -/
theorem Holds.means (h : Holds W l s) (hW : shortK < W) (hint : W ≤ 1073741824) (hl : ∀ x ∈ l, IsImbalance x) :
    s.meanShortFast = s.meanShort W shortK := by
  have hcount := h.count
  rw [meanShortFast, meanShort]
  by_cases hempty : s.count ≤ 0
  · rw [if_pos hempty, if_pos (Or.inl hempty)]
  · have hwalks : ¬(s.count ≤ 0 ∨ (shortK : ℤ) ≤ 0) := not_or.2 ⟨hempty, by decide⟩
    rw [if_neg hempty, if_neg hwalks]
    have hk : (if (shortK : ℤ) > s.count then s.count else shortK) = (min l.length shortK : ℕ) := by
      rw [hcount]
      split <;> omega
    have hsum : s.walk W (min l.length shortK) = s.shortSum := by
      refine Fpn.ext ?_
      rw [h.walk_v (by omega) hint hl (by omega), h.shortSum]
      congr 1
      rw [window, window]
      congr 1
      omega
    simp only [hk, Int.toNat_natCast, hsum]

/-- What a run of pushes leaves: two exact sums, and one short mean by either way. -/
theorem bookImbRun_sums (W : ℕ) (hW : shortK < W) (hint : W ≤ 1073741824) (l : List Fpn)
    (hl : ∀ x ∈ l, IsImbalance x) :
    (bookImbRun W l).sum.v = imbTotal (window W l) ∧
      (bookImbRun W l).shortSum.v = imbTotal (window shortK l) ∧
      (bookImbRun W l).meanShortFast = (bookImbRun W l).meanShort W shortK :=
  let h := holds_bookImbRun hW hint hl
  ⟨h.sum, h.shortSum, h.means hW hint hl⟩

/-- One, a sample of the greatest magnitude. -/
def oneSample : Fpn := Fpn.fromInt 1

theorem bookImbRun_sums_ones :
    (bookImbRun 1024 (List.replicate 65 oneSample)).meanShortFast =
      (bookImbRun 1024 (List.replicate 65 oneSample)).meanShort 1024 shortK :=
  (bookImbRun_sums 1024 (by decide) (by decide) _ fun x hx => by
    rw [List.eq_of_mem_replicate hx]
    exact ⟨by decide, by decide⟩).2.2

/-- As an `int` a window of `2 ^ 31` is negative: the count stays at zero, and the short sum never gives a
    sample up. -/
theorem bookImbRun_not_short :
    ¬∀ W, shortK < W → W < 4294967296 → ∀ l, (∀ x ∈ l, IsImbalance x) →
      (bookImbRun W l).sum.v = imbTotal (window W l) ∧
        (bookImbRun W l).shortSum.v = imbTotal (window shortK l) ∧
        (bookImbRun W l).meanShortFast = (bookImbRun W l).meanShort W shortK := by
  intro h
  have hones := h 2147483648 (by decide) (by decide) (List.replicate 65 oneSample) fun x hx => by
    rw [List.eq_of_mem_replicate hx]
    exact ⟨by decide, by decide⟩
  exact absurd hones.2.1 (by decide +kernel)

end FoxTrader
