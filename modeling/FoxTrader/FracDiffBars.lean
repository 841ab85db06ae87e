import FoxTrader.BucketRing

/-! # Fractional differences over bars

    The bar features weigh 50 closes of the bucket ring, walking back from its head slot by slot. What a
    slot holds is the price last written to it (`close_run`), whatever its stamp says, and the walk does
    not ask for stamps: only the number of valid slots, anywhere in the ring, is asked for before it
    starts. So a bucket that got no price leaves a bar from another lap in the sum, or none. -/

namespace FoxTrader

open Lib Function

/-- `FRAC_DIFF_K`. -/
def fracDiffK : ℕ := 50

/-- The index of `FracDiffWalk` as it goes: truncated, then back by one and around. -/
def walkSlot (W head : ℕ) : ℕ → ℕ
  | 0 => if head % W = 0 then W - 1 else head % W - 1
  | k + 1 => if walkSlot W head k = 0 then W - 1 else walkSlot W head k - 1

/-- The loop of `FracDiffWalk`: even terms are added, odd ones subtracted. -/
def fracDiffSum (W head : ℕ) (buf coeffs : ℕ → Fpn) : ℕ → Fpn
  | 0 => Fpn.zero
  | k + 1 =>
    let sum := fracDiffSum W head buf coeffs k
    let term := (coeffs k).mul (buf (walkSlot W head k))
    if k % 2 = 0 then sum.addSat term else sum.sub term

/-- `FracDiffWalk`. -/
def fracDiffWalk (W head available : ℕ) (buf coeffs : ℕ → Fpn) : Fpn :=
  if available < fracDiffK then Fpn.zero else fracDiffSum W head buf coeffs fracDiffK

/-- The head of `LADDER_FRACDIFF_BARS`. -/
def barsHead (r : BucketRingState) : ℕ := (r.curOrdinal + 1) % 2 ^ 32 % bucketSlots

/-- `ML_Compute_FracDiffBars`, for the coefficients of each of the three rows. -/
def fracDiffBars (r : BucketRingState) (coeffs : ℕ → Fpn) : Fpn :=
  fracDiffWalk bucketSlots (barsHead r) (ladderRingValidCount r) r.close coeffs

/-! ### What the slots hold -/

/-- The ring after these pushes. -/
def bucketRingRun (pushes : List (ℕ × Fpn)) : BucketRingState :=
  pushes.foldl (fun r push => bucketRingPush r push.1 push.2) bucketRingInit

/-- The slot that a bucket is written to. -/
def bucketSlot (bucket : ℕ) : ℕ := bucket % 2 ^ 32 % bucketSlots

/-- The last write to a slot: the bucket and the price. -/
def lastWrite (pushes : List (ℕ × Fpn)) (slot : ℕ) : Option (ℕ × Fpn) :=
  ((assigned pushes).filter fun item => bucketSlot item.1 = slot).getLast?

/-- The bucket of the largest timestamp. -/
abbrev curBucket (pushes : List (ℕ × Fpn)) : ℕ := largestUs pushes / bucketUs

variable {pushes : List (ℕ × Fpn)}

theorem bucketRingRun_snoc (pushes : List (ℕ × Fpn)) (push : ℕ × Fpn) :
    bucketRingRun (pushes ++ [push]) = bucketRingPush (bucketRingRun pushes) push.1 push.2 := List.foldl_concat ..

theorem lastWrite_snoc (pushes : List (ℕ × Fpn)) (push : ℕ × Fpn) (slot : ℕ) :
    lastWrite (pushes ++ [push]) slot =
      if bucketSlot (max (largestUs pushes) push.1 / bucketUs) = slot then
        some (max (largestUs pushes) push.1 / bucketUs, push.2)
      else lastWrite pushes slot := by
  rw [lastWrite, assigned_snoc, List.filter_append]
  split
  · rename_i hslot
    rw [List.filter_cons_of_pos (by simpa using hslot), List.filter_nil, List.getLast?_concat]
  · rename_i hslot
    rw [List.filter_cons_of_neg (by simpa using hslot), List.filter_nil, List.append_nil, lastWrite]

/-- The ring over any run, the wrap of the ordinals included. -/
structure RunsTo (pushes : List (ℕ × Fpn)) (r : BucketRingState) : Prop where
  last : r.lastUs = largestUs pushes
  cur : r.curOrdinal = curBucket pushes % 2 ^ 32
  close : ∀ i, r.close i = (lastWrite pushes i).elim Fpn.zero (·.2)

theorem RunsTo.push {r : BucketRingState} (h : RunsTo pushes r) (push : ℕ × Fpn) :
    RunsTo (pushes ++ [push]) (bucketRingPush r push.1 push.2) := by
  have hlargest := largestUs_snoc pushes push
  -- Either branch writes the close of the slot of the largest timestamp.
  have hwrite : ∀ i, update r.close (bucketSlot (max (largestUs pushes) push.1 / bucketUs)) push.2 i =
      (lastWrite (pushes ++ [push]) i).elim Fpn.zero (·.2) := by
    intro i
    rw [lastWrite_snoc]
    split
    · rename_i hslot
      rw [hslot, update_self]
      rfl
    · rename_i hslot
      rw [update_of_ne (Ne.symm hslot)]
      exact h.close i
  unfold bucketRingPush
  split
  · rename_i hlate
    rw [h.last] at hlate
    refine ⟨?_, ?_, fun i => ?_⟩
    · rw [hlargest, max_eq_left hlate]
      exact h.last
    · rw [curBucket, hlargest, max_eq_left hlate]
      exact h.cur
    · rw [← hwrite, max_eq_left hlate, bucketSlot, ← h.cur]
  · rename_i hadvance
    have hle : largestUs pushes ≤ push.1 := by
      rw [h.last] at hadvance
      exact (not_le.1 hadvance).le
    refine ⟨?_, ?_, fun i => ?_⟩
    · rw [hlargest, max_eq_right hle]
    · rw [curBucket, hlargest, max_eq_right hle]
    · rw [← hwrite, max_eq_right hle, bucketSlot]

theorem runsTo_run (pushes : List (ℕ × Fpn)) : RunsTo pushes (bucketRingRun pushes) := by
  induction pushes using List.reverseRecOn with
  | nil => exact ⟨rfl, rfl, fun _ => rfl⟩
  | append_singleton pushes push ih =>
    rw [bucketRingRun_snoc]
    exact ih.push push

/-- What the walk weighs in a slot is the price last written there. -/
theorem close_run (pushes : List (ℕ × Fpn)) (i : ℕ) :
    (bucketRingRun pushes).close i = (lastWrite pushes i).elim Fpn.zero (·.2) := (runsTo_run pushes).close i

theorem assigned_sorted (pushes : List (ℕ × Fpn)) :
    (assigned pushes).Pairwise fun before after => before.1 ≤ after.1 := by
  induction pushes using List.reverseRecOn with
  | nil => exact List.Pairwise.nil
  | append_singleton pushes push ih =>
    rw [assigned_snoc, List.pairwise_append]
    refine ⟨ih, List.pairwise_singleton _ _, fun before hbefore after hafter => ?_⟩
    rw [List.mem_singleton.1 hafter]
    exact (assigned_le pushes before hbefore).trans (Nat.div_le_div_right (le_max_left _ _))

theorem mem_of_lastWrite {slot : ℕ} {item : ℕ × Fpn} (h : lastWrite pushes slot = some item) :
    item ∈ assigned pushes ∧ bucketSlot item.1 = slot := by
  have hmem := List.mem_of_getLast? h
  exact ⟨(List.mem_filter.1 hmem).1, of_decide_eq_true (List.mem_filter.1 hmem).2⟩

/-- No write to a slot is of a later bucket than the last one. -/
theorem le_of_lastWrite {slot : ℕ} {item old : ℕ × Fpn} (h : lastWrite pushes slot = some item)
    (hold : old ∈ assigned pushes) (hslot : bucketSlot old.1 = slot) : old.1 ≤ item.1 := by
  have hmem : old ∈ (assigned pushes).filter fun item => bucketSlot item.1 = slot :=
    List.mem_filter.2 ⟨hold, decide_eq_true hslot⟩
  obtain ⟨before, hsplit⟩ := List.getLast?_eq_some_iff.1 h
  have hsorted := (assigned_sorted pushes).sublist (List.filter_sublist (p := fun item => bucketSlot item.1 = slot))
  rw [hsplit] at hmem hsorted
  rcases List.mem_append.1 hmem with hbefore | hlast
  · exact (List.pairwise_append.1 hsorted).2.2 old hbefore item (List.mem_singleton_self _)
  · rw [List.mem_singleton.1 hlast]

/-- The last write to a slot is of its bucket if that bucket got a price and no later one shares the slot. -/
theorem lastWrite_eq_of_bucket {b : ℕ} (hne : bucket b (assigned pushes) ≠ [])
    (hlater : ∀ b', b < b' → b' ≤ curBucket pushes → bucketSlot b' ≠ bucketSlot b) :
    (lastWrite pushes (bucketSlot b)).map (·.1) = some b := by
  obtain ⟨item, hitem, rfl⟩ := DirectMapped.bucket_ne_nil hne
  have hsome : lastWrite pushes (bucketSlot item.1) ≠ none := by
    rw [lastWrite, Ne, List.getLast?_eq_none_iff]
    exact List.ne_nil_of_mem (List.mem_filter.2 ⟨hitem, decide_eq_true rfl⟩)
  obtain ⟨last, hlast⟩ := Option.ne_none_iff_exists'.1 hsome
  obtain ⟨hmem, hslot⟩ := mem_of_lastWrite hlast
  have hle := le_of_lastWrite hlast hitem rfl
  rw [hlast, Option.map_some]
  by_contra hdiff
  have hlt : item.1 < last.1 := lt_of_le_of_ne hle fun heq => hdiff (congrArg some heq.symm)
  exact hlater last.1 hlt (assigned_le pushes last hmem) hslot

/-! ### The walk -/

theorem walkSlot_bars (head : ℕ) {k : ℕ} (hk : k < bucketSlots) :
    walkSlot bucketSlots head k = (head % bucketSlots + (bucketSlots - 1 - k)) % bucketSlots := by
  unfold bucketSlots at *
  induction k with
  | zero => rw [walkSlot]; split <;> omega
  | succ k ih =>
    have hprev := ih (by omega)
    rw [walkSlot]
    split <;> omega

/-- Before the wrap of the ordinal the walk visits the slots of the last buckets. -/
theorem walkSlot_eq_bucketSlot {cur k : ℕ} (hcur : cur % 2 ^ 32 ≠ 2 ^ 32 - 1) (hk : k < fracDiffK)
    (hle : k ≤ cur % 2 ^ 32) :
    walkSlot bucketSlots ((cur % 2 ^ 32 + 1) % 2 ^ 32 % bucketSlots) k = bucketSlot (cur - k) := by
  unfold fracDiffK at hk
  have hword : (cur % 2 ^ 32 + 1) % 2 ^ 32 = cur % 2 ^ 32 + 1 := by omega
  have hback : (cur - k) % 2 ^ 32 = cur % 2 ^ 32 - k := by omega
  rw [walkSlot_bars _ (by unfold bucketSlots; omega), bucketSlot, hword, hback]
  unfold bucketSlots
  omega

/-- Across the wrap it does not: `2 ^ 32` is no multiple of the number of slots. -/
theorem walkSlot_ne_bucketSlot {cur k : ℕ} (hk : k < fracDiffK) (hle : k ≤ cur)
    (hwrap : cur % 2 ^ 32 = 2 ^ 32 - 1 ∧ k = 0 ∨ cur % 2 ^ 32 ≠ 2 ^ 32 - 1 ∧ cur % 2 ^ 32 < k) :
    walkSlot bucketSlots ((cur % 2 ^ 32 + 1) % 2 ^ 32 % bucketSlots) k ≠ bucketSlot (cur - k) := by
  unfold fracDiffK at hk
  rw [walkSlot_bars _ (by unfold bucketSlots; omega), bucketSlot]
  unfold bucketSlots
  rcases hwrap with ⟨hlast, rfl⟩ | ⟨hne, hlt⟩
  · simp only [Nat.sub_zero, hlast]
    decide
  · have hword : (cur % 2 ^ 32 + 1) % 2 ^ 32 = cur % 2 ^ 32 + 1 := by omega
    have hback : (cur - k) % 2 ^ 32 = cur % 2 ^ 32 + 2 ^ 32 - k := by omega
    rw [hword, hback]
    omega

/-- Two of the last 50 buckets are less than a turn of the ring apart. -/
theorem bucketSlot_ne {cur b k : ℕ} (hk : k < fracDiffK) (hge : fracDiffK - 1 ≤ cur % 2 ^ 32) (hb : cur - k < b)
    (hcur : b ≤ cur) : bucketSlot b ≠ bucketSlot (cur - k) := by
  unfold fracDiffK at hk hge
  have hback : (cur - k) % 2 ^ 32 = cur % 2 ^ 32 - k := by omega
  have hword : b % 2 ^ 32 = cur % 2 ^ 32 - (cur - b) := by omega
  have hnear : cur - b < k := by omega
  rw [bucketSlot, bucketSlot, hback, hword]
  generalize cur % 2 ^ 32 = c at hge
  generalize cur - b = j at hnear
  unfold bucketSlots
  omega

/-- The closes the walk weighs are those of the current bucket and the 49 before it. -/
def WeighsLastBuckets (pushes : List (ℕ × Fpn)) : Prop :=
  ∀ k < fracDiffK, k ≤ curBucket pushes ∧
    (lastWrite pushes (walkSlot bucketSlots (barsHead (bucketRingRun pushes)) k)).map (·.1) =
      some (curBucket pushes - k)

/-- Each of the last 50 buckets got a price, in one turn of the ordinal. -/
def LastBucketsFilled (pushes : List (ℕ × Fpn)) : Prop :=
  fracDiffK - 1 ≤ curBucket pushes % 2 ^ 32 ∧ curBucket pushes % 2 ^ 32 ≠ 2 ^ 32 - 1 ∧
    ∀ k < fracDiffK, bucket (curBucket pushes - k) (assigned pushes) ≠ []

instance (pushes : List (ℕ × Fpn)) : Decidable (WeighsLastBuckets pushes) := Nat.decidableBallLT _ _

theorem weighs_iff (pushes : List (ℕ × Fpn)) : WeighsLastBuckets pushes ↔ LastBucketsFilled pushes := by
  have hhead : barsHead (bucketRingRun pushes) = (curBucket pushes % 2 ^ 32 + 1) % 2 ^ 32 % bucketSlots := by
    rw [barsHead, (runsTo_run pushes).cur]
  unfold WeighsLastBuckets
  rw [hhead]
  constructor
  · intro h
    have hslot : ∀ k < fracDiffK, walkSlot bucketSlots ((curBucket pushes % 2 ^ 32 + 1) % 2 ^ 32 % bucketSlots) k =
        bucketSlot (curBucket pushes - k) := by
      intro k hk
      obtain ⟨item, hitem, hbucket⟩ := Option.map_eq_some_iff.1 (h k hk).2
      rw [← hbucket]
      exact (mem_of_lastWrite hitem).2.symm
    have hne : curBucket pushes % 2 ^ 32 ≠ 2 ^ 32 - 1 := fun hlast =>
      walkSlot_ne_bucketSlot (k := 0) (by decide) (Nat.zero_le _) (Or.inl ⟨hlast, rfl⟩) (hslot 0 (by decide))
    have hlast : fracDiffK - 1 < fracDiffK := by decide
    have hge : fracDiffK - 1 ≤ curBucket pushes % 2 ^ 32 := by
      by_contra hlt
      exact walkSlot_ne_bucketSlot hlast (h _ hlast).1 (Or.inr ⟨hne, not_le.1 hlt⟩) (hslot _ hlast)
    refine ⟨hge, hne, fun k hk => ?_⟩
    obtain ⟨item, hitem, hbucket⟩ := Option.map_eq_some_iff.1 (h k hk).2
    have hmem : (curBucket pushes - k, item.2) ∈ assigned pushes := hbucket ▸ (mem_of_lastWrite hitem).1
    exact List.ne_nil_of_mem (mem_bucket.2 hmem)
  · rintro ⟨hge, hne, hfilled⟩ k hk
    have hword : curBucket pushes % 2 ^ 32 ≤ curBucket pushes := Nat.mod_le _ _
    have hle : k ≤ curBucket pushes % 2 ^ 32 := (Nat.le_sub_one_of_lt hk).trans hge
    refine ⟨hle.trans hword, ?_⟩
    rw [walkSlot_eq_bucketSlot hne hk hle]
    exact lastWrite_eq_of_bucket (hfilled k hk) fun b hlater hcur => bucketSlot_ne hk hge hlater hcur

/-- Whenever the bar features are past their warm-up they weigh the closes of the last 50 buckets, if and only if
    they are not past it or each of these buckets got a price. -/
theorem fracDiffBars_weighs_iff (pushes : List (ℕ × Fpn)) :
    (fracDiffK ≤ ladderRingValidCount (bucketRingRun pushes) → WeighsLastBuckets pushes) ↔
      (ladderRingValidCount (bucketRingRun pushes) < fracDiffK ∨ LastBucketsFilled pushes) := by
  rw [weighs_iff, ← not_le, imp_iff_not_or]

/-- A price in each of the first 50 buckets, ten buckets of silence, one more price. -/
def gapPushes : List (ℕ × Fpn) :=
  (List.range 50).map (fun i => (i * 300000000 + 1, Fpn.saturate 3)) ++ [(60 * 300000000, Fpn.saturate 5)]

theorem fracDiffBars_weighs_gap :
    ¬∀ pushes : List (ℕ × Fpn), (∀ push ∈ pushes, push.1 < 2 ^ 64 ∧ 0 < push.2.v) →
      fracDiffK ≤ ladderRingValidCount (bucketRingRun pushes) → WeighsLastBuckets pushes := by
  intro h
  have hgap := h gapPushes (by decide +kernel) (by decide +kernel)
  exact absurd (hgap 1 (by decide)).2 (by decide +kernel)

end FoxTrader
