import FoxTrader.FixedPoint
import FoxTrader.Lib.DirectMapped

/-! # The bucket ring

    Five-minute bars of price, 288 of them for the last day. The bar of a bucket lives in the slot of its
    number modulo 288, under a stamp one above that number, so that a stamp of zero is a slot never
    written. Nothing is cleared: a reader tells a bar of the last day from one that is older by the age of its
    stamp. A tick that does not advance the clock goes into the current bar.

    Behind the stamps and the three arrays stands a ring of direct-mapped slots whose items are the
    prices under the bucket of the largest timestamp so far (`push_cell`), and from it comes what the
    features read. -/

namespace FoxTrader

open Lib Function

/-- `BUCKET_SLOTS`. -/
def bucketSlots : ℕ := 288

/-- `BUCKET_US`. -/
def bucketUs : ℕ := 300000000

/-- `BucketRingState`; ordinals and stamps are words of 32 bits. -/
structure BucketRingState where
  close : ℕ → Fpn
  min : ℕ → Fpn
  max : ℕ → Fpn
  slotBucket : ℕ → ℕ
  curOrdinal : ℕ
  lastUs : ℕ

/-- `FPN_Min`. -/
def Fpn.minOf (a b : Fpn) : Fpn := if a.v < b.v then a else b

/-- `FPN_Max`. -/
def Fpn.maxOf (a b : Fpn) : Fpn := if a.v > b.v then a else b

/-- `BucketRing_Init`. -/
def bucketRingInit : BucketRingState where
  close _ := Fpn.zero
  min _ := Fpn.zero
  max _ := Fpn.zero
  slotBucket _ := 0
  curOrdinal := 0
  lastUs := 0

/-- `BucketRing_Push`. -/
def bucketRingPush (r : BucketRingState) (timestampUs : ℕ) (price : Fpn) : BucketRingState :=
  if timestampUs ≤ r.lastUs then
    let cidx := r.curOrdinal % bucketSlots
    { r with
      close := update r.close cidx price
      min := update r.min cidx (if r.slotBucket cidx ≠ 0 then Fpn.minOf (r.min cidx) price else price)
      max := update r.max cidx (if r.slotBucket cidx ≠ 0 then Fpn.maxOf (r.max cidx) price else price)
      slotBucket := update r.slotBucket cidx ((r.curOrdinal + 1) % 2 ^ 32) }
  else
    let ordinal := timestampUs / bucketUs % 2 ^ 32
    let idx := ordinal % bucketSlots
    -- The slot is stale when its stamp does not name this bucket, and is then seeded.
    { close := update r.close idx price
      min := update r.min idx (if r.slotBucket idx = (ordinal + 1) % 2 ^ 32 then Fpn.minOf (r.min idx) price else price)
      max := update r.max idx (if r.slotBucket idx = (ordinal + 1) % 2 ^ 32 then Fpn.maxOf (r.max idx) price else price)
      slotBucket := update r.slotBucket idx ((ordinal + 1) % 2 ^ 32)
      curOrdinal := ordinal
      lastUs := timestampUs }

/-- The test both readers make of a slot. -/
def slotCounts (r : BucketRingState) (i : ℕ) : Bool :=
  let cur1 := (r.curOrdinal + 1) % 2 ^ 32
  let stamp := r.slotBucket i
  let age := (cur1 + 2 ^ 32 - stamp) % 2 ^ 32
  decide (stamp ≠ 0) && decide (age < bucketSlots)

/-- What `LadderRingExtrema` returns and writes. -/
structure RingExtrema where
  any : Bool
  lo : Fpn
  hi : Fpn

def extremaStep (r : BucketRingState) (e : RingExtrema) (i : ℕ) : RingExtrema :=
  if slotCounts r i then
    if e.any then
      { e with
        lo := if (r.min i).v < e.lo.v then r.min i else e.lo
        hi := if e.hi.v < (r.max i).v then r.max i else e.hi }
    else { any := true, lo := r.min i, hi := r.max i }
  else e

/-- `LadderRingExtrema`. -/
def ladderRingExtrema (r : BucketRingState) : RingExtrema :=
  (List.range bucketSlots).foldl (extremaStep r) { any := false, lo := Fpn.zero, hi := Fpn.zero }

/-- `LadderRingValidCount`. -/
def ladderRingValidCount (r : BucketRingState) : ℕ := (List.range bucketSlots).countP (slotCounts r)

/-! ### Bars -/

/-- A bar. -/
structure Bar where
  close : Fpn
  low : Fpn
  high : Fpn

namespace Bar

def seed (price : Fpn) : Bar := ⟨price, price, price⟩

def fold (bar : Bar) (price : Fpn) : Bar := ⟨price, Fpn.minOf bar.low price, Fpn.maxOf bar.high price⟩

/-- A bar sums up the prices it was made of. -/
structure Sums (prices : List Fpn) (bar : Bar) : Prop where
  close : prices.getLast? = some bar.close
  low : bar.low ∈ prices ∧ ∀ p ∈ prices, bar.low.v ≤ p.v
  high : bar.high ∈ prices ∧ ∀ p ∈ prices, p.v ≤ bar.high.v

theorem sums_seed (price : Fpn) : Sums [price] (seed price) := by
  refine ⟨rfl, ⟨List.mem_singleton_self _, ?_⟩, ⟨List.mem_singleton_self _, ?_⟩⟩ <;>
  · intro p hp
    rw [List.mem_singleton.1 hp]
    exact le_refl _

theorem Sums.fold {prices : List Fpn} {bar : Bar} (h : Sums prices bar) (price : Fpn) :
    Sums (prices ++ [price]) (bar.fold price) := by
  refine ⟨List.getLast?_concat, ⟨?_, ?_⟩, ⟨?_, ?_⟩⟩
  · show Fpn.minOf bar.low price ∈ _
    unfold Fpn.minOf
    split
    · exact List.mem_append_left _ h.low.1
    · exact List.mem_append_right _ (List.mem_singleton_self _)
  · intro p hp
    show (Fpn.minOf bar.low price).v ≤ p.v
    have hleft : (Fpn.minOf bar.low price).v ≤ bar.low.v := by unfold Fpn.minOf; split <;> omega
    have hright : (Fpn.minOf bar.low price).v ≤ price.v := by unfold Fpn.minOf; split <;> omega
    rcases List.mem_append.1 hp with hold | hnew
    · exact hleft.trans (h.low.2 p hold)
    · rwa [List.mem_singleton.1 hnew]
  · show Fpn.maxOf bar.high price ∈ _
    unfold Fpn.maxOf
    split
    · exact List.mem_append_left _ h.high.1
    · exact List.mem_append_right _ (List.mem_singleton_self _)
  · intro p hp
    show p.v ≤ (Fpn.maxOf bar.high price).v
    have hleft : bar.high.v ≤ (Fpn.maxOf bar.high price).v := by unfold Fpn.maxOf; split <;> omega
    have hright : price.v ≤ (Fpn.maxOf bar.high price).v := by unfold Fpn.maxOf; split <;> omega
    rcases List.mem_append.1 hp with hold | hnew
    · exact (h.high.2 p hold).trans hleft
    · rwa [List.mem_singleton.1 hnew]

theorem sums_foldBucket {prices : List Fpn} {bar : Bar} (h : DirectMapped.foldBucket seed fold prices = some bar) :
    Sums prices bar := by
  induction prices using List.reverseRecOn generalizing bar with
  | nil => exact absurd h.symm (Option.some_ne_none _)
  | append_singleton prices price ih =>
    rw [DirectMapped.foldBucket_snoc] at h
    obtain rfl := Option.some.inj h
    rcases hb : DirectMapped.foldBucket seed fold prices with _ | b
    · obtain rfl : prices = [] := by
        by_contra hne
        exact absurd hb (Option.isSome_iff_ne_none.1 ((DirectMapped.foldBucket_isSome seed fold).2 hne))
      exact sums_seed price
    · exact (ih hb).fold price

end Bar

/-! ### The prices of each bucket -/

/-- The largest timestamp seen. -/
def largestUs (pushes : List (ℕ × Fpn)) : ℕ := pushes.foldl (fun m push => max m push.1) 0

/-- The prices, each under the bucket of the largest timestamp so far. -/
def assignedFrom (m : ℕ) : List (ℕ × Fpn) → List (ℕ × Fpn)
  | [] => []
  | push :: rest => (max m push.1 / bucketUs, push.2) :: assignedFrom (max m push.1) rest

def assigned (pushes : List (ℕ × Fpn)) : List (ℕ × Fpn) := assignedFrom 0 pushes

/-- The prices of the last 288 buckets. -/
def windowPrices (pushes : List (ℕ × Fpn)) : List Fpn :=
  ((assigned pushes).filter fun item => largestUs pushes / bucketUs < item.1 + bucketSlots).map (·.2)

theorem largestUs_snoc (pushes : List (ℕ × Fpn)) (push : ℕ × Fpn) :
    largestUs (pushes ++ [push]) = max (largestUs pushes) push.1 := List.foldl_concat ..

theorem assigned_snoc (pushes : List (ℕ × Fpn)) (push : ℕ × Fpn) :
    assigned (pushes ++ [push]) = assigned pushes ++ [(max (largestUs pushes) push.1 / bucketUs, push.2)] := by
  have hfrom : ∀ m, assignedFrom m (pushes ++ [push]) =
      assignedFrom m pushes ++ [(max (pushes.foldl (fun m push => max m push.1) m) push.1 / bucketUs, push.2)] := by
    induction pushes with
    | nil => exact fun m => rfl
    | cons first rest ih =>
      intro m
      rw [List.cons_append, assignedFrom, assignedFrom, ih, List.foldl_cons, List.cons_append]
  exact hfrom 0

theorem assigned_le (pushes : List (ℕ × Fpn)) : ∀ item ∈ assigned pushes, item.1 ≤ largestUs pushes / bucketUs := by
  induction pushes using List.reverseRecOn with
  | nil => exact fun _ h => absurd h List.not_mem_nil
  | append_singleton pushes push ih =>
    intro item hitem
    rw [assigned_snoc] at hitem
    rw [largestUs_snoc]
    rcases List.mem_append.1 hitem with hold | hnew
    · exact (ih item hold).trans (Nat.div_le_div_right (le_max_left _ _))
    · rw [List.mem_singleton.1 hnew]

theorem largestUs_lt {pushes : List (ℕ × Fpn)} {bound : ℕ} (hpos : 0 < bound)
    (h : ∀ push ∈ pushes, push.1 / bucketUs < bound) : largestUs pushes / bucketUs < bound := by
  induction pushes using List.reverseRecOn with
  | nil => rwa [show largestUs [] / bucketUs = 0 from Nat.zero_div _]
  | append_singleton pushes push ih =>
    rw [largestUs_snoc]
    rcases max_choice (largestUs pushes) push.1 with hmax | hmax
    · rw [hmax]
      exact ih fun p hp => h p (List.mem_append_left _ hp)
    · rw [hmax]
      exact h push (List.mem_append_right _ (List.mem_singleton_self _))

/-! ### What stands behind the stamps -/

namespace BucketRing

/-- The bar in a slot under the bucket its stamp names. -/
def cell (r : BucketRingState) (i : ℕ) : Option (ℕ × Bar) :=
  if r.slotBucket i = 0 then none else some (r.slotBucket i - 1, ⟨r.close i, r.min i, r.max i⟩)

theorem absorb_cell (r : BucketRingState) (i ordinal : ℕ) (price : Fpn) :
    DirectMapped.absorb Bar.seed Bar.fold (cell r i) (ordinal, price) =
      ⟨price, if r.slotBucket i = ordinal + 1 then Fpn.minOf (r.min i) price else price,
        if r.slotBucket i = ordinal + 1 then Fpn.maxOf (r.max i) price else price⟩ := by
  unfold cell
  by_cases hzero : r.slotBucket i = 0
  · rw [if_pos hzero, if_neg (by omega), if_neg (by omega)]
    rfl
  · rw [if_neg hzero]
    by_cases hsame : r.slotBucket i = ordinal + 1
    · rw [if_pos hsame, if_pos hsame]
      exact if_pos (by omega)
    · rw [if_neg hsame, if_neg hsame]
      exact if_neg (by omega)

/-- The ring as it is after some pushes: the stamp of the current slot names the current bucket. -/
structure Tracks (pushes : List (ℕ × Fpn)) (r : BucketRingState) : Prop where
  last : r.lastUs = largestUs pushes
  cur : r.curOrdinal = largestUs pushes / bucketUs
  stamp : r.slotBucket (r.curOrdinal % bucketSlots) = 0 ∨ r.slotBucket (r.curOrdinal % bucketSlots) = r.curOrdinal + 1
  holds : DirectMapped.Holds Bar.seed Bar.fold bucketSlots (assigned pushes) (cell r)

/-- Where a slot is overwritten with a stamp that is not zero, its cell is the new bar. -/
theorem cell_update {r r' : BucketRingState} {idx ordinal : ℕ} {bar : Bar}
    (hclose : r'.close = update r.close idx bar.close) (hmin : r'.min = update r.min idx bar.low)
    (hmax : r'.max = update r.max idx bar.high) (hstamp : r'.slotBucket = update r.slotBucket idx (ordinal + 1)) :
    cell r' = update (cell r) idx (some (ordinal, bar)) := by
  funext i
  unfold cell
  rw [hclose, hmin, hmax, hstamp]
  rcases eq_or_ne i idx with rfl | hne
  · simp only [update_self]
    rfl
  · simp only [update_of_ne hne]

/-- One push is one write of the slots, under the bucket of the largest timestamp. -/
theorem Tracks.push_cell {pushes : List (ℕ × Fpn)} {r : BucketRingState} (h : Tracks pushes r) {ts : ℕ} (price : Fpn)
    (hts : max (largestUs pushes) ts / bucketUs < 2 ^ 32 - 1) :
    cell (bucketRingPush r ts price) = DirectMapped.write Bar.seed Bar.fold bucketSlots (cell r)
        (max (largestUs pushes) ts / bucketUs, price) ∧
      (bucketRingPush r ts price).lastUs = max (largestUs pushes) ts ∧
      (bucketRingPush r ts price).curOrdinal = max (largestUs pushes) ts / bucketUs := by
  have hlast := h.last
  have hcur := h.cur
  unfold DirectMapped.write bucketRingPush
  rw [absorb_cell]
  by_cases hadvance : ts ≤ r.lastUs
  · rw [if_pos hadvance]
    rw [max_eq_left (hlast ▸ hadvance), ← hcur] at hts ⊢
    have hword : (r.curOrdinal + 1) % 2 ^ 32 = r.curOrdinal + 1 := Nat.mod_eq_of_lt (by omega)
    have hseeded : r.slotBucket (r.curOrdinal % bucketSlots) ≠ 0 ↔
        r.slotBucket (r.curOrdinal % bucketSlots) = r.curOrdinal + 1 := by
      have := h.stamp
      omega
    refine ⟨cell_update rfl ?_ ?_ ?_, hlast, rfl⟩
    · simp only [hseeded]
    · simp only [hseeded]
    · simp only [hword]
  · rw [if_neg hadvance]
    rw [max_eq_right (by omega)] at hts ⊢
    have hordinal : ts / bucketUs % 2 ^ 32 = ts / bucketUs := Nat.mod_eq_of_lt (by omega)
    have hword : (ts / bucketUs + 1) % 2 ^ 32 = ts / bucketUs + 1 := Nat.mod_eq_of_lt (by omega)
    refine ⟨cell_update ?_ ?_ ?_ ?_, rfl, hordinal⟩ <;> simp only [hordinal, hword]

theorem tracks_init : Tracks [] bucketRingInit :=
  ⟨rfl, (Nat.zero_div _).symm, .inl rfl, DirectMapped.holds_nil⟩

theorem Tracks.push {pushes : List (ℕ × Fpn)} {r : BucketRingState} (h : Tracks pushes r) {push : ℕ × Fpn}
    (hts : max (largestUs pushes) push.1 / bucketUs < 2 ^ 32 - 1) :
    Tracks (pushes ++ [push]) (bucketRingPush r push.1 push.2) := by
  obtain ⟨hcell, hlast, hcur⟩ := h.push_cell push.2 hts
  have hmono : ∀ item ∈ assigned pushes, item.1 ≤ max (largestUs pushes) push.1 / bucketUs := fun item hitem =>
    (assigned_le pushes item hitem).trans (Nat.div_le_div_right (le_max_left _ _))
  refine ⟨by rw [hlast, largestUs_snoc], by rw [hcur, largestUs_snoc], ?_, ?_⟩
  · -- the cell just written is the current one
    rw [hcur]
    have hcurrent := congrFun hcell (max (largestUs pushes) push.1 / bucketUs % bucketSlots)
    rw [DirectMapped.write, update_self, cell] at hcurrent
    split at hcurrent
    next => cases hcurrent
    next hstamp =>
      have hkey := (Prod.mk.inj (Option.some.inj hcurrent)).1
      omega
  · rw [assigned_snoc, hcell]
    exact h.holds.write hmono

/-- The ring after pushes none of which lies beyond the stamps. -/
theorem tracks_run {pushes : List (ℕ × Fpn)} (hts : ∀ push ∈ pushes, push.1 / bucketUs < 2 ^ 32 - 1) :
    Tracks pushes (pushes.foldl (fun r push => bucketRingPush r push.1 push.2) bucketRingInit) := by
  induction pushes using List.reverseRecOn with
  | nil => exact tracks_init
  | append_singleton pushes push ih =>
    rw [List.foldl_concat]
    have hlargest := largestUs_lt (by decide) hts
    rw [largestUs_snoc] at hlargest
    exact (ih fun p hp => hts p (List.mem_append_left _ hp)).push hlargest

/-! ### What the readers find -/

variable {pushes : List (ℕ × Fpn)} {r : BucketRingState}

/-- The age of a stamp tells whether the bucket of the slot is recent. -/
theorem Tracks.slotCounts_iff (h : Tracks pushes r) (hcur : largestUs pushes / bucketUs < 2 ^ 32 - 1) (i : ℕ) :
    slotCounts r i = true ↔ DirectMapped.Recent bucketSlots r.curOrdinal (cell r i) := by
  have hword : (r.curOrdinal + 1) % 2 ^ 32 = r.curOrdinal + 1 := Nat.mod_eq_of_lt (by rw [h.cur]; omega)
  unfold slotCounts
  dsimp only
  rw [Bool.and_eq_true, decide_eq_true_iff, decide_eq_true_iff, hword]
  by_cases hzero : r.slotBucket i = 0
  · refine iff_of_false (fun hcounts => hcounts.1 hzero) ?_
    rintro ⟨k, b, hcell, -⟩
    rw [cell, if_pos hzero] at hcell
    cases hcell
  · have hcell : cell r i = some (r.slotBucket i - 1, ⟨r.close i, r.min i, r.max i⟩) := if_neg hzero
    obtain ⟨-, hfold, -⟩ := h.holds.held i _ _ hcell
    obtain ⟨item, hitem, hkey⟩ :=
      DirectMapped.bucket_ne_nil ((DirectMapped.foldBucket_isSome _ _).1 (Option.isSome_of_mem hfold))
    have hbefore : r.slotBucket i - 1 ≤ r.curOrdinal := hkey ▸ h.cur ▸ assigned_le pushes item hitem
    have hage : (r.curOrdinal + 1 + 2 ^ 32 - r.slotBucket i) % 2 ^ 32 = r.curOrdinal + 1 - r.slotBucket i := by
      rw [h.cur] at hbefore ⊢
      omega
    rw [hage]
    constructor
    · rintro ⟨-, hlt⟩
      exact ⟨_, _, hcell, by omega⟩
    · rintro ⟨k, b, hsome, hrecent⟩
      obtain ⟨rfl, -⟩ := Prod.mk.inj (Option.some.inj (hcell.symm.trans hsome))
      exact ⟨hzero, by omega⟩

theorem mem_windowPrices {price : Fpn} : price ∈ windowPrices pushes ↔
    ∃ k, largestUs pushes / bucketUs < k + bucketSlots ∧ price ∈ bucket k (assigned pushes) := by
  rw [windowPrices, List.mem_map]
  constructor
  · rintro ⟨item, hitem, rfl⟩
    obtain ⟨hmem, hrecent⟩ := List.mem_filter.1 hitem
    exact ⟨item.1, of_decide_eq_true hrecent,
      List.mem_map.2 ⟨item, List.mem_filter.2 ⟨hmem, decide_eq_true rfl⟩, rfl⟩⟩
  · rintro ⟨k, hrecent, hprice⟩
    obtain ⟨item, hitem, rfl⟩ := List.mem_map.1 hprice
    obtain ⟨hmem, hkey⟩ := List.mem_filter.1 hitem
    exact ⟨item, List.mem_filter.2 ⟨hmem, decide_eq_true (of_decide_eq_true hkey ▸ hrecent)⟩, rfl⟩

/-- A slot that counts holds the bar of a recent bucket. -/
theorem Tracks.sums_of_counts (h : Tracks pushes r) (hcur : largestUs pushes / bucketUs < 2 ^ 32 - 1) {i : ℕ}
    (hcounts : slotCounts r i = true) : ∃ k, largestUs pushes / bucketUs < k + bucketSlots ∧
      Bar.Sums (bucket k (assigned pushes)) ⟨r.close i, r.min i, r.max i⟩ := by
  obtain ⟨k, b, hcell, hrecent⟩ := (h.slotCounts_iff hcur i).1 hcounts
  obtain ⟨-, hfold, -⟩ := h.holds.held i k b hcell
  rw [cell] at hcell
  split at hcell
  next => cases hcell
  next =>
    obtain ⟨-, rfl⟩ := Prod.mk.inj (Option.some.inj hcell)
    exact ⟨k, h.cur ▸ hrecent, Bar.sums_foldBucket hfold⟩

/-- The bar of a recent bucket with a price is in a slot that counts. -/
theorem Tracks.counts_of_sums (h : Tracks pushes r) (hcur : largestUs pushes / bucketUs < 2 ^ 32 - 1) {k : ℕ}
    (hrecent : largestUs pushes / bucketUs < k + bucketSlots) (hne : bucket k (assigned pushes) ≠ []) :
    slotCounts r (k % bucketSlots) = true ∧ Bar.Sums (bucket k (assigned pushes))
      ⟨r.close (k % bucketSlots), r.min (k % bucketSlots), r.max (k % bucketSlots)⟩ := by
  obtain ⟨b, hcell, hfold⟩ := h.holds.slot_of_recent (assigned_le pushes) hrecent hne
  refine ⟨(h.slotCounts_iff hcur _).2 ⟨k, b, hcell, h.cur ▸ hrecent⟩, ?_⟩
  rw [cell] at hcell
  split at hcell
  next => cases hcell
  next =>
    obtain ⟨-, rfl⟩ := Prod.mk.inj (Option.some.inj hcell)
    exact Bar.sums_foldBucket hfold

/-- What the extrema are after some slots. -/
structure Extremal (r : BucketRingState) (slots : List ℕ) (e : RingExtrema) : Prop where
  any : e.any = true ↔ ∃ i ∈ slots, slotCounts r i = true
  lo : e.any = true → ∃ i ∈ slots, slotCounts r i = true ∧ e.lo = r.min i
  lo_le : e.any = true → ∀ i ∈ slots, slotCounts r i = true → e.lo.v ≤ (r.min i).v
  hi : e.any = true → ∃ i ∈ slots, slotCounts r i = true ∧ e.hi = r.max i
  le_hi : e.any = true → ∀ i ∈ slots, slotCounts r i = true → (r.max i).v ≤ e.hi.v

theorem Extremal.step {slots : List ℕ} {e : RingExtrema} (h : Extremal r slots e) (i : ℕ) :
    Extremal r (slots ++ [i]) (extremaStep r e i) := by
  have hnew : i ∈ slots ++ [i] := List.mem_append_right _ (List.mem_singleton_self i)
  have hold : ∀ {j}, j ∈ slots → j ∈ slots ++ [i] := fun hj => List.mem_append_left _ hj
  have hcases : ∀ {j}, j ∈ slots ++ [i] → j ∈ slots ∨ j = i := fun hj =>
    (List.mem_append.1 hj).imp_right List.mem_singleton.1
  unfold extremaStep
  split
  next hcounts =>
    split
    next hany =>
      refine ⟨iff_of_true hany ⟨i, hnew, hcounts⟩, fun _ => ?_, fun _ j hj hjc => ?_, fun _ =>
        ?_, fun _ j hj hjc => ?_⟩
      · dsimp only
        split
        · exact ⟨i, hnew, hcounts, rfl⟩
        · obtain ⟨j, hj, hjc, hlo⟩ := h.lo hany
          exact ⟨j, hold hj, hjc, hlo⟩
      · dsimp only
        rcases hcases hj with hj | rfl
        · have := h.lo_le hany j hj hjc
          split <;> omega
        · split <;> omega
      · dsimp only
        split
        · exact ⟨i, hnew, hcounts, rfl⟩
        · obtain ⟨j, hj, hjc, hhi⟩ := h.hi hany
          exact ⟨j, hold hj, hjc, hhi⟩
      · dsimp only
        rcases hcases hj with hj | rfl
        · have := h.le_hi hany j hj hjc
          split <;> omega
        · split <;> omega
    next hany =>
      -- the first slot that counts
      have honly : ∀ j ∈ slots ++ [i], slotCounts r j = true → j = i := fun j hj hjc =>
        (hcases hj).resolve_left fun hmem => hany (h.any.2 ⟨j, hmem, hjc⟩)
      refine ⟨iff_of_true rfl ⟨i, hnew, hcounts⟩, fun _ => ⟨i, hnew, hcounts, rfl⟩, fun _ j hj hjc => ?_,
        fun _ => ⟨i, hnew, hcounts, rfl⟩, fun _ j hj hjc => ?_⟩ <;>
      · rw [honly j hj hjc]
  next hskip =>
    have hmem : ∀ {j}, j ∈ slots ++ [i] → slotCounts r j = true → j ∈ slots := fun hj hjc =>
      (hcases hj).resolve_right fun heq => hskip (heq ▸ hjc)
    refine ⟨h.any.trans ⟨?_, ?_⟩, fun hany => ?_, fun hany j hj hjc => h.lo_le hany j (hmem hj hjc) hjc,
      fun hany => ?_, fun hany j hj hjc => h.le_hi hany j (hmem hj hjc) hjc⟩
    · rintro ⟨j, hj, hjc⟩
      exact ⟨j, hold hj, hjc⟩
    · rintro ⟨j, hj, hjc⟩
      exact ⟨j, hmem hj hjc, hjc⟩
    · obtain ⟨j, hj, hrest⟩ := h.lo hany
      exact ⟨j, hold hj, hrest⟩
    · obtain ⟨j, hj, hrest⟩ := h.hi hany
      exact ⟨j, hold hj, hrest⟩

theorem extremal_run (slots : List ℕ) :
    Extremal r slots (slots.foldl (extremaStep r) { any := false, lo := Fpn.zero, hi := Fpn.zero }) := by
  induction slots using List.reverseRecOn with
  | nil =>
    refine ⟨iff_of_false Bool.false_ne_true ?_, ?_, ?_, ?_, ?_⟩
    · rintro ⟨i, hi, -⟩
      exact absurd hi List.not_mem_nil
    all_goals exact fun h => absurd h Bool.false_ne_true
  | append_singleton slots i ih =>
    rw [List.foldl_concat]
    exact ih.step i

/-- The readers find what the last 288 buckets hold. -/
structure ReadsWindow (pushes : List (ℕ × Fpn)) (r : BucketRingState) : Prop where
  any : (ladderRingExtrema r).any = true ↔ windowPrices pushes ≠ []
  lo : (ladderRingExtrema r).any = true →
    (ladderRingExtrema r).lo ∈ windowPrices pushes ∧ ∀ p ∈ windowPrices pushes, (ladderRingExtrema r).lo.v ≤ p.v
  hi : (ladderRingExtrema r).any = true →
    (ladderRingExtrema r).hi ∈ windowPrices pushes ∧ ∀ p ∈ windowPrices pushes, p.v ≤ (ladderRingExtrema r).hi.v
  count : ladderRingValidCount r = ((Finset.range (largestUs pushes / bucketUs + 1)).filter fun k =>
    largestUs pushes / bucketUs < k + bucketSlots ∧ bucket k (assigned pushes) ≠ []).card
  close : ∀ k, largestUs pushes / bucketUs < k + bucketSlots → ∀ p, (bucket k (assigned pushes)).getLast? = some p →
    r.close (k % bucketSlots) = p

theorem slots_pos : 0 < bucketSlots := by decide

theorem Tracks.exists_slot (h : Tracks pushes r) (hcur : largestUs pushes / bucketUs < 2 ^ 32 - 1) {p : Fpn}
    (hp : p ∈ windowPrices pushes) : ∃ i ∈ List.range bucketSlots, slotCounts r i = true ∧
      (r.min i).v ≤ p.v ∧ p.v ≤ (r.max i).v := by
  obtain ⟨k, hrecent, hmem⟩ := mem_windowPrices.1 hp
  obtain ⟨hcounts, hsums⟩ := h.counts_of_sums hcur hrecent (List.ne_nil_of_mem hmem)
  exact ⟨k % bucketSlots, List.mem_range.2 (Nat.mod_lt _ slots_pos), hcounts, hsums.low.2 p hmem, hsums.high.2 p hmem⟩

theorem Tracks.readsWindow (h : Tracks pushes r) (hcur : largestUs pushes / bucketUs < 2 ^ 32 - 1) :
    ReadsWindow pushes r := by
  have hext : Extremal r (List.range bucketSlots) (ladderRingExtrema r) := extremal_run _
  refine ⟨hext.any.trans ⟨?_, fun hne => ?_⟩, fun hany => ⟨?_, fun p hp => ?_⟩, fun hany =>
    ⟨?_, fun p hp => ?_⟩, ?_, ?_⟩
  · rintro ⟨i, -, hcounts⟩
    obtain ⟨k, hrecent, hsums⟩ := h.sums_of_counts hcur hcounts
    exact List.ne_nil_of_mem (mem_windowPrices.2 ⟨k, hrecent, hsums.low.1⟩)
  · obtain ⟨p, hp⟩ := List.exists_mem_of_ne_nil _ hne
    obtain ⟨i, hi, hcounts, -⟩ := h.exists_slot hcur hp
    exact ⟨i, hi, hcounts⟩
  · obtain ⟨i, -, hcounts, hlo⟩ := hext.lo hany
    obtain ⟨k, hrecent, hsums⟩ := h.sums_of_counts hcur hcounts
    exact hlo ▸ mem_windowPrices.2 ⟨k, hrecent, hsums.low.1⟩
  · obtain ⟨i, hi, hcounts, hle, -⟩ := h.exists_slot hcur hp
    exact (hext.lo_le hany i hi hcounts).trans hle
  · obtain ⟨i, -, hcounts, hhi⟩ := hext.hi hany
    obtain ⟨k, hrecent, hsums⟩ := h.sums_of_counts hcur hcounts
    exact hhi ▸ mem_windowPrices.2 ⟨k, hrecent, hsums.high.1⟩
  · obtain ⟨i, hi, hcounts, -, hle⟩ := h.exists_slot hcur hp
    exact hle.trans (hext.le_hi hany i hi hcounts)
  · have hslots : ladderRingValidCount r =
      ((Finset.range bucketSlots).filter fun i => slotCounts r i = true).card := by
      rw [ladderRingValidCount, List.countP_eq_length_filter, Finset.card_def, Finset.filter_val, Finset.range_val,
        Multiset.range, Multiset.filter_coe, Multiset.coe_card]
      simp only [Bool.decide_eq_true]
    classical
    have hcard := h.holds.card_recent (assigned_le pushes) slots_pos
    rw [hslots, ← hcard]
    refine congrArg _ (Finset.filter_congr fun i _ => ?_)
    rw [h.slotCounts_iff hcur, h.cur]
  · intro k hrecent p hp
    have hne : bucket k (assigned pushes) ≠ [] := by
      intro hnil
      rw [hnil] at hp
      cases hp
    obtain ⟨-, hsums⟩ := h.counts_of_sums hcur hrecent hne
    exact Option.some.inj (hsums.close.symm.trans hp)

end BucketRing

open BucketRing

/-- After pushes in any order, with gaps of any length, none beyond the last bucket a stamp can name, the readers
    find the extrema, the count and the closes of the last 288 buckets. -/
theorem bucket_ring_reads_window (pushes : List (ℕ × Fpn)) (hts : ∀ push ∈ pushes, push.1 / bucketUs < 2 ^ 32 - 1) :
    ReadsWindow pushes (pushes.foldl (fun r push => bucketRingPush r push.1 push.2) bucketRingInit) :=
  (tracks_run hts).readsWindow (largestUs_lt (by decide) hts)

/-- A first tick at zero, a day and five minutes of silence, a tick that comes late. -/
def latePushes : List (ℕ × Fpn) := [(0, Fpn.saturate 3), (86700000000, Fpn.saturate 5), (7, Fpn.saturate 4)]

theorem bucket_ring_reads_late :
    (∀ push ∈ latePushes, push.1 / bucketUs < 2 ^ 32 - 1) ∧
      ReadsWindow latePushes (latePushes.foldl (fun r push => bucketRingPush r push.1 push.2) bucketRingInit) :=
  ⟨by decide, bucket_ring_reads_window latePushes (by decide)⟩

/-- The last bucket of 32 bits has the stamp of a slot never written. -/
theorem bucket_ring_last_ordinal :
    ¬∀ pushes : List (ℕ × Fpn), (∀ push ∈ pushes, 0 < push.2.v ∧ push.1 / bucketUs < 2 ^ 32) →
      ReadsWindow pushes (pushes.foldl (fun r push => bucketRingPush r push.1 push.2) bucketRingInit) := by
  intro hall
  have hreads := hall [(4294967295 * 300000000, Fpn.saturate 3)] (by decide)
  have hany : (ladderRingExtrema (bucketRingPush bucketRingInit (4294967295 * 300000000) (Fpn.saturate 3))).any = true :=
    hreads.any.2 (by decide)
  exact absurd hany (by decide +kernel)

end FoxTrader
