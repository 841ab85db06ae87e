import FoxTrader.BuddyHeap

/-! # Runs of the buddy allocator

    A free asks two bits at each order: the parent's in the split bitmap and the buddy's in the other one.
    Where the bits of the blocks share an index, the answer can be that of another block. As long as each
    free reads what the lists say (`ReadsTrue`), every run keeps a sound heap (`buddyRun_sound`); after
    other frees two live blocks can lie over each other (`buddyRun_overlap`). -/

namespace FoxTrader

open Lib Lib.Buddy Function

/-- The block of an allocation, an offset with the size asked for. -/
def blockOf (a : ℕ × ℕ) : Block := (buddyInternalSizeToOrder a.2, a.1)

/-- The block is on the free list of its order. -/
def FreeAt (state : BuddyAllocatorState) (b : Block) : Prop :=
  ∃ nodes, state.pool.IsList buddySentinel buddySentinel (state.freeLists (b.1 - buddyMinOrder)) nodes ∧ b.2 ∈ nodes

/-- What the bitmaps say of a merge at order `k`, for a block of order `order` that has merged at all the
    orders between: the parent's split bit is set and none of the merges has cleared it, and the buddy's
    allocation bit is clear or the one the free itself clears. -/
def ReadsFree (state : BuddyAllocatorState) (order offset k : ℕ) : Prop :=
  let parentIdx := buddyInternalBitmapIndex offset (k + 1)
  let buddyIdx := buddyInternalBitmapIndex (buddy (blockAt k offset)).2 k
  buddyInternalBitmapTest state.splitBitmap parentIdx = true ∧
    (∀ j, order ≤ j → j < k → buddyInternalBitmapIndex offset (j + 1) ≠ parentIdx) ∧
    (buddyInternalBitmapTest state.allocBitmap buddyIdx = true → buddyIdx = buddyInternalBitmapIndex offset order)

/-- The bits read for the block say at each order it gets to whether its buddy is free. -/
def ReadsTrue (state : BuddyAllocatorState) (order offset : ℕ) : Prop :=
  ∀ k, order ≤ k → k < buddyMaxOrder → (∀ j, order ≤ j → j < k → FreeAt state (buddy (blockAt j offset))) →
    (ReadsFree state order offset k ↔ FreeAt state (buddy (blockAt k offset)))

namespace Heap

variable {state state' : BuddyAllocatorState} {live hand free : List Block} {b : Block}

theorem freeAt_iff (h : Heap state live hand free) (hmin : buddyMinOrder ≤ b.1) (hmax : b.1 ≤ buddyMaxOrder) :
    FreeAt state b ↔ b ∈ free := by
  have hlist := h.linked b.1 hmin hmax
  constructor
  · rintro ⟨nodes, hnodes, hin⟩
    exact mem_bucket.1 (hnodes.unique hlist ▸ hin)
  · exact fun hb => ⟨_, hlist, mem_bucket.2 hb⟩

end Heap

/-- The state in the loop of a free, against the one the free started with: the block of order `k` is in
    hand, the bitmaps lack the bits of the merges so far, the free blocks of the orders from `k` on are the
    same. -/
structure Coalescing (start : BuddyAllocatorState) (free₀ : List Block) (order offset k : ℕ)
    (state : BuddyAllocatorState) (live free : List Block) : Prop where
  heap : Heap state live [blockAt k offset] free
  splitBits : ∀ i, buddyInternalBitmapTest state.splitBitmap i = true ↔
    buddyInternalBitmapTest start.splitBitmap i = true ∧
      ∀ j, order ≤ j → j < k → buddyInternalBitmapIndex offset (j + 1) ≠ i
  allocBits : ∀ i, buddyInternalBitmapTest state.allocBitmap i = true ↔
    buddyInternalBitmapTest start.allocBitmap i = true ∧ i ≠ buddyInternalBitmapIndex offset order
  below : ∀ j, order ≤ j → j < k → FreeAt start (buddy (blockAt j offset))
  above : ∀ b : Block, k ≤ b.1 → (b ∈ free ↔ b ∈ free₀)

section Coalesce

variable {start state : BuddyAllocatorState} {live₀ live free₀ free : List Block} {order offset k : ℕ}

/-- The index of the parent, with the bit of the order masked out and shifted away. -/
theorem parentIdx_eq {o : ℕ} (ho : o < 2 ^ 32) :
    buddyInternalBitmapIndex (o &&& u32Not (buddyInternalOrderToSize k)) (k + 1) = o / 2 ^ (k + 1) := by
  rw [buddyInternalBitmapIndex, buddyInternalOrderToSize, Nat.one_shiftLeft, ← Nat.shiftRight_eq_div_pow]
  refine Nat.eq_of_testBit_eq fun i => ?_
  rw [Nat.testBit_shiftRight, Nat.testBit_shiftRight, Nat.testBit_and]
  by_cases hi : k + 1 + i < 32
  · rw [testBit_u32Not hi, Nat.testBit_two_pow, decide_eq_false (by omega), Bool.not_false, Bool.and_true]
  · rw [Nat.testBit_lt_two_pow (Nat.lt_of_lt_of_le ho (Nat.pow_le_pow_right Nat.two_pos (Nat.not_lt.1 hi))),
      Bool.false_and]

theorem bitmapIndex_eq (offset k : ℕ) : buddyInternalBitmapIndex offset k = offset / 2 ^ k :=
  Nat.shiftRight_eq_div_pow offset k

/-- The two bits the loop tests are those of `ReadsFree`. -/
theorem Coalescing.reads_iff (h : Coalescing start free₀ order offset k state live free) :
    buddyInternalBitmapTest state.splitBitmap (buddyInternalBitmapIndex offset (k + 1)) = true ∧
        buddyInternalBitmapTest state.allocBitmap (buddyInternalBitmapIndex (buddy (blockAt k offset)).2 k) = false ↔
      ReadsFree start order offset k := by
  rw [h.splitBits, ← Bool.not_eq_true, h.allocBits, ReadsFree]
  tauto

theorem Coalescing.hand_shape (h : Coalescing start free₀ order offset k state live free) :
    buddyMinOrder ≤ k ∧ k ≤ buddyMaxOrder ∧ (blockAt k offset).2 < 2 ^ 32 := by
  have hmem : blockAt k offset ∈ live ++ [blockAt k offset] ++ free :=
    List.mem_append_left _ (List.mem_append_right _ List.mem_cons_self)
  obtain ⟨hmin, hmax, -⟩ := h.heap.shape _ hmem
  exact ⟨hmin, hmax, Nat.lt_of_lt_of_le (h.heap.start_lt hmem) (by decide)⟩

/-- One merge of the loop. -/
theorem Coalescing.step (h : Coalescing start free₀ order offset k state live free)
    (hstart : Heap start live₀ [] free₀) (hk : k < buddyMaxOrder) (hle : order ≤ k)
    (hfree : FreeAt start (buddy (blockAt k offset))) :
    Coalescing start free₀ order offset (k + 1)
      { buddyFreelistRemove state k (buddy (blockAt k offset)).2 with
        splitBitmap := buddyInternalBitmapClear (buddyFreelistRemove state k (buddy (blockAt k offset)).2).splitBitmap
          (buddyInternalBitmapIndex offset (k + 1)) }
      live (free.erase (buddy (blockAt k offset))) := by
  obtain ⟨hmin, hmax, -⟩ := h.hand_shape
  have hbuddy : buddy (blockAt k offset) ∈ free := (h.above _ le_rfl).2 ((hstart.freeAt_iff hmin hmax).1 hfree)
  have hmerged := (h.heap.remove hbuddy).merge hk
  rw [parent_blockAt] at hmerged
  refine ⟨hmerged.congr rfl rfl rfl, fun i => ?_, fun i => ?_, fun j hj hjk => ?_, fun b hb => ?_⟩
  · simp only [freelistRemove_splitBitmap, bitmapTest_clear, Bool.and_eq_true, Bool.not_eq_true',
      decide_eq_false_iff_not, h.splitBits]
    constructor
    · rintro ⟨hnew, hset, hold⟩
      refine ⟨hset, fun j hj hjk => ?_⟩
      rcases Nat.lt_succ_iff_lt_or_eq.1 hjk with hlt | rfl
      · exact hold j hj hlt
      · exact hnew
    · rintro ⟨hset, hall⟩
      exact ⟨hall k hle (Nat.lt_succ_self k), hset, fun j hj hjk => hall j hj (Nat.lt_succ_of_lt hjk)⟩
  · rw [← h.allocBits, freelistRemove_allocBitmap]
  · rcases Nat.lt_succ_iff_lt_or_eq.1 hjk with hlt | rfl
    · exact h.below j hj hlt
    · exact hfree
  · -- the merged buddy is of order `k`, so no block above it is gone
    have hne : b ≠ buddy (blockAt k offset) := by
      rintro rfl
      exact absurd hb (Nat.not_succ_le_self k)
    rw [List.mem_erase_of_ne hne]
    exact h.above b (Nat.le_of_succ_le hb)

/-- The loop stops with a block in hand that has no free buddy. -/
theorem Coalescing.run (hstart : Heap start live₀ [] free₀) (hreads : ReadsTrue start order offset) :
    ∀ {levels k : ℕ} {state : BuddyAllocatorState} {free : List Block}, levels + k = buddyMaxOrder → order ≤ k →
    Coalescing start free₀ order offset k state live free →
    ∃ out b free', buddyCoalesce levels state k (blockAt k offset).2 = (out, b) ∧ Heap out live [b] free' ∧
      (b.1 < buddyMaxOrder → buddy b ∉ free')
  | 0, k, state, free, hlevels, _, h =>
    ⟨state, blockAt k offset, free, rfl, h.heap, fun hlt => absurd hlt (by rw [← hlevels, Nat.zero_add]; exact Nat.lt_irrefl k)⟩
  | levels + 1, k, state, free, hlevels, hle, h => by
    obtain ⟨hmin, hmax, hsmall⟩ := h.hand_shape
    have hk : k < buddyMaxOrder := by omega
    have htrue := hreads k hle hk h.below
    have hbuddy : buddyInternalBuddyOffset (blockAt k offset).2 k = (buddy (blockAt k offset)).2 := by
      rw [buddyInternalBuddyOffset, buddyInternalOrderToSize, Nat.one_shiftLeft]
      rfl
    have hparent : buddyInternalBitmapIndex ((blockAt k offset).2 &&& u32Not (buddyInternalOrderToSize k)) (k + 1) =
        buddyInternalBitmapIndex offset (k + 1) := by
      rw [parentIdx_eq hsmall, blockAt_div, bitmapIndex_eq]
    -- the loop goes on exactly when both bits say that the buddy is free
    have hstop : ¬FreeAt start (buddy (blockAt k offset)) →
        ∃ out b free', (state, k, (blockAt k offset).2) = (out, b) ∧ Heap out live [b] free' ∧
          (b.1 < buddyMaxOrder → buddy b ∉ free') := fun hnot =>
      ⟨state, blockAt k offset, free, rfl, h.heap, fun _ hin => hnot ((hstart.freeAt_iff hmin hmax).2 ((h.above _ le_rfl).1 hin))⟩
    simp only [buddyCoalesce, hbuddy, hparent]
    split
    · next hsplit =>
      refine hstop fun hfree => ?_
      rw [(h.reads_iff.2 (htrue.2 hfree)).1] at hsplit
      exact absurd hsplit Bool.false_ne_true
    · split
      · next halloc =>
        refine hstop fun hfree => ?_
        rw [(h.reads_iff.2 (htrue.2 hfree)).2] at halloc
        exact absurd halloc Bool.false_ne_true
      · next hsplit halloc =>
        rw [Bool.not_eq_true', Bool.not_eq_false] at hsplit
        have hfree := htrue.1 (h.reads_iff.1 ⟨hsplit, Bool.eq_false_of_not_eq_true halloc⟩)
        have hmin := (aligned_blockAt k offset).min_buddy
        rw [parent_blockAt] at hmin
        rw [hmin]
        exact Coalescing.run hstart hreads (by omega) (Nat.le_succ_of_le hle) (h.step hstart hk hle hfree)

/-- A free that reads what the lists say gives the block back, merged as far as its buddies are free. -/
theorem buddyFreePtr_heap {size : ℕ} (h : Heap start live₀ [] free₀) (hsize : size ≠ 0)
    (hlive : live₀.Perm (blockOf (offset, size) :: live))
    (hreads : ReadsTrue start (buddyInternalSizeToOrder size) offset) :
    ∃ free', Heap (buddyFreePtr start (some offset) size) live [] free' := by
  have hhand := h.takeBack hlive
  obtain ⟨-, hmax, haligned⟩ : buddyMinOrder ≤ buddyInternalSizeToOrder size ∧
      buddyInternalSizeToOrder size ≤ buddyMaxOrder ∧ Aligned (buddyInternalSizeToOrder size, offset) :=
    hhand.shape _ (List.mem_append_left _ (List.mem_append_right _ List.mem_cons_self))
  have hblock : blockAt (buddyInternalSizeToOrder size) offset = blockOf (offset, size) := haligned.blockAt_eq
  have hoffset : (blockAt (buddyInternalSizeToOrder size) offset).2 = offset := congrArg Prod.snd hblock
  have hcleared : Coalescing start free₀ (buddyInternalSizeToOrder size) offset (buddyInternalSizeToOrder size)
      { start with
        allocBitmap := buddyInternalBitmapClear start.allocBitmap
          (buddyInternalBitmapIndex offset (buddyInternalSizeToOrder size))
        totalAllocBytes := start.totalAllocBytes - UInt64.ofNat (buddyInternalOrderToSize (buddyInternalSizeToOrder size))
        totalFreeBytes := start.totalFreeBytes + UInt64.ofNat (buddyInternalOrderToSize (buddyInternalSizeToOrder size))
        freeCount := start.freeCount + 1 } live free₀ := by
    refine ⟨hblock ▸ hhand.congr rfl rfl rfl, fun i => ?_, fun i => ?_, fun j hj hlt => ?_, fun b _ => Iff.rfl⟩
    · exact ⟨fun hset => ⟨hset, fun j hj hlt => absurd hlt (Nat.not_lt.2 hj)⟩, fun hset => hset.1⟩
    · rw [bitmapTest_clear, Bool.and_eq_true, Bool.not_eq_true', decide_eq_false_iff_not, and_comm, ne_comm]
    · exact absurd hlt (Nat.not_lt.2 hj)
  obtain ⟨out, b, free', hloop, hout, hbuddy⟩ :=
    Coalescing.run h hreads (Nat.sub_add_cancel hmax) le_rfl hcleared
  rw [hoffset] at hloop
  refine ⟨b :: free', ?_⟩
  rw [buddyFreePtr]
  dsimp only
  rw [if_neg hsize, hloop]
  exact hout.push hbuddy

end Coalesce

/-- Calls on a fresh state, each free of a live block with its size and of one that the condition allows;
    in between the owners of the blocks write to them. The live blocks are kept with their sizes. -/
inductive BuddyRun (C : BuddyAllocatorState → ℕ × ℕ → Prop) : BuddyAllocatorState → List (ℕ × ℕ) → Prop
  | init : BuddyRun C buddyInitState []
  | alloc {state live} (size offset : ℕ) : BuddyRun C state live → (buddyAllocBytes state size).2 = some offset →
      BuddyRun C (buddyAllocBytes state size).1 ((offset, size) :: live)
  | refused {state live} (size : ℕ) : BuddyRun C state live → (buddyAllocBytes state size).2 = none →
      BuddyRun C (buddyAllocBytes state size).1 live
  | free {state live} (a : ℕ × ℕ) : BuddyRun C state live → a ∈ live → C state a →
      BuddyRun C (buddyFreePtr state (some a.1) a.2) (live.erase a)
  | write {state live} (pool : Links ℕ) : BuddyRun C state live →
      (∀ p, (∀ a ∈ live, ¬Covers (blockOf a) p) →
        pool.next p = state.pool.next p ∧ pool.prev p = state.pool.prev p) →
      BuddyRun C { state with pool := pool } live

/-- The blocks on the lists, list `i` being that of order `i + 4`. -/
def freeBlocks (lists : ℕ → List ℕ) : List Block :=
  (List.range buddyNumOrders).flatMap fun i => (lists i).map fun offset => (i + buddyMinOrder, offset)

/-- A sound heap: the live blocks are disjoint, aligned and large enough, they tile the pool with the
    blocks on the free lists, the word marks the lists that are not empty, and with no live block the
    whole pool is one free block. -/
structure SoundHeap (state : BuddyAllocatorState) (live : List (ℕ × ℕ)) (lists : ℕ → List ℕ) : Prop where
  disjoint : live.Pairwise fun a b => ∀ p, ¬(Covers (blockOf a) p ∧ Covers (blockOf b) p)
  aligned : ∀ a ∈ live, 2 ^ buddyInternalSizeToOrder a.2 ∣ a.1
  fits : ∀ a ∈ live, a.2 ≤ 2 ^ buddyInternalSizeToOrder a.2
  linked : ∀ i < buddyNumOrders, state.pool.IsList buddySentinel buddySentinel (state.freeLists i) (lists i)
  tiles : Tiles buddyMaxOrder (live.map blockOf ++ freeBlocks lists)
  marked : ∀ i < 32, state.freeListBitmap.testBit i = true ↔ i < buddyNumOrders ∧ lists i ≠ []
  whole : live = [] → ∀ i < buddyNumOrders, lists i = if i = buddyMaxOrder - buddyMinOrder then [0] else []

theorem freeBlocks_bucket {free : List Block} (hnodup : free.Nodup)
    (horder : ∀ b ∈ free, buddyMinOrder ≤ b.1 ∧ b.1 ≤ buddyMaxOrder) :
    (freeBlocks fun i => bucket (i + buddyMinOrder) free).Perm free := by
  refine (List.perm_ext_iff_of_nodup ?_ hnodup).2 fun b => ?_
  · refine List.nodup_flatMap.2 ⟨fun i _ => ?_, ?_⟩
    · exact (bucket_nodup hnodup _).map fun x y heq => congrArg Prod.snd heq
    · refine List.nodup_range.imp fun {i j} hij => ?_
      refine List.disjoint_left.2 ?_
      intro b hb hb'
      obtain ⟨_, -, rfl⟩ := List.mem_map.1 hb
      obtain ⟨_, -, heq⟩ := List.mem_map.1 hb'
      exact hij (Nat.add_right_cancel (congrArg Prod.fst heq)).symm
  · obtain ⟨k, o⟩ := b
    simp only [freeBlocks, List.mem_flatMap, List.mem_map, List.mem_range, mem_bucket]
    constructor
    · rintro ⟨i, -, _, hin, heq⟩
      exact heq ▸ hin
    · intro hb
      obtain ⟨hmin, hmax⟩ := horder _ hb
      have hk : k - buddyMinOrder + buddyMinOrder = k := Nat.sub_add_cancel hmin
      exact ⟨k - buddyMinOrder, Nat.lt_succ_of_le (Nat.sub_le_sub_right hmax _), o, hk.symm ▸ hb, by rw [hk]⟩

/-- What the heap says of the lists. -/
theorem Heap.sound {state : BuddyAllocatorState} {live : List (ℕ × ℕ)} {free : List Block}
    (h : Heap state (live.map blockOf) [] free) (hsizes : ∀ a ∈ live, a.2 ≤ buddyPoolSizeBytes) :
    SoundHeap state live fun i => bucket (i + buddyMinOrder) free := by
  have hlive : ∀ a ∈ live, blockOf a ∈ live.map blockOf ++ [] ++ free := fun a ha =>
    List.mem_append_left _ (List.mem_append_left _ (List.mem_map_of_mem ha))
  have hfree : ∀ b ∈ free, b ∈ live.map blockOf ++ [] ++ free := fun b hb => Heap.mem_free hb
  have hperm := freeBlocks_bucket h.free_nodup fun b hb => ⟨(h.shape b (hfree b hb)).1, (h.shape b (hfree b hb)).2.1⟩
  have htiles : Tiles buddyMaxOrder (live.map blockOf ++ free) := by
    have := h.tiles
    rwa [List.append_nil] at this
  refine ⟨?_, fun a ha => (h.shape _ (hlive a ha)).2.2, fun a ha => (buddyInternalSizeToOrder_spec (hsizes a ha)).2.2,
    fun i hi => ?_, fun p => ?_, fun i hi => ?_, ?_⟩
  · have hpair := (List.pairwise_append.1 (pairwise_of_cover_le_one htiles.cover_le_one)).1
    exact List.pairwise_map.1 hpair
  · have hlist := h.linked (i + buddyMinOrder) (Nat.le_add_left _ _) (Nat.add_le_add_right (Nat.le_of_lt_succ hi) _)
    rwa [Nat.add_sub_cancel] at hlist
  · rw [cover_perm (hperm.append_left _) p]
    exact htiles p
  · rw [h.marked i hi]
    refine ⟨fun hne => ⟨?_, hne⟩, fun hne => hne.2⟩
    obtain ⟨o, ho⟩ := List.exists_mem_of_ne_nil _ hne
    have hmax := (h.shape _ (hfree _ (mem_bucket.1 ho))).2.1
    exact Nat.lt_succ_of_le (Nat.le_sub_of_add_le hmax)
  · rintro rfl i -
    have hone : free = [(buddyMaxOrder, 0)] := htiles.eq_whole (fun b hb => (h.shape b (hfree b hb)).2.2)
      (fun b hb => (h.shape b (hfree b hb)).2.1) h.coalesced
    rw [hone]
    split
    · next hi => rw [hi]; rfl
    · next hi => exact bucket_cons_of_ne fun heq => hi (Nat.eq_sub_of_add_eq heq)

/-- The condition on a free: at each order it gets to, the bits it reads are those of its parent and buddy. -/
def FreeReadsTrue (state : BuddyAllocatorState) (a : ℕ × ℕ) : Prop :=
  ReadsTrue state (buddyInternalSizeToOrder a.2) a.1

theorem BuddyRun.heap {state : BuddyAllocatorState} {live : List (ℕ × ℕ)} (hrun : BuddyRun FreeReadsTrue state live) :
    (∃ free, Heap state (live.map blockOf) [] free) ∧ ∀ a ∈ live, a.2 ≠ 0 ∧ a.2 ≤ buddyPoolSizeBytes := by
  induction hrun with
  | init => exact ⟨⟨_, heap_init⟩, fun a ha => absurd ha List.not_mem_nil⟩
  | alloc size offset _ halloc ih =>
    obtain ⟨⟨free, hheap⟩, hsizes⟩ := ih
    obtain ⟨hne, hle, free', hheap'⟩ := buddyAllocBytes_some hheap halloc
    refine ⟨⟨free', hheap'⟩, fun a ha => ?_⟩
    rcases List.mem_cons.1 ha with rfl | hold
    · exact ⟨hne, hle⟩
    · exact hsizes a hold
  | refused size _ hnone ih =>
    rw [buddyAllocBytes_none hnone]
    exact ih
  | free a _ hin hreads ih =>
    obtain ⟨⟨free, hheap⟩, hsizes⟩ := ih
    refine ⟨buddyFreePtr_heap hheap (hsizes a hin).1 ?_ hreads, fun c hc => hsizes c (List.mem_of_mem_erase hc)⟩
    exact (List.perm_cons_erase hin).map blockOf
  | write pool _ hpool ih =>
    obtain ⟨⟨free, hheap⟩, hsizes⟩ := ih
    refine ⟨⟨free, hheap.write fun p hp => hpool p fun a ha => hp _ (List.mem_map_of_mem ha)⟩, hsizes⟩

/-- A block of half the pool has one merge to read. -/
theorem readsTrue_of_top {state : BuddyAllocatorState} {offset : ℕ}
    (h : ReadsFree state 19 offset 19 ↔ FreeAt state (buddy (blockAt 19 offset))) : ReadsTrue state 19 offset := by
  intro k hle hlt _
  obtain rfl : k = 19 := Nat.le_antisymm (Nat.le_of_lt_succ hlt) hle
  exact h

/-- When each free of a run reads what the lists say, the heap is sound throughout. -/
theorem buddyRun_sound {state : BuddyAllocatorState} {live : List (ℕ × ℕ)}
    (hrun : BuddyRun FreeReadsTrue state live) :
    ∃ lists, SoundHeap state live lists := by
  obtain ⟨⟨free, hheap⟩, hsizes⟩ := hrun.heap
  exact ⟨_, hheap.sound fun a ha => (hsizes a ha).2⟩

/-- Two halves of the pool, handed out and freed again. -/
theorem buddyRun_sound_halves : ∃ lists, SoundHeap
    (buddyFreePtr (buddyFreePtr (buddyAllocBytes (buddyAllocBytes buddyInitState (2 ^ 19)).1 (2 ^ 19)).1
      (some 0) (2 ^ 19)) (some (2 ^ 19)) (2 ^ 19)) [] lists := by
  have horder : buddyInternalSizeToOrder (2 ^ 19) = 19 := by decide +kernel
  have hfirst := BuddyRun.alloc (C := FreeReadsTrue) (2 ^ 19) 0 BuddyRun.init (by decide +kernel)
  have hsecond := BuddyRun.alloc (2 ^ 19) (2 ^ 19) hfirst (by decide +kernel)
  -- the buddy of the first block is handed out, and its bit says so
  have hfreed := BuddyRun.free (0, 2 ^ 19) hsecond (by decide) (by
    rw [FreeReadsTrue, horder]
    refine readsTrue_of_top (iff_of_false ?_ ?_)
    · rintro ⟨-, -, halloc⟩
      exact absurd (halloc (by decide +kernel)) (by decide +kernel)
    · rintro ⟨nodes, hnodes, hin⟩
      rw [hnodes.head_eq_nil.1 (by decide +kernel)] at hin
      exact absurd hin List.not_mem_nil)
  -- the buddy of the second one is the first, alone on its list
  have hlast := BuddyRun.free (2 ^ 19, 2 ^ 19) hfreed (by decide) (by
    rw [FreeReadsTrue, horder]
    refine readsTrue_of_top (iff_of_true ⟨by decide +kernel, fun j hj hlt => absurd hlt (Nat.not_lt.2 hj), fun hset => ?_⟩ ?_)
    · exact absurd hset (by decide +kernel)
    · exact ⟨[0],
        ⟨by decide +kernel, by decide +kernel, by decide +kernel, by change _ = buddySentinel; decide +kernel⟩,
      by decide +kernel⟩)
  exact buddyRun_sound hlast

/-- The block of 512 KB at the bottom is freed and its buddy is taken for free, since half of it is: the
    next allocation gets the whole pool with a block still live in it. -/
theorem buddyRun_overlap :
    ¬∀ state live, BuddyRun (fun _ _ => True) state live → ∃ lists, SoundHeap state live lists := by
  intro hall
  have hfirst := BuddyRun.alloc (C := fun _ _ => True) (2 ^ 19) 0 BuddyRun.init (by decide +kernel)
  have hsecond := BuddyRun.alloc (2 ^ 18) (2 ^ 19) hfirst (by decide +kernel)
  have hfreed := BuddyRun.free (0, 2 ^ 19) hsecond (by decide) trivial
  have hthird := BuddyRun.alloc (2 ^ 20) 0 hfreed (by decide +kernel)
  obtain ⟨lists, hsound⟩ := hall _ _ hthird
  have hin : ((2 ^ 19, 2 ^ 18) : ℕ × ℕ) ∈ [((2 ^ 19, 2 ^ 18) : ℕ × ℕ), (0, 2 ^ 19)].erase (0, 2 ^ 19) := by decide
  exact List.rel_of_pairwise_cons hsound.disjoint hin (2 ^ 19) (by decide +kernel)

end FoxTrader
