import FoxTrader.BuddyAllocator

/-! # The heap of the buddy allocator

    `Heap` says what the state of the allocator holds: the blocks handed out, those a call has in hand, and
    the free ones on the lists of their orders. The list operations move blocks between hand and lists
    (`Heap.push`, `Heap.remove`), and an allocation moves one from the free blocks to those handed out
    (`Heap.alloc`). -/

namespace FoxTrader

open Lib Lib.Buddy Function

/-- The blocks tile the pool, and each list of the state links the free blocks of its order. -/
structure Heap (state : BuddyAllocatorState) (live hand free : List Block) : Prop where
  tiles : Tiles buddyMaxOrder (live ++ hand ++ free)
  shape : ∀ b ∈ live ++ hand ++ free, buddyMinOrder ≤ b.1 ∧ b.1 ≤ buddyMaxOrder ∧ Aligned b
  coalesced : Coalesced buddyMaxOrder free
  linked : ∀ k, buddyMinOrder ≤ k → k ≤ buddyMaxOrder →
    state.pool.IsList buddySentinel buddySentinel (state.freeLists (k - buddyMinOrder)) (bucket k free)
  word : state.freeListBitmap < 2 ^ 32
  marked : ∀ i < 32, state.freeListBitmap.testBit i = true ↔ bucket (i + buddyMinOrder) free ≠ []

namespace Heap

variable {state state' : BuddyAllocatorState} {live hand free : List Block} {b c : Block} {k : ℕ}

/-- The bitmaps and the counters are no part of it. -/
theorem congr (h : Heap state live hand free) (hpool : state'.pool = state.pool)
    (hlists : state'.freeLists = state.freeLists) (hword : state'.freeListBitmap = state.freeListBitmap) :
    Heap state' live hand free :=
  ⟨h.tiles, h.shape, h.coalesced, hpool ▸ hlists ▸ h.linked, hword ▸ h.word, hword ▸ h.marked⟩

theorem eq_of_start (h : Heap state live hand free) (hb : b ∈ live ++ hand ++ free) (hc : c ∈ live ++ hand ++ free)
    (hstart : b.2 = c.2) : b = c :=
  eq_of_cover_le_one h.tiles.cover_le_one hb hc (covers_start b) (hstart ▸ covers_start c)

theorem start_lt (h : Heap state live hand free) (hb : b ∈ live ++ hand ++ free) : b.2 < buddySentinel :=
  Nat.lt_trans (h.tiles.start_lt hb) (by decide)

theorem nodup (h : Heap state live hand free) : (live ++ hand ++ free).Nodup :=
  nodup_of_cover_le_one h.tiles.cover_le_one

theorem free_nodup (h : Heap state live hand free) : free.Nodup := (List.nodup_append.1 h.nodup).2.1

theorem hand_notMem (h : Heap state live (b :: hand) free) : b ∉ free :=
  fun hb => (List.nodup_append.1 h.nodup).2.2 b (List.mem_append_right _ List.mem_cons_self) b hb rfl

theorem mem_free (hb : b ∈ free) : b ∈ live ++ hand ++ free := List.mem_append_right _ hb

/-- A node of one free list is no node of another. -/
theorem node_ne (h : Heap state live hand free) {j x y : ℕ} (hjk : j ≠ k) (hx : x ∈ bucket j free)
    (hy : y = buddySentinel ∨ y ∈ bucket k free) : x ≠ y := by
  rintro rfl
  have hfree := mem_bucket.1 hx
  rcases hy with heq | hy
  · exact absurd (heq ▸ h.start_lt (mem_free hfree)) (Nat.lt_irrefl _)
  · exact hjk (congrArg Prod.fst (h.eq_of_start (mem_free hfree) (mem_free (mem_bucket.1 hy)) rfl))

theorem head_cases {links : Links ℕ} {before head : ℕ} {l : List ℕ} (h : links.IsList buddySentinel before head l) :
    head = buddySentinel ∨ head ∈ l := by
  cases l with
  | nil => exact Or.inl h
  | cons x xs => exact Or.inr (h.1 ▸ List.mem_cons_self)

/-- The block in hand goes to its free list. -/
theorem push (h : Heap state live (b :: hand) free) (hbuddy : b.1 < buddyMaxOrder → buddy b ∉ free) :
    Heap (buddyFreelistPush state b.1 b.2) live hand (b :: free) := by
  obtain ⟨k, o⟩ := b
  have hmem : (k, o) ∈ live ++ (k, o) :: hand ++ free :=
    List.mem_append_left _ (List.mem_append_right _ List.mem_cons_self)
  obtain ⟨hmin, hmax, haligned⟩ := h.shape _ hmem
  have hperm : (live ++ hand ++ (k, o) :: free).Perm (live ++ (k, o) :: hand ++ free) := by
    rw [List.append_assoc, List.append_assoc]
    exact List.perm_middle.append_left live
  have hlist := h.linked k hmin hmax
  refine ⟨fun p => (cover_perm hperm p).trans (h.tiles p), fun c hc => h.shape c (hperm.subset hc),
    h.coalesced.cons haligned hbuddy, ?_, ?_, ?_⟩
  · intro j hj hj'
    rcases eq_or_ne j k with rfl | hne
    · rw [bucket_cons_self, freelistPush_pool]
      change Links.IsList _ _ _ (update state.freeLists (j - buddyMinOrder) o (j - buddyMinOrder)) _
      rw [update_self]
      exact Links.isList_push hlist (bucket_nodup h.free_nodup j) (fun hin => h.hand_notMem (mem_bucket.1 hin))
        (h.start_lt hmem).ne
    · rw [bucket_cons_of_ne hne, freelistPush_pool]
      change Links.IsList _ _ _ (update state.freeLists (k - buddyMinOrder) o (j - buddyMinOrder)) _
      rw [update_of_ne (by omega)]
      refine (h.linked j hj hj').congr fun x hx => ?_
      refine Links.push_of_ne ?_ (h.node_ne hne hx (head_cases hlist))
      rintro rfl
      exact hne (congrArg Prod.fst (h.eq_of_start (mem_free (mem_bucket.1 hx)) hmem rfl))
  · refine Nat.or_lt_two_pow h.word ?_
    rw [Nat.one_shiftLeft]
    exact Nat.pow_lt_pow_right Nat.one_lt_two (Nat.lt_of_le_of_lt (Nat.sub_le_sub_right hmax _) (by decide))
  · intro i hi
    change (state.freeListBitmap ||| (1 <<< (k - buddyMinOrder))).testBit i = true ↔ _
    rw [Nat.testBit_or, Nat.one_shiftLeft, Nat.testBit_two_pow, Bool.or_eq_true, decide_eq_true_iff, h.marked i hi]
    rcases eq_or_ne (i + buddyMinOrder) k with rfl | hne
    · simp [bucket_cons_self]
    · rw [bucket_cons_of_ne hne]
      exact or_iff_left (by omega)

/-- A free block is taken in hand. -/
theorem remove (h : Heap state live hand free) (hb : b ∈ free) :
    Heap (buddyFreelistRemove state b.1 b.2) live (b :: hand) (free.erase b) := by
  obtain ⟨k, o⟩ := b
  obtain ⟨hmin, hmax, haligned⟩ := h.shape _ (mem_free hb)
  have hperm : (live ++ (k, o) :: hand ++ free.erase (k, o)).Perm (live ++ hand ++ free) := by
    rw [List.append_assoc, List.append_assoc]
    exact ((List.perm_middle.symm.trans ((List.perm_cons_erase hb).symm.append_left hand)).append_left live)
  have hlist := h.linked k hmin hmax
  have hin := mem_bucket.2 hb
  have hnodup := bucket_nodup h.free_nodup k
  have hunlinked := Links.isList_unlink hlist hnodup hin
  rw [← bucket_erase_self] at hunlinked
  obtain ⟨head, hhead⟩ : ∃ head, (if state.pool.prev o ≠ buddySentinel then state.freeLists (k - buddyMinOrder)
      else state.pool.next o) = head := ⟨_, rfl⟩
  have hlists : (buddyFreelistRemove state k o).freeLists = update state.freeLists (k - buddyMinOrder) head := by
    rw [freelistRemove_freeLists, hhead]
  rw [hhead] at hunlinked
  refine ⟨fun p => (cover_perm hperm p).trans (h.tiles p), fun c hc => h.shape c (hperm.subset hc),
    h.coalesced.subset (List.erase_subset), ?_, ?_, ?_⟩
  · intro j hj hj'
    rw [freelistRemove_pool, hlists]
    rcases eq_or_ne j k with rfl | hne
    · rwa [update_self]
    · rw [update_of_ne (by omega), bucket_erase_of_ne hne]
      have hself := hlist.prev_ne_self hnodup hlist.nil_notMem hin
      refine (h.linked j hj hj').congr fun x hx =>
        Links.unlink_of_ne hself (h.node_ne hne hx ?_) (h.node_ne hne hx ?_)
      · rcases hlist.prev_of_mem hin with ⟨-, hprev⟩ | hprev
        · exact Or.inl hprev
        · exact Or.inr hprev
      · exact hlist.next_of_mem hin
  · rw [freelistRemove_freeListBitmap]
    split
    · exact Nat.lt_of_le_of_lt Nat.and_le_left h.word
    · exact h.word
  · intro i hi
    rw [freelistRemove_freeListBitmap, hlists, update_self]
    rcases eq_or_ne (i + buddyMinOrder) k with rfl | hne
    · rw [ne_eq, ← hunlinked.head_eq_nil]
      split
      · next hnil =>
        rw [Nat.testBit_and, testBit_u32Not hi, Nat.one_shiftLeft, Nat.testBit_two_pow, Nat.add_sub_cancel,
          decide_eq_true rfl, Bool.not_true, Bool.and_false]
        exact ⟨fun hfalse => absurd hfalse Bool.false_ne_true, fun hne => absurd hnil hne⟩
      · next hnil =>
        rw [h.marked i hi]
        exact ⟨fun _ => hnil, fun _ => List.ne_nil_of_mem hin⟩
    · rw [bucket_erase_of_ne hne, ← h.marked i hi]
      split
      · rw [Nat.testBit_and, testBit_u32Not hi, Nat.one_shiftLeft, Nat.testBit_two_pow, decide_eq_false (by omega),
          Bool.not_false, Bool.and_true]
      · exact Iff.rfl

/-- The block in hand cut in two, the upper half on top. -/
theorem halve {o : ℕ} (h : Heap state live [(k + 1, o)] free) (hk : buddyMinOrder ≤ k) :
    Heap state live [(k, o + 2 ^ k), (k, o)] free := by
  have hmem : (k + 1, o) ∈ live ++ [(k + 1, o)] ++ free :=
    List.mem_append_left _ (List.mem_append_right _ List.mem_cons_self)
  obtain ⟨hmin, hmax, haligned⟩ := h.shape _ hmem
  have hle : k ≤ buddyMaxOrder := Nat.le_of_succ_le hmax
  refine { h with tiles := fun p => ?_, shape := fun b hb => ?_ }
  · have hpair := cover_perm (List.Perm.swap (k, o) (k, o + 2 ^ k) []) p
    rw [← h.tiles p, cover_append, cover_append, cover_append, cover_append, hpair, cover_split]
  · rcases List.mem_append.1 hb with hb | hfree
    · rcases List.mem_append.1 hb with hlive | hhand
      · exact h.shape b (List.mem_append_left _ (List.mem_append_left _ hlive))
      · rcases List.mem_cons.1 hhand with rfl | hhand
        · exact ⟨hk, hle, haligned.upper⟩
        · rw [List.mem_singleton.1 hhand]
          exact ⟨hk, hle, haligned.lower⟩
    · exact h.shape b (mem_free hfree)

/-- The split leaves the block of the target order in hand. -/
theorem split {target o : ℕ} (htarget : buddyMinOrder ≤ target) : ∀ {found : ℕ} {state : BuddyAllocatorState}
    {free : List Block}, target ≤ found → Heap state live [(found, o)] free →
    ∃ free', Heap (buddySplit target o found state) live [(target, o)] free'
  | 0, state, free, hle, h => by
    obtain rfl := Nat.le_zero.1 hle
    exact ⟨free, h⟩
  | found + 1, state, free, hle, h => by
    rw [buddySplit]
    split
    · next hlt =>
      have hk : buddyMinOrder ≤ found := htarget.trans (Nat.le_of_lt_succ hlt)
      have hhalves := h.halve hk
      have haligned : Aligned (found + 1, o) :=
        (h.shape _ (List.mem_append_left _ (List.mem_append_right _ List.mem_cons_self))).2.2
      rw [buddyInternalOrderToSize, Nat.one_shiftLeft]
      have hset : Heap { state with
          splitBitmap := buddyInternalBitmapSet state.splitBitmap (buddyInternalBitmapIndex o (found + 1)) }
          live [(found, o + 2 ^ found), (found, o)] free := hhalves.congr rfl rfl rfl
      refine split htarget (Nat.le_of_lt_succ hlt) (hset.push fun _ => ?_)
      -- the lower half is still in hand
      rw [haligned.buddy_upper]
      exact fun hfree => (List.nodup_append.1 hhalves.nodup).2.2 _
        (List.mem_append_right _ (List.mem_cons_of_mem _ List.mem_cons_self)) _ hfree rfl
    · next hge =>
      obtain rfl : target = found + 1 := Nat.le_antisymm hle (Nat.not_lt.1 hge)
      exact ⟨free, h⟩

/-- The lowest marked list at or above the target order is that of a free block. -/
theorem find (h : Heap state live hand free) {t : ℕ}
    (hmasked : state.freeListBitmap &&& u32Not (1 <<< t - 1) ≠ 0) :
    ∃ found, builtinCtz (state.freeListBitmap &&& u32Not (1 <<< t - 1)) = found ∧ t ≤ found ∧
      (found + buddyMinOrder, state.freeLists found) ∈ free := by
  obtain ⟨hlt, htest, -⟩ := builtinCtz_spec hmasked (Nat.lt_of_le_of_lt Nat.and_le_left h.word)
  refine ⟨_, rfl, ?_⟩
  generalize builtinCtz _ = found at *
  rw [Nat.testBit_and, testBit_u32Not hlt, Nat.one_shiftLeft, Nat.testBit_two_pow_sub_one, Bool.and_eq_true,
    Bool.not_eq_true', decide_eq_false_iff_not, h.marked found hlt] at htest
  refine ⟨Nat.not_lt.1 htest.2, ?_⟩
  obtain ⟨o, ho⟩ := List.exists_mem_of_ne_nil _ htest.1
  have hmax := (h.shape _ (mem_free (mem_bucket.1 ho))).2.1
  have hlist := h.linked (found + buddyMinOrder) (Nat.le_add_left _ _) hmax
  rw [Nat.add_sub_cancel] at hlist
  exact mem_bucket.1 ((head_cases hlist).resolve_left fun hnil => htest.1 (hlist.head_eq_nil.1 hnil))

theorem pop (h : Heap state live hand free) (hb : (k, state.freeLists (k - buddyMinOrder)) ∈ free) :
    buddyFreelistPop state k =
      (buddyFreelistRemove state k (state.freeLists (k - buddyMinOrder)), state.freeLists (k - buddyMinOrder)) := by
  rw [buddyFreelistPop, if_neg (h.start_lt (mem_free hb)).ne]

/-- The block in hand is handed out. -/
theorem handOut (h : Heap state live [b] free) : Heap state (b :: live) [] free := by
  have hperm : (b :: live ++ [] ++ free).Perm (live ++ [b] ++ free) := by
    rw [List.append_nil]
    exact (List.perm_append_singleton b live).symm.append_right free
  exact { h with tiles := fun p => (cover_perm hperm p).trans (h.tiles p), shape := fun c hc => h.shape c (hperm.subset hc) }

/-- A block handed out is taken back in hand. -/
theorem takeBack {rest : List Block} (h : Heap state live [] free) (hb : live.Perm (b :: rest)) :
    Heap state rest [b] free := by
  have hperm : (rest ++ [b] ++ free).Perm (live ++ [] ++ free) := by
    rw [List.append_nil]
    exact (List.perm_append_comm.trans hb.symm).append_right free
  exact { h with tiles := fun p => (cover_perm hperm p).trans (h.tiles p), shape := fun c hc => h.shape c (hperm.subset hc) }

/-- Two buddies in hand make the block above. -/
theorem merge (h : Heap state live [buddy b, b] free) (hlt : b.1 < buddyMaxOrder) :
    Heap state live [parent b] free := by
  have hb : b ∈ live ++ [buddy b, b] ++ free :=
    List.mem_append_left _ (List.mem_append_right _ (List.mem_cons_of_mem _ List.mem_cons_self))
  obtain ⟨hmin, -, haligned⟩ := h.shape b hb
  refine { h with tiles := fun p => ?_, shape := fun c hc => ?_ }
  · have hpair := cover_perm (List.Perm.swap b (buddy b) []) p
    rw [← h.tiles p, cover_append, cover_append, cover_append, cover_append, hpair, cover_merge haligned]
  · rcases List.mem_append.1 hc with hc | hfree
    · rcases List.mem_append.1 hc with hlive | hhand
      · exact h.shape c (List.mem_append_left _ (List.mem_append_left _ hlive))
      · rw [List.mem_singleton.1 hhand]
        exact ⟨Nat.le_succ_of_le hmin, hlt, aligned_parent b⟩
    · exact h.shape c (mem_free hfree)

/-- Writes inside the blocks handed out leave the lists as they are. -/
theorem write {pool : Links ℕ} (h : Heap state live hand free) (hpool : ∀ p, (∀ b ∈ live, ¬Covers b p) →
    pool.next p = state.pool.next p ∧ pool.prev p = state.pool.prev p) :
    Heap { state with pool := pool } live hand free := by
  refine { h with linked := fun k hk hk' => (h.linked k hk hk').congr fun o ho => hpool o fun b hb hcovers => ?_ }
  have hfree := mem_bucket.1 ho
  have heq :=
    eq_of_cover_le_one h.tiles.cover_le_one (List.mem_append_left _ (List.mem_append_left _ hb))
      (mem_free hfree)
    hcovers (covers_start (k, o))
  exact (List.nodup_append.1 h.nodup).2.2 b (List.mem_append_left _ hb) _ hfree heq

end Heap

/-- An allocation that is refused leaves the state as it was. -/
theorem buddyAllocBytes_none {state : BuddyAllocatorState} {size : ℕ} (h : (buddyAllocBytes state size).2 = none) :
    (buddyAllocBytes state size).1 = state := by
  unfold buddyAllocBytes at h ⊢
  dsimp only at h ⊢
  split_ifs at h ⊢ <;> rfl

/-- An allocation hands out a block of the order of the size. -/
theorem buddyAllocBytes_some {state : BuddyAllocatorState} {live free : List Block} (h : Heap state live [] free)
    {size offset : ℕ} (halloc : (buddyAllocBytes state size).2 = some offset) :
    size ≠ 0 ∧ size ≤ buddyPoolSizeBytes ∧ ∃ free',
      Heap (buddyAllocBytes state size).1 ((buddyInternalSizeToOrder size, offset) :: live) [] free' := by
  unfold buddyAllocBytes at halloc ⊢
  dsimp only at halloc ⊢
  split_ifs at halloc ⊢ with hsize horder hmasked
  have hle : size ≤ buddyPoolSizeBytes := Nat.not_lt.1 fun hlt => hsize (Or.inr hlt)
  obtain ⟨hmin, hmax, -⟩ := buddyInternalSizeToOrder_spec hle
  obtain ⟨found, hfound, hge, hfree⟩ := h.find hmasked
  rw [hfound] at halloc ⊢
  have hremoved := h.remove hfree
  rw [h.pop (k := found + buddyMinOrder) (by rwa [Nat.add_sub_cancel]), Nat.add_sub_cancel] at halloc ⊢
  obtain rfl := Option.some.inj halloc
  have hup : buddyInternalSizeToOrder size ≤ found + buddyMinOrder := Nat.sub_le_iff_le_add.1 hge
  obtain ⟨free', hsplit⟩ := hremoved.split hmin hup
  exact ⟨fun hzero => hsize (Or.inl hzero), hle, free', hsplit.handOut.congr rfl rfl rfl⟩

theorem heap_empty {state : BuddyAllocatorState} (hlists : ∀ i < buddyNumOrders, state.freeLists i = buddySentinel)
    (hword : state.freeListBitmap = 0) : Heap state [] [(buddyMaxOrder, 0)] [] := by
  refine ⟨fun p => ?_, fun b hb => ?_, fun b hb => absurd hb List.not_mem_nil, fun k hk hk' => ?_, ?_, fun i _ => ?_⟩
  · simp only [List.nil_append, List.append_nil, cover_cons, covers_whole]
    rfl
  · obtain rfl := List.mem_singleton.1 hb
    exact ⟨by decide, le_rfl, Nat.dvd_zero _⟩
  · exact hlists _ (Nat.lt_succ_of_le (Nat.sub_le_sub_right hk' _))
  · rw [hword]
    exact Nat.two_pow_pos 32
  · rw [hword, Nat.zero_testBit]
    exact ⟨fun hfalse => absurd hfalse Bool.false_ne_true, fun hne => absurd rfl hne⟩

theorem heap_init : Heap buddyInitState [] [] [(buddyMaxOrder, 0)] := by
  unfold buddyInitState
  refine (Heap.push (heap_empty (fun i hi => if_pos hi) rfl) fun hlt => ?_).congr rfl rfl rfl
  exact absurd hlt (Nat.lt_irrefl _)

end FoxTrader
