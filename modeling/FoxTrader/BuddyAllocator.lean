import FoxTrader.Lib.Buckets
import FoxTrader.Lib.IntrusiveList
import FoxTrader.Lib.BuddySystem

/-! # The buddy allocator

    The memory of `BuddyAllocator.hpp`: a pool of 1 MB cut into power-of-two blocks, a free list for each
    order with its links in the free blocks themselves, a word that says which lists hold a block, and two
    bitmaps. A block's bit in a bitmap is `offset >> order`, so blocks of different orders share bits. -/

namespace FoxTrader

open Function Lib

def buddyMinOrder : ℕ := 4
def buddyMaxOrder : ℕ := 20
def buddyNumOrders : ℕ := buddyMaxOrder - buddyMinOrder + 1
def buddyPoolSizeBytes : ℕ := 1 <<< buddyMaxOrder
def buddySentinel : ℕ := 0xFFFFFFFF

/-- The pool is kept as the `BuddyFreeNode` words that lie at its offsets; the bitmaps are bytes. -/
structure BuddyAllocatorState where
  pool : Links ℕ
  freeLists : ℕ → ℕ
  splitBitmap : ℕ → ℕ
  allocBitmap : ℕ → ℕ
  totalAllocBytes : UInt64
  totalFreeBytes : UInt64
  allocCount : UInt32
  freeCount : UInt32
  freeListBitmap : ℕ

/-- `~x` of a `uint32_t`. -/
def u32Not (x : ℕ) : ℕ := (2 ^ 32 - 1) ^^^ x

/-- `__builtin_clz` of a nonzero `uint32_t`. -/
def builtinClz (x : ℕ) : ℕ := 31 - x.log2

/-- `__builtin_ctz` of a nonzero `uint32_t`. -/
def builtinCtz (x : ℕ) : ℕ := ((List.range 32).find? fun i => x.testBit i).getD 32

def buddyInternalSizeToOrder (size : ℕ) : ℕ :=
  let minSize := if size < 1 <<< buddyMinOrder then 1 <<< buddyMinOrder else size % 2 ^ 32
  let rounded := if minSize ≤ 1 then 1 else 1 <<< (32 - builtinClz (minSize - 1))
  builtinCtz rounded

def buddyInternalOrderToSize (order : ℕ) : ℕ := 1 <<< order

def buddyInternalBuddyOffset (offset order : ℕ) : ℕ := offset ^^^ buddyInternalOrderToSize order

def buddyInternalBitmapIndex (offset order : ℕ) : ℕ := offset >>> order

def buddyInternalBitmapSet (bitmap : ℕ → ℕ) (idx : ℕ) : ℕ → ℕ :=
  update bitmap (idx >>> 3) (bitmap (idx >>> 3) ||| (1 <<< (idx &&& 7)))

def buddyInternalBitmapClear (bitmap : ℕ → ℕ) (idx : ℕ) : ℕ → ℕ :=
  update bitmap (idx >>> 3) (bitmap (idx >>> 3) &&& (u32Not (1 <<< (idx &&& 7)) % 256))

def buddyInternalBitmapTest (bitmap : ℕ → ℕ) (idx : ℕ) : Bool := ((bitmap (idx >>> 3)) >>> (idx &&& 7)) &&& 1 != 0

section Words

variable {x i j : ℕ}

theorem testBit_u32Not (hi : i < 32) : (u32Not x).testBit i = !x.testBit i := by
  rw [u32Not, Nat.testBit_xor, Nat.testBit_two_pow_sub_one, decide_eq_true hi, Bool.true_xor]

theorem builtinCtz_spec (hx : x ≠ 0) (hlt : x < 2 ^ 32) :
    builtinCtz x < 32 ∧ x.testBit (builtinCtz x) = true ∧ ∀ j < builtinCtz x, x.testBit j = false := by
  obtain ⟨i, hi⟩ := Nat.exists_testBit_of_ne_zero hx
  have hrange : i < 32 := by
    by_contra hge
    have hzero :=
      Nat.testBit_lt_two_pow (Nat.lt_of_lt_of_le hlt (Nat.pow_le_pow_right Nat.two_pos (Nat.not_lt.1 hge)))
    rw [hzero] at hi
    cases hi
  obtain ⟨k, hk⟩ := Option.isSome_iff_exists.1 (List.find?_isSome.2 ⟨i, List.mem_range.2 hrange, hi⟩)
  have hctz : builtinCtz x = k := by rw [builtinCtz, hk, Option.getD_some]
  obtain ⟨htest, hin, hfirst⟩ := List.find?_range_eq_some.1 hk
  rw [hctz]
  exact ⟨List.mem_range.1 hin, htest, fun j hj => Bool.not_eq_eq_eq_not.1 (hfirst j hj)⟩

theorem builtinCtz_two_pow (hi : i < 32) : builtinCtz (2 ^ i) = i := by
  obtain ⟨-, htest, -⟩ := builtinCtz_spec (Nat.two_pow_pos i).ne' (Nat.pow_lt_pow_right Nat.one_lt_two hi)
  rw [Nat.testBit_two_pow] at htest
  exact (of_decide_eq_true htest).symm

/-- The order of a size is in range, and its block holds the size. -/
theorem buddyInternalSizeToOrder_spec {size : ℕ} (hsize : size ≤ buddyPoolSizeBytes) :
    buddyMinOrder ≤ buddyInternalSizeToOrder size ∧ buddyInternalSizeToOrder size ≤ buddyMaxOrder ∧
      size ≤ 2 ^ buddyInternalSizeToOrder size := by
  have hpool : size ≤ 2 ^ 20 := hsize
  have hmin : ∃ m, (if size < 1 <<< buddyMinOrder then 1 <<< buddyMinOrder else size % 2 ^ 32) = m ∧
      size ≤ m ∧ 16 ≤ m ∧ m ≤ 2 ^ 20 := by
    refine ⟨_, rfl, ?_⟩
    rw [show 1 <<< buddyMinOrder = 16 from rfl]
    split <;> omega
  obtain ⟨m, hm, hle, hlow, hhigh⟩ := hmin
  have hne : m - 1 ≠ 0 := by omega
  have hlog : (m - 1).log2 < 20 := (Nat.log2_lt hne).2 (by omega)
  have hlog' : 3 ≤ (m - 1).log2 := (Nat.le_log2 hne).2 (by omega)
  have hbits : m - 1 < 2 ^ ((m - 1).log2 + 1) := Nat.lt_log2_self
  have horder : buddyInternalSizeToOrder size = (m - 1).log2 + 1 := by
    simp only [buddyInternalSizeToOrder, hm]
    rw [if_neg (by omega), builtinClz, Nat.shiftLeft_eq, Nat.one_mul,
      show 32 - (31 - (m - 1).log2) = (m - 1).log2 + 1 by omega]
    exact builtinCtz_two_pow (by omega)
  rw [horder]
  refine ⟨?_, ?_, by omega⟩
  · exact Nat.succ_le_succ hlog'
  · exact hlog

theorem bitmapTest_eq (bitmap : ℕ → ℕ) (idx : ℕ) :
    buddyInternalBitmapTest bitmap idx = (bitmap (idx / 8)).testBit (idx % 8) := by
  rw [buddyInternalBitmapTest, Nat.shiftRight_eq_div_pow idx,
    show idx &&& 7 = idx % 8 from Nat.and_two_pow_sub_one_eq_mod idx 3,
    Nat.and_comm]
  rfl

@[simp] theorem bitmapTest_set (bitmap : ℕ → ℕ) (i j : ℕ) :
    buddyInternalBitmapTest (buddyInternalBitmapSet bitmap i) j =
      (decide (i = j) || buddyInternalBitmapTest bitmap j) := by
  rw [bitmapTest_eq, bitmapTest_eq, buddyInternalBitmapSet, Nat.shiftRight_eq_div_pow,
    show i &&& 7 = i % 8 from Nat.and_two_pow_sub_one_eq_mod i 3, Nat.one_shiftLeft, update_apply]
  by_cases hbyte : j / 8 = i / 8
  · rw [if_pos hbyte, Nat.testBit_or, Nat.testBit_two_pow, hbyte, Bool.or_comm,
      decide_eq_decide.2 (show i % 8 = j % 8 ↔ i = j by omega)]
  · rw [if_neg hbyte, decide_eq_false (by omega), Bool.false_or]

@[simp] theorem bitmapTest_clear (bitmap : ℕ → ℕ) (i j : ℕ) :
    buddyInternalBitmapTest (buddyInternalBitmapClear bitmap i) j =
      (!decide (i = j) && buddyInternalBitmapTest bitmap j) := by
  rw [bitmapTest_eq, bitmapTest_eq, buddyInternalBitmapClear, Nat.shiftRight_eq_div_pow,
    show i &&& 7 = i % 8 from Nat.and_two_pow_sub_one_eq_mod i 3, Nat.one_shiftLeft, update_apply]
  by_cases hbyte : j / 8 = i / 8
  · rw [if_pos hbyte, Nat.testBit_and, Nat.testBit_mod_two_pow _ 8, testBit_u32Not (by omega), Nat.testBit_two_pow,
      hbyte, Bool.and_comm, decide_eq_true (show j % 8 < 8 by omega), Bool.true_and,
      decide_eq_decide.2 (show i % 8 = j % 8 ↔ i = j by omega)]
  · rw [if_neg hbyte, decide_eq_false (by omega), Bool.not_false, Bool.true_and]

end Words

def buddyFreelistPush (state : BuddyAllocatorState) (order offset : ℕ) : BuddyAllocatorState :=
  let listIdx := order - buddyMinOrder
  let head := state.freeLists listIdx
  let prev := update state.pool.prev offset buddySentinel
  { state with
    pool :=
      { next := update state.pool.next offset head
        prev := if head ≠ buddySentinel then update prev head offset else prev }
    freeLists := update state.freeLists listIdx offset
    freeListBitmap := state.freeListBitmap ||| (1 <<< listIdx) }

def buddyFreelistRemove (state : BuddyAllocatorState) (order offset : ℕ) : BuddyAllocatorState :=
  let listIdx := order - buddyMinOrder
  let state :=
    if state.pool.prev offset ≠ buddySentinel then
      { state with pool := { state.pool with
          next := update state.pool.next (state.pool.prev offset) (state.pool.next offset) } }
    else { state with freeLists := update state.freeLists listIdx (state.pool.next offset) }
  let state :=
    if state.pool.next offset ≠ buddySentinel then
      { state with pool := { state.pool with
          prev := update state.pool.prev (state.pool.next offset) (state.pool.prev offset) } }
    else state
  if state.freeLists listIdx = buddySentinel then
    { state with freeListBitmap := state.freeListBitmap &&& u32Not (1 <<< listIdx) }
  else state

section FieldLemmas

variable (state : BuddyAllocatorState) (order offset : ℕ)

theorem freelistPush_pool : (buddyFreelistPush state order offset).pool =
    state.pool.push buddySentinel (state.freeLists (order - buddyMinOrder)) offset := rfl

theorem freelistRemove_pool :
    (buddyFreelistRemove state order offset).pool = state.pool.unlink buddySentinel offset := by
  unfold buddyFreelistRemove Links.unlink
  dsimp only
  split_ifs <;> rfl

theorem freelistRemove_freeLists : (buddyFreelistRemove state order offset).freeLists =
    update state.freeLists (order - buddyMinOrder) (if state.pool.prev offset ≠ buddySentinel then
      state.freeLists (order - buddyMinOrder) else state.pool.next offset) := by
  unfold buddyFreelistRemove
  dsimp only
  split_ifs <;> simp

theorem freelistRemove_freeListBitmap : (buddyFreelistRemove state order offset).freeListBitmap =
    if (buddyFreelistRemove state order offset).freeLists (order - buddyMinOrder) = buddySentinel then
      state.freeListBitmap &&& u32Not (1 <<< (order - buddyMinOrder)) else state.freeListBitmap := by
  unfold buddyFreelistRemove
  dsimp only
  split_ifs <;> simp_all

@[simp] theorem freelistRemove_splitBitmap : (buddyFreelistRemove state order offset).splitBitmap =
  state.splitBitmap := by
  unfold buddyFreelistRemove
  dsimp only
  split_ifs <;> rfl

@[simp] theorem freelistRemove_allocBitmap : (buddyFreelistRemove state order offset).allocBitmap =
  state.allocBitmap := by
  unfold buddyFreelistRemove
  dsimp only
  split_ifs <;> rfl

end FieldLemmas

def buddyFreelistPop (state : BuddyAllocatorState) (order : ℕ) : BuddyAllocatorState × ℕ :=
  let offset := state.freeLists (order - buddyMinOrder)
  if offset = buddySentinel then (state, buddySentinel)
  else (buddyFreelistRemove state order offset, offset)

def buddyInitState : BuddyAllocatorState :=
  let zero : BuddyAllocatorState :=
    { pool := ⟨fun _ => 0, fun _ => 0⟩, freeLists := fun _ => 0, splitBitmap := fun _ => 0, allocBitmap := fun _ => 0,
      totalAllocBytes := 0, totalFreeBytes := 0, allocCount := 0, freeCount := 0, freeListBitmap := 0 }
  let empty := { zero with freeLists := fun i => if i < buddyNumOrders then buddySentinel else 0 }
  let state := buddyFreelistPush empty buddyMaxOrder 0
  { state with totalFreeBytes := UInt64.ofNat buddyPoolSizeBytes }

/-- The loop of the split: the block at `offset` is of the order found so far, the upper halves go to
    their lists until the target order is reached. -/
def buddySplit (targetOrder offset : ℕ) : ℕ → BuddyAllocatorState → BuddyAllocatorState
  | 0, state => state
  | foundOrder + 1, state =>
    if targetOrder < foundOrder + 1 then
      let buddyOff := offset + buddyInternalOrderToSize foundOrder
      let state := { state with
        splitBitmap := buddyInternalBitmapSet state.splitBitmap (buddyInternalBitmapIndex offset (foundOrder + 1)) }
      buddySplit targetOrder offset foundOrder (buddyFreelistPush state foundOrder buddyOff)
    else state

/-- The offset of the block handed out, `none` for a null pointer. -/
def buddyAllocBytes (state : BuddyAllocatorState) (size : ℕ) : BuddyAllocatorState × Option ℕ :=
  if size = 0 ∨ buddyPoolSizeBytes < size then (state, none)
  else
    let targetOrder := buddyInternalSizeToOrder size
    if buddyMaxOrder < targetOrder then (state, none)
    else
      let targetListIdx := targetOrder - buddyMinOrder
      let maskedBitmap := state.freeListBitmap &&& u32Not (1 <<< targetListIdx - 1)
      if maskedBitmap = 0 then (state, none)
      else
        let foundOrder := builtinCtz maskedBitmap + buddyMinOrder
        let (state, offset) := buddyFreelistPop state foundOrder
        let state := buddySplit targetOrder offset foundOrder state
        let blockSize := UInt64.ofNat (buddyInternalOrderToSize targetOrder)
        ({ state with
            allocBitmap := buddyInternalBitmapSet state.allocBitmap (buddyInternalBitmapIndex offset targetOrder)
            totalAllocBytes := state.totalAllocBytes + blockSize
            totalFreeBytes := state.totalFreeBytes - blockSize
            allocCount := state.allocCount + 1 }, some offset)

/-- The loop of the free, with the levels left below the largest order: the state, the order and the
    offset it ends with. -/
def buddyCoalesce : ℕ → BuddyAllocatorState → ℕ → ℕ → BuddyAllocatorState × ℕ × ℕ
  | 0, state, order, offset => (state, order, offset)
  | levels + 1, state, order, offset =>
    let buddyOff := buddyInternalBuddyOffset offset order
    let parentIdx := buddyInternalBitmapIndex (offset &&& u32Not (buddyInternalOrderToSize order)) (order + 1)
    if !buddyInternalBitmapTest state.splitBitmap parentIdx then (state, order, offset)
    else if buddyInternalBitmapTest state.allocBitmap (buddyInternalBitmapIndex buddyOff order) then
      (state, order, offset)
    else
      let state := buddyFreelistRemove state order buddyOff
      let state := { state with splitBitmap := buddyInternalBitmapClear state.splitBitmap parentIdx }
      buddyCoalesce levels state (order + 1) (if offset < buddyOff then offset else buddyOff)

def buddyFreePtr (state : BuddyAllocatorState) (ptr : Option ℕ) (size : ℕ) : BuddyAllocatorState :=
  match ptr with
  | none => state
  | some offset =>
    if size = 0 then state
    else
      let targetOrder := buddyInternalSizeToOrder size
      let blockSize := UInt64.ofNat (buddyInternalOrderToSize targetOrder)
      let state := { state with
        allocBitmap := buddyInternalBitmapClear state.allocBitmap (buddyInternalBitmapIndex offset targetOrder)
        totalAllocBytes := state.totalAllocBytes - blockSize
        totalFreeBytes := state.totalFreeBytes + blockSize
        freeCount := state.freeCount + 1 }
      let (state, order, offset) := buddyCoalesce (buddyMaxOrder - targetOrder) state targetOrder offset
      buddyFreelistPush state order offset

end FoxTrader
