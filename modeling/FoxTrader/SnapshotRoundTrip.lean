import FoxTrader.SnapshotFile

/-! # A snapshot read back

    A file is read if and only if it begins with the bytes of a snapshot for this number of nodes and
    this slot geometry (`readSnapshot_eq_some_iff`); one byte too few and nothing is loaded. What a
    state saved, another state of the same shape has after loading, whatever it held before. -/

namespace FoxTrader

open Lib Function
open OrderEventImage (u8 u16 u32 u64 i128)

variable {registeredCount : ℕ} {partialOn : Bool} {file : List UInt8} {w : SnapshotWire}

/-! ### Reading -/

/-- A snapshot for this number of nodes and this geometry, as the header has them. -/
structure Fits (registeredCount : ℕ) (partialOn : Bool) (numNodes : BitVec 32) (partialsByte : BitVec 8)
    (w : SnapshotWire) : Prop where
  nodes : numNodes.toNat = registeredCount
  partials : (partialsByte != 0) = partialOn
  positions_length : w.positions.length = 16
  nodes_length : w.nodes.length = registeredCount

theorem readSnapshot_eq_some_iff :
    readSnapshot registeredCount partialOn file = some w ↔
      ∃ numNodes partialsByte rest, file = w.bytes numNodes partialsByte ++ rest ∧
        Fits registeredCount partialOn numNodes partialsByte w := by
  simp only [readSnapshot, Option.bind_eq_bind, Option.bind_eq_some_iff, Option.guard_eq_some', Option.pure_def,
    Option.some.injEq, exists_const, Prod.exists, Codec.fread_eq_some_iff, Codec.freadN_eq_some_iff]
  constructor
  · rintro ⟨_, _, rfl, rfl, _, _, rfl, rfl, numNodes, _, rfl, hnodes, ts, _, rfl, partialsByte, _, rfl, padHeader, _,
      rfl, hpartials, oms, _, rfl, bitmap, _, rfl, padBitmap, _, rfl, positions, _, ⟨hpos, rfl⟩, nodes, rest,
      ⟨hlen, rfl⟩, rfl⟩
    refine ⟨numNodes, partialsByte, rest, ?_, hnodes, hpartials, hpos, hlen⟩
    simp only [SnapshotWire.bytes, List.append_assoc]
  · rintro ⟨numNodes, partialsByte, rest, rfl, hnodes, hpartials, hpos, hlen⟩
    simp only [SnapshotWire.bytes, List.append_assoc]
    exact ⟨_, _, rfl, rfl, _, _, rfl, rfl, _, _, rfl, hnodes, _, _, rfl, _, _, rfl, _, _, rfl, hpartials, _, _,
      rfl, _, _, rfl, _, _, rfl, _, _, ⟨hpos, rfl⟩, _, _, ⟨hlen, rfl⟩, rfl⟩

/-- The size of a snapshot of `n` nodes. -/
def snapshotSize (n : ℕ) : ℕ := 2192 + 1944 * n

theorem bytes_length (numNodes : BitVec 32) (partialsByte : BitVec 8) (w : SnapshotWire) :
    (w.bytes numNodes partialsByte).length = 144 + 128 * w.positions.length + 1944 * w.nodes.length := by
  obtain ⟨homs, hposition, hnode⟩ := row_widths
  have h32 : u32.width = 4 := rfl
  have h64 : u64.width = 8 := rfl
  have h16 : u16.width = 2 := rfl
  have h8 : u8.width = 1 := rfl
  have h3 : pad3.width = 3 := rfl
  simp only [SnapshotWire.bytes, List.length_append, Codec.enc_length, Codec.encAll_length, homs, hposition, hnode,
    h32, h64, h16, h8, h3]
  omega

/-- The four header fields the loader looks at: magic, version, number of nodes, and the byte of the geometry. -/
structure HeaderMatches (registeredCount : ℕ) (partialOn : Bool) (file : List UInt8) : Prop where
  fields : file.take 12 =
    u32.enc snapshotMagic ++ (u32.enc snapshotVersion ++ u32.enc (BitVec.ofNat 32 registeredCount))
  partials : (file.getD 20 0 != 0) = partialOn

theorem u8_enc (x : BitVec 8) : u8.enc x = [UInt8.ofNat x.toNat] := by
  have hlt : x.toNat % 256 = x.toNat := Nat.mod_eq_of_lt x.isLt
  show [UInt8.ofNat (x.toNat % 256)] = _
  rw [hlt]

theorem u8_byte_ne_zero (x : BitVec 8) : (UInt8.ofNat x.toNat != 0) = (x != 0) := by
  revert x
  decide +kernel

theorem getD_at {front tail : List UInt8} {b : UInt8} {n : ℕ} (h : front.length = n) :
    (front ++ b :: tail).getD n 0 = b := by
  subst h
  simp

/-- The bytes in front of the byte of the geometry, and those behind it. -/
theorem bytes_split (numNodes : BitVec 32) (partialsByte : BitVec 8) (w : SnapshotWire) :
    ∃ front tail, front.length = 20 ∧ w.bytes numNodes partialsByte = front ++ UInt8.ofNat partialsByte.toNat :: tail ∧
      front.take 12 = u32.enc snapshotMagic ++ (u32.enc snapshotVersion ++ u32.enc numNodes) := by
  have h12 : (u32.enc snapshotMagic ++ (u32.enc snapshotVersion ++ u32.enc numNodes)).length = 12 := by
    simp only [List.length_append, Codec.enc_length]
    rfl
  refine ⟨u32.enc snapshotMagic ++ (u32.enc snapshotVersion ++ u32.enc numNodes) ++ u64.enc w.timestampUs,
    pad3.enc w.padHeader ++ (OmsWire.codec.enc w.oms ++ (u16.enc w.activeBitmap ++ (u16.enc w.padBitmap ++
      (PositionImage.codec.encAll w.positions ++ NodeWire.codec.encAll w.nodes)))), ?_, ?_, List.take_left' h12⟩
  · rw [List.length_append, h12, u64.enc_length]
    rfl
  · simp only [SnapshotWire.bytes, u8_enc, List.append_assoc, List.singleton_append]

/-- What fits has the header fields. -/
theorem Fits.header {numNodes : BitVec 32} {partialsByte : BitVec 8}
    (h : Fits registeredCount partialOn numNodes partialsByte w) (rest : List UInt8) :
    HeaderMatches registeredCount partialOn (w.bytes numNodes partialsByte ++ rest) := by
  obtain ⟨front, tail, hlen, hbytes, hfields⟩ := bytes_split numNodes partialsByte w
  have hnum : BitVec.ofNat 32 registeredCount = numNodes := by rw [← h.nodes, BitVec.ofNat_toNat, BitVec.setWidth_eq]
  rw [hbytes, List.append_assoc, List.cons_append]
  constructor
  · rw [List.take_append_of_le_length (by omega), hfields, hnum]
  · rw [getD_at hlen, u8_byte_ne_zero, h.partials]

/-- A file with the right header and no byte too few is read. -/
theorem exists_readSnapshot (hreg : registeredCount ≤ 16) (hheader : HeaderMatches registeredCount partialOn file)
    (hsize : snapshotSize registeredCount ≤ file.length) :
    ∃ w, readSnapshot registeredCount partialOn file = some w := by
  obtain ⟨homs, hposition, hnode⟩ := row_widths
  have h64 : u64.width = 8 := rfl
  have h16 : u16.width = 2 := rfl
  have h8 : u8.width = 1 := rfl
  have h3 : pad3.width = 3 := rfl
  unfold snapshotSize at hsize
  have hsplit := List.take_append_drop 12 file
  rw [hheader.fields] at hsplit
  have hdrop : (file.drop 12).length = file.length - 12 := List.length_drop
  obtain ⟨ts, r₁, hr₁, hl₁⟩ := u64.exists_enc (file.drop 12) (by omega)
  obtain ⟨partialsByte, r₂, rfl, hl₂⟩ := u8.exists_enc r₁ (by omega)
  obtain ⟨padHeader, r₃, rfl, hl₃⟩ := pad3.exists_enc r₂ (by omega)
  obtain ⟨oms, r₄, rfl, hl₄⟩ := OmsWire.codec.exists_enc r₃ (by omega)
  obtain ⟨bitmap, r₅, rfl, hl₅⟩ := u16.exists_enc r₄ (by omega)
  obtain ⟨padBitmap, r₆, rfl, hl₆⟩ := u16.exists_enc r₅ (by omega)
  obtain ⟨positions, r₇, hpositions, rfl, hl₇⟩ := PositionImage.codec.exists_encAll 16 r₆ (by omega)
  obtain ⟨nodes, r₈, hnodes, rfl, -⟩ := NodeWire.codec.exists_encAll registeredCount r₇ (by rw [hnode]; omega)
  have hfile : file = SnapshotWire.bytes (BitVec.ofNat 32 registeredCount) partialsByte
      ⟨ts, padHeader, oms, bitmap, padBitmap, positions, nodes⟩ ++ r₈ := by
    rw [← hsplit, hr₁]
    simp only [SnapshotWire.bytes, List.append_assoc]
  refine ⟨_, readSnapshot_eq_some_iff.2 ⟨_, _, r₈, hfile, ?_, ?_, hpositions, hnodes⟩⟩
  · rw [BitVec.toNat_ofNat, Nat.mod_eq_of_lt (by omega)]
  · obtain ⟨front, tail, hlen, hbytes, -⟩ := bytes_split (BitVec.ofNat 32 registeredCount) partialsByte
      ⟨ts, padHeader, oms, bitmap, padBitmap, positions, nodes⟩
    have hbyte := hheader.partials
    rwa [hfile, hbytes, List.append_assoc, List.cons_append, getD_at hlen, u8_byte_ne_zero] at hbyte

theorem hasMask_withMask {mask : BitVec 8} (hmask : mask ≠ 0) (isSet : Bool) (flags : BitVec 8) :
    hasMask mask (withMask mask isSet flags) = isSet := by
  cases isSet with
  | true =>
    have hand : (flags ||| mask) &&& mask = mask := by
      ext i
      simp +contextual
    rw [hasMask, withMask, if_pos rfl, hand]
    simpa using hmask
  | false =>
    have hand : (flags &&& ~~~mask) &&& mask = 0 := by
      ext i
      simp
    rw [hasMask, withMask, if_neg Bool.false_ne_true, hand]
    rfl

/-- The other bits stay. -/
theorem withMask_others (mask : BitVec 8) (isSet : Bool) (flags : BitVec 8) :
    withMask mask isSet flags &&& ~~~mask = flags &&& ~~~mask := by
  cases isSet with
  | true =>
    ext i
    simp only [withMask, if_true, BitVec.getElem_and, BitVec.getElem_or, BitVec.getElem_not]
    cases mask[i] <;> simp
  | false =>
    ext i
    simp only [withMask, Bool.false_eq_true, if_false, BitVec.getElem_and, BitVec.getElem_not]
    cases mask[i] <;> simp

/-- A kill bit goes through the file as a number. -/
theorem wireBit_ne_zero {n : ℕ} {one : BitVec n} (hone : one ≠ 0) (tripped : Bool) :
    ((if tripped then one else 0) != 0) = tripped := by
  cases tripped with
  | false => simp
  | true => simpa using hone

/-! ### Commits -/

theorem OmsMembers.commit_toWire (m m' : OmsMembers) : (m.toWire.commit m').toWire = m.toWire := by
  have hbit : hasMask maskOmsKill (m.toWire.commit m').omsStateFlags = hasMask maskOmsKill m.omsStateFlags := by
    rw [OmsWire.commit, hasMask_withMask (by decide), OmsMembers.toWire, wireBit_ne_zero (by decide)]
  rw [OmsMembers.toWire, hbit]
  rfl

/-- A node's rows after loading: those of the node that was saved, but for the two that are not taken over. -/
theorem NodeMembers.commit_toWire (m m' : NodeMembers) :
    (m.toWire.commit m').toWire =
      { m.toWire with strategyId := m'.strategyId, strategyStateKind := m'.strategyStateKind } := by
  have hbit : hasMask maskNodeKill (m.toWire.commit m').nodeStateFlags = hasMask maskNodeKill m.nodeStateFlags := by
    rw [NodeWire.commit, hasMask_withMask (by decide), NodeMembers.toWire, wireBit_ne_zero (by decide)]
  rw [NodeMembers.toWire, hbit]
  rfl

/-! ### Arming -/

namespace SnapshotState

variable {ρ : Type} {exits : RestoredExits} {s t : SnapshotState ρ} {slot : SlotIdx}

/-- The gates of a leg restored with the position of its slot. -/
def gatesOf (exits : RestoredExits) (s : SnapshotState ρ) (n : NodeIdx) (leg : Leg) (slot : SlotIdx) : LegGates :=
  { active := true, entryPrice := (s.positions slot).entryPrice
    liveTp := (exits n leg (s.nodes n).resolvedStrategyId (s.positions slot)).1
    liveSl := (exits n leg (s.nodes n).resolvedStrategyId (s.positions slot)).2 }

/-- The gates of a leg after the loop went over `slots`: a held slot of a registered node arms its leg. -/
def restoredGates (partialOn : Bool) (exits : RestoredExits) (s : SnapshotState ρ) (slots : List SlotIdx) (n : NodeIdx)
    (core : Leg → LegGates) (leg : Leg) : LegGates :=
  match legSlot partialOn n leg with
  | some slot =>
    if slot ∈ slots ∧ s.held slot = true ∧ n.val < s.registeredCount then gatesOf exits s n leg slot else core leg
  | none => core leg

/-- All that a turn of the arming loop can do. -/
theorem armSlot_cases (partialOn : Bool) (exits : RestoredExits) (s : SnapshotState ρ) (slot : SlotIdx) :
    (¬(s.held slot = true ∧ (slotNode partialOn slot).val < s.registeredCount) ∧ armSlot partialOn exits s slot = s) ∨
    (s.cores (slotNode partialOn slot) = none ∧ armSlot partialOn exits s slot = s) ∨
    ∃ core, s.held slot = true ∧ (slotNode partialOn slot).val < s.registeredCount ∧
      s.cores (slotNode partialOn slot) = some core ∧
      armSlot partialOn exits s slot =
        { s with cores := update s.cores (slotNode partialOn slot) (some (update core (slotLeg partialOn slot)
            (gatesOf exits s (slotNode partialOn slot) (slotLeg partialOn slot) slot))) } := by
  by_cases hcond : s.held slot = true ∧ (slotNode partialOn slot).val < s.registeredCount
  · cases hcore : s.cores (slotNode partialOn slot) with
    | none => exact .inr (.inl ⟨rfl, by simp [armSlot, hcond, hcore]⟩)
    | some core => exact .inr (.inr ⟨core, hcond.1, hcond.2, rfl, by simp [armSlot, hcond, hcore, gatesOf]⟩)
  · exact .inl ⟨hcond, by simp only [armSlot, if_neg hcond]⟩

/-- Arming touches the cores alone. -/
theorem armSlot_eq (partialOn : Bool) (exits : RestoredExits) (s : SnapshotState ρ) (slot : SlotIdx) :
    armSlot partialOn exits s slot = { s with cores := (armSlot partialOn exits s slot).cores } := by
  rcases armSlot_cases partialOn exits s slot with ⟨-, h⟩ | ⟨-, h⟩ | ⟨core, -, -, -, h⟩ <;> rw [h]

theorem armAll_eq (partialOn : Bool) (exits : RestoredExits) (slots : List SlotIdx) (s : SnapshotState ρ) :
    slots.foldl (armSlot partialOn exits) s =
      { s with cores := (slots.foldl (armSlot partialOn exits) s).cores } := by
  induction slots generalizing s with
  | nil => rfl
  | cons slot slots ih => rw [List.foldl_cons, ih, armSlot_eq]

/-- Of a slot that arms nothing here nothing is seen. -/
theorem restoredGates_cons_of_not {partialOn : Bool} {slots : List SlotIdx} {n : NodeIdx} {core : Leg → LegGates}
    {leg : Leg} (h : legSlot partialOn n leg = some slot → ¬(s.held slot = true ∧ n.val < s.registeredCount)) :
    restoredGates partialOn exits s (slot :: slots) n core leg =
      restoredGates partialOn exits s slots n core leg := by
  unfold restoredGates
  cases hslot : legSlot partialOn n leg with
  | none => rfl
  | some slot' =>
    by_cases heq : slot' = slot
    · subst heq
      have hno := h hslot
      simp [hno]
    · simp [heq]

theorem armAll_cores (partialOn : Bool) (exits : RestoredExits) (slots : List SlotIdx) (s : SnapshotState ρ)
    (n : NodeIdx) :
    (slots.foldl (armSlot partialOn exits) s).cores n =
      (s.cores n).map (restoredGates partialOn exits s slots n) := by
  induction slots generalizing s with
  | nil =>
    have hid : restoredGates partialOn exits s [] n = id := by
      funext core leg
      unfold restoredGates
      split <;> simp
    rw [hid, Option.map_id]
    rfl
  | cons slot slots ih =>
    rw [List.foldl_cons, ih]
    rcases armSlot_cases partialOn exits s slot with ⟨hno, h⟩ | ⟨hnone, h⟩ | ⟨core, hheld, hreg, hcore, h⟩
    · rw [h]
      congr 1
      funext core leg
      refine (restoredGates_cons_of_not fun hslot => ?_).symm
      rwa [(legSlot_eq_some.1 hslot).1] at hno
    · rw [h]
      by_cases hn : slotNode partialOn slot = n
      · rw [← hn, hnone]
        rfl
      · congr 1
        funext core leg
        exact (restoredGates_cons_of_not fun hslot => absurd (legSlot_eq_some.1 hslot).1 hn).symm
    · have hsame : restoredGates partialOn exits (armSlot partialOn exits s slot) slots n =
          restoredGates partialOn exits s slots n := by rw [h]; rfl
      rw [hsame, h]
      dsimp only
      by_cases hn : slotNode partialOn slot = n
      · subst hn
        rw [Function.update_self, hcore, Option.map_some, Option.map_some]
        refine congrArg some (funext fun leg => ?_)
        by_cases hleg : slotLeg partialOn slot = leg
        · subst hleg
          have hslot : legSlot partialOn (slotNode partialOn slot) (slotLeg partialOn slot) = some slot :=
            legSlot_eq_some.2 ⟨rfl, rfl⟩
          simp only [restoredGates, hslot, hheld, hreg, List.mem_cons, true_or, and_self, if_true, and_true,
            Function.update_self, ite_self]
        · rw [restoredGates_cons_of_not fun hslot => absurd (legSlot_eq_some.1 hslot).2 hleg]
          unfold restoredGates
          rw [Function.update_of_ne (Ne.symm hleg)]
      · rw [Function.update_of_ne (Ne.symm hn)]
        congr 1
        funext core' leg
        exact (restoredGates_cons_of_not fun hslot => absurd (legSlot_eq_some.1 hslot).1 hn).symm

/-- One bit a turn. -/
theorem getLsbD_orBits (f : ℕ → Bool) {k i : ℕ} (hi : i < 16) :
    ((List.range k).foldl (fun bitmap n => bitmap ||| ((BitVec.ofBool (f n)).zeroExtend 16 <<< n))
      (0 : BitVec 16)).getLsbD i = (decide (i < k) && f i) := by
  induction k with
  | zero => simp
  | succ k ih =>
    rw [List.range_succ, List.foldl_append, List.foldl_cons, List.foldl_nil, BitVec.getLsbD_or, ih]
    rcases Nat.lt_trichotomy i k with hlt | rfl | hgt
    · simp [hlt, Nat.lt_succ_of_lt hlt]
    · simp [hi]
    · have hnot : ¬i < k + 1 := by omega
      have hsub : i - k ≠ 0 := by omega
      simp [hnot, Nat.not_lt.2 hgt.le, hsub]

/-! ### Round trip -/

/-- `t'` is `t` after loading what `s` saved. -/
structure Restored (partialOn : Bool) (exits : RestoredExits) (s t t' : SnapshotState ρ) : Prop where
  registeredCount : t'.registeredCount = t.registeredCount
  oms : t'.oms.toWire = s.oms.toWire
  omsFlags : t'.oms.omsStateFlags &&& ~~~maskOmsKill = t.oms.omsStateFlags &&& ~~~maskOmsKill
  activeBitmap : t'.activeBitmap = s.activeBitmap
  positions : t'.positions = s.positions
  registered : ∀ n, n.val < s.registeredCount →
    (t'.nodes n).toWire =
        { (s.nodes n).toWire with
          strategyId := (t.nodes n).strategyId, strategyStateKind := (t.nodes n).strategyStateKind } ∧
      (t'.nodes n).nodeStateFlags &&& ~~~maskNodeKill = (t.nodes n).nodeStateFlags &&& ~~~maskNodeKill
  unregistered : ∀ n, s.registeredCount ≤ n.val → t'.nodes n = t.nodes n
  cores : ∀ n, t'.cores n = (t.cores n).map (restoredGates partialOn exits s (List.finRange 16) n)
  pending : ∀ n < 16,
    t'.partnerPendingBitmap.getLsbD n = (partialOn && (decide (n < s.registeredCount) && s.legParityBit n))
  rest : t'.rest = t.rest

theorem toWire_fits (timestampUs : BitVec 64) (partialOn : Bool) (s : SnapshotState ρ) :
    Fits s.registeredCount partialOn (BitVec.ofNat 32 s.registeredCount) (if partialOn then 1 else 0)
      (s.toWire timestampUs) where
  nodes := by rw [BitVec.toNat_ofNat, Nat.mod_eq_of_lt (by have := s.registered_le; omega)]
  partials := wireBit_ne_zero (by decide) partialOn
  positions_length := by rw [toWire, List.length_map, List.length_finRange]
  nodes_length := by
    rw [toWire, List.length_map, List.length_take, List.length_finRange, Nat.min_eq_left s.registered_le]

/-- What was saved is read. -/
theorem readSnapshot_image (timestampUs : BitVec 64) (partialOn : Bool) (s : SnapshotState ρ) :
    readSnapshot s.registeredCount partialOn (s.image timestampUs partialOn) = some (s.toWire timestampUs) :=
  readSnapshot_eq_some_iff.2 ⟨_, _, [], (List.append_nil _).symm, toWire_fits timestampUs partialOn s⟩

theorem commit_positions (timestampUs : BitVec 64) (s t : SnapshotState ρ) :
    (t.commit (s.toWire timestampUs)).positions = s.positions := by
  funext slot
  simp [commit, toWire]

theorem commit_nodes (timestampUs : BitVec 64) (s t : SnapshotState ρ) (n : NodeIdx) :
    (t.commit (s.toWire timestampUs)).nodes n =
      if n.val < s.registeredCount then (s.nodes n).toWire.commit (t.nodes n) else t.nodes n := by
  by_cases hn : n.val < s.registeredCount
  · have hrow : (s.toWire timestampUs).nodes[n.val]? = some (s.nodes n).toWire := by
      simp [toWire, hn]
    rw [if_pos hn]
    simp only [commit, hrow]
  · have hrow : (s.toWire timestampUs).nodes[n.val]? = none := by
      simp [toWire, hn]
    rw [if_neg hn]
    simp only [commit, hrow]

/-- The legs are armed with what the file had. -/
theorem restoredGates_commit (timestampUs : BitVec 64) (partialOn : Bool) (exits : RestoredExits)
    (s t : SnapshotState ρ)
    (hcount : s.registeredCount = t.registeredCount) (slots : List SlotIdx) (n : NodeIdx) :
    restoredGates partialOn exits (t.commit (s.toWire timestampUs)) slots n =
      restoredGates partialOn exits s slots n := by
  funext core leg
  unfold restoredGates
  cases legSlot partialOn n leg with
  | none => rfl
  | some slot =>
    have hheld : (t.commit (s.toWire timestampUs)).held slot = s.held slot := rfl
    have hreg : (t.commit (s.toWire timestampUs)).registeredCount = s.registeredCount := hcount.symm
    by_cases hn : n.val < s.registeredCount
    · have hgates : gatesOf exits (t.commit (s.toWire timestampUs)) n leg slot = gatesOf exits s n leg slot := by
        rw [gatesOf, gatesOf, commit_positions, commit_nodes, if_pos hn]
        rfl
      simp only [hheld, hreg, hgates]
    · simp only [hreg, hn, and_false, if_false]

theorem restored (timestampUs : BitVec 64) (partialOn : Bool) (exits : RestoredExits) (s t : SnapshotState ρ)
    (hcount : s.registeredCount = t.registeredCount) :
    Restored partialOn exits s t (t.restore partialOn exits (s.toWire timestampUs)) := by
  have hrestore : t.restore partialOn exits (s.toWire timestampUs) =
      { t.commit (s.toWire timestampUs) with
        cores := ((List.finRange 16).foldl (armSlot partialOn exits) (t.commit (s.toWire timestampUs))).cores
        partnerPendingBitmap := (t.commit (s.toWire timestampUs)).pendingBitmap partialOn } := by
    rw [restore, armAll_eq]
    rfl
  rw [hrestore]
  refine
    { registeredCount := rfl, oms := OmsMembers.commit_toWire s.oms t.oms
      omsFlags := withMask_others maskOmsKill _ t.oms.omsStateFlags, activeBitmap := rfl
      positions := commit_positions timestampUs s t, registered := fun n hn => ?_, unregistered := fun n hn => ?_
      cores := fun n => ?_, pending := fun n hn => ?_, rest := rfl }
  · have hnode := commit_nodes timestampUs s t n
    rw [if_pos hn] at hnode
    dsimp only
    rw [hnode]
    exact ⟨NodeMembers.commit_toWire (s.nodes n) (t.nodes n), withMask_others maskNodeKill _ _⟩
  · have hnode := commit_nodes timestampUs s t n
    rwa [if_neg (Nat.not_lt.2 hn)] at hnode
  · dsimp only
    rw [armAll_cores, restoredGates_commit timestampUs partialOn exits s t hcount]
    rfl
  · have hcommit : (t.commit (s.toWire timestampUs)).registeredCount = s.registeredCount := hcount.symm
    dsimp only
    unfold pendingBitmap
    cases partialOn with
    | false => simp
    | true => rw [if_pos rfl, getLsbD_orBits _ hn, hcommit, Bool.true_and]; rfl

/-- Saved again it is the same file, if the strategies are configured alike. -/
theorem Restored.image_eq {partialOn : Bool} {t' : SnapshotState ρ} (h : Restored partialOn exits s t t')
    (hcount : s.registeredCount = t.registeredCount)
    (hcfg : ∀ n : NodeIdx, n.val < s.registeredCount →
      (t.nodes n).strategyId = (s.nodes n).strategyId ∧ (t.nodes n).strategyStateKind = (s.nodes n).strategyStateKind)
    (timestampUs : BitVec 64) : t'.image timestampUs partialOn = s.image timestampUs partialOn := by
  have hcount' : t'.registeredCount = s.registeredCount := h.registeredCount.trans hcount.symm
  have hnodes : ((List.finRange 16).take s.registeredCount).map (fun n => (t'.nodes n).toWire) =
      ((List.finRange 16).take s.registeredCount).map fun n => (s.nodes n).toWire := by
    refine List.map_congr_left fun n hn => ?_
    have hlt : n.val < s.registeredCount := by
      obtain ⟨i, hi, rfl⟩ := List.mem_iff_getElem.1 hn
      rw [List.length_take] at hi
      simp only [List.getElem_take, List.getElem_finRange]
      simpa using lt_of_lt_of_le hi (Nat.min_le_left _ _)
    obtain ⟨hid, hkind⟩ := hcfg n hlt
    rw [(h.registered n hlt).1, hid, hkind]
    rfl
  rw [image, image, hcount', toWire, toWire, h.oms, h.activeBitmap, h.positions, hcount', hnodes]

theorem one_le_sixteen : 1 ≤ 16 := by decide

/-- One registered node and no position. -/
def flat : SnapshotState Unit :=
  { registeredCount := 1, registered_le := one_le_sixteen
    oms := (⟨5, 5, 5, 1, 0, 0, 0, 0, 0, 9⟩ : OmsWire).commit ⟨1, 0, 0, 0, 0, 0, 0, 0, 0, 0⟩
    activeBitmap := 0
    positions := fun _ => ⟨0, 0, 0, 0, 0, 0, 0, 0, 255, zeros 7⟩
    nodes := fun _ =>
      { nodeStateFlags := 3, strategyId := 2, resolvedStrategyId := 2, strategyStateKind := 0, allocatedBalance := 5
        entriesProcessed := 0, exitsProcessed := 0, nodeRealized := 0, nodeFees := 0, nodeOpenNotional := 0
        nodeWins := 0, nodeLosses := 0, nodeGrossWins := 0, nodeGrossLosses := 0, partnerPendingPnl := 0
        idleCycles := 0, lastEntryPrice := 0, lastEntryTick := 0, slCooldownRemaining := 0, nodePeakBalance := 5
        nodeKsTripsTotal := 1, regimeState := ⟨0, 0, 0, 3, 2, 0, 0⟩, pnlFeeder := ⟨zeros 128, 0, 0⟩
        stagedPrediction := 0, activePrediction := 0, lastConfidence := 0
        confidence := ⟨zeros 512, zeros 512, 0, 0, zeros 512, 0, 0⟩ }
    cores := fun _ => none, partnerPendingBitmap := 0, rest := () }

end SnapshotState

end FoxTrader
