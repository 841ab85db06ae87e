import FoxTrader.Lib.WebSocketFrame
import Mathlib.Data.List.GetD
import Mathlib.Data.List.Induction
import Mathlib.Logic.Function.Basic

/-! # Reading and writing WebSocket frames

    `ws_read_frame` reads the header, the extended length, the mask and the payload of a frame, each
    in a loop over reads that may return any part of what they are asked for; the length is compared
    before it is narrowed. `ws_build_pong` writes a masked pong. The transport is a stream of bytes
    with a schedule of cuts, the output buffer the memory it points into. -/

namespace FoxTrader

open Lib Lib.WebSocket Function

/-! ### The transport -/

/-- An `Io`: the bytes that come before the stream ends or fails, and for each read to come how many
    bytes but one it returns at most. -/
structure Io where
  bytes : List UInt8
  cut : ℕ → ℕ

/-- `r.read(dst, want)`: the bytes it returns, none at the end of the stream. -/
def Io.read (r : Io) (want : ℕ) : List UInt8 × Io :=
  let got := r.bytes.take (min want (r.cut 0 + 1))
  (got, ⟨r.bytes.drop got.length, fun k => r.cut (k + 1)⟩)

/-- What `ws_read_exact` leaves: the bytes it wrote, whether these are all, and the transport. -/
structure ReadExact where
  got : List UInt8
  done : Bool
  rest : Io

def wsReadExactLoop (want : ℕ) : (fuel : ℕ) → Io → List UInt8 → ReadExact
  | 0, r, got => ⟨got, decide (want ≤ got.length), r⟩
  | fuel + 1, r, got =>
    if got.length < want then
      let n := r.read (want - got.length)
      if n.1 = [] then ⟨got, false, n.2⟩ else wsReadExactLoop want fuel n.2 (got ++ n.1)
    else ⟨got, true, r⟩

/-- Every turn of the loop reads a byte or leaves, so `want` turns are enough. -/
def wsReadExact (r : Io) (want : ℕ) : ReadExact := wsReadExactLoop want want r []

/-! ### The header -/

/-- What was read of a frame before its payload: the first byte when both bytes of the header came,
    the length and the mask when all of it came. -/
structure HeaderRead where
  head : Option UInt8
  field : Option (UInt64 × Option Mask)
  rest : Io

/-- The extended length, by how two and eight bytes are put together. -/
def readLength (word16 word64 : List UInt8 → UInt64) (plen : UInt64) (r : Io) : Option UInt64 × Io :=
  if plen = 126 then
    let ext := wsReadExact r 2
    (if ext.done then some (word16 ext.got) else none, ext.rest)
  else if plen = 127 then
    let ext := wsReadExact r 8
    (if ext.done then some (word64 ext.got) else none, ext.rest)
  else (some plen, r)

def readHeader (word16 word64 : List UInt8 → UInt64) (r : Io) : HeaderRead :=
  let hdr := wsReadExact r 2
  if hdr.done then
    let h₀ := hdr.got.getD 0 0
    let h₁ := hdr.got.getD 1 0
    let plen := readLength word16 word64 (h₁ &&& 0x7F).toUInt64 hdr.rest
    match plen.1 with
    | none => ⟨some h₀, none, plen.2⟩
    | some n =>
      if h₁ >>> 7 &&& 1 = 1 then
        let mask := wsReadExact plen.2 4
        if mask.done then
          ⟨some h₀, some (n, some ⟨mask.got.getD 0 0, mask.got.getD 1 0, mask.got.getD 2 0, mask.got.getD 3 0⟩),
            mask.rest⟩
        else ⟨some h₀, none, mask.rest⟩
      else ⟨some h₀, some (n, none), plen.2⟩
  else ⟨none, none, hdr.rest⟩

/-- `((uint64_t)ext[0] << 8) | (uint64_t)ext[1]`. -/
def wsWord16 (ext : List UInt8) : UInt64 := (ext.getD 0 0).toUInt64 <<< 8 ||| (ext.getD 1 0).toUInt64

/-- `for (i = 0; i < 8; i++) plen = (plen << 8) | (uint64_t)ext[i]`. -/
def wsWord64 (ext : List UInt8) : UInt64 := ext.foldl (fun plen b => plen <<< 8 ||| b.toUInt64) 0

/-! ### The frame -/

/-- The memory from the output buffer on. -/
abbrev Memory := ℕ → UInt8

/-- The bytes written from the start of the buffer. -/
def Memory.store (out : Memory) (bs : List UInt8) : Memory := fun i => bs.getD i (out i)

/-- `out[i] ^= mask[i & 3]` below `n`, when there is a mask. -/
def Memory.unmask (out : Memory) (mask : Option Mask) (n : ℕ) : Memory :=
  match mask with
  | none => out
  | some m => fun i => if i < n then out i ^^^ m.byte i else out i

/-- `(int)plen`. -/
def narrow (plen : UInt64) : Int32 := plen.toUInt32.toInt32

/-- `hdr[0] & 0x0F`. -/
def opcodeOf (head : UInt8) : Int32 := Int32.ofNat (head &&& 0x0F).toNat

/-- `(hdr[0] >> 7) & 1`. -/
def finOf (head : UInt8) : Int32 := Int32.ofNat (head >>> 7 &&& 1).toNat

/-- `WS_READ_ERR`. -/
def wsReadErr : Int32 := -1

/-- `WS_READ_TOO_LARGE`. -/
def wsReadTooLarge : Int32 := -2

/-- What a frame reader returns, and what it leaves in its output parameters and the stream. -/
structure FrameRead where
  ret : Int32
  opcode : Int32
  fin : Int32
  out : Memory
  rest : Io

/-- The payload of `n` bytes, unmasked, and the zero behind it. -/
def readPayload (h : HeaderRead) (opcode fin : Int32) (out : Memory) (mask : Option Mask) (n : Int32)
    (terminator : ℕ) :
    FrameRead :=
  let body := wsReadExact h.rest n.toInt.toNat
  if body.done then
    ⟨n, opcode, fin, update ((out.store body.got).unmask mask n.toInt.toNat) terminator 0, body.rest⟩
  else ⟨wsReadErr, opcode, fin, out.store body.got, body.rest⟩

def wsReadFrame (r : Io) (out : Memory) (maxLen opcode fin : Int32) : FrameRead :=
  let h := readHeader wsWord16 wsWord64 r
  let opcode := (h.head.map opcodeOf).getD opcode
  let fin := (h.head.map finOf).getD fin
  match h.field with
  | none => ⟨wsReadErr, opcode, fin, out, h.rest⟩
  | some (plen, mask) =>
    if maxLen < 0 ∨ maxLen.toInt64.toUInt64 < plen then ⟨wsReadTooLarge, opcode, fin, out, h.rest⟩
    else readPayload h opcode fin out mask (narrow plen) (narrow plen).toInt.toNat

/-! ### The pong -/

/-- `ws_build_pong`: the bytes of the frame, none when it is refused. -/
def wsBuildPong (payload : List UInt8) (mask : Mask) (cap : ℕ) : List UInt8 :=
  let len := payload.length
  if 0xFFFF < len then []
  else
    let hdr := if len < 126 then 2 else 4
    if cap < hdr + 4 + len then []
    else
      (0x8A :: if len < 126 then [0x80 ||| UInt8.ofNat len]
        else [0x80 ||| 126, UInt8.ofNat (len >>> 8 &&& 0xFF), UInt8.ofNat (len &&& 0xFF)])
        ++ mask.bytes ++ payload.mapIdx fun i b => b ^^^ mask.byte i

/-! ### Reading in chunks -/

/-- A read returns some of the bytes, and none only at the end. -/
theorem Io.read_spec (r : Io) {want : ℕ} (hwant : 0 < want) :
    ∃ k, k ≤ want ∧ k ≤ r.bytes.length ∧ (r.read want).1 = r.bytes.take k ∧ (r.read want).2.bytes = r.bytes.drop k ∧
      (k = 0 ↔ r.bytes.length = 0) := by
  refine ⟨(r.bytes.take (min want (r.cut 0 + 1))).length, ?_, ?_, ?_, rfl, ?_⟩
  · rw [List.length_take]
    omega
  · exact List.length_take_le' ..
  · show r.bytes.take _ = _
    rw [List.length_take, List.take_eq_take_min]
  · rw [List.length_take]
    omega

/-- The loop goes on until all is read or the stream has ended, whatever the cuts. -/
theorem wsReadExactLoop_spec (want fuel : ℕ) (r : Io) (got : List UInt8) (hfuel : want ≤ got.length + fuel) :
    (wsReadExactLoop want fuel r got).got = got ++ r.bytes.take (want - got.length) ∧
      (wsReadExactLoop want fuel r got).done = decide (want ≤ got.length + r.bytes.length) ∧
      (wsReadExactLoop want fuel r got).rest.bytes = r.bytes.drop (want - got.length) := by
  induction fuel generalizing r got with
  | zero =>
    have hzero : want - got.length = 0 := by omega
    rw [wsReadExactLoop, hzero, List.take_zero, List.append_nil, List.drop_zero]
    exact ⟨rfl, decide_eq_decide.2 (by omega), rfl⟩
  | succ fuel ih =>
    rw [wsReadExactLoop]
    split
    case isFalse hge =>
      have hzero : want - got.length = 0 := by omega
      rw [hzero, List.take_zero, List.append_nil, List.drop_zero]
      exact ⟨rfl, (decide_eq_true (by omega)).symm, rfl⟩
    case isTrue hlt =>
      obtain ⟨k, hk, hkLen, hgot, hrest, hend⟩ := r.read_spec (Nat.sub_pos_of_lt hlt)
      have hlen : (r.read (want - got.length)).1.length = k := by
        rw [hgot, List.length_take]
        omega
      have hmore : want - (got.length + k) + k = want - got.length := by omega
      dsimp only
      split
      case isTrue hnil =>
        rw [hnil, List.length_nil] at hlen
        have hempty := List.length_eq_zero_iff.1 (hend.1 hlen.symm)
        rw [hrest, hempty, List.take_nil, List.append_nil, List.drop_nil, List.drop_nil]
        exact ⟨rfl, (decide_eq_false (by rw [List.length_nil]; omega)).symm, rfl⟩
      case isFalse hne =>
        have hpos : k ≠ 0 := fun h => hne (List.length_eq_zero_iff.1 (hlen.trans h))
        obtain ⟨hg, hd, hr⟩ := ih (r.read (want - got.length)).2 (got ++ (r.read (want - got.length)).1) (by
          rw [List.length_append, hlen]
          omega)
        rw [hg, hd, hr, hrest, List.length_append, hlen, hgot]
        refine ⟨?_, decide_eq_decide.2 ?_, ?_⟩
        · rw [List.append_assoc, ← List.take_add, Nat.add_comm k, hmore]
        · rw [List.length_drop]
          omega
        · rw [List.drop_drop, Nat.add_comm k, hmore]

theorem wsReadExact_spec (r : Io) (want : ℕ) :
    (wsReadExact r want).got = r.bytes.take want ∧ (wsReadExact r want).done = decide (want ≤ r.bytes.length) ∧
      (wsReadExact r want).rest.bytes = r.bytes.drop want := by
  obtain ⟨hg, hd, hr⟩ := wsReadExactLoop_spec want want r [] (Nat.le_add_left ..)
  rw [List.length_nil, Nat.zero_add] at hd
  exact ⟨hg, hd, hr⟩

/-! ### Reading a header -/

/-- The two conversions put the higher byte first. -/
structure BigEndian (word16 word64 : List UInt8 → UInt64) : Prop where
  word16 : ∀ ext : List UInt8, ext.length = 2 → word16 ext = UInt64.ofNat (ofBE ext)
  word64 : ∀ ext : List UInt8, ext.length = 8 → word64 ext = UInt64.ofNat (ofBE ext)

variable {word16 word64 : List UInt8 → UInt64}

/-- The bytes of an extended length. -/
theorem readExtra_spec {word : List UInt8 → UInt64} {n : ℕ}
    (hword : ∀ ext : List UInt8, ext.length = n → word ext = UInt64.ofNat (ofBE ext)) (r : Io) :
    (if (wsReadExact r n).done then some (word (wsReadExact r n).got) else none) =
        (if r.bytes.length < n then none else some (ofBE (r.bytes.take n), r.bytes.drop n)).map
          (fun p => UInt64.ofNat p.1) ∧
      ∀ p, (if r.bytes.length < n then none else some (ofBE (r.bytes.take n), r.bytes.drop n)) = some p →
        (wsReadExact r n).rest.bytes = p.2 := by
  obtain ⟨hg, hd, hr⟩ := wsReadExact_spec r n
  rw [hd, hg, hr]
  by_cases hlen : n ≤ r.bytes.length
  · rw [decide_eq_true hlen, if_pos rfl, if_neg (Nat.not_lt.2 hlen), hword _ (List.length_take_of_le hlen)]
    refine ⟨rfl, ?_⟩
    rintro p ⟨⟩
    rfl
  · rw [decide_eq_false hlen, if_neg Bool.false_ne_true, if_pos (Nat.lt_of_not_le hlen)]
    exact ⟨rfl, fun p hp => absurd hp.symm (Option.some_ne_none p)⟩

theorem readLength_spec (hword : BigEndian word16 word64) (plen : UInt64) (r : Io) :
    (readLength word16 word64 plen r).1 = (decodeLength plen.toNat r.bytes).map (fun p => UInt64.ofNat p.1) ∧
      ∀ p, decodeLength plen.toNat r.bytes = some p → (readLength word16 word64 plen r).2.bytes = p.2 := by
  by_cases h126 : plen = 126
  · subst h126
    exact readExtra_spec hword.word16 r
  · by_cases h127 : plen = 127
    · subst h127
      exact readExtra_spec hword.word64 r
    · have hform : LengthForm.ofCode plen.toNat = .short := by
        rw [LengthForm.ofCode, if_neg fun h : plen.toNat = 126 => h126 (UInt64.toNat_inj.1 h),
          if_neg fun h : plen.toNat = 127 => h127 (UInt64.toNat_inj.1 h)]
      rw [readLength, if_neg h126, if_neg h127, decodeLength, hform]
      refine ⟨congrArg some UInt64.ofNat_toNat.symm, ?_⟩
      rintro p ⟨⟩
      rfl

/-- The mask bit and the seven bits of the code. -/
theorem second_bits (h₁ : UInt8) :
    (h₁ &&& 0x7F).toUInt64.toNat = h₁.toNat % 128 ∧ (h₁ >>> 7 &&& 1 = 1 ↔ 128 ≤ h₁.toNat) := by
  have hlt := h₁.toNat_lt
  refine ⟨?_, ?_⟩
  · rw [UInt8.toNat_toUInt64, UInt8.toNat_and]
    exact Nat.and_two_pow_sub_one_eq_mod _ 7
  · rw [← UInt8.toNat_inj, UInt8.toNat_and, UInt8.toNat_shiftRight]
    show h₁.toNat >>> 7 &&& 1 = 1 ↔ _
    rw [Nat.and_one_is_mod, Nat.shiftRight_eq_div_pow]
    omega

/-- The mask behind the length. -/
theorem readMask_spec (r : Io) :
    (if (wsReadExact r 4).done then
        some (some (⟨(wsReadExact r 4).got.getD 0 0, (wsReadExact r 4).got.getD 1 0, (wsReadExact r 4).got.getD 2 0,
          (wsReadExact r 4).got.getD 3 0⟩ : Mask)) else none) = (decodeMask true r.bytes).map Prod.fst ∧
      ∀ p, decodeMask true r.bytes = some p → (wsReadExact r 4).rest.bytes = p.2 := by
  obtain ⟨hg, hd, hr⟩ := wsReadExact_spec r 4
  rw [hd, hg, hr, decodeMask, if_pos rfl]
  by_cases hlen : 4 ≤ r.bytes.length
  · rw [decide_eq_true hlen, if_pos rfl, if_neg (Nat.not_lt.2 hlen)]
    refine ⟨?_, ?_⟩
    · rcases hbytes : r.bytes with _ | ⟨b₀, _ | ⟨b₁, _ | ⟨b₂, _ | ⟨b₃, rest⟩⟩⟩⟩ <;> rfl
    · rintro p ⟨⟩
      rfl
  · rw [decide_eq_false hlen, if_neg Bool.false_ne_true, if_pos (Nat.lt_of_not_le hlen)]
    exact ⟨rfl, fun p hp => absurd hp.symm (Option.some_ne_none p)⟩

theorem readHeader_spec (hword : BigEndian word16 word64) (r : Io) :
    (readHeader word16 word64 r).head = (if 2 ≤ r.bytes.length then r.bytes.head? else none) ∧
      (readHeader word16 word64 r).field = (decodeHeader r.bytes).map (fun h => (UInt64.ofNat h.length, h.mask)) ∧
      ∀ h, decodeHeader r.bytes = some h → (readHeader word16 word64 r).rest.bytes = h.body := by
  obtain ⟨hg, hd, hr⟩ := wsReadExact_spec r 2
  rcases hbytes : r.bytes with _ | ⟨h₀, _ | ⟨h₁, bytes⟩⟩
  · rw [hbytes] at hd
    rw [readHeader, hd]
    exact ⟨rfl, rfl, fun h hh => absurd hh.symm (Option.some_ne_none h)⟩
  · rw [hbytes] at hd
    rw [readHeader, hd]
    exact ⟨rfl, rfl, fun h hh => absurd hh.symm (Option.some_ne_none h)⟩
  · rw [hbytes] at hg hd hr
    have hdone : (wsReadExact r 2).done = true := hd.trans (decide_eq_true (by simp))
    have h₀' : (wsReadExact r 2).got.getD 0 0 = h₀ := by rw [hg]; rfl
    have h₁' : (wsReadExact r 2).got.getD 1 0 = h₁ := by rw [hg]; rfl
    have hrest : (wsReadExact r 2).rest.bytes = bytes := hr
    obtain ⟨hcode, hmasked⟩ := second_bits h₁
    obtain ⟨hlength, htail⟩ := readLength_spec hword (h₁ &&& 0x7F).toUInt64 (wsReadExact r 2).rest
    rw [hcode, hrest] at hlength htail
    rw [readHeader, if_pos hdone, h₀', h₁']
    dsimp only
    cases hdecode : decodeLength (h₁.toNat % 128) bytes with
    | none =>
      rw [hdecode] at hlength
      rw [hlength, decodeHeader, hdecode]
      exact ⟨rfl, rfl, fun h hh => absurd hh.symm (Option.some_ne_none h)⟩
    | some length =>
      rw [hdecode] at hlength
      have hbehind := htail length hdecode
      rw [hlength, decodeHeader, hdecode]
      generalize (readLength word16 word64 (h₁ &&& 0x7F).toUInt64 (wsReadExact r 2).rest).2 = r' at hbehind ⊢
      dsimp only [Option.map_some, Option.bind_some]
      by_cases hbit : 128 ≤ h₁.toNat
      · obtain ⟨hmask, hbody⟩ := readMask_spec r'
        rw [hbehind] at hmask hbody
        rw [if_pos (hmasked.2 hbit), decide_eq_true hbit]
        cases hdone' : (wsReadExact r' 4).done with
        | false =>
          rw [hdone', if_neg Bool.false_ne_true] at hmask
          rw [if_neg Bool.false_ne_true, Option.map_eq_none_iff.1 hmask.symm]
          exact ⟨rfl, rfl, fun h hh => absurd hh.symm (Option.some_ne_none h)⟩
        | true =>
          rw [hdone', if_pos rfl] at hmask
          obtain ⟨p, hp, hfst⟩ := Option.map_eq_some_iff.1 hmask.symm
          rw [if_pos rfl, hp, ← hfst]
          refine ⟨rfl, rfl, ?_⟩
          rintro h ⟨⟩
          exact hbody p hp
      · rw [if_neg fun h => hbit (hmasked.1 h), decide_eq_false hbit]
        refine ⟨rfl, rfl, ?_⟩
        rintro h ⟨⟩
        exact hbehind

/-- One turn of the loop that puts the eight bytes together. -/
theorem shift_or (n : ℕ) (b : UInt8) :
    UInt64.ofNat n <<< 8 ||| b.toUInt64 = UInt64.ofNat (n * 256 + b.toNat) := by
  have hb := b.toNat_lt
  refine UInt64.toNat_inj.1 ?_
  rw [UInt64.toNat_or, UInt64.toNat_shiftLeft, UInt8.toNat_toUInt64, UInt64.toNat_ofNat', UInt64.toNat_ofNat']
  show (n % 2 ^ 64) <<< 8 % 2 ^ 64 ||| b.toNat = (n * 256 + b.toNat) % 2 ^ 64
  have hhigh : n % 2 ^ 64 * 2 ^ 8 % 2 ^ 64 = 2 ^ 8 * (n % 2 ^ 56) := by omega
  rw [Nat.shiftLeft_eq, hhigh, ← Nat.two_pow_add_eq_or_of_lt hb]
  omega

theorem wsWord64_eq (ext : List UInt8) : wsWord64 ext = UInt64.ofNat (ofBE ext) := by
  induction ext using List.reverseRecOn with
  | nil => rfl
  | append_singleton ext b ih =>
    rw [wsWord64] at ih ⊢
    rw [List.foldl_append, ih, List.foldl_cons, List.foldl_nil, shift_or, ofBE_concat]

theorem wsWord16_eq (b₀ b₁ : UInt8) : wsWord16 [b₀, b₁] = UInt64.ofNat (ofBE [b₀, b₁]) := by
  have hb₀ : b₀.toUInt64 = UInt64.ofNat b₀.toNat := by
    refine UInt64.toNat_inj.1 ?_
    have hlt := b₀.toNat_lt
    rw [UInt8.toNat_toUInt64, UInt64.toNat_ofNat', Nat.mod_eq_of_lt (by omega)]
  have hvalue : ofBE [b₀, b₁] = b₀.toNat * 256 + b₁.toNat := ofBE_concat [b₀] b₁
  rw [hvalue, ← shift_or, ← hb₀]
  rfl

theorem bigEndian_ws : BigEndian wsWord16 wsWord64 where
  word16 ext hlen := by
    rcases ext with _ | ⟨b₀, _ | ⟨b₁, _ | ⟨b₂, ext⟩⟩⟩
    · exact absurd hlen (by decide)
    · exact absurd hlen (by simp)
    · exact wsWord16_eq b₀ b₁
    · exact absurd hlen (by simp)
  word64 ext _ := wsWord64_eq ext

/-! ### Reading a frame -/

/-- The cast keeps the low 32 bits. -/
theorem narrow_toInt (n : UInt64) : (narrow n).toInt = Int.bmod n.toNat 4294967296 := by
  show n.toUInt32.toBitVec.toInt = _
  rw [BitVec.toInt_eq_toNat_bmod]
  show Int.bmod (n.toUInt32.toNat : ℕ) 4294967296 = _
  rw [UInt64.toNat_toUInt32]
  exact Int.emod_bmod (n.toNat : ℤ) 4294967296

theorem narrow_ofNat {n : ℕ} (h : n < 2147483648) : (narrow (UInt64.ofNat n)).toInt = n := by
  rw [narrow_toInt, UInt64.toNat_ofNat', Nat.mod_eq_of_lt (by omega), Int.bmod_eq_of_le] <;> omega

/-- The comparison before the cast is one of the numbers. -/
theorem lt_length_iff (maxLen : Int32) {n : ℕ} (h : n < 18446744073709551616) :
    (maxLen < 0 ∨ maxLen.toInt64.toUInt64 < UInt64.ofNat n) ↔ maxLen.toInt < n := by
  rw [Int32.lt_iff_toInt_lt, UInt64.lt_iff_toNat_lt, UInt64.toNat_ofNat', Nat.mod_eq_of_lt h]
  show maxLen.toInt < 0 ∨ _ ↔ _
  by_cases hneg : maxLen.toInt < 0
  · simp only [hneg, true_or, true_iff]
    omega
  · have hnat : maxLen.toInt64.toUInt64.toNat = maxLen.toInt.toNat := by
      rw [Int64.toNat_toUInt64_of_le]
      · rw [Int64.toNatClampNeg, Int32.toInt_toInt64]
      · rw [Int64.le_iff_toInt_le, Int32.toInt_toInt64]
        exact not_lt.1 hneg
    rw [hnat]
    omega

section Payload
variable (h : HeaderRead) (opcode fin : Int32) (out : Memory) (mask : Option Mask) (n : Int32) (terminator : ℕ)

theorem readPayload_message :
    (readPayload h opcode fin out mask n terminator).opcode = opcode ∧
      (readPayload h opcode fin out mask n terminator).fin = fin := by
  rw [readPayload]
  split
  case isTrue => exact ⟨rfl, rfl⟩
  case isFalse => exact ⟨rfl, rfl⟩

/-- A stream that ends within the payload. -/
theorem readPayload_short (hshort : h.rest.bytes.length < n.toInt.toNat) :
    (readPayload h opcode fin out mask n terminator).ret = wsReadErr ∧
      (readPayload h opcode fin out mask n terminator).out = out.store h.rest.bytes := by
  obtain ⟨hg, hd, -⟩ := wsReadExact_spec h.rest n.toInt.toNat
  rw [readPayload, hd, decide_eq_false (Nat.not_le.2 hshort), if_neg Bool.false_ne_true, hg,
    List.take_of_length_le hshort.le]
  exact ⟨rfl, rfl⟩

/-- A stream that has the whole payload. -/
theorem readPayload_all (hall : n.toInt.toNat ≤ h.rest.bytes.length) :
    (readPayload h opcode fin out mask n terminator).ret = n ∧
      (readPayload h opcode fin out mask n terminator).out =
        update ((out.store (h.rest.bytes.take n.toInt.toNat)).unmask mask n.toInt.toNat) terminator 0 ∧
      (readPayload h opcode fin out mask n terminator).rest.bytes = h.rest.bytes.drop n.toInt.toNat := by
  obtain ⟨hg, hd, hr⟩ := wsReadExact_spec h.rest n.toInt.toNat
  rw [readPayload, hd, decide_eq_true hall, if_pos rfl, hg]
  exact ⟨rfl, rfl, hr⟩

end Payload

theorem opcodeOf_head (f : Frame) : opcodeOf f.head = Int32.ofNat f.opcode := by
  rw [opcodeOf, UInt8.toNat_and]
  exact congrArg Int32.ofNat (Nat.and_two_pow_sub_one_eq_mod _ 4)

theorem finOf_head (f : Frame) : finOf f.head = Int32.ofNat f.fin := by
  have hlt := f.head.toNat_lt
  rw [finOf, UInt8.toNat_and, UInt8.toNat_shiftRight]
  show Int32.ofNat (f.head.toNat >>> 7 &&& 1) = _
  rw [Nat.and_one_is_mod, Nat.shiftRight_eq_div_pow, Frame.fin, Nat.mod_eq_of_lt (by omega)]

/-- The buffer with the payload of a header, unmasked, and the zero behind it. -/
def Memory.framed (out : Memory) (h : Header) : Memory :=
  update ((out.store (h.body.take h.length)).unmask h.mask h.length) h.length 0

/-- What a reader makes of a stream. -/
structure Verdict where
  ret : Int32
  out : Memory

/-- `ws_read_frame` on a stream of bytes, however they arrive. -/
def wsVerdict (maxLen : Int32) (out : Memory) (bytes : List UInt8) : Verdict :=
  match decodeHeader bytes with
  | none => ⟨wsReadErr, out⟩
  | some h =>
    if maxLen.toInt < h.length then ⟨wsReadTooLarge, out⟩
    else if h.body.length < h.length then ⟨wsReadErr, out.store h.body⟩
    else ⟨Int32.ofNat h.length, out.framed h⟩

/-- The first byte, when there are two. -/
def headOf (bytes : List UInt8) : Option UInt8 := if 2 ≤ bytes.length then bytes.head? else none

theorem wsReadFrame_verdict (r : Io) (out : Memory) (maxLen opcode fin : Int32) :
    (wsReadFrame r out maxLen opcode fin).ret = (wsVerdict maxLen out r.bytes).ret ∧
      (wsReadFrame r out maxLen opcode fin).out = (wsVerdict maxLen out r.bytes).out ∧
      (wsReadFrame r out maxLen opcode fin).opcode = ((headOf r.bytes).map opcodeOf).getD opcode ∧
      (wsReadFrame r out maxLen opcode fin).fin = ((headOf r.bytes).map finOf).getD fin ∧
      ∀ h, decodeHeader r.bytes = some h → h.length ≤ maxLen.toInt → h.length ≤ h.body.length →
        (wsReadFrame r out maxLen opcode fin).rest.bytes = h.body.drop h.length := by
  obtain ⟨hhead, hfield, hrest⟩ := readHeader_spec bigEndian_ws r
  rw [wsReadFrame, wsVerdict, headOf, ← hhead]
  cases hdecode : decodeHeader r.bytes with
  | none =>
    rw [hdecode] at hfield
    dsimp only
    rw [hfield]
    exact ⟨rfl, rfl, rfl, rfl, fun h hh => absurd hh.symm (Option.some_ne_none h)⟩
  | some h =>
    rw [hdecode] at hfield
    have hlt := length_lt_of_decodeHeader hdecode
    have hbody := hrest h hdecode
    have hlimit := lt_length_iff maxLen hlt
    dsimp only
    rw [hfield]
    dsimp only [Option.map_some]
    by_cases hlong : maxLen.toInt < h.length
    · rw [if_pos (hlimit.2 hlong), if_pos hlong]
      refine ⟨rfl, rfl, rfl, rfl, ?_⟩
      rintro h' ⟨⟩ hle
      omega
    · have hmax := maxLen.toInt_lt
      have hsmall : h.length < 2147483648 := by omega
      have hn : (narrow (UInt64.ofNat h.length)).toInt.toNat = h.length := by
        rw [narrow_ofNat hsmall, Int.toNat_natCast]
      rw [if_neg fun hcond => hlong (hlimit.1 hcond), if_neg hlong]
      by_cases hshort : h.body.length < h.length
      · rw [← hbody, ← hn] at hshort
        obtain ⟨hret, hout⟩ := readPayload_short _ (((readHeader wsWord16 wsWord64 r).head.map opcodeOf).getD opcode)
          (((readHeader wsWord16 wsWord64 r).head.map finOf).getD fin) out h.mask _
          (narrow (UInt64.ofNat h.length)).toInt.toNat hshort
        rw [hret, hout, hbody, if_pos (by rwa [hbody, hn] at hshort)]
        refine ⟨rfl, rfl, (readPayload_message ..).1, (readPayload_message ..).2, ?_⟩
        rintro h' ⟨⟩ - hle
        rw [hbody, hn] at hshort
        omega
      · have hall := Nat.not_lt.1 hshort
        rw [← hbody, ← hn] at hall
        obtain ⟨hret, hout, hdrop⟩ := readPayload_all _
          (((readHeader wsWord16 wsWord64 r).head.map opcodeOf).getD opcode)
          (((readHeader wsWord16 wsWord64 r).head.map finOf).getD fin) out h.mask _
          (narrow (UInt64.ofNat h.length)).toInt.toNat hall
        rw [hret, hout, hbody, if_neg hshort, hn]
        refine ⟨?_, rfl, (readPayload_message ..).1, (readPayload_message ..).2, ?_⟩
        · exact Int32.toInt_inj.1 ((narrow_ofNat hsmall).trans (Int32.toInt_ofNat_of_lt hsmall).symm)
        · rintro h' ⟨⟩ - -
          rw [hn, hbody] at hdrop
          exact hdrop

/-! ### What is read -/

theorem Memory.store_of_ge {out : Memory} {bs : List UInt8} {i : ℕ} (h : bs.length ≤ i) : out.store bs i = out i :=
  List.getD_eq_default _ _ h

/-- The buffer holds the payload of the frame and a zero. -/
theorem Memory.framed_eq (out : Memory) {h : Header} {f : Frame} (hmask : f.mask = h.mask)
    (hpayload : f.payload = h.body.take h.length) (hbody : h.length ≤ h.body.length) :
    out.framed h = out.store (f.content ++ [0]) := by
  have hlen : f.content.length = h.length := by
    rw [f.length_content, hpayload, List.length_take_of_le hbody]
  funext i
  rw [framed, ← hpayload, ← hmask, ← hlen]
  rcases lt_trichotomy i f.content.length with hlt | rfl | hgt
  · rw [update_of_ne hlt.ne, store, List.getD_append _ _ _ _ hlt, Frame.content]
    rw [f.length_content] at hlt
    cases f.mask with
    | none => rfl
    | some m =>
      dsimp only [unmask]
      rw [if_pos (hlt.trans_eq (m.length_apply _).symm), store, Mask.apply, List.getD_eq_getElem _ _ hlt,
        List.getD_eq_getElem _ _ (by rw [List.length_mapIdx]; exact hlt), List.getElem_mapIdx]
  · rw [update_self, store, List.getD_append_right _ _ _ _ (Nat.le_refl _), Nat.sub_self]
    rfl
  · rw [update_of_ne hgt.ne', store_of_ge (by rw [List.length_append, List.length_singleton]; omega)]
    have hout : out.store f.payload i = out i := store_of_ge (by rw [← f.length_content]; omega)
    cases f.mask with
    | none => exact hout
    | some m => exact (if_neg (by omega)).trans hout

theorem wsReadErr_neg : ¬0 ≤ wsReadErr.toInt := by decide

theorem wsReadTooLarge_neg : ¬0 ≤ wsReadTooLarge.toInt := by decide

/-- A reader that does not refuse has read a frame. -/
theorem wsVerdict_nonneg {maxLen : Int32} {out : Memory} {bytes : List UInt8}
    (hret : 0 ≤ (wsVerdict maxLen out bytes).ret.toInt) :
    ∃ h, decodeHeader bytes = some h ∧ h.length ≤ maxLen.toInt ∧ h.length ≤ h.body.length ∧
      wsVerdict maxLen out bytes = ⟨Int32.ofNat h.length, out.framed h⟩ := by
  rw [wsVerdict] at hret ⊢
  cases hdecode : decodeHeader bytes with
  | none =>
    rw [hdecode] at hret
    exact absurd hret wsReadErr_neg
  | some h =>
    rw [hdecode] at hret
    dsimp only at hret ⊢
    split at hret
    case isTrue => exact absurd hret wsReadTooLarge_neg
    case isFalse hmax =>
      split at hret
      case isTrue => exact absurd hret wsReadErr_neg
      case isFalse hbody =>
        rw [if_neg hmax, if_neg hbody]
        exact ⟨h, rfl, not_lt.1 hmax, Nat.not_lt.1 hbody, rfl⟩

/-- A frame that fits is read. -/
theorem wsVerdict_frame {maxLen : Int32} {out : Memory} (f : Frame) (rest : List UInt8)
    (hmax : f.payload.length ≤ maxLen.toInt) :
    wsVerdict maxLen out (f.encode ++ rest) = ⟨Int32.ofNat f.content.length, out.store (f.content ++ [0])⟩ := by
  have hlen : f.payload.length ≤ (f.payload ++ rest).length := by
    rw [List.length_append]
    exact Nat.le_add_right ..
  rw [wsVerdict, decodeHeader_encode,
    ← Memory.framed_eq out (h := ⟨f.head, f.payload.length, f.mask, f.payload ++ rest⟩)
    rfl List.take_left.symm hlen, f.length_content]
  dsimp only
  rw [if_neg (not_lt.2 hmax), if_neg (Nat.not_lt.2 hlen)]

theorem wsVerdict_out {maxLen : Int32} {out : Memory} {bytes : List UInt8} {i : ℕ} (hi : maxLen.toInt < i) :
    (wsVerdict maxLen out bytes).out i = out i := by
  rw [wsVerdict]
  cases hdecode : decodeHeader bytes with
  | none => rfl
  | some h =>
    dsimp only
    split
    case isTrue => rfl
    case isFalse hmax =>
      split
      case isTrue hbody => exact Memory.store_of_ge (by omega)
      case isFalse hbody =>
        obtain ⟨f, -, hmask, hpayload, -⟩ := exists_frame hdecode (Nat.not_lt.1 hbody)
        have hlen : f.content.length = h.length := by
          rw [f.length_content, hpayload, List.length_take_of_le (Nat.not_lt.1 hbody)]
        rw [Memory.framed_eq out hmask hpayload (Nat.not_lt.1 hbody)]
        exact Memory.store_of_ge (by rw [List.length_append, List.length_singleton, hlen]; omega)

/-! ### The pong that was written -/

/-- The form of a pong. -/
def pongForm (length : ℕ) : LengthForm := if length < 126 then .short else .medium

/-- The pong of a ping. -/
def pongFrame (payload : List UInt8) (mask : Mask) (h : payload.length ≤ 65535) : Frame where
  head := 0x8A
  form := pongForm payload.length
  mask := some mask
  payload := mask.apply payload
  fits := by
    rw [mask.length_apply, pongForm]
    split
    case isTrue hshort => exact hshort
    case isFalse => exact Nat.lt_succ_of_le h

theorem content_pongFrame (payload : List UInt8) (mask : Mask) (h : payload.length ≤ 65535) :
    (pongFrame payload mask h).content = payload := mask.apply_apply payload

theorem medium_write (len : ℕ) :
    LengthForm.medium.write len = [UInt8.ofNat (len >>> 8 &&& 0xFF), UInt8.ofNat (len &&& 0xFF)] := by
  have hhigh : len >>> 8 &&& 0xFF = len / 256 % 256 := by
    rw [Nat.shiftRight_eq_div_pow]
    exact Nat.and_two_pow_sub_one_eq_mod _ 8
  have hlow : len &&& 0xFF = len % 256 := Nat.and_two_pow_sub_one_eq_mod _ 8
  rw [hhigh, hlow]
  simp [LengthForm.write, LengthForm.extra, toBE, toLE]

/-- The bytes in front of the mask of a pong. -/
theorem pong_length {len : ℕ} (h : len ≤ 65535) :
    (if len < 126 then [0x80 ||| UInt8.ofNat len]
      else [0x80 ||| 126, UInt8.ofNat (len >>> 8 &&& 0xFF), UInt8.ofNat (len &&& 0xFF)]) =
      UInt8.ofNat (128 + (pongForm len).code len) :: (pongForm len).write len := by
  rw [pongForm]
  split
  case isTrue hshort =>
    have hor : 0x80 ||| UInt8.ofNat len = UInt8.ofNat (128 + len) := by
      refine UInt8.toNat_inj.1 ?_
      rw [UInt8.toNat_or, UInt8.toNat_ofNat', UInt8.toNat_ofNat', Nat.mod_eq_of_lt (by omega),
        Nat.mod_eq_of_lt (by omega)]
      exact (Nat.two_pow_add_eq_or_of_lt (i := 7) (by omega) 1).symm
    rw [hor]
    rfl
  case isFalse =>
    have hcode : (0x80 : UInt8) ||| 126 = UInt8.ofNat (128 + 126) := by decide
    rw [← medium_write, hcode]
    rfl

theorem wsBuildPong_eq {payload : List UInt8} {mask : Mask} {cap : ℕ} (h : payload.length ≤ 65535)
    (hcap : (if payload.length < 126 then 6 else 8) + payload.length ≤ cap) :
    wsBuildPong payload mask cap = (pongFrame payload mask h).encode := by
  have hroom : ¬cap < (if payload.length < 126 then 2 else 4) + 4 + payload.length := by
    split at hcap <;> split <;> omega
  rw [wsBuildPong, if_neg (Nat.not_lt.2 h), if_neg hroom, pong_length h, Frame.encode, Frame.second]
  have hlen : (pongFrame payload mask h).payload.length = payload.length := mask.length_apply _
  rw [hlen]
  show _ ++ mask.bytes ++ mask.apply payload = _
  rw [List.append_assoc]
  rfl

/-! ### Main results -/

/-- Two calls returned the same, and after a frame they stand at the same byte. -/
structure FrameRead.Same (a b : FrameRead) : Prop where
  ret : a.ret = b.ret
  opcode : a.opcode = b.opcode
  fin : a.fin = b.fin
  out : a.out = b.out
  rest : 0 ≤ a.ret.toInt → a.rest.bytes = b.rest.bytes

/-- A call returned this frame, its payload in the buffer with a zero behind it. -/
structure FrameRead.Holds (a : FrameRead) (f : Frame) (out : Memory) : Prop where
  ret : a.ret = Int32.ofNat f.content.length
  opcode : a.opcode = Int32.ofNat f.opcode
  fin : a.fin = Int32.ofNat f.fin
  out : a.out = out.store (f.content ++ [0])

/-- What a call on a stream may do: it has taken one frame that fits, or it reports an error; behind
    the buffer nothing is written. -/
structure FrameRead.Right (a : FrameRead) (bytes : List UInt8) (out : Memory) (maxLen : Int32) : Prop where
  frame : 0 ≤ a.ret.toInt → ∃ f : Frame, bytes = f.encode ++ a.rest.bytes ∧ f.payload.length ≤ maxLen.toInt ∧
    a.Holds f out
  inBounds : ∀ i : ℕ, maxLen.toInt < i → a.out i = out i
  truncated : ∀ f : Frame, bytes <+: f.encode → bytes ≠ f.encode → a.ret.toInt < 0
  tooLong : ∀ (f : Frame) (rest : List UInt8), bytes = f.encode ++ rest → maxLen.toInt < f.payload.length →
    a.ret.toInt < 0

/-- A call returned a pong with this payload. -/
structure FrameRead.IsPong (a : FrameRead) (payload : List UInt8) (out : Memory) : Prop where
  ret : a.ret = Int32.ofNat payload.length
  opcode : a.opcode = 10
  fin : a.fin = 1
  out : a.out = out.store (payload ++ [0])

theorem headOf_encode (f : Frame) (rest : List UInt8) : headOf (f.encode ++ rest) = some f.head :=
  if_pos (by rw [Frame.encode]; simp)

theorem holds_of_frame (f : Frame) (rest : List UInt8) (cut : ℕ → ℕ) (out : Memory) (maxLen opcode fin : Int32)
    (hmax : f.payload.length ≤ maxLen.toInt) :
    (wsReadFrame ⟨f.encode ++ rest, cut⟩ out maxLen opcode fin).Holds f out ∧
      (wsReadFrame ⟨f.encode ++ rest, cut⟩ out maxLen opcode fin).rest.bytes = rest := by
  obtain ⟨hret, hout, hopcode, hfin, hrest⟩ := wsReadFrame_verdict ⟨f.encode ++ rest, cut⟩ out maxLen opcode fin
  rw [wsVerdict_frame f rest hmax] at hret hout
  rw [headOf_encode] at hopcode hfin
  refine ⟨⟨hret, hopcode.trans (opcodeOf_head f), hfin.trans (finOf_head f), hout⟩, ?_⟩
  refine (hrest _ (decodeHeader_encode f rest) hmax ?_).trans List.drop_left
  rw [List.length_append]
  exact Nat.le_add_right ..

theorem same_cuts (bytes : List UInt8) (cut cut' : ℕ → ℕ) (out : Memory) (maxLen opcode fin : Int32) :
    (wsReadFrame ⟨bytes, cut⟩ out maxLen opcode fin).Same (wsReadFrame ⟨bytes, cut'⟩ out maxLen opcode fin) := by
  obtain ⟨hret, hout, hopcode, hfin, hrest⟩ := wsReadFrame_verdict ⟨bytes, cut⟩ out maxLen opcode fin
  obtain ⟨hret', hout', hopcode', hfin', hrest'⟩ := wsReadFrame_verdict ⟨bytes, cut'⟩ out maxLen opcode fin
  refine ⟨hret.trans hret'.symm, hopcode.trans hopcode'.symm, hfin.trans hfin'.symm, hout.trans hout'.symm, ?_⟩
  intro hnonneg
  rw [hret] at hnonneg
  obtain ⟨h, hdecode, hmax, hbody, -⟩ := wsVerdict_nonneg hnonneg
  exact (hrest h hdecode hmax hbody).trans (hrest' h hdecode hmax hbody).symm

theorem right_read (bytes : List UInt8) (cut : ℕ → ℕ) (out : Memory) (maxLen opcode fin : Int32) :
    (wsReadFrame ⟨bytes, cut⟩ out maxLen opcode fin).Right bytes out maxLen := by
  obtain ⟨hret, hout, -, -, hrest⟩ := wsReadFrame_verdict ⟨bytes, cut⟩ out maxLen opcode fin
  have hframe : 0 ≤ (wsReadFrame ⟨bytes, cut⟩ out maxLen opcode fin).ret.toInt →
      ∃ f : Frame, bytes = f.encode ++ (wsReadFrame ⟨bytes, cut⟩ out maxLen opcode fin).rest.bytes ∧
        f.payload.length ≤ maxLen.toInt ∧ (wsReadFrame ⟨bytes, cut⟩ out maxLen opcode fin).Holds f out := by
    intro hnonneg
    rw [hret] at hnonneg
    obtain ⟨h, hdecode, hmax, hbody, -⟩ := wsVerdict_nonneg hnonneg
    obtain ⟨f, -, -, hpayload, hbytes⟩ := exists_frame hdecode hbody
    have hfits : f.payload.length ≤ maxLen.toInt := by rw [hpayload, List.length_take_of_le hbody]; exact hmax
    have hholds := holds_of_frame f (h.body.drop h.length) cut out maxLen opcode fin hfits
    rw [← hbytes] at hholds
    exact ⟨f, by rw [hholds.2]; exact hbytes, hfits, hholds.1⟩
  refine ⟨hframe, fun i hi => (congrFun hout i).trans (wsVerdict_out hi), ?_, ?_⟩
  · intro f hprefix hne
    by_contra hneg
    obtain ⟨f', hbytes, -⟩ := hframe (not_lt.1 hneg)
    exact hne (Frame.eq_of_encode_prefix hprefix hbytes).1
  · intro f rest hbytes hlong
    by_contra hneg
    obtain ⟨f', hbytes', hmax, -⟩ := hframe (not_lt.1 hneg)
    obtain ⟨rfl, -⟩ := Frame.encode_append_inj (hbytes.symm.trans hbytes')
    omega

/-- The frame reader takes one frame of the stream or reports an error, never writes behind its
    buffer, and does not depend on the cuts; it reads back every pong that was written. -/
theorem wsReadFrame_right (bytes : List UInt8) (cut cut' : ℕ → ℕ) (out : Memory) (maxLen opcode fin : Int32)
    (payload : List UInt8) (mask : Mask) (cap : ℕ) (rest : List UInt8) (hlen : payload.length ≤ 65535)
    (hcap : (if payload.length < 126 then 6 else 8) + payload.length ≤ cap) (hmax : payload.length ≤ maxLen.toInt) :
    (wsReadFrame ⟨bytes, cut⟩ out maxLen opcode fin).Same (wsReadFrame ⟨bytes, cut'⟩ out maxLen opcode fin) ∧
      (wsReadFrame ⟨bytes, cut⟩ out maxLen opcode fin).Right bytes out maxLen ∧
      (wsReadFrame ⟨wsBuildPong payload mask cap ++ rest, cut⟩ out maxLen opcode fin).IsPong payload out ∧
      (wsReadFrame ⟨wsBuildPong payload mask cap ++ rest, cut⟩ out maxLen opcode fin).rest.bytes = rest := by
  have hcontent := content_pongFrame payload mask hlen
  have hopcode : Int32.ofNat ((0x8A : UInt8).toNat % 16) = 10 := by decide
  have hfin : Int32.ofNat ((0x8A : UInt8).toNat / 128) = 1 := by decide
  obtain ⟨hholds, hrest⟩ := holds_of_frame (pongFrame payload mask hlen) rest cut out maxLen opcode fin
    (by rw [← Frame.length_content, hcontent]; exact hmax)
  rw [← wsBuildPong_eq hlen hcap] at hholds hrest
  have hout := hholds.out
  have hret := hholds.ret
  rw [hcontent] at hout hret
  exact ⟨same_cuts .., right_read .., ⟨hret, hholds.opcode.trans hopcode, hholds.fin.trans hfin, hout⟩, hrest⟩

def sampleMask : Mask := ⟨0x37, 0xfa, 0x21, 0x3d⟩

theorem wsReadFrame_right_ping :
    (wsReadFrame ⟨[0x81, 0x02, 0x68, 0x69], fun _ => 0⟩ (fun _ => 1) 64 0 0).Same
        (wsReadFrame ⟨[0x81, 0x02, 0x68, 0x69], fun _ => 7⟩ (fun _ => 1) 64 0 0) ∧
      (wsReadFrame ⟨[0x81, 0x02, 0x68, 0x69], fun _ => 0⟩ (fun _ => 1) 64 0 0).Right [0x81, 0x02, 0x68, 0x69]
        (fun _ => 1)
        64 ∧
      (wsReadFrame ⟨wsBuildPong [0x31, 0x37] sampleMask 256 ++ [0x81], fun _ => 0⟩ (fun _ => 1) 64 0 0).IsPong
        [0x31, 0x37] (fun _ => 1) ∧
      (wsReadFrame ⟨wsBuildPong [0x31, 0x37] sampleMask 256 ++ [0x81], fun _ => 0⟩ (fun _ => 1) 64 0 0).rest.bytes =
        [0x81] :=
  wsReadFrame_right [0x81, 0x02, 0x68, 0x69] (fun _ => 0) (fun _ => 7) (fun _ => 1) 64 0 0 [0x31, 0x37] sampleMask 256
    [0x81] (by decide) (by decide) (by decide)

end FoxTrader
