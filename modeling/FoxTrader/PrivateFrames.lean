import FoxTrader.WebSocketUtil

/-! # The private frame readers

    The user-data stream and the trade stream read frames with code of their own: the extended length
    is loaded and byte-swapped, and the length is narrowed to an `int` before it is compared with the
    buffer, while the zero behind the payload goes where the whole length points. Below 2³¹ they agree
    with `ws_read_frame`; from there on they may take a frame they never read and write past the
    buffer. Their pongs are put together in 256 bytes without a check. -/

namespace FoxTrader

open Lib Lib.WebSocket Function

/-! ### The readers -/

/-- `__builtin_bswap` of a little-endian load of `n` bytes. -/
def bswapLoad (n : ℕ) (ext : List UInt8) : UInt64 := UInt64.ofNat (ofLE (toLE n (ofLE ext)).reverse)

/-- The body that the two readers share; neither has the final-fragment bit. -/
def privateReadFrame (r : Io) (buf : Memory) (bufSize opcode : Int32) : FrameRead :=
  let h := readHeader (bswapLoad 2) (bswapLoad 8) r
  let opcode := (h.head.map opcodeOf).getD opcode
  match h.field with
  | none => ⟨-1, opcode, 0, buf, h.rest⟩
  | some (payLen, mask) =>
    if bufSize.toInt - 1 < (narrow payLen).toInt then ⟨-1, opcode, 0, buf, h.rest⟩
    else readPayload h opcode 0 buf mask (narrow payLen) payLen.toNat

def udWsReadFrame (r : Io) (buf : Memory) (bufSize opcode : Int32) : FrameRead :=
  privateReadFrame r buf bufSize opcode

def binanceWsReadFrame (r : Io) (buf : Memory) (bufSize opcode : Int32) : FrameRead :=
  privateReadFrame r buf bufSize opcode

/-! ### The senders -/

/-- The bytes of `__builtin_bswap16((uint16_t)len)` in memory. -/
def bswap16Bytes (len : ℕ) : List UInt8 := toLE 2 (ofLE (toLE 2 (len % 65536)).reverse)

/-- The frame that the two senders put together; it is written into `unsigned char frame[256]`. -/
def privatePong (payload : List UInt8) (maskKey : Mask) : List UInt8 :=
  let len := payload.length
  (0x8A :: if len < 126 then [0x80 ||| UInt8.ofNat len] else (0x80 ||| 126) :: bswap16Bytes len)
    ++ maskKey.bytes ++ payload.mapIdx fun i b => b ^^^ maskKey.byte i

def udWsSendPong (payload : List UInt8) (maskKey : Mask) : List UInt8 := privatePong payload maskKey

def binanceWsSendPong (payload : List UInt8) (maskKey : Mask) : List UInt8 := privatePong payload maskKey

/-- `sizeof(frame)`. -/
def pongCapacity : ℕ := 256

/-! ### What the readers do -/

theorem bswapLoad_eq {n : ℕ} {ext : List UInt8} (h : ext.length = n) : bswapLoad n ext = UInt64.ofNat (ofBE ext) := by
  rw [bswapLoad, ← h, toLE_ofLE, ofBE]

theorem bigEndian_bswap : BigEndian (bswapLoad 2) (bswapLoad 8) where
  word16 _ h := bswapLoad_eq h
  word64 _ h := bswapLoad_eq h

/-- The length of a header as an `int`. -/
def intLength (h : Header) : ℤ := Int.bmod h.length 4294967296

theorem narrow_length {h : Header} (hlt : h.length < 18446744073709551616) :
    (narrow (UInt64.ofNat h.length)).toInt = intLength h := by
  have hmod : (UInt64.ofNat h.length).toNat = h.length := by rw [UInt64.toNat_ofNat', Nat.mod_eq_of_lt hlt]
  rw [narrow_toInt, hmod]
  rfl

/-- A private reader on a stream of bytes, however they arrive. -/
def privateVerdict (bufSize : Int32) (buf : Memory) (bytes : List UInt8) : Verdict :=
  match decodeHeader bytes with
  | none => ⟨wsReadErr, buf⟩
  | some h =>
    if bufSize.toInt - 1 < intLength h then ⟨wsReadErr, buf⟩
    else if h.body.length < (intLength h).toNat then ⟨wsReadErr, buf.store h.body⟩
    else
      ⟨narrow (UInt64.ofNat h.length),
        update ((buf.store (h.body.take (intLength h).toNat)).unmask h.mask (intLength h).toNat) h.length 0⟩

theorem privateReadFrame_verdict (r : Io) (buf : Memory) (bufSize opcode : Int32) :
    (privateReadFrame r buf bufSize opcode).ret = (privateVerdict bufSize buf r.bytes).ret ∧
      (privateReadFrame r buf bufSize opcode).out = (privateVerdict bufSize buf r.bytes).out ∧
      (privateReadFrame r buf bufSize opcode).opcode = ((headOf r.bytes).map opcodeOf).getD opcode ∧
      ∀ h, decodeHeader r.bytes = some h → intLength h ≤ bufSize.toInt - 1 → (intLength h).toNat ≤ h.body.length →
        (privateReadFrame r buf bufSize opcode).rest.bytes = h.body.drop (intLength h).toNat := by
  obtain ⟨hhead, hfield, hrest⟩ := readHeader_spec bigEndian_bswap r
  rw [privateReadFrame, privateVerdict, headOf, ← hhead]
  cases hdecode : decodeHeader r.bytes with
  | none =>
    rw [hdecode] at hfield
    dsimp only
    rw [hfield]
    exact ⟨rfl, rfl, rfl, fun h hh => absurd hh.symm (Option.some_ne_none h)⟩
  | some h =>
    rw [hdecode] at hfield
    have hlt := length_lt_of_decodeHeader hdecode
    have hbody := hrest h hdecode
    have hn := narrow_length hlt
    have hwhole : (UInt64.ofNat h.length).toNat = h.length := by rw [UInt64.toNat_ofNat', Nat.mod_eq_of_lt hlt]
    dsimp only
    rw [hfield]
    dsimp only [Option.map_some]
    rw [hn, hwhole]
    by_cases hlong : bufSize.toInt - 1 < intLength h
    · rw [if_pos hlong, if_pos hlong]
      refine ⟨rfl, rfl, rfl, ?_⟩
      intro h' hh hle
      cases Option.some.inj hh
      exact absurd hle (not_le.2 hlong)
    · rw [if_neg hlong, if_neg hlong]
      by_cases hshort : h.body.length < (intLength h).toNat
      · rw [if_pos hshort]
        rw [← hbody, ← hn] at hshort
        obtain ⟨hret, hout⟩ := readPayload_short _
          (((readHeader (bswapLoad 2) (bswapLoad 8) r).head.map opcodeOf).getD opcode) 0 buf h.mask _ h.length hshort
        rw [hret, hout, hbody]
        refine ⟨rfl, rfl, (readPayload_message ..).1, ?_⟩
        intro h' hh _ hle
        cases Option.some.inj hh
        rw [hbody, hn] at hshort
        exact absurd hle (Nat.not_le.2 hshort)
      · have hall := Nat.not_lt.1 hshort
        rw [if_neg hshort]
        rw [← hbody, ← hn] at hall
        obtain ⟨hret, hout, hdrop⟩ := readPayload_all _
          (((readHeader (bswapLoad 2) (bswapLoad 8) r).head.map opcodeOf).getD opcode) 0 buf h.mask _ h.length hall
        rw [hret, hout, hbody, hn]
        refine ⟨rfl, rfl, (readPayload_message ..).1, ?_⟩
        intro h' hh _ _
        rw [hn, hbody] at hdrop
        rw [← Option.some.inj hh]
        exact hdrop

/-! ### Against the shared reader -/

theorem intLength_of_lt {h : Header} (hlt : h.length < 2147483648) : intLength h = h.length := by
  unfold intLength
  refine Int.bmod_eq_of_le ?_ ?_
  · show -2147483648 ≤ _
    omega
  · show _ < 2147483648
    omega

/-- No length that the cast changes gets past the comparison with its payload. -/
def LengthSafe (bufSize : Int32) (bytes : List UInt8) : Prop :=
  ∀ h, decodeHeader bytes = some h → 2147483648 ≤ h.length →
    bufSize.toInt - 1 < intLength h ∨ h.body.length < (intLength h).toNat

/-- A ping that fits the buffer fits the frame of its pong. -/
def PingSafe (bufSize : Int32) (bytes : List UInt8) : Prop :=
  ∀ (f : Frame) (rest : List UInt8), bytes = f.encode ++ rest → f.opcode = 9 →
    f.payload.length < bufSize.toInt → f.payload.length ≤ 248

variable {bufSize : Int32} {bytes : List UInt8}

theorem toInt_sub_one (hpos : 0 < bufSize.toInt) : (bufSize - 1).toInt = bufSize.toInt - 1 := by
  have hlt := bufSize.toInt_lt
  have hone : (1 : Int32).toInt = 1 := by decide
  refine (Int32.toInt_sub ..).trans ?_
  rw [hone]
  refine Int.bmod_eq_of_le ?_ ?_
  · show -2147483648 ≤ _
    omega
  · show _ < 2147483648
    omega

/-- With safe lengths the two readers differ in the code of an error at most. -/
theorem privateVerdict_of_safe (hpos : 0 < bufSize.toInt) (hsafe : LengthSafe bufSize bytes) (buf : Memory) :
    privateVerdict bufSize buf bytes = wsVerdict (bufSize - 1) buf bytes ∨
      (privateVerdict bufSize buf bytes).ret = wsReadErr ∧ (wsVerdict (bufSize - 1) buf bytes).ret = wsReadTooLarge ∧
        ∀ i : ℕ, bufSize.toInt ≤ i → (privateVerdict bufSize buf bytes).out i = buf i := by
  have hmax := toInt_sub_one hpos
  have hlt := bufSize.toInt_lt
  rw [privateVerdict, wsVerdict]
  cases hdecode : decodeHeader bytes with
  | none => exact .inl rfl
  | some h =>
    dsimp only
    rw [hmax]
    by_cases hsmall : h.length < 2147483648
    · have hint := intLength_of_lt hsmall
      rw [hint, Int.toNat_natCast]
      by_cases hlong : bufSize.toInt - 1 < h.length
      · rw [if_pos hlong, if_pos hlong]
        exact .inr ⟨rfl, rfl, fun i _ => rfl⟩
      · rw [if_neg hlong, if_neg hlong,
          Int32.toInt_inj.1 ((narrow_ofNat hsmall).trans (Int32.toInt_ofNat_of_lt hsmall).symm)]
        exact .inl rfl
    · have hlong : bufSize.toInt - 1 < h.length := by omega
      rw [if_pos hlong]
      refine .inr ?_
      by_cases hcast : bufSize.toInt - 1 < intLength h
      · rw [if_pos hcast]
        exact ⟨rfl, rfl, fun i _ => rfl⟩
      · have hshort := (hsafe h hdecode (Nat.not_lt.1 hsmall)).resolve_left hcast
        rw [if_neg hcast, if_pos hshort]
        exact ⟨rfl, rfl, fun i hi => Memory.store_of_ge (by omega)⟩

/-- A length that gets past the comparison by the cast puts the zero behind the buffer. -/
theorem privateVerdict_unsafe {h : Header} (buf : Memory) (hdecode : decodeHeader bytes = some h)
    (hcast : intLength h ≤ bufSize.toInt - 1) (hbody : (intLength h).toNat ≤ h.body.length) :
    (privateVerdict bufSize buf bytes).out h.length = 0 := by
  have hread : privateVerdict bufSize buf bytes = ⟨narrow (UInt64.ofNat h.length),
      update ((buf.store (h.body.take (intLength h).toNat)).unmask h.mask (intLength h).toNat) h.length 0⟩ := by
    rw [privateVerdict, hdecode]
    exact (if_neg (not_lt.2 hcast)).trans (if_neg (Nat.not_lt.2 hbody))
  rw [hread]
  exact update_self ..

/-! ### The pongs -/

theorem bswap16Bytes_eq {len : ℕ} (h : len ≤ 65535) : bswap16Bytes len = LengthForm.medium.write len := by
  have hbytes : (toLE 2 len).reverse.length = 2 := by rw [List.length_reverse, toLE_length]
  have hload := toLE_ofLE (toLE 2 len).reverse
  rw [hbytes] at hload
  rw [bswap16Bytes, Nat.mod_eq_of_lt (Nat.lt_succ_of_le h), hload]
  rfl

theorem privatePong_eq {payload : List UInt8} {mask : Mask} (h : payload.length ≤ 65535) :
    privatePong payload mask = (pongFrame payload mask h).encode := by
  have hlength := pong_length h
  rw [← medium_write, ← bswap16Bytes_eq h] at hlength
  rw [privatePong, hlength, Frame.encode, Frame.second]
  have hlen : (pongFrame payload mask h).payload.length = payload.length := mask.length_apply _
  rw [hlen]
  show _ ++ mask.bytes ++ mask.apply payload = _
  rw [List.append_assoc]
  rfl

theorem length_privatePong (payload : List UInt8) (mask : Mask) :
    (privatePong payload mask).length = (if payload.length < 126 then 6 else 8) + payload.length := by
  have hmask : mask.bytes.length = 4 := rfl
  have hbytes : (bswap16Bytes payload.length).length = 2 := toLE_length ..
  rw [privatePong, List.length_append, List.length_append, List.length_mapIdx, List.length_cons, hmask]
  split
  case isTrue => rw [List.length_singleton]
  case isFalse => rw [List.length_cons, hbytes]

/-! ### Main results -/

/-- The payload that a reader hands on. -/
def FrameRead.payload (a : FrameRead) : List UInt8 := (List.range a.ret.toInt.toNat).map a.out

/-- The bytes put together are a pong with this payload and fit where they were put together. -/
structure PongRight (frame payload : List UInt8) : Prop where
  fits : frame.length ≤ pongCapacity
  decodes : ∀ (rest : List UInt8) (cut : ℕ → ℕ) (out : Memory) (maxLen opcode fin : Int32),
    payload.length ≤ maxLen.toInt →
      (wsReadFrame ⟨frame ++ rest, cut⟩ out maxLen opcode fin).IsPong payload out ∧
        (wsReadFrame ⟨frame ++ rest, cut⟩ out maxLen opcode fin).rest.bytes = rest

/-- Two readers take the same frame, if any; their errors may have different codes. -/
structure FrameRead.Agree (a b : FrameRead) : Prop where
  taken : 0 ≤ a.ret.toInt ↔ 0 ≤ b.ret.toInt
  same : 0 ≤ a.ret.toInt → a.ret = b.ret ∧ a.opcode = b.opcode ∧ a.out = b.out ∧ a.rest.bytes = b.rest.bytes

/-- What is promised of a reader and the sender of its pongs, on a stream and a buffer. -/
structure PrivateRight (reader : Io → Memory → Int32 → Int32 → FrameRead) (sender : List UInt8 → Mask → List UInt8)
    (bytes : List UInt8) (bufSize : Int32) : Prop where
  agree : ∀ (cut : ℕ → ℕ) (buf : Memory) (opcode fin : Int32),
    (reader ⟨bytes, cut⟩ buf bufSize opcode).Agree (wsReadFrame ⟨bytes, cut⟩ buf (bufSize - 1) opcode fin)
  fits : ∀ (cut : ℕ → ℕ) (buf : Memory) (opcode : Int32), 0 ≤ (reader ⟨bytes, cut⟩ buf bufSize opcode).ret.toInt →
    ∃ (f : Frame) (rest : List UInt8), bytes = f.encode ++ rest ∧ f.payload.length < bufSize.toInt
  inBounds : ∀ (cut : ℕ → ℕ) (buf : Memory) (opcode : Int32) (i : ℕ), bufSize.toInt ≤ i →
    (reader ⟨bytes, cut⟩ buf bufSize opcode).out i = buf i
  pong : ∀ (cut : ℕ → ℕ) (buf : Memory) (opcode : Int32) (mask : Mask),
    0 ≤ (reader ⟨bytes, cut⟩ buf bufSize opcode).ret.toInt → (reader ⟨bytes, cut⟩ buf bufSize opcode).opcode = 9 →
      PongRight (sender (reader ⟨bytes, cut⟩ buf bufSize opcode).payload mask)
        (reader ⟨bytes, cut⟩ buf bufSize opcode).payload

theorem payload_of_holds {a : FrameRead} {f : Frame} {out : Memory} (h : a.Holds f out)
    (hlt : f.content.length < 2147483648) : a.payload = f.content := by
  have hret : a.ret.toInt.toNat = f.content.length := by
    rw [h.ret, Int32.toInt_ofNat_of_lt hlt, Int.toNat_natCast]
  refine List.ext_getElem (by rw [FrameRead.payload, List.length_map, List.length_range, hret]) fun i _ hi => ?_
  simp only [FrameRead.payload, List.getElem_map, List.getElem_range, h.out]
  rw [Memory.store, List.getD_append _ _ _ _ hi, List.getD_eq_getElem _ _ hi]

theorem opcode_eq_nine (f : Frame) : Int32.ofNat f.opcode = 9 ↔ f.opcode = 9 := by
  have hlt : f.opcode < 16 := Nat.mod_lt _ (by decide)
  generalize f.opcode = code at hlt ⊢
  revert code
  decide

/-- A short pong can be read back. -/
theorem pongRight_of_le {payload : List UInt8} (mask : Mask) (h : payload.length ≤ 248) :
    PongRight (privatePong payload mask) payload where
  fits := by
    rw [length_privatePong, pongCapacity]
    split <;> omega
  decodes rest cut out maxLen opcode fin hmax := by
    have hlen : payload.length ≤ 65535 := by omega
    have hcontent := content_pongFrame payload mask hlen
    have hopcode : Int32.ofNat ((0x8A : UInt8).toNat % 16) = 10 := by decide
    have hfin : Int32.ofNat ((0x8A : UInt8).toNat / 128) = 1 := by decide
    obtain ⟨hholds, hrest⟩ := holds_of_frame (pongFrame payload mask hlen) rest cut out maxLen opcode fin
      (by rw [← Frame.length_content, hcontent]; exact hmax)
    rw [← privatePong_eq hlen] at hholds hrest
    have hret := hholds.ret
    have hout := hholds.out
    rw [hcontent] at hret hout
    exact ⟨⟨hret, hholds.opcode.trans hopcode, hholds.fin.trans hfin, hout⟩, hrest⟩

theorem agree_of_safe (hpos : 0 < bufSize.toInt) (hsafe : LengthSafe bufSize bytes) (cut : ℕ → ℕ) (buf : Memory)
    (opcode fin : Int32) :
    (privateReadFrame ⟨bytes, cut⟩ buf bufSize opcode).Agree
      (wsReadFrame ⟨bytes, cut⟩ buf (bufSize - 1) opcode fin) := by
  obtain ⟨pret, pout, popcode, prest⟩ := privateReadFrame_verdict ⟨bytes, cut⟩ buf bufSize opcode
  obtain ⟨wret, wout, wopcode, -, wrest⟩ := wsReadFrame_verdict ⟨bytes, cut⟩ buf (bufSize - 1) opcode fin
  rcases privateVerdict_of_safe hpos hsafe buf with heq | ⟨herr, hlong, -⟩
  · rw [heq] at pret pout
    refine ⟨by rw [pret, wret], fun hret =>
      ⟨pret.trans wret.symm, popcode.trans wopcode.symm, pout.trans wout.symm, ?_⟩⟩
    rw [pret] at hret
    obtain ⟨h, hdecode, hmax, hbody, -⟩ := wsVerdict_nonneg hret
    have hbound := hmax
    have hlt := bufSize.toInt_lt
    rw [toInt_sub_one hpos] at hbound
    have hint : intLength h = h.length := intLength_of_lt (by omega)
    have hp := prest h hdecode
    rw [hint, Int.toNat_natCast] at hp
    exact (hp hbound hbody).trans (wrest h hdecode hmax hbody).symm
  · rw [herr] at pret
    rw [hlong] at wret
    refine ⟨by rw [pret, wret]; exact iff_of_false wsReadErr_neg wsReadTooLarge_neg, fun hret => ?_⟩
    rw [pret] at hret
    exact absurd hret wsReadErr_neg

/-- A frame that is taken has been read by the shared reader too. -/
theorem taken_of_agree (hpos : 0 < bufSize.toInt) {a : FrameRead} {cut : ℕ → ℕ} {buf : Memory} {opcode fin : Int32}
    (hagree : a.Agree (wsReadFrame ⟨bytes, cut⟩ buf (bufSize - 1) opcode fin)) (hret : 0 ≤ a.ret.toInt) :
    ∃ (f : Frame) (rest : List UInt8), bytes = f.encode ++ rest ∧ f.payload.length < bufSize.toInt ∧
      a.payload = f.content ∧ (a.opcode = 9 ↔ f.opcode = 9) := by
  obtain ⟨hsame, hopcode, hout, -⟩ := hagree.same hret
  obtain ⟨f, hbytes, hfits, hholds⟩ :=
    (right_read bytes cut buf (bufSize - 1) opcode fin).frame (hagree.taken.1 hret)
  rw [toInt_sub_one hpos] at hfits
  have hlt := bufSize.toInt_lt
  have hlen := f.length_content
  refine ⟨f, _, hbytes, by omega, ?_, ?_⟩
  · rw [FrameRead.payload, hsame, hout]
    exact payload_of_holds hholds (by omega)
  · rw [hopcode, hholds.opcode]
    exact opcode_eq_nine f

theorem privateRight_iff (hpos : 0 < bufSize.toInt) :
    PrivateRight privateReadFrame privatePong bytes bufSize ↔ LengthSafe bufSize bytes ∧ PingSafe bufSize bytes := by
  constructor
  · intro hright
    refine ⟨?_, ?_⟩
    · intro h hdecode hlong
      by_contra hneg
      rw [not_or, not_lt, Nat.not_lt] at hneg
      have hlt := bufSize.toInt_lt
      -- A buffer of ones, and ones behind it.
      have hone := hright.inBounds (fun _ => 0) (fun _ => 1) 0 h.length (by omega)
      have hzero := (privateReadFrame_verdict ⟨bytes, fun _ => 0⟩ (fun _ => 1) bufSize 0).2.1
      rw [hzero, privateVerdict_unsafe _ hdecode hneg.1 hneg.2] at hone
      exact absurd hone (by decide)
    · intro f rest hbytes hopcode hlen
      have hlt := bufSize.toInt_lt
      have hagree := hright.agree (fun _ => 0) (fun _ => 1) 0 0
      obtain ⟨hholds, -⟩ := holds_of_frame f rest (fun _ => 0) (fun _ => 1) (bufSize - 1) 0 0
        (by rw [toInt_sub_one hpos]; omega)
      rw [← hbytes] at hholds
      have hcontent := f.length_content
      have hret := hagree.taken.2 (by
        rw [hholds.ret, Int32.toInt_ofNat_of_lt (by omega)]
        omega)
      obtain ⟨hsame, hcode, hout, -⟩ := hagree.same hret
      have hpong := hright.pong (fun _ => 0) (fun _ => 1) 0 ⟨0, 0, 0, 0⟩ hret
        (by rw [hcode, hholds.opcode]; exact (opcode_eq_nine f).2 hopcode)
      have hpayload := payload_of_holds hholds (by omega)
      rw [FrameRead.payload, ← hsame, ← hout] at hpayload
      have hroom := hpong.fits
      rw [FrameRead.payload, hpayload, length_privatePong, pongCapacity] at hroom
      split at hroom <;> omega
  · rintro ⟨hsafe, hping⟩
    refine ⟨agree_of_safe hpos hsafe, ?_, ?_, ?_⟩
    · intro cut buf opcode hret
      obtain ⟨f, rest, hbytes, hlen, -⟩ := taken_of_agree hpos (agree_of_safe hpos hsafe cut buf opcode 0) hret
      exact ⟨f, rest, hbytes, hlen⟩
    · intro cut buf opcode i hi
      rw [(privateReadFrame_verdict ⟨bytes, cut⟩ buf bufSize opcode).2.1]
      rcases privateVerdict_of_safe hpos hsafe buf with heq | ⟨-, -, hout⟩
      · rw [heq]
        exact wsVerdict_out (by rw [toInt_sub_one hpos]; omega)
      · exact hout i hi
    · intro cut buf opcode mask hret hnine
      obtain ⟨f, rest, hbytes, hlen, hpayload, hcode⟩ :=
        taken_of_agree hpos (agree_of_safe hpos hsafe cut buf opcode 0) hret
      rw [hpayload]
      refine pongRight_of_le mask ?_
      rw [f.length_content]
      exact hping f rest hbytes (hcode.1 hnine) hlen

/-- Each private reader agrees with the shared one, stays in its buffer and is answered by a right pong,
    exactly on the streams whose next length the cast leaves alone or refuses and whose next ping has
    at most 248 bytes. -/
theorem privateReaders_right (bytes : List UInt8) (bufSize : Int32) (hpos : 0 < bufSize.toInt) :
    (PrivateRight udWsReadFrame udWsSendPong bytes bufSize ↔ LengthSafe bufSize bytes ∧ PingSafe bufSize bytes) ∧
      (PrivateRight binanceWsReadFrame binanceWsSendPong bytes bufSize ↔
        LengthSafe bufSize bytes ∧ PingSafe bufSize bytes) :=
  ⟨privateRight_iff hpos, privateRight_iff hpos⟩

theorem privateReaders_right_text :
    (PrivateRight udWsReadFrame udWsSendPong [0x81, 0x01, 0x7b] 4096 ↔
        LengthSafe 4096 [0x81, 0x01, 0x7b] ∧ PingSafe 4096 [0x81, 0x01, 0x7b]) ∧
      (PrivateRight binanceWsReadFrame binanceWsSendPong [0x81, 0x01, 0x7b] 4096 ↔
        LengthSafe 4096 [0x81, 0x01, 0x7b] ∧ PingSafe 4096 [0x81, 0x01, 0x7b]) :=
  privateReaders_right [0x81, 0x01, 0x7b] 4096 (by decide)

/-- A length of 2³², whose low 32 bits are zero: both readers take an empty frame and write a zero four
    gigabytes behind their buffers, where the shared reader refuses the length. -/
theorem privateReaders_castLength :
    ¬PrivateRight udWsReadFrame udWsSendPong [0x82, 127, 0, 0, 0, 1, 0, 0, 0, 0] 4096 ∧
      ¬PrivateRight binanceWsReadFrame binanceWsSendPong [0x82, 127, 0, 0, 0, 1, 0, 0, 0, 0] 4096 := by
  have hunsafe : ¬LengthSafe 4096 [0x82, 127, 0, 0, 0, 1, 0, 0, 0, 0] := by
    intro hsafe
    exact absurd (hsafe ⟨0x82, 4294967296, none, []⟩ (by rfl) (by decide)) (by decide)
  exact ⟨fun h => hunsafe ((privateRight_iff (by decide)).1 h).1, fun h =>
    hunsafe ((privateRight_iff (by decide)).1 h).1⟩

end FoxTrader
