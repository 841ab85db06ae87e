import FoxTrader.Lib.Codec

/-! # WebSocket frames

    A frame starts with two bytes: the bits of the message, then the mask bit over a length code. A
    payload below 126 bytes has its length as the code; codes 126 and 127 announce two and eight bytes
    of length, the higher byte first. A mask of four bytes may follow, and then the payload. What
    stands in front of the payload says where the frame ends, so no frame is the beginning of another. -/

namespace Lib.WebSocket

/-! ### The length -/

/-- The number whose bytes are given, the highest first. -/
def ofBE (bs : List UInt8) : Nat := ofLE bs.reverse

def toBE (n v : Nat) : List UInt8 := (toLE n v).reverse

theorem toBE_length (n v : Nat) : (toBE n v).length = n := by rw [toBE, List.length_reverse, toLE_length]

theorem ofBE_toBE (n v : Nat) : ofBE (toBE n v) = v % 256 ^ n := by
  rw [ofBE, toBE, List.reverse_reverse, ofLE_toLE]

theorem toBE_ofBE (bs : List UInt8) : toBE bs.length (ofBE bs) = bs := by
  have h := toLE_ofLE bs.reverse
  rw [List.length_reverse] at h
  rw [toBE, ofBE, h, List.reverse_reverse]

theorem ofBE_lt (bs : List UInt8) : ofBE bs < 256 ^ bs.length := by
  have h := ofLE_lt bs.reverse
  rwa [List.length_reverse] at h

theorem ofBE_concat (bs : List UInt8) (b : UInt8) : ofBE (bs ++ [b]) = ofBE bs * 256 + b.toNat := by
  rw [ofBE, List.reverse_concat, ofLE, ofBE]
  ring

/-- How a length is written. -/
inductive LengthForm where
  | short | medium | long
  deriving DecidableEq

/-- The bytes behind the code. -/
def LengthForm.extra : LengthForm → Nat
  | .short => 0
  | .medium => 2
  | .long => 8

/-- The lengths that a form can write are below this. -/
def LengthForm.bound : LengthForm → Nat
  | .short => 126
  | .medium => 65536
  | .long => 18446744073709551616

def LengthForm.code (form : LengthForm) (length : Nat) : Nat :=
  match form with
  | .short => length
  | .medium => 126
  | .long => 127

/-- The form that a code announces. -/
def LengthForm.ofCode (code : Nat) : LengthForm :=
  if code = 126 then .medium else if code = 127 then .long else .short

theorem LengthForm.code_lt {form : LengthForm} {length : Nat} (h : length < form.bound) : form.code length < 128 := by
  cases form with
  | short => exact Nat.lt_trans h (by decide)
  | medium => exact (by decide : 126 < 128)
  | long => exact (by decide : 127 < 128)

theorem LengthForm.ofCode_code {form : LengthForm} {length : Nat} (h : length < form.bound) :
    LengthForm.ofCode (form.code length) = form := by
  cases form with
  | short =>
    have hlt : length < 126 := h
    rw [ofCode, code, if_neg (by omega), if_neg (by omega)]
  | medium => rfl
  | long => rfl

theorem LengthForm.bound_le (form : LengthForm) : form.bound ≤ 18446744073709551616 := by cases form <;> decide

/-- The bytes of a length in a form. -/
def LengthForm.write (form : LengthForm) (length : Nat) : List UInt8 := toBE form.extra length

theorem LengthForm.length_write (form : LengthForm) (length : Nat) : (form.write length).length = form.extra :=
  toBE_length ..

/-- The code and the bytes say what the length is. -/
theorem LengthForm.read_write {form : LengthForm} {length : Nat} (h : length < form.bound) :
    (if form.extra = 0 then form.code length else ofBE (form.write length)) = length := by
  cases form with
  | short => rfl
  | medium => exact (ofBE_toBE 2 length).trans (Nat.mod_eq_of_lt h)
  | long => exact (ofBE_toBE 8 length).trans (Nat.mod_eq_of_lt h)

/-! ### The mask -/

structure Mask where
  b₀ : UInt8
  b₁ : UInt8
  b₂ : UInt8
  b₃ : UInt8
  deriving DecidableEq

def Mask.bytes (m : Mask) : List UInt8 := [m.b₀, m.b₁, m.b₂, m.b₃]

def Mask.byte (m : Mask) (i : Nat) : UInt8 := m.bytes.getD (i % 4) 0

/-- Masking and unmasking are one operation. -/
def Mask.apply (m : Mask) (payload : List UInt8) : List UInt8 := payload.mapIdx fun i b => b ^^^ m.byte i

theorem Mask.apply_apply (m : Mask) (payload : List UInt8) : m.apply (m.apply payload) = payload := by
  rw [Mask.apply, Mask.apply, List.mapIdx_mapIdx]
  refine List.ext_getElem (by simp) fun i hi hi' => ?_
  rw [List.getElem_mapIdx]
  show payload[i] ^^^ m.byte i ^^^ m.byte i = payload[i]
  rw [UInt8.xor_assoc, UInt8.xor_self, UInt8.xor_zero]

theorem Mask.length_apply (m : Mask) (payload : List UInt8) : (m.apply payload).length = payload.length :=
  List.length_mapIdx

/-! ### Frames -/

/-- A frame; its payload as it stands on the wire. -/
structure Frame where
  /-- The bits of the message: final fragment, extensions, opcode. -/
  head : UInt8
  form : LengthForm
  mask : Option Mask
  payload : List UInt8
  fits : payload.length < form.bound

def maskBytes : Option Mask → List UInt8
  | none => []
  | some m => m.bytes

def maskBit : Option Mask → Nat
  | none => 0
  | some _ => 1

/-- The second byte. -/
def Frame.second (f : Frame) : UInt8 := UInt8.ofNat (maskBit f.mask * 128 + f.form.code f.payload.length)

def Frame.encode (f : Frame) : List UInt8 :=
  f.head :: f.second :: (f.form.write f.payload.length ++ (maskBytes f.mask ++ f.payload))

/-- The payload without its mask. -/
def Frame.content (f : Frame) : List UInt8 :=
  match f.mask with
  | none => f.payload
  | some m => m.apply f.payload

def Frame.opcode (f : Frame) : Nat := f.head.toNat % 16

def Frame.fin (f : Frame) : Nat := f.head.toNat / 128

theorem Frame.length_content (f : Frame) : f.content.length = f.payload.length := by
  rw [Frame.content]
  cases f.mask with
  | none => rfl
  | some m => exact m.length_apply _

theorem Frame.toNat_second (f : Frame) :
    f.second.toNat = maskBit f.mask * 128 + f.form.code f.payload.length := by
  have hcode := LengthForm.code_lt f.fits
  have hbit : maskBit f.mask ≤ 1 := by
    cases f.mask with
    | none => exact Nat.zero_le 1
    | some m => exact Nat.le_refl 1
  rw [Frame.second, UInt8.toNat_ofNat']
  exact Nat.mod_eq_of_lt (by omega)

theorem maskBytes_append_inj {m m' : Option Mask} {rest rest' : List UInt8} (hbit : maskBit m = maskBit m')
    (h : maskBytes m ++ rest = maskBytes m' ++ rest') : m = m' ∧ rest = rest' := by
  cases m with
  | none =>
    cases m' with
    | none => exact ⟨rfl, h⟩
    | some m' => exact absurd hbit Nat.zero_ne_one
  | some m =>
    cases m' with
    | none => exact absurd hbit Nat.one_ne_zero
    | some m' =>
      obtain ⟨hbytes, hrest⟩ := List.append_inj h rfl
      obtain ⟨b₀, b₁, b₂, b₃⟩ := m
      obtain ⟨c₀, c₁, c₂, c₃⟩ := m'
      cases hbytes
      exact ⟨rfl, hrest⟩

/-- A stream that starts with a frame starts with no other. -/
theorem Frame.encode_append_inj {f f' : Frame} {rest rest' : List UInt8}
    (h : f.encode ++ rest = f'.encode ++ rest') : f = f' ∧ rest = rest' := by
  have hcode := LengthForm.code_lt f.fits
  have hcode' := LengthForm.code_lt f'.fits
  rw [Frame.encode, Frame.encode, List.cons_append, List.cons_append, List.cons_append, List.cons_append] at h
  obtain ⟨hhead, h⟩ := List.cons.inj h
  obtain ⟨hsecond, h⟩ := List.cons.inj h
  have hvalue := congrArg UInt8.toNat hsecond
  rw [f.toNat_second, f'.toNat_second] at hvalue
  have hcodes : f.form.code f.payload.length = f'.form.code f'.payload.length := by omega
  have hbits : maskBit f.mask = maskBit f'.mask := by omega
  have hform : f.form = f'.form := by
    rw [← LengthForm.ofCode_code f.fits, hcodes, LengthForm.ofCode_code f'.fits]
  simp only [List.append_assoc] at h
  obtain ⟨hwrite, h⟩ := List.append_inj h (by rw [LengthForm.length_write, LengthForm.length_write, hform])
  have hlength : f.payload.length = f'.payload.length := by
    rw [← LengthForm.read_write f.fits, hwrite, hcodes, hform, LengthForm.read_write f'.fits]
  obtain ⟨hmask, h⟩ := maskBytes_append_inj hbits h
  obtain ⟨hpayload, hrest⟩ := List.append_inj h hlength
  refine ⟨?_, hrest⟩
  cases f
  cases f'
  cases hhead
  cases hform
  cases hmask
  cases hpayload
  rfl

/-- The beginning of a frame that lacks its end starts with no frame. -/
theorem Frame.eq_of_encode_prefix {f f' : Frame} {bytes rest : List UInt8} (h : bytes <+: f.encode)
    (h' : bytes = f'.encode ++ rest) : bytes = f.encode ∧ f' = f := by
  obtain ⟨tail, htail⟩ := h
  rw [h', List.append_assoc] at htail
  obtain ⟨heq, hnil⟩ := Frame.encode_append_inj (htail.trans (List.append_nil f.encode).symm)
  obtain ⟨hrest, -⟩ := List.append_eq_nil_iff.1 hnil
  exact ⟨by rw [h', heq, hrest, List.append_nil], heq⟩

/-! ### Reading a frame -/

/-- What stands in front of a payload, and the bytes behind it. -/
structure Header where
  head : UInt8
  length : Nat
  mask : Option Mask
  body : List UInt8

/-- A length, and the bytes behind it. -/
def decodeLength (code : Nat) (bytes : List UInt8) : Option (Nat × List UInt8) :=
  let extra := (LengthForm.ofCode code).extra
  if bytes.length < extra then none
  else some (if extra = 0 then code else ofBE (bytes.take extra), bytes.drop extra)

def decodeMask (masked : Bool) (bytes : List UInt8) : Option (Option Mask × List UInt8) :=
  if masked then
    if bytes.length < 4 then none
    else some (some ⟨bytes.getD 0 0, bytes.getD 1 0, bytes.getD 2 0, bytes.getD 3 0⟩, bytes.drop 4)
  else some (none, bytes)

def decodeHeader : List UInt8 → Option Header
  | head :: second :: bytes =>
    (decodeLength (second.toNat % 128) bytes).bind fun length =>
      (decodeMask (128 ≤ second.toNat) length.2).map fun mask => ⟨head, length.1, mask.1, mask.2⟩
  | _ => none

theorem decodeLength_write {form : LengthForm} {length : Nat} (h : length < form.bound) (rest : List UInt8) :
    decodeLength (form.code length) (form.write length ++ rest) = some (length, rest) := by
  have hwrite := LengthForm.length_write form length
  rw [decodeLength, LengthForm.ofCode_code h, if_neg (by rw [List.length_append, hwrite]; omega),
    List.take_left' hwrite, List.drop_left' hwrite,
    LengthForm.read_write h]

theorem decodeMask_maskBytes (m : Option Mask) (rest : List UInt8) :
    decodeMask (maskBit m = 1) (maskBytes m ++ rest) = some (m, rest) := by
  cases m with
  | none => rfl
  | some m =>
    have hlen : ¬(maskBytes (some m) ++ rest).length < 4 := by
      rw [List.length_append]
      exact Nat.not_lt.2 (Nat.le_add_right 4 _)
    rw [decodeMask, if_pos (by rfl), if_neg hlen]
    rfl

/-- The header of a frame. -/
theorem decodeHeader_encode (f : Frame) (rest : List UInt8) :
    decodeHeader (f.encode ++ rest) = some ⟨f.head, f.payload.length, f.mask, f.payload ++ rest⟩ := by
  have hcode := LengthForm.code_lt f.fits
  have hsecond := f.toNat_second
  have hlow : f.second.toNat % 128 = f.form.code f.payload.length := by omega
  have hmasked : decide (128 ≤ f.second.toNat) = decide (maskBit f.mask = 1) := by
    have hbit : maskBit f.mask = 0 ∨ maskBit f.mask = 1 := by
      cases f.mask with
      | none => exact .inl rfl
      | some m => exact .inr rfl
    exact decide_eq_decide.2 (by omega)
  rw [Frame.encode, List.cons_append, List.cons_append, List.append_assoc, List.append_assoc, decodeHeader, hlow,
    decodeLength_write f.fits, hmasked, Option.bind_some,
    decodeMask_maskBytes]
  rfl

theorem decodeLength_eq_some {code length : Nat} {bytes rest : List UInt8} (hcode : code < 128)
    (h : decodeLength code bytes = some (length, rest)) :
    length < (LengthForm.ofCode code).bound ∧ (LengthForm.ofCode code).code length = code ∧
      bytes = (LengthForm.ofCode code).write length ++ rest := by
  rw [decodeLength] at h
  split at h
  · exact nomatch h
  case isFalse hlen =>
    obtain ⟨hlength, hrest⟩ := Prod.mk.inj (Option.some.inj h)
    have htake : (bytes.take (LengthForm.ofCode code).extra).length = (LengthForm.ofCode code).extra := by
      rw [List.length_take]
      omega
    -- A form with bytes of its own: they are the bytes of the length.
    have hext : (LengthForm.ofCode code).extra ≠ 0 → length < 256 ^ (LengthForm.ofCode code).extra ∧
        bytes = (LengthForm.ofCode code).write length ++ rest := by
      intro hne
      rw [if_neg hne] at hlength
      have hread := toBE_ofBE (bytes.take (LengthForm.ofCode code).extra)
      have hbound := ofBE_lt (bytes.take (LengthForm.ofCode code).extra)
      rw [htake, hlength] at hread hbound
      exact ⟨hbound, by rw [LengthForm.write, hread, ← hrest, List.take_append_drop]⟩
    by_cases h126 : code = 126
    · subst h126
      obtain ⟨hbound, hbytes⟩ := hext (by decide)
      exact ⟨hbound, rfl, hbytes⟩
    · by_cases h127 : code = 127
      · subst h127
        obtain ⟨hbound, hbytes⟩ := hext (by decide)
        exact ⟨hbound, rfl, hbytes⟩
      · have hform : LengthForm.ofCode code = .short := by rw [LengthForm.ofCode, if_neg h126, if_neg h127]
        rw [hform] at hlength hrest ⊢
        have hsame : code = length := hlength
        exact ⟨show length < 126 by omega, hsame.symm, hrest⟩

theorem decodeMask_eq_some {masked : Bool} {m : Option Mask} {bytes rest : List UInt8}
    (h : decodeMask masked bytes = some (m, rest)) :
    bytes = maskBytes m ++ rest ∧ maskBit m = if masked then 1 else 0 := by
  rw [decodeMask] at h
  cases masked with
  | false =>
    obtain ⟨hmask, hrest⟩ := Prod.mk.inj (Option.some.inj h)
    subst hmask
    exact ⟨hrest, rfl⟩
  | true =>
    rw [if_pos rfl] at h
    split at h
    · exact nomatch h
    case isFalse hlen =>
      obtain ⟨hmask, hrest⟩ := Prod.mk.inj (Option.some.inj h)
      subst hmask
      refine ⟨?_, rfl⟩
      rcases bytes with _ | ⟨b₀, _ | ⟨b₁, _ | ⟨b₂, _ | ⟨b₃, bytes⟩⟩⟩⟩
      · exact absurd (show 0 < 4 by decide) hlen
      · exact absurd (show 1 < 4 by decide) hlen
      · exact absurd (show 2 < 4 by decide) hlen
      · exact absurd (show 3 < 4 by decide) hlen
      · exact congrArg ([b₀, b₁, b₂, b₃] ++ ·) hrest

theorem length_lt_of_decodeHeader {bytes : List UInt8} {h : Header} (hdecode : decodeHeader bytes = some h) :
    h.length < 18446744073709551616 := by
  match bytes, hdecode with
  | head :: second :: bytes, hdecode =>
    obtain ⟨length, hlength, hdecode⟩ := Option.bind_eq_some_iff.1 hdecode
    obtain ⟨mask, -, rfl⟩ := Option.map_eq_some_iff.1 hdecode
    exact Nat.lt_of_lt_of_le (decodeLength_eq_some (Nat.mod_lt _ (by decide)) hlength).1 (LengthForm.bound_le _)

/-- A header in front of enough bytes makes a frame. -/
theorem exists_frame {bytes : List UInt8} {h : Header} (hdecode : decodeHeader bytes = some h)
    (hbody : h.length ≤ h.body.length) :
    ∃ f : Frame, f.head = h.head ∧ f.mask = h.mask ∧ f.payload = h.body.take h.length ∧
      bytes = f.encode ++ h.body.drop h.length := by
  match bytes, hdecode with
  | head :: second :: bytes, hdecode =>
    obtain ⟨⟨length, body⟩, hlength, hdecode⟩ := Option.bind_eq_some_iff.1 hdecode
    obtain ⟨⟨mask, rest⟩, hmask, rfl⟩ := Option.map_eq_some_iff.1 hdecode
    obtain ⟨hbound, hcode, rfl⟩ := decodeLength_eq_some (Nat.mod_lt _ (by decide)) hlength
    obtain ⟨hmask, hbit⟩ := decodeMask_eq_some hmask
    have htake : (rest.take length).length = length := List.length_take_of_le hbody
    let f : Frame :=
      { head := head, form := LengthForm.ofCode (second.toNat % 128), mask := mask, payload := rest.take length
        fits := by rw [htake]; exact hbound }
    have hlen : f.payload.length = length := htake
    have hsecond : f.second = second := by
      refine UInt8.toNat_inj.1 ?_
      have hlt := second.toNat_lt
      rw [f.toNat_second, hlen]
      show maskBit mask * 128 + (LengthForm.ofCode (second.toNat % 128)).code length = second.toNat
      rw [hcode, hbit]
      by_cases hmasked : 128 ≤ second.toNat
      · rw [if_pos (decide_eq_true hmasked)]
        omega
      · rw [if_neg (by rw [decide_eq_false hmasked]; exact Bool.false_ne_true)]
        omega
    refine ⟨f, rfl, rfl, rfl, ?_⟩
    have hjoin : f.payload ++ rest.drop length = rest := List.take_append_drop ..
    rw [Frame.encode, hsecond, hlen, List.cons_append, List.cons_append, List.append_assoc, List.append_assoc, hjoin]
    exact congrArg (fun tail => head :: second :: (_ ++ tail)) hmask

end Lib.WebSocket
