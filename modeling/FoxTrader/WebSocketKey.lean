import FoxTrader.Lib.Base64

/-! # The key of a WebSocket handshake

    `Sec-WebSocket-Key` is the base64 text of sixteen random bytes. Three functions print it: those of
    the trade stream and of the user-data stream put the padding over the last digits, the shared one
    leaves the digits of the zero bits that filled the group. -/

namespace FoxTrader

open Lib

/-! ### The encoders -/

/-- `ws_b64_table`. -/
def wsB64Table : List Char := "ABCDEFGHIJKLMNOPQRSTUVWXYZabcdefghijklmnopqrstuvwxyz0123456789+/".toList

/-- `ws_b64_table[sextet & 0x3F]`. -/
def wsB64Char (sextet : UInt32) : Char := wsB64Table.getD (sextet &&& 0x3F).toNat 'A'

/-- The four characters of one turn. -/
def wsBase64Group (a b c : UInt32) : List Char :=
  let triple := a <<< 16 ||| b <<< 8 ||| c
  [wsB64Char (triple >>> 18), wsB64Char (triple >>> 12), wsB64Char (triple >>> 6), wsB64Char triple]

/-- `ws_base64_encode`: every turn reads up to three bytes, and zero for each that is missing. -/
def wsBase64Encode : List UInt8 → List Char
  | [] => []
  | [a] => wsBase64Group a.toUInt32 0 0
  | [a, b] => wsBase64Group a.toUInt32 b.toUInt32 0
  | a :: b :: c :: rest => wsBase64Group a.toUInt32 b.toUInt32 c.toUInt32 ++ wsBase64Encode rest

/-- `(3 - len % 3) % 3`. -/
def base64Pad (len : Nat) : Nat := (3 - len % 3) % 3

/-- `binance_base64_encode`, which the handshake of the user-data stream repeats in line: the same
    loop, then `=` over the last characters. -/
def binanceBase64Encode (input : List UInt8) : List Char :=
  let output := wsBase64Encode input
  let pad := base64Pad input.length
  output.take (output.length - pad) ++ List.replicate pad '='

/-! ### A group -/

theorem wsB64Table_digit : ∀ n < 64, wsB64Table.getD n 'A' = Base64.digit n := by decide +kernel

theorem wsB64Char_eq (sextet : UInt32) : wsB64Char sextet = Base64.digit (sextet.toNat % 64) := by
  have hmask : (sextet &&& 0x3F).toNat = sextet.toNat % 64 := by
    rw [UInt32.toNat_and]
    exact Nat.and_two_pow_sub_one_eq_mod _ 6
  rw [wsB64Char, hmask, wsB64Table_digit _ (Nat.mod_lt _ (by decide))]

theorem toNat_triple (a b c : UInt8) :
    (a.toUInt32 <<< 16 ||| b.toUInt32 <<< 8 ||| c.toUInt32).toNat = a.toNat * 65536 + b.toNat * 256 + c.toNat := by
  have ha := a.toNat_lt
  have hb := b.toNat_lt
  have hc := c.toNat_lt
  have hhigh : (a.toUInt32 <<< 16).toNat = 2 ^ 16 * a.toNat := by
    rw [UInt32.toNat_shiftLeft, UInt8.toNat_toUInt32]
    show a.toNat <<< 16 % 2 ^ 32 = _
    rw [Nat.shiftLeft_eq]
    omega
  have hmid : (b.toUInt32 <<< 8).toNat = 2 ^ 8 * b.toNat := by
    rw [UInt32.toNat_shiftLeft, UInt8.toNat_toUInt32]
    show b.toNat <<< 8 % 2 ^ 32 = _
    rw [Nat.shiftLeft_eq]
    omega
  have hjoin : 2 ^ 16 * a.toNat + 2 ^ 8 * b.toNat = 2 ^ 8 * (2 ^ 8 * a.toNat + b.toNat) := by omega
  rw [UInt32.toNat_or, UInt32.toNat_or, hhigh, hmid, UInt8.toNat_toUInt32,
    ← Nat.two_pow_add_eq_or_of_lt (by omega), hjoin, ← Nat.two_pow_add_eq_or_of_lt (by omega)]
  omega

theorem wsBase64Group_eq (a b c : UInt8) :
    wsBase64Group a.toUInt32 b.toUInt32 c.toUInt32 = Base64.encodeGroup a b c := by
  have ha := a.toNat_lt
  have hb := b.toNat_lt
  have hc := c.toNat_lt
  have htriple := toNat_triple a b c
  unfold wsBase64Group Base64.encodeGroup
  dsimp only
  generalize a.toUInt32 <<< 16 ||| b.toUInt32 <<< 8 ||| c.toUInt32 = triple at htriple ⊢
  have hshift : ∀ k : Nat, k < 32 → (triple >>> UInt32.ofNat k).toNat = triple.toNat / 2 ^ k := fun k hk => by
    rw [UInt32.toNat_shiftRight, UInt32.toNat_ofNat_of_lt' (Nat.lt_trans hk (show 32 < UInt32.size by decide)),
      Nat.mod_eq_of_lt hk, Nat.shiftRight_eq_div_pow]
  have h₁ : (triple >>> 18).toNat % 64 = a.toNat / 4 := by
    rw [show (18 : UInt32) = UInt32.ofNat 18 from rfl, hshift 18 (by decide)]
    omega
  have h₂ : (triple >>> 12).toNat % 64 = a.toNat % 4 * 16 + b.toNat / 16 := by
    rw [show (12 : UInt32) = UInt32.ofNat 12 from rfl, hshift 12 (by decide)]
    omega
  have h₃ : (triple >>> 6).toNat % 64 = b.toNat % 16 * 4 + c.toNat / 64 := by
    rw [show (6 : UInt32) = UInt32.ofNat 6 from rfl, hshift 6 (by decide)]
    omega
  have h₄ : triple.toNat % 64 = c.toNat % 64 := by omega
  rw [wsB64Char_eq, wsB64Char_eq, wsB64Char_eq, wsB64Char_eq, h₁, h₂, h₃, h₄]

/-! ### A text -/

/-- The text is that of the bytes with the missing ones of the last group written out as zero. -/
theorem wsBase64Encode_eq (bs : List UInt8) :
    wsBase64Encode bs = Base64.encode (bs ++ List.replicate (base64Pad bs.length) 0) := by
  induction bs using wsBase64Encode.induct with
  | case1 => rfl
  | case2 a => exact (wsBase64Group_eq a 0 0).trans (List.append_nil _).symm
  | case3 a b => exact (wsBase64Group_eq a b 0).trans (List.append_nil _).symm
  | case4 a b c rest ih =>
    have hpad : base64Pad (a :: b :: c :: rest).length = base64Pad rest.length := by
      simp only [base64Pad, List.length_cons]
      omega
    rw [wsBase64Encode, ih, wsBase64Group_eq, hpad]
    rfl

theorem length_wsBase64Encode (bs : List UInt8) : (wsBase64Encode bs).length = (bs.length + 2) / 3 * 4 := by
  rw [wsBase64Encode_eq, Base64.length_encode, List.length_append, List.length_replicate, base64Pad]
  omega

/-- The padding of the other two encoders is that of base64. -/
theorem binanceBase64Encode_eq (bs : List UInt8) : binanceBase64Encode bs = Base64.encode bs := by
  induction bs using wsBase64Encode.induct with
  | case1 => rfl
  | case2 a =>
    show (wsBase64Group a.toUInt32 0 0).take 2 ++ ['=', '='] = _
    rw [show wsBase64Group a.toUInt32 0 0 = _ from wsBase64Group_eq a 0 0]
    rfl
  | case3 a b =>
    show (wsBase64Group a.toUInt32 b.toUInt32 0).take 3 ++ ['='] = _
    rw [show wsBase64Group a.toUInt32 b.toUInt32 0 = _ from wsBase64Group_eq a b 0]
    rfl
  | case4 a b c rest ih =>
    have hpad : base64Pad (a :: b :: c :: rest).length = base64Pad rest.length := by
      simp only [base64Pad, List.length_cons]
      omega
    have hle : base64Pad rest.length ≤ (wsBase64Encode rest).length := by
      rw [length_wsBase64Encode, base64Pad]
      omega
    have hgroup : (Base64.encodeGroup a b c).length = 4 := rfl
    have hrest : (wsBase64Encode rest).take ((wsBase64Encode rest).length - base64Pad rest.length) ++
        List.replicate (base64Pad rest.length) '=' = Base64.encode rest := ih
    rw [binanceBase64Encode, wsBase64Encode, wsBase64Group_eq, hpad, Base64.encode]
    rw [List.length_append, hgroup, List.take_append, hgroup, List.take_of_length_le (by rw [hgroup]; omega),
      Nat.add_sub_assoc hle, Nat.add_sub_cancel_left, List.append_assoc, hrest]

/-! ### Main results -/

/-- The shared encoder prints the base64 text of its bytes, and the text is read back as these bytes,
    exactly when no group is left unfilled. -/
theorem wsBase64Encode_base64_iff (bs : List UInt8) :
    (wsBase64Encode bs = Base64.encode bs ∧ Base64.decode (wsBase64Encode bs) = some bs) ↔ bs.length % 3 = 0 := by
  have hdecoded : Base64.decode (wsBase64Encode bs) = some (bs ++ List.replicate (base64Pad bs.length) 0) := by
    rw [wsBase64Encode_eq, Base64.decode_encode]
  constructor
  · rintro ⟨-, hread⟩
    have hlength := congrArg List.length (Option.some.inj (hdecoded.symm.trans hread))
    rw [List.length_append, List.length_replicate, base64Pad] at hlength
    omega
  · intro hfull
    have hpad : base64Pad bs.length = 0 := by rw [base64Pad, hfull]
    have hsame : bs ++ List.replicate (base64Pad bs.length) 0 = bs := by
      rw [hpad]
      exact List.append_nil _
    exact ⟨by rw [wsBase64Encode_eq, hsame], by rw [hdecoded, hsame]⟩

/-- A key of sixteen zero bytes is printed without padding and read back as eighteen bytes. -/
theorem wsBase64Encode_key_unpadded :
    wsBase64Encode (List.replicate 16 0) ≠ Base64.encode (List.replicate 16 0) ∧
      Base64.decode (wsBase64Encode (List.replicate 16 0)) = some (List.replicate 18 0) := by decide +kernel

end FoxTrader
