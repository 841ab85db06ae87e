import Mathlib.Data.Option.Basic
import Mathlib.Order.Basic

/-! # Base64

    Three octets are four digits of six bits. A last group of one or two octets is filled up with zero
    bits to two or three digits, and `=` stands for the digits it leaves out, so the text says how
    many octets it stands for. -/

namespace Lib.Base64

/-! ### Digits -/

/-- The alphabet: `A-Z`, `a-z`, `0-9`, `+`, `/`. -/
def digit (n : Nat) : Char :=
  if n < 26 then Char.ofNat ('A'.toNat + n)
  else if n < 52 then Char.ofNat ('a'.toNat + (n - 26))
  else if n < 62 then Char.ofNat ('0'.toNat + (n - 52))
  else if n = 62 then '+' else '/'

def value? (ch : Char) : Option Nat :=
  if 'A' ≤ ch ∧ ch ≤ 'Z' then some (ch.toNat - 'A'.toNat)
  else if 'a' ≤ ch ∧ ch ≤ 'z' then some (ch.toNat - 'a'.toNat + 26)
  else if '0' ≤ ch ∧ ch ≤ '9' then some (ch.toNat - '0'.toNat + 52)
  else if ch = '+' then some 62
  else if ch = '/' then some 63
  else none

theorem value?_digit : ∀ n < 64, value? (digit n) = some n := by decide +kernel

theorem digit_ne_pad : ∀ n < 64, digit n ≠ '=' := by decide +kernel

/-! ### Groups -/

/-- The four digits of three octets. -/
def encodeGroup (a b c : UInt8) : List Char :=
  [digit (a.toNat / 4), digit (a.toNat % 4 * 16 + b.toNat / 16), digit (b.toNat % 16 * 4 + c.toNat / 64),
    digit (c.toNat % 64)]

def encode : List UInt8 → List Char
  | [] => []
  | [a] => (encodeGroup a 0 0).take 2 ++ ['=', '=']
  | [a, b] => (encodeGroup a b 0).take 3 ++ ['=']
  | a :: b :: c :: rest => encodeGroup a b c ++ encode rest

/-- The three octets of four digits. -/
def octets (w x y z : Nat) : List UInt8 :=
  [UInt8.ofNat (w * 4 + x / 16), UInt8.ofNat (x % 16 * 16 + y / 4), UInt8.ofNat (y % 4 * 64 + z)]

/-- The octets of a group; only its last digits can be padding. -/
def decodeGroup (w x y z : Char) : Option (List UInt8) :=
  if z = '=' then
    if y = '=' then do
      let w ← value? w
      let x ← value? x
      return (octets w x 0 0).take 1
    else do
      let w ← value? w
      let x ← value? x
      let y ← value? y
      return (octets w x y 0).take 2
  else do
    let w ← value? w
    let x ← value? x
    let y ← value? y
    let z ← value? z
    return octets w x y z

/-- A padded group ends the text. -/
def decode : List Char → Option (List UInt8)
  | [] => some []
  | w :: x :: y :: z :: rest =>
    if z = '=' ∧ rest ≠ [] then none
    else do
      let group ← decodeGroup w x y z
      let tail ← decode rest
      return group ++ tail
  | _ => none

/-! ### The round trip -/

theorem octets_digits (a b c : UInt8) :
    octets (a.toNat / 4) (a.toNat % 4 * 16 + b.toNat / 16) (b.toNat % 16 * 4 + c.toNat / 64) (c.toNat % 64) =
      [a, b, c] := by
  have ha := a.toNat_lt
  have hb := b.toNat_lt
  have hc := c.toNat_lt
  have h₁ : a.toNat / 4 * 4 + (a.toNat % 4 * 16 + b.toNat / 16) / 16 = a.toNat := by omega
  have h₂ : (a.toNat % 4 * 16 + b.toNat / 16) % 16 * 16 + (b.toNat % 16 * 4 + c.toNat / 64) / 4 = b.toNat := by omega
  have h₃ : (b.toNat % 16 * 4 + c.toNat / 64) % 4 * 64 + c.toNat % 64 = c.toNat := by omega
  rw [octets, h₁, h₂, h₃, UInt8.ofNat_toNat, UInt8.ofNat_toNat, UInt8.ofNat_toNat]

theorem digits_lt (a b c : UInt8) :
    a.toNat / 4 < 64 ∧ a.toNat % 4 * 16 + b.toNat / 16 < 64 ∧ b.toNat % 16 * 4 + c.toNat / 64 < 64 ∧
      c.toNat % 64 < 64 := by
  have ha := a.toNat_lt
  have hb := b.toNat_lt
  have hc := c.toNat_lt
  omega

theorem decode_encodeGroup (a b c : UInt8) (rest : List Char) :
    decode (encodeGroup a b c ++ rest) = (decode rest).map ([a, b, c] ++ ·) := by
  obtain ⟨hw, hx, hy, hz⟩ := digits_lt a b c
  have hpad := digit_ne_pad _ hz
  show (if _ ∧ _ then none else _) = _
  rw [if_neg fun h => hpad h.1, decodeGroup, if_neg hpad, value?_digit _ hw, value?_digit _ hx, value?_digit _ hy,
    value?_digit _ hz]
  show ((decode rest).bind fun tail => some (octets _ _ _ _ ++ tail)) = _
  rw [octets_digits]
  cases decode rest <;> rfl

/-- What was encoded is decoded. -/
theorem decode_encode (bs : List UInt8) : decode (encode bs) = some bs := by
  induction bs using encode.induct with
  | case1 => rfl
  | case2 a =>
    obtain ⟨hw, hx, -, -⟩ := digits_lt a 0 0
    have hoctets := octets_digits a 0 0
    show (if _ ∧ _ then none else _) = _
    rw [if_neg fun h => h.2 rfl, decodeGroup, if_pos rfl, if_pos rfl, value?_digit _ hw, value?_digit _ hx]
    show some ((octets _ _ _ _).take 1 ++ []) = some [a]
    exact congrArg (fun group => some (group.take 1 ++ [])) hoctets
  | case3 a b =>
    obtain ⟨hw, hx, hy, -⟩ := digits_lt a b 0
    have hoctets := octets_digits a b 0
    show (if _ ∧ _ then none else _) = _
    rw [if_neg fun h => h.2 rfl, decodeGroup, if_pos rfl, if_neg (digit_ne_pad _ hy), value?_digit _ hw,
      value?_digit _ hx, value?_digit _ hy]
    show some ((octets _ _ _ _).take 2 ++ []) = some [a, b]
    exact congrArg (fun group => some (group.take 2 ++ [])) hoctets
  | case4 a b c rest ih => rw [encode, decode_encodeGroup, ih]; rfl

/-- The text has four characters for every three octets begun. -/
theorem length_encode (bs : List UInt8) : (encode bs).length = (bs.length + 2) / 3 * 4 := by
  induction bs using encode.induct with
  | case1 => rfl
  | case2 a => simp [encode, encodeGroup]
  | case3 a b => simp [encode, encodeGroup]
  | case4 a b c rest ih =>
    have hgroup : (encodeGroup a b c).length = 4 := rfl
    rw [encode, List.length_append, hgroup, ih]
    simp only [List.length_cons]
    omega

end Lib.Base64
