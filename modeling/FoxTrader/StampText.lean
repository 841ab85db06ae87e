import FoxTrader.ClientOrderId
import FoxTrader.StampRegistry

/-! # Numbers in a stamp

    Every value of a stamp is printed by one conversion and read by another: `%d` by `atoi`,
    `%016lx` by `strtoull` with base 16, doubles by `tt::parse_double_fast`, money by
    `Money_FromString`. Integers and texts come back as they were. How a double or an amount of money
    is printed is a parameter, with what its digits leave of it. -/

namespace FoxTrader

open Lib

/-! ### Integers -/

/-- `%d`. -/
def decimalInt (n : Int) : List Char :=
  if n < 0 then '-' :: Nat.toDigits 10 n.natAbs else Nat.toDigits 10 n.natAbs

/-- `atoi`: `strtol` narrowed to an `int`. -/
def atoi (cs : List Char) : Int32 := Int32.ofInt (atoll cs)

/-- `%016lx`. -/
def hex16 (n : UInt64) : List Char := List.leftpad 16 '0' (Nat.toDigits 16 n.toNat)

/-- C `isxdigit`. -/
def isHexDigit (ch : Char) : Bool := ch.isDigit || ('a' ≤ ch && ch ≤ 'f') || ('A' ≤ ch && ch ≤ 'F')

/-- The number a run of hexadecimal digits denotes. -/
def hexValue (cs : List Char) : Nat :=
  cs.foldl (fun n ch => 16 * n + if ch.isDigit then ch.toNat - '0'.toNat else (ch.toNat - 'A'.toNat) % 32 + 10) 0

/-- The prefix `0x` is not part of the number when a digit follows. -/
def dropHexPrefix : List Char → List Char
  | '0' :: x :: ch :: cs => if (x = 'x' ∨ x = 'X') ∧ isHexDigit ch then ch :: cs else '0' :: x :: ch :: cs
  | cs => cs

/-- `strtoull` with base 16. -/
def strtoullHex (cs : List Char) : UInt64 :=
  let magnitude (digits : List Char) := hexValue ((dropHexPrefix digits).takeWhile isHexDigit)
  match cs.dropWhile isSpace with
  | '-' :: digits =>
    if magnitude digits < 2 ^ 64 then UInt64.ofNat (2 ^ 64 - magnitude digits) else UInt64.ofNat (2 ^ 64 - 1)
  | '+' :: digits => UInt64.ofNat (min (magnitude digits) (2 ^ 64 - 1))
  | digits => UInt64.ofNat (min (magnitude digits) (2 ^ 64 - 1))

theorem isDigit_of_mem_decimalDigits {n : Nat} {ch : Char} (h : ch ∈ Nat.toDigits 10 n) : ch.isDigit = true :=
  Nat.isDigit_of_mem_toDigits (by decide) (by decide) h

/-- A digit is no blank and no sign. -/
theorem isSpace_of_isDigit {ch : Char} (h : ch.isDigit = true) : isSpace ch = false ∧ ch ≠ '-' ∧ ch ≠ '+' := by
  refine ⟨?_, fun heq => absurd h (by rw [heq]; decide), fun heq => absurd h (by rw [heq]; decide)⟩
  rw [Char.isDigit, Bool.and_eq_true, decide_eq_true_eq, decide_eq_true_eq] at h
  simp only [isSpace, Bool.or_eq_false_iff, decide_eq_false_iff_not, Bool.and_eq_false_iff]
  refine ⟨fun heq => absurd h (by rw [heq]; decide), .inr fun hle => ?_⟩
  exact absurd (UInt32.le_trans h.1 hle) (by decide)

/-- Nothing, or something that begins with no digit. -/
def NoDigitFirst (rest : List Char) : Prop := ∀ ch, rest.head? = some ch → ch.isDigit = false

theorem noDigitFirst_nil : NoDigitFirst [] := fun _ h => by cases h

theorem noDigitFirst_cons {ch : Char} (h : ch.isDigit = false) (rest : List Char) : NoDigitFirst (ch :: rest) :=
  fun _ heq => Option.some.inj heq ▸ h

theorem takeWhile_toDigits (n : Nat) {rest : List Char} (h : NoDigitFirst rest) :
    (Nat.toDigits 10 n ++ rest).takeWhile Char.isDigit = Nat.toDigits 10 n := by
  rw [List.takeWhile_append_of_pos fun ch hch => isDigit_of_mem_decimalDigits hch]
  cases rest with
  | nil => exact List.append_nil _
  | cons ch rest =>
    rw [List.takeWhile_cons_of_neg (by rw [h ch rfl]; exact Bool.false_ne_true), List.append_nil]

theorem digitsValue_toDigits (n : Nat) {rest : List Char} (h : NoDigitFirst rest) :
    digitsValue ((Nat.toDigits 10 n ++ rest).takeWhile Char.isDigit) = n := by
  rw [takeWhile_toDigits n h, digitsValue, ← Nat.ofDigitChars_eq_foldl]
  exact Nat.ofDigitChars_ten_toDigits

/-- Digits in front are read as digits. -/
theorem atoll_toDigits (n : Nat) {rest : List Char} (h : NoDigitFirst rest) :
    atoll (Nat.toDigits 10 n ++ rest) = min (n : Int) (2 ^ 63 - 1) := by
  have hvalue := digitsValue_toDigits n h
  rcases hdigits : Nat.toDigits 10 n with _ | ⟨first, more⟩
  · exact absurd hdigits Nat.toDigits_ne_nil
  obtain ⟨hspace, hminus, hplus⟩ :=
    isSpace_of_isDigit (isDigit_of_mem_decimalDigits (hdigits ▸ List.mem_cons_self : first ∈ Nat.toDigits 10 n))
  rw [hdigits] at hvalue
  unfold atoll
  rw [List.cons_append, List.dropWhile_cons_of_neg (by rw [hspace]; exact Bool.false_ne_true)]
  split
  · next h => exact absurd (List.cons.inj h).1 hminus
  · next h => exact absurd (List.cons.inj h).1 hplus
  · next h => dsimp only; rw [← List.cons_append, hvalue]

theorem atoll_minus_toDigits (n : Nat) {rest : List Char} (h : NoDigitFirst rest) :
    atoll ('-' :: (Nat.toDigits 10 n ++ rest)) = max (-(n : Int)) (-2 ^ 63) := by
  have hvalue := digitsValue_toDigits n h
  unfold atoll
  rw [List.dropWhile_cons_of_neg (by decide)]
  show max (-((digitsValue ((Nat.toDigits 10 n ++ rest).takeWhile Char.isDigit) : Nat) : Int)) (-2 ^ 63) = _
  rw [hvalue]

/-- A `long` comes back. -/
theorem atoll_decimalInt {n : Int} (hlow : -2 ^ 63 ≤ n) (hup : n < 2 ^ 63) {rest : List Char} (h : NoDigitFirst rest) :
    atoll (decimalInt n ++ rest) = n := by
  rw [decimalInt]
  split
  · rw [List.cons_append, atoll_minus_toDigits _ h]
    omega
  · rw [atoll_toDigits _ h]
    omega

/-- An `int` comes back, whatever stands behind it. -/
theorem atoi_decimalInt_append (n : Int32) {rest : List Char} (h : NoDigitFirst rest) :
    atoi (decimalInt n.toInt ++ rest) = n := by
  have hlt := n.toInt_lt
  have hle := n.le_toInt
  rw [atoi, atoll_decimalInt (by omega) (by omega) h, Int32.ofInt_toInt]

theorem atoi_decimalInt (n : Int32) : atoi (decimalInt n.toInt) = n := by
  have hread := atoi_decimalInt_append n noDigitFirst_nil
  rwa [List.append_nil] at hread

theorem digitChar_hex : ∀ d < 16, isHexDigit (Nat.digitChar d) = true ∧
    (if (Nat.digitChar d).isDigit then (Nat.digitChar d).toNat - '0'.toNat
      else ((Nat.digitChar d).toNat - 'A'.toNat) % 32 + 10) = d := by decide

theorem isHexDigit_of_mem_toDigits (n : Nat) : ∀ ch ∈ Nat.toDigits 16 n, isHexDigit ch = true := by
  induction n using Nat.strongRecOn with
  | _ n ih =>
    rcases Nat.lt_or_ge n 16 with hlt | hge
    · rw [Nat.toDigits_of_lt_base hlt]
      exact List.forall_mem_singleton.2 (digitChar_hex n hlt).1
    · rw [Nat.toDigits_of_base_le (by decide) hge]
      intro ch hch
      rcases List.mem_append.1 hch with hch | hch
      · exact ih (n / 16) (by omega) ch hch
      · rw [List.mem_singleton.1 hch]
        exact (digitChar_hex (n % 16) (by omega)).1

theorem hexValue_toDigits (n : Nat) : hexValue (Nat.toDigits 16 n) = n := by
  induction n using Nat.strongRecOn with
  | _ n ih =>
    rcases Nat.lt_or_ge n 16 with hlt | hge
    · rw [Nat.toDigits_of_lt_base hlt, hexValue, List.foldl_cons, List.foldl_nil, (digitChar_hex n hlt).2]
      omega
    · have htail := ih (n / 16) (by omega)
      rw [hexValue] at htail
      rw [Nat.toDigits_of_base_le (by decide) hge, hexValue, List.foldl_append, htail, List.foldl_cons,
        List.foldl_nil,
        (digitChar_hex (n % 16) (by omega)).2]
      omega

/-- Zeros in front change nothing. -/
theorem hexValue_leftpad (width : Nat) (cs : List Char) : hexValue (List.leftpad width '0' cs) = hexValue cs := by
  have hzeros : ∀ k : Nat, (List.replicate k '0').foldl
      (fun n ch => 16 * n + if ch.isDigit then ch.toNat - '0'.toNat else (ch.toNat - 'A'.toNat) % 32 + 10) 0 = 0 := by
    intro k
    induction k with
    | zero => rfl
    | succ k ih => exact ih
  rw [List.leftpad, hexValue, List.foldl_append, hzeros, hexValue]

theorem isHexDigit_of_mem_hex16 {n : UInt64} {ch : Char} (h : ch ∈ hex16 n) : isHexDigit ch = true := by
  rcases List.mem_append.1 h with h | h
  · rw [List.eq_of_mem_replicate h]
    rfl
  · exact isHexDigit_of_mem_toDigits n.toNat ch h

theorem isSpace_of_isHexDigit {ch : Char} (h : isHexDigit ch = true) :
    isSpace ch = false ∧ ch ≠ '-' ∧ ch ≠ '+' ∧ ch ≠ 'x' ∧ ch ≠ 'X' := by
  refine ⟨?_, ?_, ?_, ?_, ?_⟩
  · by_contra hspace
    rw [Bool.not_eq_false, isSpace, Bool.or_eq_true, decide_eq_true_eq, Bool.and_eq_true, decide_eq_true_eq,
      decide_eq_true_eq] at hspace
    rcases hspace with rfl | ⟨-, hle⟩
    · exact absurd h (by decide)
    · rw [isHexDigit, Char.isDigit] at h
      simp only [Bool.or_eq_true, Bool.and_eq_true, decide_eq_true_eq] at h
      rcases h with (⟨hge, -⟩ | ⟨hge, -⟩) | ⟨hge, -⟩
      · exact absurd (UInt32.le_trans hge hle) (by decide)
      · exact absurd (UInt32.le_trans hge hle) (by decide)
      · exact absurd (UInt32.le_trans hge hle) (by decide)
  all_goals
    rintro rfl
    exact absurd h (by decide)

theorem length_hex16 (n : UInt64) : (hex16 n).length = 16 := by
  have hle : (Nat.toDigits 16 n.toNat).length ≤ 16 := by
    rw [Nat.length_toDigits_le_iff (by decide) (by decide)]
    exact n.toNat_lt.trans_le (by norm_num)
  rw [hex16, List.leftpad, List.length_append, List.length_replicate]
  omega

theorem dropHexPrefix_of_forall {cs : List Char} (h : ∀ ch ∈ cs, isHexDigit ch = true) : dropHexPrefix cs = cs := by
  unfold dropHexPrefix
  split
  · next x ch rest =>
    obtain ⟨-, -, -, hx, hX⟩ := isSpace_of_isHexDigit (h x (List.mem_cons_of_mem _ List.mem_cons_self))
    rw [if_neg fun hcond => hcond.1.elim hx hX]
  · rfl

/-- A 64-bit word comes back. -/
theorem strtoullHex_hex16 (n : UInt64) : strtoullHex (hex16 n) = n := by
  have hall : ∀ ch ∈ hex16 n, isHexDigit ch = true := fun ch hch => isHexDigit_of_mem_hex16 hch
  have hvalue : hexValue ((dropHexPrefix (hex16 n)).takeWhile isHexDigit) = n.toNat := by
    rw [dropHexPrefix_of_forall hall, List.takeWhile_eq_self_iff.2 hall, hex16, hexValue_leftpad, hexValue_toDigits]
  have hfits := n.toNat_lt
  rcases hdigits : hex16 n with _ | ⟨first, rest⟩
  · exact absurd (congrArg List.length hdigits) (by rw [length_hex16]; decide)
  obtain ⟨hspace, hminus, hplus, -, -⟩ := isSpace_of_isHexDigit (hall first (hdigits ▸ List.mem_cons_self))
  rw [hdigits] at hvalue
  unfold strtoullHex
  rw [List.dropWhile_cons_of_neg (by rw [hspace]; exact Bool.false_ne_true)]
  split
  · next h => exact absurd (List.cons.inj h).1 hminus
  · next h => exact absurd (List.cons.inj h).1 hplus
  · dsimp only
    rw [hvalue, Nat.min_eq_left (by omega), UInt64.ofNat_toNat]

/-- A text that a line carries whole. -/
structure PlainText (text : List Char) : Prop where
  no_newline : '\n' ∉ text
  no_nul : '\x00' ∉ text

theorem plainText_of_forall {text : List Char} (p : Char → Bool) (h : ∀ ch ∈ text, p ch = true) (hnl : p '\n' = false)
    (hnul : p '\x00' = false) : PlainText text :=
  ⟨fun hmem => Bool.false_ne_true (hnl.symm.trans (h _ hmem)),
    fun hmem => Bool.false_ne_true (hnul.symm.trans (h _ hmem))⟩

theorem plainText_decimalInt (n : Int) : PlainText (decimalInt n) := by
  refine plainText_of_forall (fun ch => ch.isDigit || ch = '-') (fun ch hch => ?_) rfl rfl
  rw [decimalInt] at hch
  split at hch
  case isTrue =>
    rcases List.mem_cons.1 hch with rfl | hch
    · rfl
    · rw [isDigit_of_mem_decimalDigits hch, Bool.true_or]
  case isFalse => rw [isDigit_of_mem_decimalDigits hch, Bool.true_or]

theorem plainText_decimal (n : UInt64) : PlainText (decimal n) :=
  plainText_of_forall Char.isDigit (fun _ hch => isDigit_of_mem_decimal hch) rfl rfl

theorem plainText_hex16 (n : UInt64) : PlainText (hex16 n) :=
  plainText_of_forall isHexDigit (fun _ hch => isHexDigit_of_mem_hex16 hch) rfl rfl

theorem length_decimalInt (n : Int32) : (decimalInt n.toInt).length ≤ 20 := by
  have hlt := n.toInt_lt
  have hle := n.le_toInt
  have hdigits : (Nat.toDigits 10 n.toInt.natAbs).length ≤ 10 := by
    rw [Nat.length_toDigits_le_iff (by decide) (by decide)]
    omega
  rw [decimalInt]
  split
  · rw [List.length_cons]
    omega
  · omega

/-! ### Doubles and money -/

/-- The conversions of the code for what is not an integer: `%.<digits>g`, `%.<digits>f`, and
    `Money_ToCString`. -/
inductive RealFormat where
  | significant (digits : Nat)
  | fixed (digits : Nat)
  | money
  deriving DecidableEq

/-- Doubles as the stamp code uses them: their difference, their text, and the number that comes back
    out of a text. `round` is what the printed digits leave of a number. -/
structure Doubles where
  sub : ℚ → ℚ → ℚ
  print : RealFormat → ℚ → List Char
  round : RealFormat → ℚ → ℚ
  /-- `tt::parse_double_fast`. -/
  parse : List Char → ℚ
  /-- `Money_FromString`. -/
  parseMoney : List Char → ℚ
  parse_significant : ∀ digits q, parse (print (.significant digits) q) = round (.significant digits) q
  parse_fixed : ∀ digits q, parse (print (.fixed digits) q) = round (.fixed digits) q
  parseMoney_print : ∀ q, parseMoney (print .money q) = round .money q
  plain : ∀ f q, PlainText (print f q)
  /-- No conversion prints more than the largest double under `%.6f`. -/
  length_print : ∀ f q, (print f q).length ≤ 320

/-! ### Values of the model constants -/

/-- A text in a `char[cap]`. -/
structure StampStr (cap : Nat) where
  text : List Char
  fits : text.length ≤ cap - 1

/-- The values of a C type. -/
def ConstType.Carrier : ConstType → Type
  | .int => Int32
  | .u8 => UInt8
  | .u32 => UInt32
  | .u64 | .hash => UInt64
  | .double _ => ℚ
  | .str cap => StampStr cap

/-- What `ModelStampResult r{}` leaves. -/
def ConstType.zero : (t : ConstType) → t.Carrier
  | .int => (0 : Int32)
  | .u8 => (0 : UInt8)
  | .u32 => (0 : UInt32)
  | .u64 | .hash => (0 : UInt64)
  | .double _ => (0 : ℚ)
  | .str _ => (⟨[], Nat.zero_le _⟩ : StampStr _)

/-- The text of a value under the conversion of its row. -/
def ConstType.print (D : Doubles) : (t : ConstType) → t.Carrier → List Char
  | .int, n => decimalInt (Int32.toInt n)
  | .u8, n => decimal (UInt8.toUInt64 n)
  | .u32, n => decimal (UInt32.toUInt64 n)
  | .u64, n => decimal n
  | .hash, n => hex16 n
  | .double digits, q => D.print (.significant digits) q
  | .str _, s => StampStr.text s

/-- `tt::stamp_parse_field`. -/
def ConstType.parse (D : Doubles) : (t : ConstType) → List Char → t.Carrier
  | .int, val => atoi val
  | .u8, val => UInt8.ofNat (strtoull val)
  | .u32, val => UInt32.ofNat (strtoull val)
  | .u64, val => UInt64.ofNat (strtoull val)
  | .hash, val => strtoullHex val
  | .double _, val => D.parse val
  | .str cap, val => (⟨val.take (cap - 1), List.length_take_le ..⟩ : StampStr cap)

/-- What the digits of the row leave of a value. -/
def ConstType.rounded (D : Doubles) : (t : ConstType) → t.Carrier → t.Carrier
  | .int, n => n
  | .u8, n => n
  | .u32, n => n
  | .u64, n => n
  | .hash, n => n
  | .double digits, q => D.round (.significant digits) q
  | .str _, s => s

/-- A text among the values has neither newline nor terminator inside. -/
def ConstType.Plain : (t : ConstType) → t.Carrier → Prop
  | .str _, s => PlainText (StampStr.text s)
  | _, _ => True

theorem strtoull_toUInt8 (n : UInt8) : UInt8.ofNat (strtoull (decimal n.toUInt64)) = n := by
  rw [strtoull_decimal, UInt8.toNat_toUInt64, UInt8.ofNat_toNat]

theorem strtoull_toUInt32 (n : UInt32) : UInt32.ofNat (strtoull (decimal n.toUInt64)) = n := by
  rw [strtoull_decimal, UInt32.toNat_toUInt64, UInt32.ofNat_toNat]

theorem strtoull_toUInt64 (n : UInt64) : UInt64.ofNat (strtoull (decimal n)) = n := by
  rw [strtoull_decimal, UInt64.ofNat_toNat]

theorem ConstType.parse_print (D : Doubles) (t : ConstType) (v : t.Carrier) :
    t.parse D (t.print D v) = t.rounded D v := by
  cases t with
  | int => exact atoi_decimalInt v
  | u8 => exact strtoull_toUInt8 v
  | u32 => exact strtoull_toUInt32 v
  | u64 => exact strtoull_toUInt64 v
  | hash => exact strtoullHex_hex16 v
  | double digits => exact D.parse_significant digits v
  | str cap =>
    obtain ⟨text, hfits⟩ := v
    show (⟨text.take (cap - 1), _⟩ : StampStr cap) = ⟨text, hfits⟩
    simp only [List.take_of_length_le hfits]

theorem ConstType.plain_print (D : Doubles) (t : ConstType) (v : t.Carrier) (h : t.Plain v) :
    PlainText (t.print D v) := by
  cases t with
  | int => exact plainText_decimalInt _
  | u8 => exact plainText_decimal _
  | u32 => exact plainText_decimal _
  | u64 => exact plainText_decimal _
  | hash => exact plainText_hex16 _
  | double digits => exact D.plain _ _
  | str cap => exact h

/-! ### Values of the configuration -/

/-- `std::clamp`. -/
def clamp (lo hi v : ℚ) : ℚ := if v < lo then lo else if hi < v then hi else v

/-- `tt::cfg_emit_field`: the text of a value. -/
def CfgScalar.emit (D : Doubles) (f : CfgScalar) (v : ℚ) : List Char :=
  match f.descriptor.kind with
  | .fpnBinary => D.print (.significant 17) v
  | .money => D.print .money v
  | .int => decimalInt v.num
  | .u8 => decimal (UInt64.ofNat v.num.toNat)

/-- `tt::cfg_parse_field` with `wire_context`: what a text says, in the range of the descriptor. -/
def CfgScalar.parse (D : Doubles) (f : CfgScalar) (val : List Char) : ℚ :=
  clamp f.descriptor.clampMin f.descriptor.clampMax <|
    match f.descriptor.kind with
    | .fpnBinary => D.parse val
    | .money => D.parseMoney val
    | .int => (atoi val).toInt
    | .u8 => (UInt64.ofNat (strtoull val)).toInt64.toInt

/-- What the digits of the wire leave of a value. -/
def CfgScalar.rounded (D : Doubles) (f : CfgScalar) (v : ℚ) : ℚ :=
  match f.descriptor.kind with
  | .fpnBinary => D.round (.significant 17) v
  | .money => D.round .money v
  | .int | .u8 => v

theorem CfgScalar.parse_emit (D : Doubles) {f : CfgScalar} {v : ℚ} (h : f.descriptor.kind.Holds v) :
    f.parse D (f.emit D v) = clamp f.descriptor.clampMin f.descriptor.clampMax (f.rounded D v) := by
  rw [parse, emit, rounded]
  cases hkind : f.descriptor.kind with
  | fpnBinary => exact congrArg _ (D.parse_significant 17 v)
  | money => exact congrArg _ (D.parseMoney_print v)
  | int =>
    rw [hkind] at h
    obtain ⟨n, rfl⟩ := h
    refine congrArg _ ?_
    dsimp only
    rw [Rat.num_intCast, atoi_decimalInt]
  | u8 =>
    rw [hkind] at h
    obtain ⟨n, rfl⟩ := h
    refine congrArg _ ?_
    dsimp only
    have hlt := n.toNat_lt
    rw [Rat.num_natCast, Int.toNat_natCast, strtoull_toUInt64, UInt64.toInt64_ofNat',
      Int64.toInt_ofNat_of_lt (by omega)]
    exact Int.cast_natCast _

theorem CfgScalar.plain_emit (D : Doubles) (f : CfgScalar) (v : ℚ) : PlainText (f.emit D v) := by
  rw [emit]
  cases f.descriptor.kind with
  | fpnBinary => exact D.plain _ _
  | money => exact D.plain _ _
  | int => exact plainText_decimalInt _
  | u8 => exact plainText_decimal _

theorem CfgScalar.length_emit (D : Doubles) {f : CfgScalar} {v : ℚ} (h : f.descriptor.kind.Holds v) :
    (f.emit D v).length ≤ 320 := by
  rw [emit]
  cases hkind : f.descriptor.kind with
  | fpnBinary => exact D.length_print _ _
  | money => exact D.length_print _ _
  | int =>
    rw [hkind] at h
    obtain ⟨n, rfl⟩ := h
    exact (length_decimalInt n).trans (by decide)
  | u8 => exact (decimal_length _).trans (by decide)

end FoxTrader
