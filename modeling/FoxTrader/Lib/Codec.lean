import Mathlib.Data.Nat.Digits.Defs
import Mathlib.Logic.Equiv.Defs
import Mathlib.Tactic.Ring
import Mathlib.Tactic.Linarith

/-! # Fixed-width binary records and their framing

    A `Codec` is a raw in-memory image: a type whose values are exactly the byte strings of one
    width, both round trips being fields. Integers are little-endian (`Codec.uint`), byte arrays are
    themselves (`Codec.raw`), and a record is the product of its fields (`Codec.prod`) seen through
    an equivalence (`Codec.map`). `frames` is the reader of a stream of records: it takes whole
    records until fewer bytes than one are left, so it drops a torn tail. `frames_torn_append_iff`
    says what that reader sees when records are written behind a torn tail. -/

namespace Lib

/-! ### Little-endian integers -/

/-- The low `n` bytes of `v`, least significant first. -/
def toLE : Nat → Nat → List UInt8
  | 0, _ => []
  | n + 1, v => UInt8.ofNat (v % 256) :: toLE n (v / 256)

/-- The number whose little-endian bytes are given. -/
def ofLE : List UInt8 → Nat
  | [] => 0
  | b :: bs => b.toNat + 256 * ofLE bs

@[simp] theorem toLE_length : ∀ n v, (toLE n v).length = n
  | 0, _ => rfl
  | n + 1, v => by rw [toLE, List.length_cons, toLE_length n]

theorem ofLE_toLE : ∀ n v, ofLE (toLE n v) = v % 256 ^ n
  | 0, v => by rw [toLE, ofLE, pow_zero, Nat.mod_one]
  | n + 1, v => by
    have hb : (UInt8.ofNat (v % 256)).toNat = v % 256 := by
      rw [UInt8.toNat_ofNat']
      exact Nat.mod_eq_of_lt (Nat.mod_lt _ (by norm_num))
    rw [toLE, ofLE, hb, ofLE_toLE n, pow_succ', Nat.mod_mul]

theorem toLE_ofLE : ∀ bs : List UInt8, toLE bs.length (ofLE bs) = bs
  | [] => rfl
  | b :: bs => by
    have hb : b.toNat < 256 := b.toNat_lt
    have hmod : (b.toNat + 256 * ofLE bs) % 256 = b.toNat := by omega
    have hdiv : (b.toNat + 256 * ofLE bs) / 256 = ofLE bs := by omega
    rw [List.length_cons, ofLE, toLE, hmod, hdiv, toLE_ofLE bs, UInt8.ofNat_toNat]

theorem ofLE_lt : ∀ bs : List UInt8, ofLE bs < 256 ^ bs.length
  | [] => by simp [ofLE]
  | b :: bs => by
    have hb : b.toNat < 256 := b.toNat_lt
    have ih := ofLE_lt bs
    rw [ofLE, List.length_cons, pow_succ]
    omega

/-! ### Codecs -/

/-- A type whose values are the byte strings of one positive width. -/
structure Codec (α : Type) where
  width : Nat
  enc : α → List UInt8
  dec : List UInt8 → α
  width_pos : 0 < width
  enc_length : ∀ x, (enc x).length = width
  dec_enc : ∀ x, dec (enc x) = x
  enc_dec : ∀ bs, bs.length = width → enc (dec bs) = bs

namespace Codec

variable {α β : Type}

theorem enc_injective (c : Codec α) : Function.Injective c.enc := fun x y h => by
  rw [← c.dec_enc x, h, c.dec_enc]

/-- An unsigned integer of `w` bits in `n` bytes, little-endian. -/
def uint (w n : Nat) (hw : w = 8 * n) (hn : 0 < n) : Codec (BitVec w) where
  width := n
  enc x := toLE n x.toNat
  dec bs := BitVec.ofNat _ (ofLE bs)
  width_pos := hn
  enc_length _ := toLE_length ..
  dec_enc x := by
    apply BitVec.eq_of_toNat_eq
    have hx : x.toNat < 256 ^ n := lt_of_lt_of_eq x.isLt (by rw [hw, pow_mul]; norm_num)
    rw [ofLE_toLE, Nat.mod_eq_of_lt hx, BitVec.toNat_ofNat, Nat.mod_eq_of_lt x.isLt]
  enc_dec bs h := by
    have hb : ofLE bs < 2 ^ w := lt_of_lt_of_eq (ofLE_lt bs) (by rw [h, hw, pow_mul]; norm_num)
    rw [BitVec.toNat_ofNat, Nat.mod_eq_of_lt hb, ← h, toLE_ofLE]

/-- An array of `n` bytes, as it is. -/
def raw (n : Nat) (hn : 0 < n) : Codec { bs : List UInt8 // bs.length = n } where
  width := n
  enc x := x.1
  dec bs := if h : bs.length = n then ⟨bs, h⟩ else ⟨List.replicate n 0, List.length_replicate⟩
  width_pos := hn
  enc_length x := x.2
  dec_enc x := by rw [dif_pos x.2]
  enc_dec bs h := by rw [dif_pos h]

/-- Two fields, one after the other. -/
def prod (c : Codec α) (d : Codec β) : Codec (α × β) where
  width := c.width + d.width
  enc x := c.enc x.1 ++ d.enc x.2
  dec bs := (c.dec (bs.take c.width), d.dec (bs.drop c.width))
  width_pos := Nat.add_pos_left c.width_pos _
  enc_length x := by rw [List.length_append, c.enc_length, d.enc_length]
  dec_enc x := by
    rw [List.take_left' (c.enc_length _), List.drop_left' (c.enc_length _), c.dec_enc, d.dec_enc]
  enc_dec bs h := by
    rw [c.enc_dec _ (by rw [List.length_take]; omega), d.enc_dec _ (by rw [List.length_drop]; omega),
      List.take_append_drop]

/-- The same bytes, read as another type. -/
def map (c : Codec α) (e : α ≃ β) : Codec β where
  width := c.width
  enc x := c.enc (e.symm x)
  dec bs := e (c.dec bs)
  width_pos := c.width_pos
  enc_length _ := c.enc_length _
  dec_enc x := by rw [c.dec_enc, Equiv.apply_symm_apply]
  enc_dec bs h := by rw [Equiv.symm_apply_apply, c.enc_dec _ h]

/-! ### Framing -/

variable (c : Codec α)

/-- A stream of records, one after the other. -/
def encAll (xs : List α) : List UInt8 := xs.flatMap c.enc

@[simp] theorem encAll_nil : c.encAll [] = [] := rfl

@[simp] theorem encAll_cons (x : α) (xs : List α) : c.encAll (x :: xs) = c.enc x ++ c.encAll xs := rfl

theorem encAll_append (xs ys : List α) : c.encAll (xs ++ ys) = c.encAll xs ++ c.encAll ys :=
  List.flatMap_append

@[simp] theorem encAll_length : ∀ xs : List α, (c.encAll xs).length = c.width * xs.length
  | [] => rfl
  | x :: xs => by
    rw [encAll_cons, List.length_append, c.enc_length, encAll_length xs, List.length_cons]
    ring

/-- Read at most `n` whole records off the front. -/
def readRecords : Nat → List UInt8 → List α
  | 0, _ => []
  | n + 1, bs =>
    if bs.length < c.width then [] else c.dec (bs.take c.width) :: readRecords n (bs.drop c.width)

/-- Every whole record of the stream; what is left over is shorter than a record. -/
def frames (bs : List UInt8) : List α := c.readRecords bs.length bs

theorem readRecords_spec : ∀ n bs, bs.length ≤ n →
    ∃ tail, bs = c.encAll (c.readRecords n bs) ++ tail ∧ tail.length < c.width
  | 0, bs, h => ⟨bs, by simp [readRecords], by have := c.width_pos; omega⟩
  | n + 1, bs, h => by
    by_cases hb : bs.length < c.width
    · exact ⟨bs, by simp [readRecords, hb], hb⟩
    · have hw := c.width_pos
      obtain ⟨tail, heq, hlt⟩ :=
        readRecords_spec n (bs.drop c.width) (by rw [List.length_drop]; omega)
      refine ⟨tail, ?_, hlt⟩
      rw [readRecords, if_neg hb, encAll_cons, c.enc_dec _ (by rw [List.length_take]; omega),
        List.append_assoc, ← heq, List.take_append_drop]

/-- The reader splits the stream into its records and a tail shorter than one. -/
theorem frames_spec (bs : List UInt8) :
    ∃ tail, bs = c.encAll (c.frames bs) ++ tail ∧ tail.length < c.width :=
  c.readRecords_spec _ _ le_rfl

/-- Only one list of records and one short tail make up a stream. -/
theorem encAll_append_inj : ∀ {xs ys : List α} {t u : List UInt8}, t.length < c.width →
    u.length < c.width → c.encAll xs ++ t = c.encAll ys ++ u → xs = ys
  | [], [], _, _, _, _, _ => rfl
  | [], y :: ys, t, u, ht, _, h => by
    have := congrArg List.length h
    simp only [encAll_nil, List.nil_append, List.length_append, encAll_length, List.length_cons] at this
    nlinarith
  | x :: xs, [], t, u, _, hu, h => by
    have := congrArg List.length h
    simp only [encAll_nil, List.nil_append, List.length_append, encAll_length, List.length_cons] at this
    nlinarith
  | x :: xs, y :: ys, t, u, ht, hu, h => by
    rw [encAll_cons, encAll_cons, List.append_assoc, List.append_assoc] at h
    obtain ⟨hxy, hrest⟩ := List.append_inj h (by rw [c.enc_length, c.enc_length])
    rw [c.enc_injective hxy, encAll_append_inj ht hu hrest]

/-- Records written from the start, with a torn tail behind them, read back as they were. -/
theorem frames_encAll_append (xs : List α) {tail : List UInt8} (h : tail.length < c.width) :
    c.frames (c.encAll xs ++ tail) = xs := by
  obtain ⟨u, heq, hu⟩ := c.frames_spec (c.encAll xs ++ tail)
  exact (c.encAll_append_inj h hu heq).symm

theorem frames_encAll (xs : List α) : c.frames (c.encAll xs) = xs := by
  have hframes := c.frames_encAll_append xs (show [].length < c.width from c.width_pos)
  rwa [List.append_nil] at hframes

theorem frames_append (xs : List α) (bs : List UInt8) :
    c.frames (c.encAll xs ++ bs) = xs ++ c.frames bs := by
  obtain ⟨u, heq, hu⟩ := c.frames_spec bs
  conv_lhs => rw [heq, ← List.append_assoc, ← encAll_append]
  exact c.frames_encAll_append _ hu

end Codec

/-! ### Overlaps of a word with its own shift -/

/-- A word `a` is a prefix of `u ++ a` exactly when it repeats `u` over and over. -/
theorem take_append_eq_iff_periodic {β : Type} {u a : List β} (hu : 0 < u.length) :
    (u ++ a).take a.length = a ↔
      ∀ i (h : i < a.length), a[i] = u.get ⟨i % u.length, Nat.mod_lt _ hu⟩ := by
  have hget : ∀ i (h : i < a.length), ((u ++ a).take a.length)[i]? =
      if h' : i < u.length then some u[i] else a[i - u.length]? := fun i h => by
    rw [List.getElem?_take, if_pos h, List.getElem?_append]
    split
    · rw [List.getElem?_eq_getElem (by assumption)]
    · rfl
  simp only [List.get_eq_getElem]
  constructor
  · intro heq i
    induction i using Nat.strong_induction_on with
    | _ i ih =>
      intro h
      have hi := hget i h
      rw [heq, List.getElem?_eq_getElem h] at hi
      split at hi
      next h' => rw [Option.some.inj hi]; simp only [Nat.mod_eq_of_lt h']
      next h' =>
        rw [List.getElem?_eq_getElem (by omega)] at hi
        rw [Option.some.inj hi, ih (i - u.length) (by omega)]
        simp only [← Nat.mod_eq_sub_mod (Nat.le_of_not_lt h')]
  · intro hper
    apply List.ext_getElem?
    intro i
    by_cases h : i < a.length
    · rw [hget i h, List.getElem?_eq_getElem h, hper i h]
      split
      next h' => simp only [Nat.mod_eq_of_lt h']
      next h' =>
        rw [List.getElem?_eq_getElem (by omega), hper (i - u.length) (by omega)]
        simp only [← Nat.mod_eq_sub_mod (Nat.le_of_not_lt h')]
    · rw [List.getElem?_eq_none (by simp; omega), List.getElem?_eq_none (by omega)]

/-- Records written behind a torn tail are read back as they were exactly when their bytes
    repeat the torn ones over and over. -/
theorem Codec.frames_torn_append_iff {α : Type} (c : Codec α) {torn : List UInt8} (xs : List α)
    (hpos : 0 < torn.length) (hlt : torn.length < c.width) :
    c.frames (torn ++ c.encAll xs) = xs ↔
      ∀ i (h : i < (c.encAll xs).length),
        (c.encAll xs)[i] = torn.get ⟨i % torn.length, Nat.mod_lt _ hpos⟩ := by
  rw [← take_append_eq_iff_periodic hpos]
  constructor
  · intro h
    obtain ⟨tail, heq, -⟩ := c.frames_spec (torn ++ c.encAll xs)
    rw [h] at heq
    rw [heq, List.take_left]
  · intro h
    have hsplit := List.take_append_drop (c.encAll xs).length (torn ++ c.encAll xs)
    rw [h] at hsplit
    rw [← hsplit]
    exact c.frames_encAll_append xs (by rw [List.length_drop, List.length_append]; omega)

end Lib
