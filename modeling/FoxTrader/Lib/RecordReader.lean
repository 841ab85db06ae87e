import FoxTrader.Lib.Codec

/-! # Reading records off a stream

    `fread` takes one record off the front of a stream and `freadN` several; both fail on a stream
    that is too short. As every string of the right width is a record, a stream is read if and only if
    it begins with the records that are read. -/

namespace Lib.Codec

variable {α : Type} (c : Codec α) {x : α} {xs : List α} {bs rest : List UInt8}

/-- One record, and what is behind it. -/
def fread (bs : List UInt8) : Option (α × List UInt8) :=
  if bs.length < c.width then none else some (c.dec (bs.take c.width), bs.drop c.width)

/-- `n` records, and what is behind them. -/
def freadN : ℕ → List UInt8 → Option (List α × List UInt8)
  | 0, bs => some ([], bs)
  | n + 1, bs => (c.fread bs).bind fun p => (freadN n p.2).map fun q => (p.1 :: q.1, q.2)

theorem fread_eq_some_iff : c.fread bs = some (x, rest) ↔ bs = c.enc x ++ rest := by
  unfold fread
  constructor
  · intro h
    split at h
    · exact nomatch h
    · next hlen =>
      obtain ⟨rfl, rfl⟩ := Prod.mk.inj (Option.some.inj h)
      rw [c.enc_dec _ (by rw [List.length_take]; omega), List.take_append_drop]
  · rintro rfl
    have hlen : ¬(c.enc x ++ rest).length < c.width := by rw [List.length_append, c.enc_length]; omega
    rw [if_neg hlen, List.take_left' (c.enc_length x), List.drop_left' (c.enc_length x), c.dec_enc]

theorem freadN_eq_some_iff {n : ℕ} : c.freadN n bs = some (xs, rest) ↔ xs.length = n ∧ bs = c.encAll xs ++ rest := by
  induction n generalizing bs xs with
  | zero =>
    rw [freadN, Option.some.injEq, Prod.mk.injEq, List.length_eq_zero_iff]
    constructor
    · rintro ⟨rfl, rfl⟩
      exact ⟨rfl, rfl⟩
    · rintro ⟨rfl, rfl⟩
      exact ⟨rfl, rfl⟩
  | succ n ih =>
    rw [freadN, Option.bind_eq_some_iff]
    constructor
    · rintro ⟨⟨x, bs'⟩, hx, hrest⟩
      rw [Option.map_eq_some_iff] at hrest
      obtain ⟨⟨ys, behind⟩, hys, heq⟩ := hrest
      obtain ⟨rfl, rfl⟩ := Prod.mk.inj heq
      obtain ⟨hlen, rfl⟩ := ih.1 hys
      refine ⟨congrArg (· + 1) hlen, ?_⟩
      rw [c.fread_eq_some_iff.1 hx, encAll_cons, List.append_assoc]
    · rintro ⟨hlen, rfl⟩
      obtain ⟨x, ys, rfl⟩ := List.exists_cons_of_length_eq_add_one hlen
      refine ⟨(x, c.encAll ys ++ rest), c.fread_eq_some_iff.2 (by rw [encAll_cons, List.append_assoc]), ?_⟩
      rw [Option.map_eq_some_iff]
      exact ⟨(ys, rest), ih.2 ⟨Nat.succ.inj hlen, rfl⟩, rfl⟩

/-- Enough bytes begin with a record. -/
theorem exists_enc (bs : List UInt8) (h : c.width ≤ bs.length) :
    ∃ x rest, bs = c.enc x ++ rest ∧ rest.length = bs.length - c.width := by
  refine ⟨c.dec (bs.take c.width), bs.drop c.width, ?_, List.length_drop⟩
  rw [c.enc_dec _ (by rw [List.length_take]; omega), List.take_append_drop]

theorem exists_encAll (n : ℕ) (bs : List UInt8) (h : c.width * n ≤ bs.length) :
    ∃ xs rest, xs.length = n ∧ bs = c.encAll xs ++ rest ∧ rest.length = bs.length - c.width * n := by
  induction n generalizing bs with
  | zero => exact ⟨[], bs, rfl, rfl, (Nat.sub_zero _).symm⟩
  | succ n ih =>
    rw [Nat.mul_add_one] at h
    obtain ⟨x, rest, rfl, hrest⟩ := c.exists_enc bs (by omega)
    obtain ⟨xs, behind, hlen, rfl, hbehind⟩ := ih rest (by omega)
    refine ⟨x :: xs, behind, congrArg (· + 1) hlen, by rw [encAll_cons, List.append_assoc], ?_⟩
    rw [hbehind, hrest, Nat.mul_add_one]
    omega

end Lib.Codec
