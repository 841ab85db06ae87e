import Mathlib.Data.Nat.Notation

/-! # Flags as machine words

    A condition as a word that is zero or one. Conjunction and disjunction are those of the words; a
    negation is a complement, which is right on the lowest bit only, or the complement of the negated
    word, which has all bits alike. -/

namespace Lib

/-- A condition as a word. -/
def flagWord (w : ℕ) (b : Bool) : BitVec w := if b then 1#w else 0#w

variable {w : ℕ}

theorem flagWord_ne_zero (hw : 0 < w) (b : Bool) : flagWord w b ≠ 0#w ↔ b = true := by
  cases b with
  | false => exact iff_of_false (fun h => h rfl) Bool.false_ne_true
  | true =>
    refine iff_of_true (fun h => ?_) rfl
    have hval : 1 % 2 ^ w = 0 := congrArg BitVec.toNat h
    rw [Nat.mod_eq_of_lt (Nat.one_lt_two_pow (Nat.ne_of_gt hw))] at hval
    exact Nat.one_ne_zero hval

theorem flagWord_and (a b : Bool) : flagWord w a &&& flagWord w b = flagWord w (a && b) := by
  cases a <;> cases b <;> simp [flagWord]

theorem flagWord_or (a b : Bool) : flagWord w a ||| flagWord w b = flagWord w (a || b) := by
  cases a <;> cases b <;> simp [flagWord]

/-- The complement of a flag, under another flag. -/
theorem flagWord_and_not (a b : Bool) : flagWord w a &&& ~~~flagWord w b = flagWord w (a && !b) := by
  cases a <;> cases b <;> simp [flagWord]

theorem not_flagWord_and_one (b : Bool) : ~~~flagWord w b &&& 1#w = flagWord w (!b) := by
  cases b <;> simp [flagWord]

/-- The mask of a flag lets a word through or nothing. -/
theorem and_neg_flagWord (x : BitVec w) (b : Bool) : x &&& -flagWord w b = if b then x else 0#w := by
  cases b with
  | false => simp [flagWord]
  | true => rw [flagWord, if_pos rfl, BitVec.neg_one_eq_allOnes, BitVec.and_allOnes, if_pos rfl]

theorem flagWord_and_neg (a b : Bool) : flagWord w a &&& -flagWord w b = flagWord w (a && b) := by
  rw [and_neg_flagWord]
  cases a <;> cases b <;> rfl

theorem flagWord_and_not_neg (a b : Bool) : flagWord w a &&& ~~~(-flagWord w b) = flagWord w (a && !b) := by
  cases b with
  | false => cases a <;> simp [flagWord]
  | true =>
    have hmask : -flagWord w true = BitVec.allOnes w := BitVec.neg_one_eq_allOnes
    rw [hmask, BitVec.not_allOnes, BitVec.and_zero, Bool.not_true, Bool.and_false]
    rfl

/-- A flag in another width. -/
theorem setWidth_flagWord {v : ℕ} (hw : 0 < w) (b : Bool) : (flagWord w b).setWidth v = flagWord v b := by
  cases b with
  | false => exact BitVec.setWidth_zero ..
  | true =>
    refine BitVec.eq_of_toNat_eq ?_
    rw [flagWord, if_pos rfl, flagWord, if_pos rfl, BitVec.toNat_setWidth, BitVec.toNat_ofNat, BitVec.toNat_ofNat,
      Nat.mod_eq_of_lt (Nat.one_lt_two_pow (Nat.ne_of_gt hw))]

/-- A word of at most one is a flag. -/
theorem exists_flagWord (hw : 0 < w) {x : BitVec w} (h : x.toNat ≤ 1) : ∃ b, x = flagWord w b := by
  have hone : 1 % 2 ^ w = 1 := Nat.mod_eq_of_lt (Nat.one_lt_two_pow (Nat.ne_of_gt hw))
  rcases Nat.le_one_iff_eq_zero_or_eq_one.1 h with hzero | hset
  · exact ⟨false, BitVec.eq_of_toNat_eq (hzero.trans BitVec.toNat_zero.symm)⟩
  · refine ⟨true, BitVec.eq_of_toNat_eq (hset.trans ?_)⟩
    rw [flagWord, if_pos rfl, BitVec.toNat_ofNat, hone]

end Lib
