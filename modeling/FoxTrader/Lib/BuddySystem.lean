import Mathlib.Data.Nat.Bitwise
import Mathlib.Data.List.Count
import Mathlib.Data.List.Perm.Basic
import Mathlib.Tactic.Ring

/-! # Buddy systems

    A block is an order `k` and an offset that `2 ^ k` divides; its buddy is the other half of the block
    one order up. A list of blocks tiles a pool of `2 ^ M` bytes when each byte lies in exactly one of
    them. Splitting a block and merging two buddies keep the tiling (`cover_split`, `cover_merge`), and a
    tiling without two buddies is the one block of order `M` (`Tiles.eq_whole`). -/

namespace Lib

namespace Buddy

/-- A block: its order, and the offset it starts at. -/
abbrev Block := ℕ × ℕ

def Covers (b : Block) (p : ℕ) : Prop := b.2 ≤ p ∧ p < b.2 + 2 ^ b.1

instance (b : Block) (p : ℕ) : Decidable (Covers b p) := inferInstanceAs (Decidable (_ ∧ _))

def Aligned (b : Block) : Prop := 2 ^ b.1 ∣ b.2

/-- The other half of the block one order up. -/
def buddy (b : Block) : Block := (b.1, b.2 ^^^ 2 ^ b.1)

/-- The block of an order that holds the byte. -/
def blockAt (k p : ℕ) : Block := (k, p / 2 ^ k * 2 ^ k)

/-- The block one order up. -/
def parent (b : Block) : Block := blockAt (b.1 + 1) b.2

/-- How many of the blocks the byte lies in. -/
def cover (p : ℕ) (blocks : List Block) : ℕ := blocks.countP fun b => Covers b p

/-- Each byte of the pool lies in one of the blocks, no byte beyond it does. -/
def Tiles (M : ℕ) (blocks : List Block) : Prop := ∀ p, cover p blocks = if p < 2 ^ M then 1 else 0

/-- No two buddies below order `M`. -/
def Coalesced (M : ℕ) (blocks : List Block) : Prop := ∀ b ∈ blocks, b.1 < M → buddy b ∉ blocks

section Blocks

variable {b c : Block} {p k q o : ℕ}

theorem covers_start (b : Block) : Covers b b.2 := ⟨le_rfl, Nat.lt_add_of_pos_right (Nat.two_pow_pos _)⟩

theorem Aligned.covers_iff (h : Aligned b) : Covers b p ↔ p / 2 ^ b.1 = b.2 / 2 ^ b.1 := by
  obtain ⟨k, o⟩ := b
  obtain ⟨q, rfl⟩ : 2 ^ k ∣ o := h
  have hpos := Nat.two_pow_pos k
  dsimp only [Covers]
  rw [Nat.mul_div_cancel_left q hpos, Nat.div_eq_iff hpos, Nat.mul_comm q]
  constructor <;> rintro ⟨h₁, h₂⟩ <;> exact ⟨by omega, by omega⟩

/-- Of two blocks that meet, the larger one contains the other. -/
theorem Aligned.covers_of_le (hb : Aligned b) (hc : Aligned c) (hle : b.1 ≤ c.1) (hbp : Covers b p)
    (hcp : Covers c p) {x : ℕ} (hx : Covers b x) : Covers c x := by
  rw [hc.covers_iff] at hcp ⊢
  rw [hb.covers_iff] at hbp hx
  obtain ⟨d, hd⟩ := Nat.exists_eq_add_of_le hle
  rw [hd, Nat.pow_add, ← Nat.div_div_eq_div_mul, hx, ← hbp, Nat.div_div_eq_div_mul, ← Nat.pow_add, ← hd, hcp, hd]

theorem xor_two_pow_mul (q k : ℕ) : 2 ^ k * q ^^^ 2 ^ k = 2 ^ k * (q ^^^ 1) := by
  have h := Nat.shiftLeft_xor_distrib (a := q) (b := 1) (i := k)
  rw [Nat.shiftLeft_eq, Nat.shiftLeft_eq, Nat.shiftLeft_eq, Nat.one_mul] at h
  rw [Nat.mul_comm, Nat.mul_comm _ (q ^^^ 1), h]

theorem Aligned.buddy (h : Aligned b) : Aligned (buddy b) := by
  obtain ⟨k, o⟩ := b
  obtain ⟨q, rfl⟩ : 2 ^ k ∣ o := h
  exact ⟨q ^^^ 1, xor_two_pow_mul q k⟩

theorem buddy_buddy (b : Block) : Buddy.buddy (Buddy.buddy b) = b := by
  unfold Buddy.buddy
  rw [Nat.xor_assoc, Nat.xor_self, Nat.xor_zero]

theorem aligned_blockAt (k p : ℕ) : Aligned (blockAt k p) := Nat.dvd_mul_left _ _

theorem aligned_parent (b : Block) : Aligned (parent b) := aligned_blockAt _ _

theorem Aligned.blockAt_eq (h : Aligned (k, o)) : blockAt k o = (k, o) := Prod.ext rfl (Nat.div_mul_cancel h)

theorem blockAt_div (k p : ℕ) : (blockAt k p).2 / 2 ^ (k + 1) = p / 2 ^ (k + 1) := by
  rw [Nat.pow_succ, ← Nat.div_div_eq_div_mul, ← Nat.div_div_eq_div_mul]
  exact congrArg (· / 2) (Nat.mul_div_cancel _ (Nat.two_pow_pos k))

theorem parent_blockAt (k p : ℕ) : parent (blockAt k p) = blockAt (k + 1) p :=
  Prod.ext rfl (congrArg (· * 2 ^ (k + 1)) (blockAt_div k p))

/-- A block and its buddy are the lower and the upper half of the block above, one way or the other. -/
theorem Aligned.halves (h : Aligned b) :
    b.2 = (parent b).2 ∧ (Buddy.buddy b).2 = (parent b).2 + 2 ^ b.1 ∨
      (Buddy.buddy b).2 = (parent b).2 ∧ b.2 = (parent b).2 + 2 ^ b.1 := by
  obtain ⟨k, o⟩ := b
  obtain ⟨q, rfl⟩ : 2 ^ k ∣ o := h
  have hhalf : 2 ^ k * q / 2 ^ (k + 1) = q / 2 := by
    rw [Nat.pow_succ, Nat.mul_div_mul_left _ _ (Nat.two_pow_pos k)]
  simp only [parent, blockAt, Buddy.buddy, hhalf, xor_two_pow_mul]
  rw [Nat.pow_succ]
  rcases Nat.even_or_odd q with heven | hodd
  · obtain ⟨r, rfl⟩ := heven
    left
    rw [Nat.xor_one_of_even ⟨r, rfl⟩, show (r + r) / 2 = r by omega]
    exact ⟨by ring, by ring⟩
  · obtain ⟨r, rfl⟩ := hodd
    right
    rw [Nat.xor_one_of_odd ⟨r, rfl⟩, show (2 * r + 1) / 2 = r by omega, Nat.add_sub_cancel]
    exact ⟨by ring, by ring⟩

/-- The block above starts where the lower of the two does. -/
theorem Aligned.min_buddy (h : Aligned b) :
    (if b.2 < (Buddy.buddy b).2 then b.2 else (Buddy.buddy b).2) = (parent b).2 := by
  have hpos := Nat.two_pow_pos b.1
  rcases h.halves with ⟨hlow, hhigh⟩ | ⟨hlow, hhigh⟩
  · rw [if_pos (by omega), hlow]
  · rw [if_neg (by omega), hlow]

theorem Aligned.buddy_ne (h : Aligned b) : Buddy.buddy b ≠ b := by
  intro heq
  have hpos := Nat.two_pow_pos b.1
  rcases h.halves with ⟨h₁, h₂⟩ | ⟨h₁, h₂⟩ <;> rw [heq] at * <;> omega

theorem parent_covers (h : Aligned b) : Covers (parent b) b.2 ∧ Covers (parent b) (Buddy.buddy b).2 := by
  have hsize : 2 ^ (parent b).1 = 2 ^ b.1 * 2 := Nat.pow_succ _ _
  have hpos := Nat.two_pow_pos b.1
  simp only [Covers, hsize]
  rcases h.halves with ⟨hlow, hhigh⟩ | ⟨hlow, hhigh⟩ <;> omega

theorem Aligned.eq_of_covers_start (hb : Aligned b) (hc : Aligned c) (hk : b.1 = c.1) (hcover : Covers b c.2) :
    b = c := by
  refine Prod.ext hk ?_
  rw [hb.covers_iff] at hcover
  rw [← Nat.div_mul_cancel hb, ← hcover, hk]
  exact Nat.div_mul_cancel hc

/-- The halves of an aligned block. -/
theorem Aligned.lower (h : Aligned (k + 1, o)) : Aligned (k, o) :=
  Nat.dvd_trans (Nat.pow_dvd_pow 2 (Nat.le_succ k)) h

theorem Aligned.upper (h : Aligned (k + 1, o)) : Aligned (k, o + 2 ^ k) := Nat.dvd_add h.lower (Nat.dvd_refl _)

theorem Aligned.buddy_lower (h : Aligned (k + 1, o)) : Buddy.buddy (k, o) = (k, o + 2 ^ k) := by
  obtain ⟨q, rfl⟩ : 2 ^ (k + 1) ∣ o := h
  rw [Nat.pow_succ, Nat.mul_assoc, Buddy.buddy, xor_two_pow_mul, Nat.xor_one_of_even (even_two_mul q), Nat.mul_succ]

theorem Aligned.buddy_upper (h : Aligned (k + 1, o)) : Buddy.buddy (k, o + 2 ^ k) = (k, o) := by
  rw [← h.buddy_lower, buddy_buddy]

theorem covers_whole (M p : ℕ) : Covers (M, 0) p ↔ p < 2 ^ M := by
  simp [Covers]

end Blocks

section Covers

variable {M p : ℕ} {b c : Block} {l l' : List Block}

theorem cover_append (p : ℕ) (l l' : List Block) : cover p (l ++ l') = cover p l + cover p l' := List.countP_append

theorem cover_cons (p : ℕ) (b : Block) (l : List Block) :
    cover p (b :: l) = (if Covers b p then 1 else 0) + cover p l := by
  rw [cover, List.countP_cons, Nat.add_comm]
  simp [cover]

theorem cover_perm (h : l.Perm l') (p : ℕ) : cover p l = cover p l' := h.countP_eq _

theorem cover_erase (hb : b ∈ l) (p : ℕ) : cover p l = (if Covers b p then 1 else 0) + cover p (l.erase b) := by
  rw [cover_perm (List.perm_cons_erase hb), cover_cons]

theorem one_le_cover (hb : b ∈ l) (hp : Covers b p) : 1 ≤ cover p l :=
  List.countP_pos_iff.2 ⟨b, hb, decide_eq_true hp⟩

theorem exists_of_cover (h : cover p l ≠ 0) : ∃ b ∈ l, Covers b p := by
  obtain ⟨b, hb, hp⟩ := List.countP_pos_iff.1 (Nat.pos_of_ne_zero h)
  exact ⟨b, hb, of_decide_eq_true hp⟩

/-- Two blocks that make up a third one. -/
theorem cover_pair {whole : Block} (hor : Covers whole p ↔ Covers b p ∨ Covers c p)
    (hapart : ¬(Covers b p ∧ Covers c p)) (l : List Block) : cover p (b :: c :: l) = cover p (whole :: l) := by
  simp only [cover_cons, hor]
  by_cases hb : Covers b p <;> by_cases hc : Covers c p
  · exact absurd ⟨hb, hc⟩ hapart
  all_goals simp [hb, hc]

theorem cover_split (k o p : ℕ) (l : List Block) :
    cover p ((k, o) :: (k, o + 2 ^ k) :: l) = cover p ((k + 1, o) :: l) := by
  refine cover_pair ?_ ?_ l <;> simp only [Covers, Nat.pow_succ] <;> omega

theorem cover_merge (h : Aligned b) (p : ℕ) (l : List Block) :
    cover p (b :: buddy b :: l) = cover p (parent b :: l) := by
  have hsize : 2 ^ (parent b).1 = 2 ^ b.1 * 2 := Nat.pow_succ _ _
  have hbuddy : (buddy b).1 = b.1 := rfl
  refine cover_pair ?_ ?_ l <;> simp only [Covers, hsize, hbuddy] <;>
    rcases h.halves with ⟨hlow, hhigh⟩ | ⟨hlow, hhigh⟩ <;> omega

/-- Blocks that cover no byte twice are pairwise disjoint. -/
theorem pairwise_of_cover_le_one : ∀ {l : List Block}, (∀ p, cover p l ≤ 1) →
    l.Pairwise fun b c => ∀ p, ¬(Covers b p ∧ Covers c p)
  | [], _ => List.Pairwise.nil
  | b :: l, h => by
    refine List.Pairwise.cons ?_ (pairwise_of_cover_le_one fun p => ?_)
    · rintro c hc p ⟨hb, hp⟩
      have hle := h p
      rw [cover_cons, if_pos hb] at hle
      have := one_le_cover hc hp
      omega
    · have hle := h p
      rw [cover_cons] at hle
      omega

theorem nodup_of_cover_le_one (h : ∀ p, cover p l ≤ 1) : l.Nodup := by
  refine (pairwise_of_cover_le_one h).imp ?_
  rintro b _ hapart rfl
  exact hapart b.2 ⟨covers_start b, covers_start b⟩

theorem eq_of_cover_le_one (h : ∀ p, cover p l ≤ 1) (hb : b ∈ l) (hc : c ∈ l) (hbp : Covers b p)
    (hcp : Covers c p) : b = c := by
  by_contra hne
  have hle := h p
  rw [cover_erase hb, if_pos hbp] at hle
  have := one_le_cover ((List.mem_erase_of_ne (Ne.symm hne)).2 hc) hcp
  omega

theorem Tiles.cover_le_one (h : Tiles M l) (p : ℕ) : cover p l ≤ 1 := by
  rw [h p]
  split <;> omega

theorem Tiles.start_lt (h : Tiles M l) (hb : b ∈ l) : b.2 < 2 ^ M := by
  by_contra hout
  have := one_le_cover hb (covers_start b)
  rw [h, if_neg hout] at this
  omega

theorem Coalesced.cons (h : Coalesced M l) (hb : Aligned b) (hbuddy : b.1 < M → buddy b ∉ l) :
    Coalesced M (b :: l) := by
  intro c hc hlt
  rw [List.mem_cons, not_or]
  rcases List.mem_cons.1 hc with rfl | hold
  · exact ⟨hb.buddy_ne, hbuddy hlt⟩
  · refine ⟨?_, h c hold hlt⟩
    rintro rfl
    exact hbuddy hlt ((buddy_buddy c).symm ▸ hold)

theorem Coalesced.subset (h : Coalesced M l) (hsub : l' ⊆ l) : Coalesced M l' :=
  fun b hb hlt hbuddy => h b (hsub hb) hlt (hsub hbuddy)

/-- A block whose buddy is not of the tiling leaves the buddy's bytes to smaller blocks. -/
theorem Tiles.exists_smaller (h : Tiles M l) (haligned : ∀ b ∈ l, Aligned b) (hb : b ∈ l) (hlt : b.1 < M)
    (hbuddy : buddy b ∉ l) : ∃ c ∈ l, c.1 < b.1 := by
  by_contra hnone
  push Not at hnone
  obtain ⟨hstart, hother⟩ := parent_covers (haligned b hb)
  have hin : (buddy b).2 < 2 ^ M := (covers_whole M _).1 ((aligned_parent b).covers_of_le (c := (M, 0))
    (Nat.dvd_zero _) hlt hstart ((covers_whole M b.2).2 (h.start_lt hb)) hother)
  have hone := h (buddy b).2
  rw [if_pos hin] at hone
  obtain ⟨c, hc, hcp⟩ := exists_of_cover (by rw [hone]; exact Nat.one_ne_zero)
  rcases Nat.lt_or_eq_of_le (hnone c hc) with hlarger | hsame
  · -- the block over the buddy is larger, so it is over the block as well
    have hboth := (aligned_parent b).covers_of_le (haligned c hc) hlarger hother hcp hstart
    exact absurd (eq_of_cover_le_one h.cover_le_one hb hc (covers_start b) hboth ▸ hlarger) (Nat.lt_irrefl _)
  · exact hbuddy ((haligned c hc).eq_of_covers_start (haligned b hb).buddy hsame.symm hcp ▸ hc)

/-- A tiling by blocks of which no two are buddies is the whole pool. -/
theorem Tiles.eq_whole (h : Tiles M l) (haligned : ∀ b ∈ l, Aligned b) (horder : ∀ b ∈ l, b.1 ≤ M)
    (hcoalesced : Coalesced M l) : l = [(M, 0)] := by
  -- below order M each block has a smaller one beside it, so there is none below
  have hfull : ∀ k, ∀ b ∈ l, b.1 = k → k = M := by
    intro k
    induction k using Nat.strongRecOn with
    | ind k ih =>
      rintro b hb rfl
      by_contra hne
      have hlt : b.1 < M := Nat.lt_of_le_of_ne (horder b hb) hne
      obtain ⟨c, hc, hsmaller⟩ := h.exists_smaller haligned hb hlt (hcoalesced b hb hlt)
      have := ih c.1 hsmaller c hc rfl
      omega
  have hwhole : ∀ b ∈ l, b = (M, 0) := by
    intro b hb
    have hk := hfull b.1 b hb rfl
    refine Prod.ext hk (Nat.eq_zero_of_dvd_of_lt (haligned b hb) ?_)
    rw [hk]
    exact h.start_lt hb
  have hnonempty : cover 0 l ≠ 0 := by
    rw [h, if_pos (Nat.two_pow_pos M)]
    exact Nat.one_ne_zero
  obtain ⟨b, hb, -⟩ := exists_of_cover hnonempty
  have hlist := List.eq_replicate_of_mem hwhole
  have hlength : l.length ≤ 1 := by
    have hnodup := nodup_of_cover_le_one h.cover_le_one
    rw [hlist] at hnodup
    exact List.nodup_replicate.1 hnodup
  have hpos := List.length_pos_of_mem hb
  rw [hlist, show l.length = 1 by omega]
  rfl

end Covers

end Buddy

end Lib
