import Mathlib.Data.List.Basic
import Mathlib.Tactic.Common

/-! # Lines read through a buffer

    `fgets` with room for `cap` characters reads to the next newline or until the room is used up, so a
    loop over it sees a line longer than the room in pieces of `cap` characters. For what a reader takes
    from a piece whether a newline ends it or not, a text is worth its lines, each cut into its pieces
    (`filterMap_chunks_line`, `filterMap_chunks_last`). -/

namespace Lib

/-- `fgets` with room for `room` characters: what is read and what is left. -/
def fgets : ℕ → List Char → List Char × List Char
  | 0, text => ([], text)
  | _ + 1, [] => ([], [])
  | room + 1, ch :: text =>
    if ch = '\n' then ([ch], text) else (ch :: (fgets room text).1, (fgets room text).2)

/-- The loop `while (fgets(…))`. -/
def chunksOf (cap : ℕ) : ℕ → List Char → List (List Char)
  | 0, _ => []
  | fuel + 1, text =>
    if (fgets cap text).1 = [] then [] else (fgets cap text).1 :: chunksOf cap fuel (fgets cap text).2

def chunks (cap : ℕ) (text : List Char) : List (List Char) := chunksOf cap text.length text

/-- The piece of a line after `k` full ones. -/
def piece (cap : ℕ) (line : List Char) (k : ℕ) : List Char := (line.drop (cap * k)).take cap

def pieces (cap : ℕ) (line : List Char) : List (List Char) :=
  (List.range (line.length / cap + 1)).map (piece cap line)

variable {cap : ℕ} {line rest text : List Char}

theorem fgets_short (hnl : '\n' ∉ line) (h : line.length < cap) (rest : List Char) :
    fgets cap (line ++ '\n' :: rest) = (line ++ ['\n'], rest) := by
  induction line generalizing cap with
  | nil =>
    obtain ⟨room, rfl⟩ := Nat.exists_eq_add_of_lt h
    rw [List.nil_append, fgets, if_pos rfl, List.nil_append]
  | cons ch line ih =>
    obtain ⟨room, rfl⟩ := Nat.exists_eq_succ_of_ne_zero (Nat.ne_of_gt (Nat.zero_lt_of_lt h))
    rw [List.cons_append, fgets, if_neg fun heq : ch = '\n' => hnl (heq ▸ List.mem_cons_self),
      ih (fun hmem => hnl (List.mem_cons_of_mem _ hmem)) (Nat.lt_of_succ_lt_succ h), List.cons_append]

theorem fgets_long (hnl : '\n' ∉ line) (h : cap ≤ line.length) (rest : List Char) :
    fgets cap (line ++ rest) = (line.take cap, line.drop cap ++ rest) := by
  induction line generalizing cap with
  | nil =>
    obtain rfl := Nat.le_zero.1 h
    rfl
  | cons ch line ih =>
    rcases cap with _ | room
    · rfl
    · rw [List.cons_append, fgets, if_neg fun heq : ch = '\n' => hnl (heq ▸ List.mem_cons_self),
        ih (fun hmem => hnl (List.mem_cons_of_mem _ hmem)) (Nat.le_of_succ_le_succ h), List.take_succ_cons,
        List.drop_succ_cons]

theorem fgets_last (hnl : '\n' ∉ line) (h : line.length < cap) : fgets cap line = (line, []) := by
  induction line generalizing cap with
  | nil =>
    obtain ⟨room, rfl⟩ := Nat.exists_eq_succ_of_ne_zero (Nat.ne_of_gt (Nat.zero_lt_of_lt h))
    rfl
  | cons ch line ih =>
    obtain ⟨room, rfl⟩ := Nat.exists_eq_succ_of_ne_zero (Nat.ne_of_gt (Nat.zero_lt_of_lt h))
    rw [fgets, if_neg fun heq : ch = '\n' => hnl (heq ▸ List.mem_cons_self),
      ih (fun hmem => hnl (List.mem_cons_of_mem _ hmem)) (Nat.lt_of_succ_lt_succ h)]

/-- Each call takes characters from the text, none lost. -/
theorem fgets_append (cap : ℕ) (text : List Char) : (fgets cap text).1 ++ (fgets cap text).2 = text := by
  induction cap generalizing text with
  | zero => rfl
  | succ room ih =>
    rcases text with _ | ⟨ch, text⟩
    · rfl
    · rw [fgets]
      split
      · rfl
      · rw [List.cons_append, ih]

/-- The number of calls does not matter once it is enough. -/
theorem chunksOf_eq (hcap : 0 < cap) {fuel : ℕ} (h : text.length ≤ fuel) :
    chunksOf cap fuel text = chunks cap text := by
  have hany : ∀ fuel fuel' text, text.length ≤ fuel → text.length ≤ fuel' →
    chunksOf cap fuel text = chunksOf cap fuel' text := by
    intro fuel
    induction fuel with
    | zero =>
      intro fuel' text hzero _
      obtain rfl := List.length_eq_zero_iff.1 (Nat.le_zero.1 hzero)
      rcases fuel' with _ | fuel'
      · rfl
      · obtain ⟨room, rfl⟩ := Nat.exists_eq_succ_of_ne_zero (Nat.ne_of_gt hcap)
        rfl
    | succ fuel ih =>
      intro fuel' text hfuel hfuel'
      rcases fuel' with _ | fuel'
      · obtain rfl := List.length_eq_zero_iff.1 (Nat.le_zero.1 hfuel')
        obtain ⟨room, rfl⟩ := Nat.exists_eq_succ_of_ne_zero (Nat.ne_of_gt hcap)
        rfl
      · rw [chunksOf, chunksOf]
        split
        · rfl
        next hread =>
          have hlen := congrArg List.length (fgets_append cap text)
          rw [List.length_append] at hlen
          have hpos := List.length_pos_of_ne_nil hread
          rw [ih fuel' (fgets cap text).2 (by omega) (by omega)]
  exact hany fuel text.length text h (Nat.le_refl _)

theorem chunks_cons (hcap : 0 < cap) (h : (fgets cap text).1 ≠ []) :
    chunks cap text = (fgets cap text).1 :: chunks cap (fgets cap text).2 := by
  have hlen := congrArg List.length (fgets_append cap text)
  rw [List.length_append] at hlen
  have hpos := List.length_pos_of_ne_nil h
  obtain ⟨fuel, hfuel⟩ := Nat.exists_eq_succ_of_ne_zero (by omega : text.length ≠ 0)
  rw [chunks, hfuel, chunksOf, if_neg h, chunksOf_eq hcap (by omega)]

theorem piece_zero (cap : ℕ) (line : List Char) : piece cap line 0 = line.take cap := by
  rw [piece, Nat.mul_zero, List.drop_zero]

/-- A line with more than a piece left. -/
theorem pieces_long (hcap : 0 < cap) (h : cap ≤ line.length) :
    pieces cap line = line.take cap :: pieces cap (line.drop cap) := by
  have hcount : line.length / cap = (line.drop cap).length / cap + 1 := by
    rw [List.length_drop, Nat.div_eq_sub_div hcap h]
  rw [pieces, hcount, List.range_succ_eq_map, List.map_cons, List.map_map, piece_zero, pieces]
  refine congrArg _ (List.map_congr_left fun k _ => ?_)
  show piece cap line (k + 1) = _
  rw [piece, piece, List.drop_drop, Nat.mul_succ, Nat.add_comm]

theorem pieces_short (h : line.length < cap) : pieces cap line = [line] := by
  rw [pieces, Nat.div_eq_of_lt h]
  show [piece cap line 0] = _
  rw [piece_zero, List.take_of_length_le (Nat.le_of_lt h)]

/-- A line of a text comes in its pieces. -/
theorem filterMap_chunks_line {α : Type*} {f : List Char → Option α} (hf : ∀ l, f (l ++ ['\n']) = f l) (hcap : 0 < cap)
    (hnl : '\n' ∉ line) (rest : List Char) :
    (chunks cap (line ++ '\n' :: rest)).filterMap f = (pieces cap line).filterMap f ++ (chunks cap rest).filterMap f := by
  induction hlen : line.length using Nat.strongRecOn generalizing line with
  | ind n ih =>
    subst hlen
    rcases Nat.lt_or_ge line.length cap with hshort | hlong
    · have hread := fgets_short hnl hshort rest
      rw [chunks_cons hcap (by rw [hread]; simp), hread, pieces_short hshort, List.filterMap_cons,
        List.filterMap_cons, hf]
      cases f line <;> rfl
    · have hread := fgets_long hnl hlong ('\n' :: rest)
      have htake : line.take cap ≠ [] := by
        rw [← List.length_pos_iff, List.length_take]
        omega
      have hrest := ih (line.drop cap).length (by rw [List.length_drop]; omega)
        (fun hmem => hnl (List.mem_of_mem_drop hmem)) rfl
      rw [chunks_cons hcap (by rw [hread]; exact htake), hread, pieces_long hcap hlong, List.filterMap_cons,
        List.filterMap_cons, hrest]
      cases f (line.take cap) <;> rfl

/-- What stands behind the last newline comes in its pieces as well. -/
theorem filterMap_chunks_last {α : Type*} {f : List Char → Option α} (hf : f [] = none) (hcap : 0 < cap)
    (hnl : '\n' ∉ line) : (chunks cap line).filterMap f = (pieces cap line).filterMap f := by
  induction hlen : line.length using Nat.strongRecOn generalizing line with
  | ind n ih =>
    subst hlen
    rcases Nat.lt_or_ge line.length cap with hshort | hlong
    · rw [pieces_short hshort]
      rcases line with _ | ⟨ch, line⟩
      · rw [List.filterMap_cons, hf]
        rfl
      · have hread := fgets_last hnl hshort
        rw [chunks_cons hcap (by rw [hread]; exact List.cons_ne_nil _ _), hread, List.filterMap_cons,
          List.filterMap_cons]
        cases f (ch :: line) <;> rfl
    · have hread := fgets_long hnl hlong []
      rw [List.append_nil, List.append_nil] at hread
      have htake : line.take cap ≠ [] := by
        rw [← List.length_pos_iff, List.length_take]
        omega
      have hrest := ih (line.drop cap).length (by rw [List.length_drop]; omega)
        (fun hmem => hnl (List.mem_of_mem_drop hmem)) rfl
      rw [chunks_cons hcap (by rw [hread]; exact htake), hread, pieces_long hcap hlong, List.filterMap_cons,
        List.filterMap_cons, hrest]

end Lib
