import Mathlib.Data.List.Flatten
import Mathlib.Data.List.Infix
import Mathlib.Data.List.TakeWhile

/-! # Key-value lines

    A text of `key=value` lines, and its reader: `strtok_r` cuts the text at the newlines and drops
    what is empty, `strchr` cuts a line at its first `=`. Lines without a newline come back as they
    were printed, so one text has one list of pairs. -/

namespace Lib

structure KeyValue where
  key : List Char
  value : List Char
  deriving DecidableEq

/-- `key=value`. -/
def KeyValue.line (kv : KeyValue) : List Char := kv.key ++ '=' :: kv.value

/-- The lines with a newline behind each. -/
def unlines (ls : List (List Char)) : List Char := ls.flatMap fun line => line ++ ['\n']

def render (kvs : List KeyValue) : List Char := unlines (kvs.map KeyValue.line)

/-- `strtok_r` with `"\n"`. -/
def lines (text : List Char) : List (List Char) := (text.splitOn '\n').filter fun line => line ≠ []

/-- The pair of a line: what stands before its first `=` and behind it. -/
def keyValue (line : List Char) : Option KeyValue :=
  if '=' ∈ line then some ⟨line.takeWhile (· ≠ '='), (line.dropWhile (· ≠ '=')).tail⟩ else none

/-! ### One line -/

theorem keyValue_line {kv : KeyValue} (h : '=' ∉ kv.key) : keyValue kv.line = some kv := by
  have hall : ∀ ch ∈ kv.key, (decide (ch ≠ '=')) = true := fun ch hch =>
    decide_eq_true fun heq => h (heq ▸ hch)
  rw [keyValue, if_pos (by rw [KeyValue.line]; exact List.mem_append_right _ List.mem_cons_self), KeyValue.line,
    List.takeWhile_append_of_pos hall, List.dropWhile_append_of_pos hall, List.takeWhile_cons_of_neg (by decide),
    List.dropWhile_cons_of_neg (by decide), List.append_nil]
  rfl

theorem line_of_keyValue {line : List Char} {kv : KeyValue} (h : keyValue line = some kv) :
    kv.line = line ∧ '=' ∉ kv.key := by
  rw [keyValue] at h
  split at h
  case isFalse => exact nomatch h
  case isTrue heq =>
    obtain rfl := Option.some.inj h
    refine ⟨?_, fun hmem => absurd (List.mem_takeWhile_imp hmem) (by decide)⟩
    have hne : line.dropWhile (· ≠ '=') ≠ [] := fun hnil =>
      absurd (List.dropWhile_eq_nil_iff.1 hnil _ heq) (by decide)
    have hhead : (line.dropWhile (· ≠ '=')).head hne = '=' := by
      simpa using List.head_dropWhile_not (fun ch => decide (ch ≠ '=')) hne
    show line.takeWhile (· ≠ '=') ++ '=' :: (line.dropWhile (· ≠ '=')).tail = line
    conv_rhs => rw [← List.takeWhile_append_dropWhile (p := (· ≠ '=')) (l := line)]
    rw [← List.cons_head_tail hne, hhead, List.tail_cons]

/-! ### Cutting a text into lines -/

theorem lines_cons_append {line : List Char} (h : '\n' ∉ line) (hne : line ≠ []) (rest : List Char) :
    lines (line ++ '\n' :: rest) = line :: lines rest := by
  rw [lines, List.splitOn_append_cons_self_of_not_mem h, List.filter_cons_of_pos (by simpa using hne), lines]

theorem lines_eq_singleton {line : List Char} (h : '\n' ∉ line) (hne : line ≠ []) : lines line = [line] := by
  rw [lines, List.splitOn_eq_singleton h, List.filter_cons_of_pos (by simpa using hne), List.filter_nil]

theorem lines_unlines_append {ls : List (List Char)} (h : ∀ line ∈ ls, '\n' ∉ line ∧ line ≠ []) (rest : List Char) :
    lines (unlines ls ++ rest) = ls ++ lines rest := by
  induction ls with
  | nil => rfl
  | cons line ls ih =>
    obtain ⟨hline, hls⟩ := List.forall_mem_cons.1 h
    rw [unlines, List.flatMap_cons, List.append_assoc, List.append_assoc, List.singleton_append,
      lines_cons_append hline.1 hline.2, List.cons_append]
    exact congrArg (line :: ·) (ih hls)

theorem KeyValue.line_ne_nil (kv : KeyValue) : kv.line ≠ [] := by
  rw [KeyValue.line]
  exact List.append_ne_nil_of_right_ne_nil _ (List.cons_ne_nil _ _)

theorem lines_render_append {kvs : List KeyValue} (h : ∀ kv ∈ kvs, '\n' ∉ kv.line) (rest : List Char) :
    lines (render kvs ++ rest) = kvs.map KeyValue.line ++ lines rest := by
  refine lines_unlines_append (fun line hline => ?_) rest
  obtain ⟨kv, hkv, rfl⟩ := List.mem_map.1 hline
  exact ⟨h kv hkv, kv.line_ne_nil⟩

/-- A pair that a line can carry. -/
structure KeyValue.WellFormed (kv : KeyValue) : Prop where
  key : '=' ∉ kv.key
  line : '\n' ∉ kv.line

/-- One text has one list of pairs. -/
theorem render_injective {kvs kvs' : List KeyValue} (h : ∀ kv ∈ kvs, kv.WellFormed) (h' : ∀ kv ∈ kvs', kv.WellFormed)
    (heq : render kvs = render kvs') : kvs = kvs' := by
  have hread : ∀ {ls : List KeyValue}, (∀ kv ∈ ls, kv.WellFormed) → (lines (render ls)).filterMap keyValue = ls := by
    intro ls hls
    rw [← List.append_nil (render ls), lines_render_append (fun kv hkv => (hls kv hkv).line)]
    show ((ls.map KeyValue.line) ++ []).filterMap keyValue = ls
    rw [List.append_nil, List.filterMap_map]
    conv_rhs => rw [← List.filterMap_some (l := ls)]
    exact List.filterMap_congr fun kv hkv => keyValue_line (hls kv hkv).key
  rw [← hread h, heq, hread h']

/-! ### Where a line stands in the text -/

theorem intercalate_append_cons (pre : List (List Char)) (line : List Char) (post : List (List Char)) :
    ∃ rest, ['\n'].intercalate (pre ++ line :: post) = unlines pre ++ line ++ rest := by
  induction pre with
  | nil =>
    rcases post with _ | ⟨next, post⟩
    · exact ⟨[], by simp [List.intercalate, unlines]⟩
    · exact ⟨'\n' :: ['\n'].intercalate (next :: post), by simp [List.intercalate, unlines]⟩
  | cons first pre ih =>
    obtain ⟨rest, hrest⟩ := ih
    refine ⟨rest, ?_⟩
    have hstep : ['\n'].intercalate (first :: (pre ++ line :: post)) =
        first ++ ['\n'] ++ ['\n'].intercalate (pre ++ line :: post) := by
      rcases pre with _ | ⟨second, pre⟩ <;> simp [List.intercalate]
    rw [List.cons_append, hstep, hrest]
    simp only [unlines, List.flatMap_cons, List.append_assoc]

theorem length_unlines_sublist {ls ls' : List (List Char)} (h : ls.Sublist ls') :
    (unlines ls).length ≤ (unlines ls').length := (h.flatMap _).length_le

/-- A line stands behind the lines before it. -/
theorem eq_append_of_lines {text line : List Char} {pre post : List (List Char)}
    (h : lines text = pre ++ line :: post) :
    ∃ before rest, text = before ++ line ++ rest ∧ (unlines pre).length ≤ before.length := by
  obtain ⟨pre', tail', hparts, hpre, htail⟩ := List.filter_eq_append_iff.1 h
  obtain ⟨empty, post', rfl, hempty, _, -⟩ := List.filter_eq_cons_iff.1 htail
  obtain ⟨rest, hrest⟩ := intercalate_append_cons (pre' ++ empty) line post'
  refine ⟨unlines (pre' ++ empty), rest, ?_, ?_⟩
  · rw [← hrest, List.append_assoc, ← hparts, List.intercalate_splitOn]
  · rw [← hpre]
    exact length_unlines_sublist (List.filter_sublist.trans (List.sublist_append_left ..))

theorem not_mem_of_mem_lines {text line : List Char} (h : line ∈ lines text) : '\n' ∉ line := by
  have hparts : ∀ {text : List Char}, ∀ part ∈ text.splitOn '\n', '\n' ∉ part := by
    intro text
    induction text with
    | nil => simp [List.splitOn_nil]
    | cons ch text ih =>
      intro part hpart
      rw [List.splitOn_cons_eq_if_modifyHead] at hpart
      split at hpart
      case isTrue =>
        rcases List.mem_cons.1 hpart with rfl | hpart
        · exact List.not_mem_nil
        · exact ih part hpart
      case isFalse hch =>
        rcases hsplit : text.splitOn '\n' with _ | ⟨first, parts⟩
        · rw [hsplit] at hpart
          exact nomatch hpart
        rw [hsplit, List.modifyHead_cons] at hpart
        rw [hsplit] at ih
        rcases List.mem_cons.1 hpart with rfl | hpart
        · rw [List.mem_cons]
          rintro (rfl | hmem)
          · exact hch (beq_self_eq_true _)
          · exact ih first List.mem_cons_self hmem
        · exact ih part (List.mem_cons_of_mem _ hpart)
  exact hparts line (List.mem_filter.1 h).1

end Lib
