import Mathlib.Data.List.DropRight
import FoxTrader.Lib.ChunkedLines
import FoxTrader.Lib.KeyValueLines
import FoxTrader.StampText

/-! # The lines of a config file

    `ControllerConfig_Load` reads the file with `fgets` into 256 bytes and takes every piece it gets for a
    line: what is blank or begins with `#` is skipped, anything else is cut at its first `=`. A line of up
    to 255 characters is one piece. Of a longer one the rest is read as lines of their own, so the tail of
    a comment can be read as a key, and a value can lose its end.

    What the loop does with a key is a parameter here, with a state of any kind: what is shown about the
    lines holds for whatever the keys do. -/

namespace FoxTrader

open Lib

/-- `sizeof(line) - 1`. -/
def lineRoom : ℕ := 255

def isBlank (ch : Char) : Bool := ch = ' ' || ch = '\t'

/-- A piece up to its first end-of-line character. -/
def stripEol (chunk : List Char) : List Char := chunk.takeWhile fun ch => ch ≠ '\x00' && ch ≠ '\n' && ch ≠ '\r'

/-- Whether a line is skipped: nothing in it, or `#` behind the blanks. -/
def skipped (line : List Char) : Bool := (line.dropWhile isBlank).head?.all (· = '#')

/-- The value without its comment and the blanks around it. -/
def trimValue (val : List Char) : List Char := ((val.takeWhile (· ≠ '#')).rdropWhile isBlank).dropWhile isBlank

/-- The key and the value of a piece, if it is not skipped and has a `=`. -/
def configUnit (chunk : List Char) : Option KeyValue :=
  if skipped (stripEol chunk) then none
  else (keyValue (stripEol chunk)).map fun kv => { kv with value := trimValue kv.value }

/-- The pieces' keys and values, in the order of the file. -/
def configUnits (text : List Char) : List KeyValue := (chunks lineRoom text).filterMap configUnit

/-- `ControllerConfig_Load`: `apply` stands for what the loop does with a key, `finish` for what follows it. -/
def controllerConfigLoad {σ C : Type} (apply : σ → KeyValue → σ) (finish : σ → C) (init : σ) (text : List Char) : C :=
  finish ((chunks lineRoom text).foldl (fun s chunk => (configUnit chunk).elim s (apply s)) init)

theorem controllerConfigLoad_eq {σ C : Type} (apply : σ → KeyValue → σ) (finish : σ → C) (init : σ)
    (text : List Char) :
    controllerConfigLoad apply finish init text = finish ((configUnits text).foldl apply init) := by
  rw [controllerConfigLoad, configUnits, List.foldl_filterMap]
  refine congrArg finish (congrArg (fun f => List.foldl f init _) ?_)
  funext s chunk
  cases configUnit chunk <;> rfl

/-! ### One piece -/

theorem stripEol_newline (line : List Char) : stripEol (line ++ ['\n']) = stripEol line := by
  induction line with
  | nil => rfl
  | cons ch line ih =>
    unfold stripEol at ih ⊢
    rw [List.cons_append, List.takeWhile_cons, List.takeWhile_cons, ih]

theorem configUnit_newline (line : List Char) : configUnit (line ++ ['\n']) = configUnit line := by
  rw [configUnit, configUnit, stripEol_newline]

theorem stripEol_take (n : ℕ) (line : List Char) : stripEol (line.take n) = (stripEol line).take n :=
  List.take_takeWhile.symm

/-- Whether a line is skipped shows in any part of it that has a character which is not blank. -/
theorem skipped_append {front : List Char} (h : front.dropWhile isBlank ≠ []) (rest : List Char) :
    skipped (front ++ rest) = skipped front := by
  unfold skipped
  rw [List.dropWhile_append, if_neg (by rwa [List.isEmpty_iff]), List.head?_append_of_ne_nil _ h]

/-- A line with a `=` has a character that is not blank. -/
theorem dropWhile_ne_nil_of_mem {line : List Char} (h : '=' ∈ line) : line.dropWhile isBlank ≠ [] := fun hnil =>
  absurd (List.dropWhile_eq_nil_iff.1 hnil _ h) (by decide)

/-! ### What is cut off -/

/-- Trimming takes blanks only, and what is behind a `#`. -/
theorem countP_trimValue (val : List Char) :
    (trimValue val).countP (fun ch => !isBlank ch) = (val.takeWhile (· ≠ '#')).countP fun ch => !isBlank ch := by
  have hdrop : ∀ l : List Char, (l.dropWhile isBlank).countP (fun ch => !isBlank ch) = l.countP fun ch =>
    !isBlank ch := by
    intro l
    induction l with
    | nil => rfl
    | cons ch l ih =>
      rw [List.dropWhile_cons]
      split
      next hblank => rw [ih, List.countP_cons_of_neg (by simp [hblank])]
      next => rfl
  rw [trimValue, hdrop, List.rdropWhile, (List.reverse_perm _).countP_eq, hdrop, (List.reverse_perm _).countP_eq]

/-- Blanks at the end are trimmed. -/
theorem rdropWhile_append_blank {back : List Char} (h : ∀ ch ∈ back, isBlank ch = true) (front : List Char) :
    (front ++ back).rdropWhile isBlank = front.rdropWhile isBlank := by
  rw [List.rdropWhile, List.rdropWhile, List.reverse_append,
    List.dropWhile_append_of_pos fun ch hch => h ch (List.mem_reverse.1 hch)]

/-- A value keeps its meaning without its end exactly when the end is a comment's, or blanks up to a comment. -/
theorem trimValue_append_iff (val rest : List Char) :
    trimValue (val ++ rest) = trimValue val ↔
      '#' ∈ val ∨ ∀ ch ∈ rest.takeWhile (· ≠ '#'), isBlank ch = true := by
  by_cases hhash : '#' ∈ val
  · refine iff_of_true ?_ (.inl hhash)
    have hcut : (val ++ rest).takeWhile (· ≠ '#') = val.takeWhile (· ≠ '#') := by
      rw [List.takeWhile_append, if_neg]
      intro hlen
      have hall := List.takeWhile_eq_self_iff.1 ((List.takeWhile_prefix _).eq_of_length hlen)
      exact absurd (hall '#' hhash) (by decide)
    rw [trimValue, trimValue, hcut]
  · have hall : val.takeWhile (· ≠ '#') = val := List.takeWhile_eq_self_iff.2 fun ch hch =>
      decide_eq_true fun heq => hhash (heq ▸ hch)
    have hcut : (val ++ rest).takeWhile (· ≠ '#') = val ++ rest.takeWhile (· ≠ '#') :=
      List.takeWhile_append_of_pos fun ch hch => decide_eq_true fun heq => hhash (heq ▸ hch)
    constructor
    · intro heq
      have hcount := congrArg (List.countP fun ch => !isBlank ch) heq
      rw [countP_trimValue, countP_trimValue, hcut, hall, List.countP_append] at hcount
      have hzero : (rest.takeWhile (· ≠ '#')).countP (fun ch => !isBlank ch) = 0 := by omega
      exact .inr fun ch hch => by simpa using List.countP_eq_zero.1 hzero ch hch
    · intro h
      have hblank := h.resolve_left hhash
      rw [trimValue, trimValue, hcut, hall, rdropWhile_append_blank hblank]

/-! ### One line -/

/-- What the loop takes from a line: one key and value for each of its pieces that has one. -/
def lineUnits (line : List Char) : List KeyValue := (pieces lineRoom line).filterMap configUnit

/-- The first non-blank character is `#`. -/
def isComment (line : List Char) : Bool := (line.dropWhile isBlank).head? = some '#'

/-- No piece behind the first reads as a key. -/
def Silent (line : List Char) : Prop := ∀ k, 0 < k → configUnit (piece lineRoom line k) = none

/-- The first piece has the `=`, and what is cut off is a comment's, or blanks up to a comment. -/
def Whole (line : List Char) : Prop :=
  '=' ∈ (stripEol line).take lineRoom ∧
    ('#' ∈ (((stripEol line).take lineRoom).dropWhile (· ≠ '=')).tail ∨
      ∀ ch ∈ ((stripEol line).drop lineRoom).takeWhile (· ≠ '#'), isBlank ch = true)

theorem lineRoom_pos : 0 < lineRoom := by decide

theorem configUnit_nil : configUnit [] = none := rfl

/-- A text is worth the units of its lines. -/
theorem configUnits_text {ls : List (List Char)} (hls : ∀ line ∈ ls, '\n' ∉ line) {last : List Char} (hlast : '\n' ∉ last) :
    configUnits (unlines ls ++ last) = ls.flatMap lineUnits ++ lineUnits last := by
  induction ls with
  | nil => exact filterMap_chunks_last configUnit_nil lineRoom_pos hlast
  | cons line ls ih =>
    have hnl := hls line List.mem_cons_self
    rw [unlines, List.flatMap_cons, List.append_assoc, List.append_assoc, List.singleton_append, configUnits,
      filterMap_chunks_line configUnit_newline lineRoom_pos hnl, List.flatMap_cons, List.append_assoc]
    exact congrArg (lineUnits line ++ ·) (ih fun l hl => hls l (List.mem_cons_of_mem _ hl))

theorem piece_eq_nil {cap : ℕ} (hcap : 0 < cap) {line : List Char} {k : ℕ} (h : line.length / cap < k) :
    piece cap line k = [] := by
  have hlen : line.length < cap * k := (Nat.div_lt_iff_lt_mul hcap).1 h |>.trans_eq (Nat.mul_comm ..)
  rw [piece, List.drop_eq_nil_of_le hlen.le, List.take_nil]

/-- The units behind the first piece. -/
def laterUnits (line : List Char) : List KeyValue :=
  (List.range (line.length / lineRoom)).filterMap fun k => configUnit (piece lineRoom line (k + 1))

theorem lineUnits_eq (line : List Char) :
    lineUnits line = (configUnit (line.take lineRoom)).toList ++ laterUnits line := by
  rw [lineUnits, pieces, List.range_succ_eq_map, List.map_cons, List.map_map, piece_zero, List.filterMap_cons,
    List.filterMap_map, laterUnits]
  cases configUnit (line.take lineRoom) <;> rfl

theorem laterUnits_eq_nil_iff {line : List Char} : laterUnits line = [] ↔ Silent line := by
  rw [laterUnits, List.filterMap_eq_nil_iff]
  constructor
  · intro h k hk
    obtain ⟨j, rfl⟩ := Nat.exists_eq_succ_of_ne_zero (Nat.ne_of_gt hk)
    rcases Nat.lt_or_ge j (line.length / lineRoom) with hin | hout
    · exact h j (List.mem_range.2 hin)
    · rw [piece_eq_nil lineRoom_pos (Nat.lt_succ_of_le hout)]
      rfl
  · exact fun h k _ => h (k + 1) k.succ_pos

/-- The first piece of a comment is skipped. -/
theorem configUnit_take_comment {line : List Char} (h : isComment line = true) (n : ℕ) :
    configUnit (line.take n) = none := by
  refine if_pos ?_
  have hhead : (line.dropWhile isBlank).head? = some '#' := of_decide_eq_true h
  -- the blanks and the `#` stand in front of any end of line
  have hfirst : ∀ l : List Char, (l.dropWhile isBlank).head? = some '#' → ∀ n, skipped (stripEol (l.take n)) = true := by
    intro l
    induction l with
    | nil => exact fun _ n => by rw [List.take_nil]; rfl
    | cons ch l ih =>
      intro hl n
      rcases n with _ | n
      · rfl
      rw [List.dropWhile_cons] at hl
      split at hl
      next hblank =>
        have hkeep : stripEol (ch :: l.take n) = ch :: stripEol (l.take n) := by
          refine List.takeWhile_cons_of_pos ?_
          rw [isBlank, Bool.or_eq_true, decide_eq_true_iff, decide_eq_true_iff] at hblank
          rcases hblank with rfl | rfl <;> decide
        rw [List.take_succ_cons, hkeep, skipped, List.dropWhile_cons_of_pos hblank]
        exact ih hl n
      next =>
        obtain rfl : ch = '#' := Option.some.inj hl
        rfl
  exact hfirst line hhead n

theorem lineUnits_comment {line : List Char} (h : isComment line = true) : lineUnits line = [] ↔ Silent line := by
  rw [lineUnits_eq, configUnit_take_comment h, Option.toList_none, List.nil_append, laterUnits_eq_nil_iff]

theorem configUnit_eq_some_iff {chunk : List Char} {u : KeyValue} : configUnit chunk = some u ↔
    skipped (stripEol chunk) = false ∧ '=' ∈ stripEol chunk ∧
      u = ⟨(stripEol chunk).takeWhile (· ≠ '='), trimValue ((stripEol chunk).dropWhile (· ≠ '=')).tail⟩ := by
  unfold configUnit keyValue
  by_cases hskip : skipped (stripEol chunk) = true
  · rw [if_pos hskip]
    exact iff_of_false (fun h => by cases h) fun h => absurd (hskip.symm.trans h.1) (by decide)
  · rw [if_neg hskip]
    by_cases heq : '=' ∈ stripEol chunk
    · rw [if_pos heq, Option.map_some, Option.some_inj]
      exact ⟨fun h => ⟨Bool.eq_false_iff.2 hskip, heq, h.symm⟩, fun h => h.2.2.symm⟩
    · rw [if_neg heq]
      exact iff_of_false (fun h => by cases h) fun h => heq h.2.1

/-- The key of a piece is shorter than the piece. -/
theorem length_key_lt {chunk : List Char} {u : KeyValue} (h : configUnit chunk = some u) :
    u.key.length < chunk.length := by
  obtain ⟨-, heq, rfl⟩ := configUnit_eq_some_iff.1 h
  have hle : (stripEol chunk).length ≤ chunk.length := (List.takeWhile_prefix _).length_le
  refine Nat.lt_of_lt_of_le ?_ hle
  refine Nat.lt_of_le_of_ne (List.takeWhile_prefix _).length_le fun hlen => ?_
  have hall := List.takeWhile_eq_self_iff.1 ((List.takeWhile_prefix _).eq_of_length hlen)
  exact absurd (hall '=' heq) (by decide)

/-- A cut behind the first `=` leaves the key, and the value up to the cut. -/
theorem keyValue_cut {front : List Char} (h : '=' ∈ front) (back : List Char) :
    (front ++ back).takeWhile (· ≠ '=') = front.takeWhile (· ≠ '=') ∧
      ((front ++ back).dropWhile (· ≠ '=')).tail = (front.dropWhile (· ≠ '=')).tail ++ back := by
  have hne : front.dropWhile (· ≠ '=') ≠ [] := fun hnil => absurd (List.dropWhile_eq_nil_iff.1 hnil _ h) (by decide)
  constructor
  · rw [List.takeWhile_append, if_neg]
    intro hlen
    have hall := List.takeWhile_eq_self_iff.1 ((List.takeWhile_prefix _).eq_of_length hlen)
    exact absurd (hall '=' h) (by decide)
  · rw [List.dropWhile_append, if_neg (by rwa [List.isEmpty_iff]), List.tail_append_of_ne_nil hne]

/-- A line with a key and a value is one unit exactly when its later pieces are no units and nothing of the value is
    cut off. -/
theorem lineUnits_keyValue {line : List Char} {u : KeyValue} (h : configUnit line = some u) :
    lineUnits line = [u] ↔ Silent line ∧ Whole line := by
  obtain ⟨hskip, heq, rfl⟩ := configUnit_eq_some_iff.1 h
  have hsplit : stripEol line = (stripEol line).take lineRoom ++ (stripEol line).drop lineRoom :=
    (List.take_append_drop _ _).symm
  by_cases hfront : '=' ∈ (stripEol line).take lineRoom
  · have hfirst : configUnit (line.take lineRoom) =
        some ⟨((stripEol line).take lineRoom).takeWhile (· ≠ '='),
          trimValue (((stripEol line).take lineRoom).dropWhile (· ≠ '=')).tail⟩ := by
      refine configUnit_eq_some_iff.2 ?_
      rw [stripEol_take]
      refine ⟨?_, hfront, rfl⟩
      rw [← skipped_append (dropWhile_ne_nil_of_mem hfront), ← hsplit]
      exact hskip
    obtain ⟨hkey, hval⟩ := keyValue_cut hfront ((stripEol line).drop lineRoom)
    rw [← hsplit] at hkey hval
    rw [lineUnits_eq, hfirst, Option.toList_some, List.singleton_append, List.cons.injEq, laterUnits_eq_nil_iff, hkey,
      hval, KeyValue.mk.injEq, eq_comm (a := trimValue _), trimValue_append_iff, and_comm]
    exact and_congr_right fun _ => ⟨fun hcut => ⟨hfront, hcut.2⟩, fun hwhole => ⟨rfl, hwhole.2⟩⟩
  · refine iff_of_false (fun hone => ?_) fun hcond => hfront hcond.2.1
    have hnone : configUnit (line.take lineRoom) = none := by
      rcases hfirst : configUnit (line.take lineRoom) with _ | v
      · rfl
      · obtain ⟨-, hmem, -⟩ := configUnit_eq_some_iff.1 hfirst
        rw [stripEol_take] at hmem
        exact absurd hmem hfront
    rw [lineUnits_eq, hnone, Option.toList_none, List.nil_append] at hone
    obtain ⟨k, -, hk⟩ := List.mem_filterMap.1 (hone ▸ List.mem_singleton_self _)
    -- the key of the whole line is as long as a piece, that of a later piece is shorter
    have hshort := length_key_lt hk
    have hpiece : (piece lineRoom line (k + 1)).length ≤ lineRoom := List.length_take_le _ _
    have hlong : lineRoom ≤ (stripEol line).length := by
      by_contra hlt
      rw [List.take_of_length_le (by omega)] at hfront
      exact hfront heq
    have hkey : lineRoom ≤ ((stripEol line).takeWhile (· ≠ '=')).length := by
      have hbefore : ∀ ch ∈ (stripEol line).take lineRoom, decide (ch ≠ '=') = true := fun ch hch =>
        decide_eq_true fun hc => hfront (hc ▸ hch)
      rw [hsplit, List.takeWhile_append_of_pos hbefore, List.length_append, List.length_take_of_le hlong]
      exact Nat.le_add_right _ _
    exact absurd (Nat.lt_of_lt_of_le hshort hpiece) (Nat.not_lt.2 hkey)

/-! ### A file and its comments -/

/-- A line of a file, and whether it is one of the comments put in. -/
structure EditedLine where
  text : List Char
  inserted : Bool

/-- The lines with the comments in. -/
def editedLines (edits : List EditedLine) : List (List Char) := edits.map (·.text)

/-- The lines as they were. -/
def originalLines (edits : List EditedLine) : List (List Char) := (edits.filter fun e => !e.inserted).map (·.text)

theorem originalLines_subset {edits : List EditedLine} {line : List Char} (h : line ∈ originalLines edits) :
    line ∈ editedLines edits := by
  obtain ⟨e, he, rfl⟩ := List.mem_map.1 h
  exact List.mem_map_of_mem (List.mem_of_mem_filter he)

/-- The comments add their units, and nothing is taken away. -/
theorem flatMap_editedLines {α : Type} (f : List Char → List α) (edits : List EditedLine) :
    (editedLines edits).flatMap f = (originalLines edits).flatMap f ↔ ∀ e ∈ edits, e.inserted = true →
      f e.text = [] := by
  have hlen : ∀ edits : List EditedLine,
      ((originalLines edits).flatMap f).length ≤ ((editedLines edits).flatMap f).length := fun edits =>
    ((List.filter_sublist.map _).flatMap f).length_le
  induction edits with
  | nil => exact iff_of_true rfl fun _ h => absurd h List.not_mem_nil
  | cons e edits ih =>
    rw [List.forall_mem_cons, and_congr_right fun _ => ih.symm, editedLines, originalLines, List.map_cons,
      List.flatMap_cons]
    cases hins : e.inserted with
    | false =>
      rw [List.filter_cons_of_pos (by rw [hins]; rfl), List.map_cons, List.flatMap_cons, List.append_cancel_left_eq]
      exact ⟨fun h => ⟨fun hf => absurd hf Bool.false_ne_true, h⟩, fun h => h.2⟩
    | true =>
      rw [List.filter_cons_of_neg (by rw [hins]; decide)]
      constructor
      · intro h
        have hle := hlen edits
        have hsum := congrArg List.length h
        rw [List.length_append] at hsum
        have hnil : f e.text = [] := List.length_eq_zero_iff.1 (by unfold editedLines originalLines at hle; omega)
        rw [hnil, List.nil_append] at h
        exact ⟨fun _ => hnil, h⟩
      · rintro ⟨hnil, h⟩
        rw [hnil rfl, List.nil_append]
        exact h

/-- The claim on a file: whatever the keys do, the comments put in do not matter, and every line with a key is one
    unit. -/
def LinesRead (edits : List EditedLine) (last : List Char) : Prop :=
  (∀ (σ C : Type) (apply : σ → KeyValue → σ) (finish : σ → C) (init : σ),
    controllerConfigLoad apply finish init (unlines (editedLines edits) ++ last) =
      controllerConfigLoad apply finish init (unlines (originalLines edits) ++ last)) ∧
  ∀ line ∈ originalLines edits ++ [last], ∀ u, configUnit line = some u → configUnits (line ++ ['\n']) = [u]

theorem config_lines_read_iff (edits : List EditedLine) (last : List Char)
    (hlines : ∀ e ∈ edits, '\n' ∉ e.text) (hlast : '\n' ∉ last)
    (hcomments : ∀ e ∈ edits, e.inserted = true → isComment e.text = true) :
    LinesRead edits last ↔
      (∀ e ∈ edits, e.inserted = true → Silent e.text) ∧
      ∀ line ∈ originalLines edits ++ [last], (configUnit line).isSome → Silent line ∧ Whole line := by
  have hedited : ∀ line ∈ editedLines edits, '\n' ∉ line := by
    intro line hline
    obtain ⟨e, he, rfl⟩ := List.mem_map.1 hline
    exact hlines e he
  have horiginal : ∀ line ∈ originalLines edits ++ [last], '\n' ∉ line := by
    intro line hline
    rcases List.mem_append.1 hline with hold | hend
    · exact hedited line (originalLines_subset hold)
    · rwa [List.mem_singleton.1 hend]
  refine and_congr ?_ ?_
  · have hunits : configUnits (unlines (editedLines edits) ++ last) =
      configUnits (unlines (originalLines edits) ++ last) ↔
        ∀ e ∈ edits, e.inserted = true → Silent e.text := by
      rw [configUnits_text hedited hlast, configUnits_text (fun l hl => hedited l (originalLines_subset hl)) hlast,
        List.append_cancel_right_eq, flatMap_editedLines]
      exact forall₂_congr fun e he => forall_congr' fun hins => lineUnits_comment (hcomments e he hins)
    rw [← hunits]
    constructor
    · intro hall
      -- the keys handed over, listed
      have hlist := hall (List KeyValue) (List KeyValue) (fun kvs kv => kvs ++ [kv]) id []
      have hsnoc : ∀ kvs : List KeyValue, kvs.foldl (fun kvs kv => kvs ++ [kv]) [] = kvs := fun kvs => by
        rw [List.foldl_append_eq_append, List.nil_append]
        exact List.flatMap_singleton' kvs
      rwa [controllerConfigLoad_eq, controllerConfigLoad_eq, hsnoc, hsnoc] at hlist
    · intro hsame σ C apply finish init
      rw [controllerConfigLoad_eq, controllerConfigLoad_eq, hsame]
  · refine forall₂_congr fun line hline => ?_
    have hone : configUnits (line ++ ['\n']) = lineUnits line := by
      have hsingle : ∀ l ∈ [line], '\n' ∉ l := fun l hl => List.mem_singleton.1 hl ▸ horiginal line hline
      have htext := configUnits_text hsingle (List.not_mem_nil : '\n' ∉ [])
      rw [List.append_nil, unlines, List.flatMap_singleton, List.flatMap_singleton] at htext
      rw [htext]
      exact List.append_nil _
    rw [hone]
    constructor
    · intro hall hsome
      obtain ⟨u, hu⟩ := Option.isSome_iff_exists.1 hsome
      exact (lineUnits_keyValue hu).1 (hall u hu)
    · intro hcond u hu
      exact (lineUnits_keyValue hu).2 (hcond (Option.isSome_of_mem hu))

/-- A file with the strategy of the first node, and a comment behind it that is longer than the buffer: its second
    piece is a key. -/
def longComment : List EditedLine :=
  [⟨"node_0_strategy=momentum".toList, false⟩,
    ⟨'#' :: List.replicate 254 ' ' ++ "node_0_strategy=ml".toList, true⟩]

theorem config_lines_read_long :
    LinesRead longComment [] ↔
      (∀ e ∈ longComment, e.inserted = true → Silent e.text) ∧
      ∀ line ∈ originalLines longComment ++ [[]], (configUnit line).isSome → Silent line ∧ Whole line :=
  config_lines_read_iff longComment [] (by decide +kernel) List.not_mem_nil (by decide +kernel)

/-! ### The keys of a node -/

/-- What the keys `node_<i>_…` kept from before the overrides write, and the faults of the load; the fields of
    the other keys are of any kind. -/
structure LoadedConfig (R : Type) where
  nodeTimeExitTicks : ℕ → UInt32
  nodeModelPath : ℕ → List Char
  nodeModelDir : ℕ → List Char
  nodeSymbol : ℕ → List Char
  nodeStrategies : ℕ → UInt8
  nodeStrategiesExplicitSet : UInt16
  cfgLoadFaultFlags : UInt32
  rest : R

/-- The strategy a name or a number stands for. -/
def strategyOf (val : List Char) : UInt8 :=
  if val = "mr".toList ∨ val = "mean_reversion".toList then 0
  else if val = "momentum".toList ∨ val = "mom".toList then 1
  else if val = "simple_dip".toList ∨ val = "dip".toList then 2
  else if val = "ml".toList then 3
  else if val = "ema_cross".toList ∨ val = "ema".toList then 4
  else if val = "auto".toList ∨ val = "regime".toList then 5
  else if val = "none".toList then 255
  else (atoi val).toInt8.toUInt8

variable {R : Type}

/-- The exact suffixes of one node. -/
def applySuffix (cfg : LoadedConfig R) (node : ℕ) (suffix val : List Char) : Option (LoadedConfig R) :=
  if suffix = "time_exit_ticks".toList then
    some { cfg with nodeTimeExitTicks := Function.update cfg.nodeTimeExitTicks node (UInt32.ofInt (atoll val)) }
  else if suffix = "model_path".toList then
    some { cfg with nodeModelPath := Function.update cfg.nodeModelPath node (printed 256 val) }
  else if suffix = "symbol".toList then
    some { cfg with nodeSymbol := Function.update cfg.nodeSymbol node (printed 32 val) }
  else if suffix = "model_dir".toList then
    some { cfg with nodeModelDir := Function.update cfg.nodeModelDir node (printed 256 val) }
  else if suffix = "strategy".toList then
    some { cfg with
      nodeStrategies := Function.update cfg.nodeStrategies node (strategyOf val)
      nodeStrategiesExplicitSet := cfg.nodeStrategiesExplicitSet ||| UInt16.ofNat (2 ^ node) }
  else none

/-- The block of the keys `node_<i>_<suffix>`. -/
def applyNodeKey (cfg : LoadedConfig R) (kv : KeyValue) : Option (LoadedConfig R) :=
  if "node_".toList.isPrefixOf kv.key then
    let p := kv.key.drop 5
    let nodeIdx := (atoi p).toInt
    let behind := p.dropWhile (· ≠ '_')
    if behind ≠ [] ∧ 0 ≤ nodeIdx ∧ nodeIdx < 16 then applySuffix cfg nodeIdx.toNat behind.tail kv.value else none
  else none

/-- `CFG_FAULT_UNKNOWN_KEY`, for a key of the nodes that nothing took. -/
def unknownKey (cfg : LoadedConfig R) (kv : KeyValue) : LoadedConfig R :=
  if "core_".toList.isPrefixOf kv.key || "node_".toList.isPrefixOf kv.key then
    { cfg with cfgLoadFaultFlags := cfg.cfgLoadFaultFlags ||| 4 }
  else cfg

/-- The keys in the order they are tried: those before the block of the nodes, the block, those behind it. -/
def applyKey (before after : LoadedConfig R → KeyValue → Option (LoadedConfig R)) (cfg : LoadedConfig R)
    (kv : KeyValue) : LoadedConfig R :=
  (((before cfg kv).or (applyNodeKey cfg kv)).or (after cfg kv)).getD (unknownKey cfg kv)

/-- Its comment changes the strategy of the node. -/
theorem config_comment_sets_strategy :
    ¬∀ (R : Type) (before after : LoadedConfig R → KeyValue → Option (LoadedConfig R)) (init : LoadedConfig R)
      (edits : List EditedLine) (last : List Char), (∀ e ∈ edits, '\n' ∉ e.text) → '\n' ∉ last →
        (∀ e ∈ edits, e.inserted = true → isComment e.text = true) →
        controllerConfigLoad (applyKey before after) id init (unlines (editedLines edits) ++ last) =
          controllerConfigLoad (applyKey before after) id init (unlines (originalLines edits) ++ last) := by
  intro hall
  have hload := hall Unit (fun _ _ => none) (fun _ _ => none)
    ⟨fun _ => 0, fun _ => [], fun _ => [], fun _ => [], fun _ => 2, 0, 0, ()⟩ longComment [] (by decide +kernel)
      (by decide)
    (by decide +kernel)
  have hstrategy := congrArg (fun cfg => cfg.nodeStrategies 0) hload
  exact absurd hstrategy (by decide +kernel)

end FoxTrader
