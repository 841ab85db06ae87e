import FoxTrader.Lib.Run

/-! # Quoting in a shell command

    A shell reads a command character by character. What stands in single quotes, behind a backslash
    or in double quotes is handed on as it is (`Glyph.literal`); the rest is the shell's to interpret
    (`Glyph.active`). Where another way of reading begins (a comment, a substitution in braces,
    parentheses or backquotes, dollar quotes) nothing is taken to be literal any more (`beyond`).

    In single quotes a text is quoted by closing them at each of its own, writing that one behind a
    backslash, and opening them again. Reading it back gives the text (`glyphs_escape`), and nowhere
    else does it (`glyphs_escape_ne`): so a template with holes is read as meant, whatever is filled
    in, if and only if its holes stand in single quotes (`glyphs_fill_iff`). -/

namespace Lib.Shell

inductive Glyph where
  | literal (ch : Char)
  | active (ch : Char)
  deriving DecidableEq

inductive Quoting where
  | plain
  | dollar
  | backslash
  | single
  | double
  | doubleDollar
  | doubleBackslash
  | beyond
  deriving DecidableEq

/-- The backquote. -/
abbrev grave : Char := Char.ofNat 96

namespace Quoting

def readPlain (ch : Char) : Quoting × List Glyph :=
  if ch = '\'' then (single, [])
  else if ch = '"' then (double, [])
  else if ch = '\\' then (backslash, [])
  else if ch = '$' then (dollar, [.active ch])
  else if ch = '#' ∨ ch = grave then (beyond, [.active ch])
  else (plain, [.active ch])

def readDouble (ch : Char) : Quoting × List Glyph :=
  if ch = '"' then (plain, [])
  else if ch = '\\' then (doubleBackslash, [])
  else if ch = '$' then (doubleDollar, [.active ch])
  else if ch = grave then (beyond, [.active ch])
  else (double, [.literal ch])

/-- The quoting after a character, and what the shell makes of it. -/
def read : Quoting → Char → Quoting × List Glyph
  | plain, ch => readPlain ch
  | dollar, ch => if ch = '\'' ∨ ch = '"' ∨ ch = '(' ∨ ch = '\x7b' then (beyond, [.active ch]) else readPlain ch
  | backslash, ch => (plain, if ch = '\n' then [] else [.literal ch])
  | single, ch => if ch = '\'' then (plain, []) else (single, [.literal ch])
  | double, ch => readDouble ch
  | doubleDollar, ch => if ch = '(' ∨ ch = '\x7b' then (beyond, [.active ch]) else readDouble ch
  | doubleBackslash, ch =>
    if ch = '\n' then (double, [])
    else if ch = '$' ∨ ch = '"' ∨ ch = '\\' ∨ ch = grave then (double, [.literal ch])
    else (double, [.literal '\\', .literal ch])
  | beyond, ch => (beyond, [.active ch])

def next (q : Quoting) (ch : Char) : Quoting := (q.read ch).1

def emits (q : Quoting) (ch : Char) : List Glyph := (q.read ch).2

/-- How a text is read. -/
def glyphs (q : Quoting) (text : List Char) : List Glyph := outputs next emits q text

def after (q : Quoting) (text : List Char) : Quoting := run next q text

end Quoting

open Quoting

variable {q : Quoting} {text rest : List Char}

@[simp] theorem glyphs_nil (q : Quoting) : q.glyphs [] = [] := rfl

@[simp] theorem glyphs_cons (q : Quoting) (ch : Char) (text : List Char) :
    q.glyphs (ch :: text) = q.emits ch ++ (q.next ch).glyphs text := rfl

theorem glyphs_append (q : Quoting) (text rest : List Char) :
    q.glyphs (text ++ rest) = q.glyphs text ++ (q.after text).glyphs rest := outputs_append ..

def escapeChar (ch : Char) : List Char := if ch = '\'' then ['\'', '\\', '\'', '\''] else [ch]

/-- A text made ready to stand in single quotes. -/
def escape (text : List Char) : List Char := text.flatMap escapeChar

@[simp] theorem escape_nil : escape [] = [] := rfl

@[simp] theorem escape_cons (ch : Char) (text : List Char) : escape (ch :: text) = escapeChar ch ++ escape text := rfl

theorem length_escapeChar_le (ch : Char) : (escapeChar ch).length ≤ 4 := by unfold escapeChar; split <;> simp

theorem length_escape_le (text : List Char) : (escape text).length ≤ 4 * text.length := by
  induction text with
  | nil => exact Nat.le_refl _
  | cons ch text ih =>
    have hch := length_escapeChar_le ch
    rw [escape_cons, List.length_append, List.length_cons]
    omega

/-- In single quotes a character is read as itself, and they stay open. -/
theorem read_escapeChar (ch : Char) :
    single.glyphs (escapeChar ch) = [.literal ch] ∧ single.after (escapeChar ch) = single := by
  by_cases hch : ch = '\''
  · subst hch
    decide
  · have hread : single.read ch = (single, [.literal ch]) := if_neg hch
    rw [escapeChar, if_neg hch]
    exact ⟨by rw [glyphs_cons, emits, hread, glyphs_nil, List.append_nil],
      by rw [after, run_cons, run_nil, next, hread]⟩

/-- In single quotes a text is read as itself. -/
theorem glyphs_escape (text rest : List Char) :
    single.glyphs (escape text ++ rest) = text.map .literal ++ single.glyphs rest := by
  induction text with
  | nil => rfl
  | cons ch text ih =>
    obtain ⟨hglyphs, hafter⟩ := read_escapeChar ch
    rw [escape_cons, List.append_assoc, glyphs_append, hglyphs, hafter, ih]
    rfl

/-- A text that is not read as itself anywhere else: a quote, and a letter behind it. -/
def telltale : List Char := ['\'', 'a']

theorem glyphs_escape_ne (hq : q ≠ single) (rest : List Char) (behind : List Glyph) :
    q.glyphs (escape telltale ++ rest) ≠ telltale.map .literal ++ behind := by
  have hhead : ∃ first, (q.glyphs (escape telltale)).take 2 = first ∧ first.length = 2 ∧
      first ≠ telltale.map .literal := by
    cases q with
    | single => exact absurd rfl hq
    | _ => exact ⟨_, rfl, by decide, by decide⟩
  obtain ⟨first, hfirst, hlen, hne⟩ := hhead
  intro heq
  have htake := congrArg (List.take 2) heq
  have hlong : 2 ≤ (q.glyphs (escape telltale)).length := by
    rw [← hlen, ← hfirst]
    exact List.length_take_le' ..
  rw [glyphs_append, List.take_append_of_le_length hlong, hfirst, List.take_append_of_le_length (by decide)] at htake
  exact hne htake

/-! ### Templates -/

/-- A character of a template, or a hole for the `i`-th value. -/
inductive Piece where
  | char (ch : Char)
  | hole (i : ℕ)
  deriving DecidableEq

variable {values : ℕ → List Char}

/-- The command, the values escaped. -/
def fill (values : ℕ → List Char) : List Piece → List Char
  | [] => []
  | .char ch :: pieces => ch :: fill values pieces
  | .hole i :: pieces => escape (values i) ++ fill values pieces

/-- What the template means: its own characters as the shell reads them, the values as they are. -/
def meaning (values : ℕ → List Char) : Quoting → List Piece → List Glyph
  | _, [] => []
  | q, .char ch :: pieces => q.emits ch ++ meaning values (q.next ch) pieces
  | q, .hole i :: pieces => (values i).map .literal ++ meaning values q pieces

/-- Every hole stands in single quotes. -/
def HolesQuoted : Quoting → List Piece → Prop
  | _, [] => True
  | q, .char ch :: pieces => HolesQuoted (q.next ch) pieces
  | q, .hole _ :: pieces => q = single ∧ HolesQuoted q pieces

instance decidableHolesQuoted : ∀ q pieces, Decidable (HolesQuoted q pieces)
  | _, [] => isTrue trivial
  | q, .char ch :: pieces => decidableHolesQuoted (q.next ch) pieces
  | q, .hole _ :: pieces =>
    have := decidableHolesQuoted q pieces
    inferInstanceAs (Decidable (q = single ∧ HolesQuoted q pieces))

theorem glyphs_fill (values : ℕ → List Char) {q : Quoting} {pieces : List Piece} (h : HolesQuoted q pieces) :
    q.glyphs (fill values pieces) = meaning values q pieces := by
  induction pieces generalizing q with
  | nil => rfl
  | cons piece pieces ih =>
    cases piece with
    | char ch => rw [fill, glyphs_cons, ih h, meaning]
    | hole i =>
      obtain ⟨rfl, hrest⟩ := h
      rw [fill, glyphs_escape, ih hrest, meaning]

/-- One value gives a hole away that does not stand in single quotes. -/
theorem holesQuoted_of_telltale {q : Quoting} {pieces : List Piece}
    (h : q.glyphs (fill (fun _ => telltale) pieces) = meaning (fun _ => telltale) q pieces) :
    HolesQuoted q pieces := by
  induction pieces generalizing q with
  | nil => trivial
  | cons piece pieces ih =>
    cases piece with
    | char ch => exact ih (List.append_cancel_left h)
    | hole i =>
      have hq : q = single := by
        by_contra hne
        exact glyphs_escape_ne hne _ _ h
      subst hq
      rw [fill, glyphs_escape, meaning] at h
      exact ⟨rfl, ih (List.append_cancel_left h)⟩

theorem glyphs_fill_iff {P : (ℕ → List Char) → Prop} (htelltale : P fun _ => telltale) (q : Quoting)
    (pieces : List Piece) :
    (∀ values, P values → q.glyphs (fill values pieces) = meaning values q pieces) ↔ HolesQuoted q pieces :=
  ⟨fun h => holesQuoted_of_telltale (h _ htelltale), fun h values _ => glyphs_fill values h⟩

end Lib.Shell
