import FoxTrader.Lib.CString

/-! # Searching text with quotes

    `fromChar` and `fromText` are the text from the first occurrence of a character or of a text on. A
    search for a key in quotes stops at the quotes only: it passes whatever has none (`fromText_skip`)
    and every quoted text other than the key (`fromText_other`). `Clear` says of a front that such a
    search passes it as a whole. -/

namespace Lib

/-- The text from the first `ch` on. -/
def fromChar (ch : Char) (text : List Char) : Option (List Char) := (strchr text ch).map text.drop

/-- The text from the first occurrence of `pat` on. -/
def fromText (pat text : List Char) : Option (List Char) := (strstr pat text).map text.drop

variable {ch : Char} {pat text front rest : List Char}

theorem fromChar_append (h : ch ∉ front) (rest : List Char) :
    fromChar ch (front ++ ch :: rest) = some (ch :: rest) := by
  rw [fromChar, strchr_append h, Option.map_some, List.drop_left]

theorem fromChar_none (h : ch ∉ text) : fromChar ch text = none := by
  have hnone : text.findIdx? (· = ch) = none := by
    rw [List.findIdx?_eq_none_iff]
    rintro other hother
    simpa using fun heq : other = ch => h (heq ▸ hother)
  rw [fromChar, strchr, hnone, Option.map_none]

theorem fromText_prefix (pat rest : List Char) : fromText pat (pat ++ rest) = some (pat ++ rest) := by
  rw [fromText, strstr_prefix, Option.map_some, List.drop_zero]

/-- No occurrence begins here. -/
theorem fromText_cons (h : ¬pat <+: ch :: text) : fromText pat (ch :: text) = fromText pat text := by
  have hno : ¬pat.isPrefixOf (ch :: text) = true := fun hp => h (List.isPrefixOf_iff_prefix.1 hp)
  rw [fromText, strstr, if_neg hno, Option.map_map, fromText]
  rfl

section Quote

variable (q : Char) {key tail word : List Char}

/-- A key in quotes, and what stands behind it. -/
abbrev quoted (key tail : List Char) : List Char := q :: (key ++ q :: tail)

/-- Up to the first quote nothing is found. -/
theorem fromText_skip (h : q ∉ front) (key tail rest : List Char) :
    fromText (quoted q key tail) (front ++ rest) = fromText (quoted q key tail) rest := by
  induction front with
  | nil => rfl
  | cons c front ih =>
    have hne : c ≠ q := fun heq => h (heq ▸ List.mem_cons_self)
    rw [List.cons_append, fromText_cons, ih fun hq => h (List.mem_cons_of_mem _ hq)]
    rintro ⟨behind, heq⟩
    exact hne (List.cons.inj heq).1.symm

/-- Two texts up to their first quote. -/
theorem quote_split (hkey : q ∉ key) (hword : q ∉ word) {a b : List Char} (h : key ++ q :: a = word ++ q :: b) :
    key = word ∧ a = b := by
  have hlen : ∀ {s t a b : List Char}, q ∉ s → s ++ q :: a = t ++ q :: b → s.length ≤ t.length := by
    intro s t a b hs heq
    by_contra hlt
    have hget := congrArg (fun l => l[t.length]?) heq
    rw [List.getElem?_append_left (by omega), List.getElem?_append_right (Nat.le_refl _), Nat.sub_self,
      List.getElem?_cons_zero] at hget
    exact hs (List.mem_of_getElem? hget)
  obtain ⟨hpre, hrest⟩ := List.append_inj h (Nat.le_antisymm (hlen hkey h) (hlen hword h.symm))
  exact ⟨hpre, (List.cons.inj hrest).2⟩

/-- Another text in quotes is passed, up to its closing quote. -/
theorem fromText_other (hkey : q ∉ key) (hword : q ∉ word) (hne : word ≠ key) (tail rest : List Char) :
    fromText (quoted q key tail) (q :: (word ++ q :: rest)) = fromText (quoted q key tail) (q :: rest) := by
  rw [fromText_cons, fromText_skip q hword]
  rintro ⟨behind, heq⟩
  rw [List.cons_append, List.append_assoc, List.cons_append] at heq
  exact hne (quote_split q hkey hword (List.cons.inj heq).2).1.symm

/-- The search for the key passes the front, up to a quote behind it. -/
def Clear (key tail front : List Char) : Prop :=
  ∀ rest, fromText (quoted q key tail) (front ++ q :: rest) = fromText (quoted q key tail) (q :: rest)

variable {q}

theorem Clear.plain (h : q ∉ front) : Clear q key tail front := fun rest => fromText_skip q h key tail (q :: rest)

theorem Clear.quotedWord (hkey : q ∉ key) (hword : q ∉ word) (hne : word ≠ key) : Clear q key tail (q :: word) :=
  fun rest => fromText_other q hkey hword hne tail rest

/-- Fronts one behind the other. -/
theorem Clear.append {behind : List Char} (h : Clear q key tail front) (h' : Clear q key tail (q :: behind)) :
    Clear q key tail (front ++ q :: behind) := by
  intro rest
  rw [List.append_assoc, List.cons_append, h, ← List.cons_append, h']

/-- Words in quotes behind a front. -/
theorem Clear.words (h : Clear q key tail front) (hkey : q ∉ key) {words : List (List Char)}
    (hwords : ∀ word ∈ words, q ∉ word ∧ word ≠ key) : Clear q key tail (front ++ words.flatMap (q :: ·)) := by
  induction words generalizing front with
  | nil => rwa [List.flatMap_nil, List.append_nil]
  | cons word words ih =>
    obtain ⟨hword, hne⟩ := hwords word List.mem_cons_self
    have hfront := h.append (Clear.quotedWord hkey hword hne)
    rw [List.flatMap_cons, ← List.append_assoc]
    exact ih hfront fun other hother => hwords other (List.mem_cons_of_mem _ hother)

/-- Behind such a front the key is found. -/
theorem Clear.found (h : Clear q key tail front) (rest : List Char) :
    fromText (quoted q key tail) (front ++ quoted q key tail ++ rest) = some (quoted q key tail ++ rest) := by
  rw [List.append_assoc]
  have hfound := fromText_prefix (quoted q key tail) rest
  have hpass := h (key ++ q :: tail ++ rest)
  rw [← hfound]
  exact hpass

variable (q key)

/-- The search for the key passes the front, whatever is behind it. -/
def Passes (front : List Char) : Prop :=
  ∀ rest, fromText (quoted q key []) (front ++ rest) = fromText (quoted q key []) rest

variable {q key}

theorem Passes.plain (h : q ∉ front) : Passes q key front := fun rest => fromText_skip q h key [] rest

theorem Passes.append {behind : List Char} (h : Passes q key front) (h' : Passes q key behind) :
    Passes q key (front ++ behind) := by
  intro rest
  rw [List.append_assoc, h, h']

theorem Passes.flatMap {α : Type*} {items : List α} {f : α → List Char} (h : ∀ item ∈ items, Passes q key (f item)) :
    Passes q key (items.flatMap f) := by
  induction items with
  | nil => exact fun _ => rfl
  | cons item items ih =>
    exact (h item List.mem_cons_self).append (ih fun other hother => h other (List.mem_cons_of_mem _ hother))

/-- A word in quotes, and text without quotes that begins with no character of the key. -/
theorem Passes.quotedWord {c : Char} (hkey : q ∉ key) (hword : q ∉ word) (hne : word ≠ key) (htail : q ∉ c :: tail)
    (hc : c ∉ key) : Passes q key (quoted q word (c :: tail)) := by
  intro rest
  have hsplit : quoted q word (c :: tail) ++ rest = q :: (word ++ q :: (c :: tail ++ rest)) := by
    rw [quoted, List.cons_append, List.append_assoc, List.cons_append]
  rw [hsplit, fromText_other q hkey hword hne, fromText_cons, fromText_skip q htail]
  -- Behind the closing quote no key begins.
  rintro ⟨behind, heq⟩
  rw [List.cons_append, List.append_assoc] at heq
  have hbehind := (List.cons.inj heq).2
  cases key with
  | nil => exact htail ((List.cons.inj hbehind).1 ▸ List.mem_cons_self)
  | cons k key => exact hc ((List.cons.inj hbehind).1 ▸ List.mem_cons_self)

/-- Behind what is passed the key is found. -/
theorem Passes.found (h : Passes q key front) (rest : List Char) :
    fromText (quoted q key []) (front ++ quoted q key rest) = some (quoted q key rest) := by
  have hkey : quoted q key rest = quoted q key [] ++ rest := by
    rw [quoted, quoted, List.cons_append, List.append_assoc, List.cons_append, List.nil_append]
  rw [h, hkey, fromText_prefix]

end Quote

end Lib
