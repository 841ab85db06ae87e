import FoxTrader.BanditLoad

/-! # Saving the bandits and loading them again

    `Bandit_SaveJSON` writes a header and one entry for each regime, all of them lines of a key and a value.
    Loading such a file passes the lines before a key one by one, and an entry ends at its brace, for
    nothing that is written in it has one. So the learned fields come back as they were, of every regime,
    for as many regimes and arms as the loader has room to read (`banditJSON_iff`). -/

namespace FoxTrader

open Lib JsonIo

/-! ### `Bandit_SaveJSON` -/

/-- A line of a key and a value. -/
def jsonLine (indent : ℕ) (key : String) (value : List Char) : List Char :=
  List.replicate indent ' ' ++ quoted '"' key.toList (": ".toList ++ (value ++ ",\n".toList))

def jsonLines (indent : ℕ) (lines : List (String × List Char)) : List Char :=
  lines.flatMap fun line => jsonLine indent line.1 line.2

/-- A text in quotes. -/
def jsonText (text : List Char) : List Char := quoted '"' text []

/-- A comma stands before each but the first. -/
def commaSeparated : List (List Char) → List Char
  | [] => []
  | item :: items => item ++ items.flatMap (", ".toList ++ ·)

def jsonArray (items : List (List Char)) : List Char := '[' :: (commaSeparated items ++ [']'])

section Save

variable (print : Double → List Char) {m n : ℕ}

/-- The lines of the learned fields. -/
def fieldLines (l : Learned n) : List (String × List Char) :=
  [("n_arms", decimalInt n),
    ("total_steps", decimalInt l.totalSteps.toInt),
    ("weights", jsonArray (List.ofFn fun a => print (l.weights a))),
    ("cum_reward", jsonArray (List.ofFn fun a => print (l.cumReward a))),
    ("pulls", jsonArray (List.ofFn fun a => decimalInt (l.pulls a).toInt))]

/-- The lines of an entry behind its `regime_id`. -/
def entryLines (name : Option (List Char)) (l : Learned n) : List (String × List Char) :=
  name.elim [] (fun text => [("regime_name", jsonText text)]) ++ fieldLines print l

/-- The default names of the arms. -/
def armNamesLine (n : ℕ) : List Char :=
  "      \"arm_names\": ".toList ++
    (jsonArray ((List.range n).map fun a => jsonText ("arm_".toList ++ decimalInt a)) ++ "\n".toList)

/-- The rest of an entry up to its brace. -/
def entryRest (name : Option (List Char)) (l : Learned n) : List Char :=
  jsonLines 6 (entryLines print name l) ++ (armNamesLine n ++ "    ".toList)

/-- An entry; a comma follows each but the last. -/
def entryText (names : Fin m → Option (List Char)) (s : Fin m → Learned n) (r : Fin m) : List Char :=
  "    \x7b\n".toList ++ (jsonLine 6 "regime_id" (decimalInt r.val) ++
    (entryRest print (names r) (s r) ++ '\x7d' :: (if r.val + 1 < m then ",\n".toList else "\n".toList)))

def headerLines (m n : ℕ) (savedAtNs : ℤ) (sha : List Char) : List (String × List Char) :=
  [("format_version", decimalInt banditStateFormatVersion.toInt),
    ("saved_at_ts_ns", decimalInt savedAtNs),
    ("model_bundle_sha256", jsonText sha),
    ("n_regimes", decimalInt m),
    ("n_arms", decimalInt n)]

/-- `Bandit_SaveJSON`: the file for states of `n` arms each. -/
def banditSaveJSON (savedAtNs : ℤ) (sha : List Char) (names : Fin m → Option (List Char)) (s : Fin m → Learned n) :
    List Char :=
  "\x7b\n".toList ++ (jsonLines 2 (headerLines m n savedAtNs sha) ++ ("  \"regimes\": [\n".toList ++
    ((List.finRange m).flatMap (entryText print names s) ++ "  ]\n\x7d\n".toList)))

end Save

/-! ### The characters of a file -/

/-- The keys that the loader searches. -/
def searchedKeys : List String :=
  ["format_version", "n_arms", "n_regimes", "model_bundle_sha256", "regimes", "regime_id", "total_steps", "weights",
    "cum_reward", "pulls"]

/-- Without the terminator and the brace that ends an entry. -/
structure Inert (text : List Char) : Prop where
  no_nul : '\x00' ∉ text
  no_brace : '\x7d' ∉ text

/-- A text that stands in quotes in a file, such as the name of a regime or the digits of a bundle id. -/
structure PlainWord (text : List Char) : Prop extends Inert text where
  no_quote : '"' ∉ text
  no_key : ∀ key ∈ searchedKeys, text ≠ key.toList

/-- A character that numbers are printed with. -/
def isNumeralChar (ch : Char) : Bool := ch.isDigit || ch = '-' || ch = '+' || ch = '.' || ch = 'e'

/-- A printed number. -/
structure IsNumeric (text : List Char) : Prop where
  ne_nil : text ≠ []
  chars : ∀ ch ∈ text, isNumeralChar ch = true

section Characters

variable {text front behind : List Char}

theorem Inert.append (h : Inert front) (h' : Inert behind) : Inert (front ++ behind) :=
  ⟨fun hmem => (List.mem_append.1 hmem).elim h.no_nul h'.no_nul,
    fun hmem => (List.mem_append.1 hmem).elim h.no_brace h'.no_brace⟩

theorem Inert.cons {ch : Char} (hnul : '\x00' ≠ ch) (hbrace : '\x7d' ≠ ch) (h : Inert text) : Inert (ch :: text) :=
  ⟨fun hmem => (List.mem_cons.1 hmem).elim hnul h.no_nul, fun hmem => (List.mem_cons.1 hmem).elim hbrace h.no_brace⟩

theorem Inert.flatMap {α : Type} {items : List α} {f : α → List Char} (h : ∀ item ∈ items, Inert (f item)) :
    Inert (items.flatMap f) := by
  constructor
  · intro hmem
    obtain ⟨item, hitem, hch⟩ := List.mem_flatMap.1 hmem
    exact (h item hitem).no_nul hch
  · intro hmem
    obtain ⟨item, hitem, hch⟩ := List.mem_flatMap.1 hmem
    exact (h item hitem).no_brace hch

theorem IsNumeric.not_mem (h : IsNumeric text) {ch : Char} (hch : isNumeralChar ch = false) : ch ∉ text :=
  fun hmem => Bool.false_ne_true (hch.symm.trans (h.chars ch hmem))

theorem IsNumeric.inert (h : IsNumeric text) : Inert text := ⟨h.not_mem rfl, h.not_mem rfl⟩

theorem isNumeric_decimalInt (n : ℤ) : IsNumeric (decimalInt n) := by
  have hdigits : ∀ {k : ℕ} {ch : Char}, ch ∈ Nat.toDigits 10 k → isNumeralChar ch = true := by
    intro k ch hch
    rw [isNumeralChar, isDigit_of_mem_decimalDigits hch]
    rfl
  rw [decimalInt]
  split
  · refine ⟨List.cons_ne_nil _ _, fun ch hch => ?_⟩
    rcases List.mem_cons.1 hch with rfl | hch
    · rfl
    · exact hdigits hch
  · exact ⟨Nat.toDigits_ne_nil, fun ch hch => hdigits hch⟩

/-- The first character of a number is none that a search or a reader skips. -/
theorem IsNumeric.head (h : IsNumeric text) {p : Char → Bool} (hp : ∀ ch, isNumeralChar ch = true → p ch = false)
    (behind : List Char) : (text ++ behind).dropWhile p = text ++ behind := by
  obtain ⟨ch, more, rfl⟩ := List.exists_cons_of_ne_nil h.ne_nil
  rw [List.cons_append, List.dropWhile_cons_of_neg]
  rw [hp ch (h.chars ch List.mem_cons_self)]
  exact Bool.false_ne_true

theorem IsNumeric.head_ne (h : IsNumeric text) (ch : Char) (hch : isNumeralChar ch = false) (behind : List Char) :
    (text ++ behind).head? ≠ some ch := by
  obtain ⟨first, more, rfl⟩ := List.exists_cons_of_ne_nil h.ne_nil
  intro heq
  exact h.not_mem hch (Option.some.inj heq ▸ List.mem_cons_self)

end Characters

/-! ### Reading arrays -/

/-- What stands behind a number in an array. -/
def AtSeparator (rest : List Char) : Prop := rest.head? = some ',' ∨ rest.head? = some ']'

/-- A printed value is read as it is, up to what stands behind it. -/
structure ReadsBack {α : Type} (read : List Char → Option (α × List Char)) (print : α → List Char) (v : α) :
    Prop where
  numeric : IsNumeric (print v)
  reads : ∀ rest, AtSeparator rest → read (print v ++ rest) = some (v, rest)

/-- `%.17g` of a finite double, read by `std::from_chars`. -/
structure ExactDecimal (fmt : DoubleRounding) (print : Double → List Char) (v : Double) : Prop where
  finite : v.isFinite = true
  numeric : IsNumeric (print v)
  reads : ∀ rest, AtSeparator rest → ParseFast.fromChars fmt (print v ++ rest) = .ok v rest

section Arrays

variable {α : Type} {read : List Char → Option (α × List Char)} {print : α → List Char} {vs : List α}

theorem noDigitFirst_of_atSeparator {rest : List Char} (h : AtSeparator rest) : NoDigitFirst rest := by
  intro ch hch
  rcases h with h | h
  · obtain rfl : ',' = ch := Option.some.inj (h.symm.trans hch)
    rfl
  · obtain rfl : ']' = ch := Option.some.inj (h.symm.trans hch)
    rfl

theorem isItemGap_numeral : ∀ ch, isNumeralChar ch = true → isItemGap ch = false := by
  intro ch h
  by_contra hgap
  simp only [isItemGap, Bool.not_eq_false, Bool.or_eq_true, decide_eq_true_eq] at hgap
  rcases hgap with ((rfl | rfl) | rfl) | rfl <;> cases h

theorem isArrayGap_numeral : ∀ ch, isNumeralChar ch = true → isArrayGap ch = false := by
  intro ch h
  by_contra hgap
  simp only [isArrayGap, Bool.not_eq_false, Bool.or_eq_true, decide_eq_true_eq] at hgap
  rcases hgap with ((rfl | rfl) | rfl) | rfl <;> cases h

theorem isKeyGap_numeral : ∀ ch, isNumeralChar ch = true → isKeyGap ch = false := by
  intro ch h
  by_contra hgap
  simp only [isKeyGap, Bool.not_eq_false, Bool.or_eq_true, decide_eq_true_eq] at hgap
  rcases hgap with (rfl | rfl) | rfl <;> cases h

/-- The blanks in front of the values are skipped, the values are not. -/
theorem dropWhile_commaSeparated {p : Char → Bool} (hp : ∀ ch, isNumeralChar ch = true → p ch = false)
    (hend : p ']' = false)
    (h : ∀ v ∈ vs, ReadsBack read print v) (behind : List Char) :
    (commaSeparated (vs.map print) ++ ']' :: behind).dropWhile p =
      commaSeparated (vs.map print) ++ ']' :: behind := by
  cases vs with
  | nil => exact List.dropWhile_cons_of_neg (by rw [hend]; exact Bool.false_ne_true)
  | cons v vs =>
    rw [List.map_cons, commaSeparated, List.append_assoc, (h v List.mem_cons_self).numeric.head hp]

/-- As many values as there is room for are read back. -/
theorem readNumbers_commaSeparated {maxCount : ℕ} (hlen : vs.length ≤ maxCount)
    (h : ∀ v ∈ vs, ReadsBack read print v) (behind : List Char) :
    readNumbers read maxCount (commaSeparated (vs.map print) ++ ']' :: behind) = vs := by
  induction vs generalizing maxCount with
  | nil =>
    cases maxCount with
    | zero => rfl
    | succ maxCount => exact if_pos (.inr rfl)
  | cons v vs ih =>
    cases maxCount with
    | zero => cases hlen
    | succ maxCount =>
      have hv := h v List.mem_cons_self
      have hvs : ∀ v ∈ vs, ReadsBack read print v := fun v hv => h v (List.mem_cons_of_mem _ hv)
      have hrest : AtSeparator ((vs.map print).flatMap (", ".toList ++ ·) ++ ']' :: behind) := by
        cases vs with
        | nil => exact .inr rfl
        | cons v vs => exact .inl rfl
      have hnext : ((vs.map print).flatMap (", ".toList ++ ·) ++ ']' :: behind).dropWhile isItemGap =
          commaSeparated (vs.map print) ++ ']' :: behind := by
        cases vs with
        | nil => exact dropWhile_commaSeparated isItemGap_numeral rfl hvs behind
        | cons v vs => exact dropWhile_commaSeparated isItemGap_numeral rfl hvs behind
      have hnul := hv.numeric.head_ne '\x00' rfl ((vs.map print).flatMap (", ".toList ++ ·) ++ ']' :: behind)
      have hclose := hv.numeric.head_ne ']' rfl ((vs.map print).flatMap (", ".toList ++ ·) ++ ']' :: behind)
      rw [List.map_cons, commaSeparated, List.append_assoc, readNumbers, if_neg (not_or.2 ⟨hnul, hclose⟩),
        hv.reads _ hrest]
      dsimp only
      rw [hnext, ih (Nat.le_of_succ_le_succ hlen) hvs]

/-- An array of doubles is read back. -/
theorem parseDoubleArray_jsonArray {fmt : DoubleRounding} {print : Double → List Char} {vs : List Double}
    {maxCount : ℕ}
    (hlen : vs.length ≤ maxCount) (h : ∀ v ∈ vs, ExactDecimal fmt print v) (behind : List Char) :
    parseDoubleArray fmt maxCount (jsonArray (vs.map print) ++ behind) = vs := by
  have hreads : ∀ v ∈ vs, ReadsBack (parseDoubleFastAdvance fmt) print v := by
    intro v hv
    refine ⟨(h v hv).numeric, fun rest hrest => ?_⟩
    rw [parseDoubleFastAdvance, (h v hv).reads rest hrest]
  have htext : jsonArray (vs.map print) ++ behind = '[' :: (commaSeparated (vs.map print) ++ ']' :: behind) := by
    rw [jsonArray, List.cons_append, List.append_assoc, List.singleton_append]
  rw [parseDoubleArray, htext, List.dropWhile_cons_of_pos rfl, dropWhile_commaSeparated isArrayGap_numeral rfl hreads,
    readNumbers_commaSeparated hlen hreads]

theorem behindSign_decimalInt (n : ℤ) (rest : List Char) :
    behindSign (decimalInt n ++ rest) = Nat.toDigits 10 n.natAbs ++ rest := by
  rw [decimalInt]
  split
  · rw [List.cons_append]
    unfold behindSign
    rw [List.dropWhile_cons_of_neg (by decide)]
    rfl
  · rcases hdigits : Nat.toDigits 10 n.natAbs with _ | ⟨first, more⟩
    · exact absurd hdigits Nat.toDigits_ne_nil
    obtain ⟨hspace, hminus, hplus⟩ :=
      isSpace_of_isDigit
        (isDigit_of_mem_decimalDigits (hdigits ▸ List.mem_cons_self : first ∈ Nat.toDigits 10 n.natAbs))
    unfold behindSign
    rw [List.cons_append, List.dropWhile_cons_of_neg (by rw [hspace]; exact Bool.false_ne_true)]
    split
    · next h => exact absurd (List.cons.inj h).1 hminus
    · next h => exact absurd (List.cons.inj h).1 hplus
    · rfl

theorem strtol_decimalInt (i : Int32) {rest : List Char} (h : NoDigitFirst rest) :
    strtol (decimalInt i.toInt ++ rest) = some (i.toInt, rest) := by
  have hlt := i.toInt_lt
  have hle := i.le_toInt
  have hdrop : (Nat.toDigits 10 i.toInt.natAbs ++ rest).dropWhile Char.isDigit = rest := by
    have hsplit := List.takeWhile_append_dropWhile (p := Char.isDigit) (l := Nat.toDigits 10 i.toInt.natAbs ++ rest)
    rw [takeWhile_toDigits _ h] at hsplit
    exact List.append_cancel_left hsplit
  rw [strtol, behindSign_decimalInt, takeWhile_toDigits _ h, if_neg Nat.toDigits_ne_nil, hdrop,
    atoll_decimalInt (by omega) (by omega) h]

/-- An array of integers is read back. -/
theorem parseIntArray_jsonArray {vs : List Int32} {maxCount : ℕ} (hlen : vs.length ≤ maxCount) (behind : List Char) :
    parseIntArray maxCount (jsonArray (vs.map fun i => decimalInt i.toInt) ++ behind) = vs := by
  have hreads : ∀ i ∈ vs.map Int32.toInt, ReadsBack strtol decimalInt i := by
    intro i hi
    obtain ⟨i, -, rfl⟩ := List.mem_map.1 hi
    exact ⟨isNumeric_decimalInt _, fun rest hrest => strtol_decimalInt i (noDigitFirst_of_atSeparator hrest)⟩
  have htext : jsonArray (vs.map fun i => decimalInt i.toInt) ++ behind =
      '[' :: (commaSeparated ((vs.map Int32.toInt).map decimalInt) ++ ']' :: behind) := by
    rw [jsonArray, List.cons_append, List.append_assoc, List.singleton_append, List.map_map]
    rfl
  rw [parseIntArray, htext, List.dropWhile_cons_of_pos rfl, dropWhile_commaSeparated isArrayGap_numeral rfl hreads,
    readNumbers_commaSeparated ((List.length_map _).trans_le hlen) hreads, List.map_map]
  exact (List.map_congr_left fun i _ => Int32.ofInt_toInt i).trans (List.map_id _)

end Arrays

/-! ### Finding keys -/

section Search

variable {key k : String} {front value text rest stale : List Char} {indent : ℕ}

theorem quoted_append (key tail rest : List Char) : quoted '"' key tail ++ rest = quoted '"' key (tail ++ rest) := by
  rw [quoted, List.cons_append, List.append_assoc, List.cons_append]

/-- The keys are found by themselves: they have no quotes, nor what stands behind a key or a text. -/
theorem searchedKeys_sound : ∀ key ∈ searchedKeys, '"' ∉ key.toList ∧ ':' ∉ key.toList ∧ ',' ∉ key.toList ∧
    (quoted '"' key.toList []).length < keyCap := by
  decide +kernel

/-- A line of another key and a value without quotes. -/
theorem passes_jsonLine (hkey : key ∈ searchedKeys) (hk : '"' ∉ k.toList) (hne : k.toList ≠ key.toList)
    (hvalue : '"' ∉ value) (indent : ℕ) : Passes '"' key.toList (jsonLine indent k value) := by
  obtain ⟨hquote, hcolon, -, -⟩ := searchedKeys_sound key hkey
  refine Passes.append (Passes.plain fun hmem => ?_) (Passes.quotedWord hquote hk hne ?_ hcolon)
  · exact absurd (List.eq_of_mem_replicate hmem) (by decide)
  · rintro hmem
    rcases List.mem_append.1 (show '"' ∈ ": ".toList ++ (value ++ ",\n".toList) from hmem) with h | h
    · exact absurd h (by decide)
    · rcases List.mem_append.1 h with h | h
      · exact hvalue h
      · exact absurd h (by decide)

/-- A line of another key and a text that is not the key. -/
theorem passes_textLine (hkey : key ∈ searchedKeys) (hk : '"' ∉ k.toList) (hne : k.toList ≠ key.toList)
    (htext : PlainWord text) (indent : ℕ) : Passes '"' key.toList (jsonLine indent k (jsonText text)) := by
  obtain ⟨hquote, hcolon, hcomma, -⟩ := searchedKeys_sound key hkey
  have hsplit : jsonLine indent k (jsonText text) =
      List.replicate indent ' ' ++ (quoted '"' k.toList ": ".toList ++ quoted '"' text ",\n".toList) := by
    rw [jsonLine, jsonText, quoted_append, quoted_append]
    rfl
  rw [hsplit]
  refine Passes.append (Passes.plain fun hmem => ?_) (Passes.append ?_ ?_)
  · exact absurd (List.eq_of_mem_replicate hmem) (by decide)
  · exact Passes.quotedWord hquote hk hne (by decide) hcolon
  · exact Passes.quotedWord hquote htext.no_quote (htext.no_key key hkey) (by decide) hcomma

theorem cString_append (h : '\x00' ∉ text) (stale : List Char) : cString (text ++ '\x00' :: stale) = text := by
  rw [cString, List.takeWhile_append_of_pos, List.takeWhile_cons_of_neg (by decide), List.append_nil]
  intro ch hch
  exact decide_eq_true fun heq => h (heq ▸ hch)

/-- The search in the buffer finds the key, and skips its colon. -/
theorem findKey_found (hkey : key ∈ searchedKeys) (hpass : Passes '"' key.toList front)
    (hnul : '\x00' ∉ front ++ quoted '"' key.toList (": ".toList ++ text)) (stale : List Char) :
    findKey (front ++ quoted '"' key.toList (": ".toList ++ text) ++ '\x00' :: stale) key =
      some ((text ++ '\x00' :: stale).dropWhile isKeyGap) := by
  have hlen := (searchedKeys_sound key hkey).2.2.2
  have hfound := hpass.found (": ".toList ++ text)
  rw [fromText, Option.map_eq_some_iff] at hfound
  obtain ⟨i, hi, hdrop⟩ := hfound
  have hsplit : quoted '"' key.toList (": ".toList ++ text) = quoted '"' key.toList [] ++ (": ".toList ++ text) := by
    rw [quoted_append, List.nil_append]
  have hbehind := congrArg (List.drop (quoted '"' key.toList []).length) hdrop
  rw [List.drop_drop, hsplit, List.drop_left] at hbehind
  have hroom := congrArg List.length hbehind
  rw [List.length_drop, List.length_append] at hroom
  have hcolon : (": ".toList ++ text).length = text.length + 2 := by
    rw [List.length_append, Nat.add_comm]
    rfl
  rw [← hsplit] at hbehind hroom
  unfold findKey
  dsimp only
  rw [if_neg (Nat.not_le.2 hlen), cString_append hnul, hi, Option.map_some,
    List.drop_append_of_le_length (by rw [List.length_append]; omega), hbehind, List.append_assoc]
  rfl

/-- A line that a search for another key passes. -/
structure PlainLine (line : String × List Char) : Prop where
  key_quote : '"' ∉ line.1.toList
  key_inert : Inert line.1.toList
  value_quote : '"' ∉ line.2 ∨ ∃ text, PlainWord text ∧ line.2 = jsonText text
  value_inert : Inert line.2

variable {lines : List (String × List Char)}

theorem PlainLine.passes {line : String × List Char} (h : PlainLine line) (hkey : key ∈ searchedKeys)
    (hne : line.1 ≠ key)
    (indent : ℕ) : Passes '"' key.toList (jsonLine indent line.1 line.2) := by
  have hne : line.1.toList ≠ key.toList := fun heq => hne (String.toList_inj.1 heq)
  rcases h.value_quote with hvalue | ⟨text, htext, heq⟩
  · exact passes_jsonLine hkey h.key_quote hne hvalue indent
  · rw [heq]
    exact passes_textLine hkey h.key_quote hne htext indent

/-- The value of a key that stands in one of the lines. -/
theorem findKey_of_mem (hkey : key ∈ searchedKeys) (hlines : ∀ line ∈ lines, PlainLine line)
    (hnodup : (lines.map Prod.fst).Nodup) (hmem : (key, value) ∈ lines) (hfront : Passes '"' key.toList front)
    (hnul : '\x00' ∉ front ++ (jsonLines indent lines ++ rest)) (stale : List Char) :
    ∃ behind, findKey (front ++ (jsonLines indent lines ++ rest) ++ '\x00' :: stale) key =
      some ((value ++ ',' :: behind).dropWhile isKeyGap) := by
  obtain ⟨before, after, rfl⟩ := List.append_of_mem hmem
  have hbefore : Passes '"' key.toList (jsonLines indent before) := by
    refine Passes.flatMap fun line hline => ?_
    refine (hlines line (List.mem_append_left _ hline)).passes hkey (fun heq => ?_) indent
    rw [List.map_append, List.map_cons, List.nodup_append] at hnodup
    exact hnodup.2.2 line.1 (List.mem_map_of_mem hline) key List.mem_cons_self heq
  have hindent : Passes '"' key.toList (List.replicate indent ' ') :=
    Passes.plain fun hmem => absurd (List.eq_of_mem_replicate hmem) (by decide)
  have hsplit : front ++ (jsonLines indent (before ++ (key, value) :: after) ++ rest) =
      front ++ (jsonLines indent before ++ List.replicate indent ' ') ++
        quoted '"' key.toList (": ".toList ++ (value ++ (",\n".toList ++ (jsonLines indent after ++ rest)))) := by
    simp only [jsonLines, List.flatMap_append, List.flatMap_cons, jsonLine, List.append_assoc, quoted_append]
  rw [hsplit] at hnul ⊢
  refine ⟨'\n' :: (jsonLines indent after ++ (rest ++ '\x00' :: stale)), ?_⟩
  rw [findKey_found hkey (hfront.append (hbefore.append hindent)) hnul]
  simp only [List.append_assoc]
  rfl

end Search

/-! ### Plain lines -/

section Lines

variable {text value : List Char}

theorem inert_of_all (h : text.all (fun ch => decide (ch ≠ '\x00') && decide (ch ≠ '\x7d')) = true) : Inert text := by
  rw [List.all_eq_true] at h
  constructor
  · intro hmem
    exact absurd (h _ hmem) (by decide)
  · intro hmem
    exact absurd (h _ hmem) (by decide)

theorem inert_jsonText (h : Inert text) : Inert (jsonText text) :=
  (h.append (inert_of_all (by decide : ['"'].all _ = true))).cons (by decide) (by decide)

theorem inert_commaSeparated {items : List (List Char)} (h : ∀ item ∈ items, Inert item) :
    Inert (commaSeparated items) := by
  cases items with
  | nil => exact inert_of_all rfl
  | cons item items =>
    refine (h item List.mem_cons_self).append (Inert.flatMap fun other hother => ?_)
    exact (inert_of_all (by decide : ", ".toList.all _ = true)).append (h other (List.mem_cons_of_mem _ hother))

theorem inert_jsonArray {items : List (List Char)} (h : ∀ item ∈ items, Inert item) : Inert (jsonArray items) :=
  ((inert_commaSeparated h).append (inert_of_all (by decide : [']'].all _ = true))).cons (by decide) (by decide)

theorem no_quote_jsonArray {items : List (List Char)} (h : ∀ item ∈ items, '"' ∉ item) : '"' ∉ jsonArray items := by
  have hitems : '"' ∉ commaSeparated items := by
    cases items with
    | nil => exact List.not_mem_nil
    | cons item items =>
      intro hmem
      rcases List.mem_append.1 hmem with hmem | hmem
      · exact h item List.mem_cons_self hmem
      · obtain ⟨other, hother, hch⟩ := List.mem_flatMap.1 hmem
        rcases List.mem_append.1 hch with hch | hch
        · exact absurd hch (by decide)
        · exact h other (List.mem_cons_of_mem _ hother) hch
  intro hmem
  rcases List.mem_cons.1 hmem with heq | hmem
  · exact absurd heq (by decide)
  · rcases List.mem_append.1 hmem with hmem | hmem
    · exact hitems hmem
    · exact absurd hmem (by decide)

/-- A key as the lines have them. -/
def plainKey (k : String) : Bool :=
  k.toList.all fun ch => decide (ch ≠ '"') && decide (ch ≠ '\x00') && decide (ch ≠ '\x7d')

theorem plainKey_sound {k : String} (h : plainKey k = true) : '"' ∉ k.toList ∧ Inert k.toList := by
  rw [plainKey, List.all_eq_true] at h
  refine ⟨fun hmem => ?_, fun hmem => ?_, fun hmem => ?_⟩
  · exact absurd (h _ hmem) (by decide)
  · exact absurd (h _ hmem) (by decide)
  · exact absurd (h _ hmem) (by decide)

theorem plainLine_numeric {k : String} (hk : plainKey k = true) (h : IsNumeric value) : PlainLine (k, value) :=
  ⟨(plainKey_sound hk).1, (plainKey_sound hk).2, .inl (h.not_mem rfl), h.inert⟩

theorem plainLine_text {k : String} (hk : plainKey k = true) (h : PlainWord text) : PlainLine (k, jsonText text) :=
  ⟨(plainKey_sound hk).1, (plainKey_sound hk).2, .inr ⟨text, h, rfl⟩, inert_jsonText h.toInert⟩

theorem plainLine_array {k : String} {items : List (List Char)} (hk : plainKey k = true)
    (h : ∀ item ∈ items, IsNumeric item) : PlainLine (k, jsonArray items) :=
  ⟨(plainKey_sound hk).1, (plainKey_sound hk).2,
    .inl (no_quote_jsonArray fun item hitem => (h item hitem).not_mem rfl),
    inert_jsonArray fun item hitem => (h item hitem).inert⟩

theorem PlainLine.inert {line : String × List Char} (h : PlainLine line) (indent : ℕ) :
    Inert (jsonLine indent line.1 line.2) := by
  have hspaces : Inert (List.replicate indent ' ') :=
    ⟨fun hmem => absurd (List.eq_of_mem_replicate hmem) (by decide),
      fun hmem => absurd (List.eq_of_mem_replicate hmem) (by decide)⟩
  have hcolon : Inert ": ".toList := inert_of_all (by decide)
  have hend : Inert ",\n".toList := inert_of_all (by decide)
  have hbehind : Inert ('"' :: (": ".toList ++ (line.2 ++ ",\n".toList))) :=
    (hcolon.append (h.value_inert.append hend)).cons (by decide) (by decide)
  exact hspaces.append ((h.key_inert.append hbehind).cons (by decide) (by decide))

end Lines

/-! ### An entry -/

/-- The doubles of a state are finite, and their printed digits are read back. -/
structure Printable {n : ℕ} (fmt : DoubleRounding) (print : Double → List Char) (l : Learned n) : Prop where
  weights : ∀ a, ExactDecimal fmt print (l.weights a)
  cumReward : ∀ a, ExactDecimal fmt print (l.cumReward a)

section Entry

variable {fmt : DoubleRounding} {print : Double → List Char} {m n : ℕ} {name : Option (List Char)} {l : Learned n}

theorem plainLine_entryLines (hl : Printable fmt print l) (hname : ∀ text, name = some text → PlainWord text) :
    ∀ line ∈ entryLines print name l, PlainLine line := by
  have hdoubles : ∀ {f : Fin n → Double}, (∀ a, ExactDecimal fmt print (f a)) →
      ∀ item ∈ List.ofFn fun a => print (f a), IsNumeric item := by
    intro f hf item hitem
    obtain ⟨a, rfl⟩ := (List.mem_ofFn' _ _).1 hitem
    exact (hf a).numeric
  have hints : ∀ item ∈ List.ofFn fun a => decimalInt (l.pulls a).toInt, IsNumeric item := by
    intro item hitem
    obtain ⟨a, rfl⟩ := (List.mem_ofFn' _ _).1 hitem
    exact isNumeric_decimalInt _
  rw [entryLines, List.forall_mem_append]
  constructor
  · cases name with
    | none => exact fun _ hline => absurd hline List.not_mem_nil
    | some text => exact List.forall_mem_singleton.2 (plainLine_text (by decide) (hname text rfl))
  · refine List.forall_mem_cons.2 ⟨plainLine_numeric (by decide) (isNumeric_decimalInt _), ?_⟩
    refine List.forall_mem_cons.2 ⟨plainLine_numeric (by decide) (isNumeric_decimalInt _), ?_⟩
    refine List.forall_mem_cons.2 ⟨plainLine_array (by decide) (hdoubles hl.weights), ?_⟩
    refine List.forall_mem_cons.2 ⟨plainLine_array (by decide) (hdoubles hl.cumReward), ?_⟩
    exact List.forall_mem_singleton.2 (plainLine_array (by decide) hints)

theorem entryLines_nodup : ((entryLines print name l).map Prod.fst).Nodup := by
  cases name with
  | none => exact (by decide : ["n_arms", "total_steps", "weights", "cum_reward", "pulls"].Nodup)
  | some text => exact (by decide : ["regime_name", "n_arms", "total_steps", "weights", "cum_reward", "pulls"].Nodup)

theorem inert_jsonLines {lines : List (String × List Char)} (h : ∀ line ∈ lines, PlainLine line) (indent : ℕ) :
    Inert (jsonLines indent lines) := Inert.flatMap fun line hline => (h line hline).inert indent

theorem inert_entryRest (hl : Printable fmt print l) (hname : ∀ text, name = some text → PlainWord text) :
    Inert (entryRest print name l) := by
  have harms : Inert (armNamesLine n) := by
    refine Inert.append (inert_of_all (by decide))
      (Inert.append (inert_jsonArray fun item hitem => ?_) (inert_of_all (by decide)))
    obtain ⟨a, -, rfl⟩ := List.mem_map.1 hitem
    have hlabel : Inert "arm_".toList := inert_of_all (by decide)
    exact inert_jsonText (hlabel.append (isNumeric_decimalInt a).inert)
  exact (inert_jsonLines (plainLine_entryLines hl hname) 6).append (harms.append (inert_of_all (by decide)))

/-- The text from a `regime_id` on. -/
def ridText (print : Double → List Char) (r : ℕ) (name : Option (List Char)) (l : Learned n)
    (later : List Char) : List Char :=
  decimalInt r ++ (",\n".toList ++ (entryRest print name l ++ '\x7d' :: later))

theorem nul_not_mem_ridText (hl : Printable fmt print l) (hname : ∀ text, name = some text → PlainWord text)
    {later : List Char}
    (hlater : '\x00' ∉ later) (r : ℕ) : '\x00' ∉ ridText print r name l later := by
  have hend : Inert ",\n".toList := inert_of_all (by decide)
  have hfront := (isNumeric_decimalInt r).inert.append (hend.append (inert_entryRest hl hname))
  intro hmem
  rw [ridText, ← List.append_assoc, ← List.append_assoc] at hmem
  rcases List.mem_append.1 hmem with hmem | hmem
  · exact hfront.no_nul (by rwa [List.append_assoc] at hmem)
  · rcases List.mem_cons.1 hmem with heq | hmem
    · exact absurd heq (by decide)
    · exact hlater hmem

/-- What an entry holds of a state. -/
def savedEntry (l : Learned n) : BanditEntry where
  totalSteps := some l.totalSteps
  weights := List.ofFn l.weights
  cumReward := List.ofFn l.cumReward
  pulls := List.ofFn l.pulls

/-- The fields of an entry are read as they were. -/
theorem readEntry_ridText (hn : n ≤ banditMaxArms.toNat) (hl : Printable fmt print l)
    (hname : ∀ text, name = some text → PlainWord text) {later : List Char} (hlater : '\x00' ∉ later) (r : ℕ)
    (stale : List Char) : readEntry fmt (ridText print r name l later ++ '\x00' :: stale) = savedEntry l := by
  have hsplit : ridText print r name l later = (decimalInt r ++ ",\n".toList) ++
      (jsonLines 6 (entryLines print name l) ++ (armNamesLine n ++ ("    ".toList ++ '\x7d' :: later))) := by
    simp only [ridText, entryRest, List.append_assoc]
  have hfront : ∀ key : String, Passes '"' key.toList (decimalInt r ++ ",\n".toList) := by
    intro key
    refine Passes.plain fun hmem => ?_
    rcases List.mem_append.1 hmem with h | h
    · exact (isNumeric_decimalInt r).not_mem rfl h
    · exact absurd h (by decide)
  have hnul := nul_not_mem_ridText hl hname hlater r
  have hfind : ∀ (key : String) (value : List Char), key ∈ searchedKeys → (key, value) ∈ fieldLines print l →
      ∃ behind, findKey (ridText print r name l later ++ '\x00' :: stale) key =
        some ((value ++ ',' :: behind).dropWhile isKeyGap) := by
    intro key value hkey hmem
    rw [hsplit] at hnul ⊢
    exact findKey_of_mem hkey (plainLine_entryLines hl hname) entryLines_nodup (List.mem_append_right _ hmem)
      (hfront key)
      hnul stale
  have harray : ∀ (items : List (List Char)) (behind : List Char),
      (jsonArray items ++ ',' :: behind).dropWhile isKeyGap = jsonArray items ++ ',' :: behind :=
    fun _ _ => List.dropWhile_cons_of_neg (by decide)
  have hroom : ∀ {α : Type} (f : Fin n → α), (List.ofFn f).length ≤ banditMaxArms.toNat :=
    fun f => (List.length_ofFn (f := f)).trans_le hn
  have hexact : ∀ {f : Fin n → Double}, (∀ a, ExactDecimal fmt print (f a)) →
    ∀ v ∈ List.ofFn f, ExactDecimal fmt print v := by
    intro f hf v hv
    obtain ⟨a, rfl⟩ := (List.mem_ofFn' _ _).1 hv
    exact hf a
  obtain ⟨_, hsteps⟩ := hfind "total_steps" _ (by decide) (List.mem_cons_of_mem _ List.mem_cons_self)
  obtain ⟨_, hweights⟩ := hfind "weights" _ (by decide)
    (List.mem_cons_of_mem _ (List.mem_cons_of_mem _ List.mem_cons_self))
  obtain ⟨_, hrewards⟩ := hfind "cum_reward" _ (by decide)
    (List.mem_cons_of_mem _ (List.mem_cons_of_mem _ (List.mem_cons_of_mem _ List.mem_cons_self)))
  obtain ⟨_, hpulls⟩ := hfind "pulls" _ (by decide) (List.mem_of_mem_getLast? rfl)
  unfold readEntry
  rw [hsteps, hweights, hrewards, hpulls, harray, harray, harray, (isNumeric_decimalInt _).head isKeyGap_numeral,
    Option.map_some, Option.elim_some, Option.elim_some, Option.elim_some,
    atoi_decimalInt_append _ (noDigitFirst_cons (by decide) _)]
  have hw := parseDoubleArray_jsonArray (hroom l.weights) (hexact hl.weights)
  have hc := parseDoubleArray_jsonArray (hroom l.cumReward) (hexact hl.cumReward)
  have hp := parseIntArray_jsonArray (hroom l.pulls)
  rw [List.map_ofFn] at hw hc hp
  rw [savedEntry]
  congr 1
  · exact hw _
  · exact hc _
  · exact hp _

theorem pastBrace_ridText (hl : Printable fmt print l) (hname : ∀ text, name = some text → PlainWord text)
    {later : List Char}
    (hlater : '\x00' ∉ later) (r : ℕ) (stale : List Char) :
    pastBrace (ridText print r name l later ++ '\x00' :: stale) = later ++ '\x00' :: stale := by
  have hend : Inert ",\n".toList := inert_of_all (by decide)
  have hfront := (isNumeric_decimalInt r).inert.append (hend.append (inert_entryRest hl hname))
  have hsplit : ridText print r name l later =
      (decimalInt r ++ (",\n".toList ++ entryRest print name l)) ++ '\x7d' :: later := by
    simp only [ridText, List.append_assoc]
  rw [pastBrace, cString_append (nul_not_mem_ridText hl hname hlater r), hsplit, strchr_append hfront.no_brace,
    Option.elim_some, List.append_assoc, ← List.drop_drop, List.drop_left]
  rfl

/-- The overlay of what is read of an entry is what was saved. -/
theorem overlay_read (hl : Printable fmt print l) (old : Learned n) :
    (savedEntry l).overlay old = l ∧ (savedEntry l).nonfinite = false := by
  have hfinite : ∀ {f : Fin n → Double}, (∀ a, ExactDecimal fmt print (f a)) →
    (List.ofFn f).all Double.isFinite = true := by
    intro f hf
    rw [List.all_eq_true]
    intro v hv
    obtain ⟨a, rfl⟩ := (List.mem_ofFn' _ _).1 hv
    exact (hf a).finite
  have hcells : ∀ {α : Type} (f cells : Fin n → α), BanditEntry.overlayCells (List.ofFn f) cells = f := by
    intro α f cells
    funext a
    rw [BanditEntry.overlayCells, List.getElem?_ofFn, dif_pos a.isLt]
    rfl
  constructor
  · rw [BanditEntry.overlay, savedEntry, BanditEntry.copied, BanditEntry.copied, if_pos (hfinite hl.weights),
      if_pos (hfinite hl.cumReward),
      hcells, hcells, hcells]
    rfl
  · rw [BanditEntry.nonfinite, savedEntry, hfinite hl.weights, hfinite hl.cumReward]
    rfl

end Entry

/-! ### All entries -/

section Entries

variable {fmt : DoubleRounding} {print : Double → List Char} {m n : ℕ} {names : Fin m → Option (List Char)}
  {s : Fin m → Learned n}

/-- What follows the brace of an entry on its line. -/
def entryEnd (r : Fin m) : List Char := if r.val + 1 < m then ",\n".toList else "\n".toList

theorem entryEnd_plain (r : Fin m) : '"' ∉ entryEnd r ∧ '\x00' ∉ entryEnd r := by
  unfold entryEnd
  split
  · exact ⟨by decide, by decide⟩
  · exact ⟨by decide, by decide⟩

/-- The entries of some regimes and the end of the file. -/
def entriesText (print : Double → List Char) (names : Fin m → Option (List Char)) (s : Fin m → Learned n)
    (rs : List (Fin m)) :
    List Char := rs.flatMap (entryText print names s) ++ "  ]\n\x7d\n".toList

theorem entryText_eq (r : Fin m) (later : List Char) : entryText print names s r ++ later =
    "    \x7b\n".toList ++ (List.replicate 6 ' ' ++ quoted '"' "regime_id".toList (": ".toList ++
      ridText print r (names r) (s r) (entryEnd r ++ later))) := by
  simp only [entryText, jsonLine, ridText, entryEnd, List.append_assoc, List.cons_append]

variable (hs : ∀ r, Printable fmt print (s r)) (hnames : ∀ r text, names r = some text → PlainWord text)

include hs hnames in
theorem nul_not_mem_entriesText (rs : List (Fin m)) : '\x00' ∉ entriesText print names s rs := by
  induction rs with
  | nil => exact (by decide : '\x00' ∉ "  ]\n\x7d\n".toList)
  | cons r rs ih =>
    have hentry : entriesText print names s (r :: rs) =
      entryText print names s r ++ entriesText print names s rs := by
      rw [entriesText, entriesText, List.flatMap_cons, List.append_assoc]
    have hlater : '\x00' ∉ entryEnd r ++ entriesText print names s rs := by
      intro hmem
      exact (List.mem_append.1 hmem).elim (entryEnd_plain r).2 ih
    have hrid := nul_not_mem_ridText (hs r) (hnames r) hlater r
    rw [hentry, entryText_eq]
    intro hmem
    rcases List.mem_append.1 hmem with h | h
    · exact absurd h (by decide)
    · rcases List.mem_append.1 h with h | h
      · exact absurd h (by decide)
      · have hkey : '\x00' ∉ quoted '"' "regime_id".toList ": ".toList := by decide
        rw [← quoted_append] at h
        exact (List.mem_append.1 h).elim hkey hrid

include hs hnames in
/-- One turn: the regime is found by its number, its fields come back, and the next entry is next. -/
theorem overlayRegimes_entry (hn : n ≤ banditMaxArms.toNat) (hm : m < 2 ^ 31) {front later : List Char} (r : Fin m)
    (hfront : '"' ∉ front ∧ '\x00' ∉ front) (hlater : '\x00' ∉ later) (stale : List Char) (turns : ℕ)
    (st : BanditStates fun _ : Fin m => n) :
    overlayRegimes fmt (turns + 1) (front ++ quoted '"' "regime_id".toList (": ".toList ++
        ridText print r (names r) (s r) later) ++ '\x00' :: stale) false st =
      overlayRegimes fmt turns (later ++ '\x00' :: stale) false (Function.update st r (s r)) := by
  have hrid := nul_not_mem_ridText (hs r) (hnames r) hlater r
  have hnul : '\x00' ∉ front ++ quoted '"' "regime_id".toList
      (": ".toList ++ ridText print r (names r) (s r) later) := by
    intro hmem
    rcases List.mem_append.1 hmem with h | h
    · exact hfront.2 h
    · have hkey : '\x00' ∉ quoted '"' "regime_id".toList ": ".toList := by decide
      rw [← quoted_append] at h
      exact (List.mem_append.1 h).elim hkey hrid
  have hfind := findKey_found (by decide) (Passes.plain hfront.1) hnul stale
  have hskip : (ridText print r (names r) (s r) later ++ '\x00' :: stale).dropWhile isKeyGap =
      ridText print r (names r) (s r) later ++ '\x00' :: stale := by
    rw [ridText, List.append_assoc, (isNumeric_decimalInt _).head isKeyGap_numeral]
  have hnumber : (atoi (ridText print r (names r) (s r) later ++ '\x00' :: stale)).toInt = r.val := by
    have hr := r.isLt
    have hself : (Int32.ofInt r.val).toInt = r.val := Int32.toInt_ofInt_of_le (by omega) (by omega)
    have hbehind : NoDigitFirst
        (",\n".toList ++ (entryRest print (names r) (s r) ++ '\x7d' :: later) ++ '\x00' :: stale) :=
      noDigitFirst_cons (by decide : ','.isDigit = false) _
    rw [ridText, List.append_assoc, ← hself, atoi_decimalInt_append _ hbehind]
  have hregime : regimeOfEntry m (ridText print r (names r) (s r) later ++ '\x00' :: stale) = some r := by
    have hknown : 0 ≤ (atoi (ridText print r (names r) (s r) later ++ '\x00' :: stale)).toInt ∧
        (atoi (ridText print r (names r) (s r) later ++ '\x00' :: stale)).toInt.toNat < m := by
      rw [hnumber]
      exact ⟨Int.natCast_nonneg _, r.isLt⟩
    rw [regimeOfEntry, dif_pos hknown]
    refine congrArg some (Fin.ext ?_)
    show (atoi (ridText print r (names r) (s r) later ++ '\x00' :: stale)).toInt.toNat = r.val
    rw [hnumber]
    rfl
  obtain ⟨hoverlay, hfinite⟩ := overlay_read (hs r) (st r)
  rw [overlayRegimes, hfind, hskip]
  dsimp only
  rw [hregime]
  dsimp only
  rw [readEntry_ridText hn (hs r) (hnames r) hlater, pastBrace_ridText (hs r) (hnames r) hlater, hoverlay, hfinite]
  rfl

theorem foldl_update_eq {st : BanditStates fun _ : Fin m => n} {rs : List (Fin m)} (h : ∀ r, r ∈ rs ∨ st r = s r) :
    rs.foldl (fun st r => Function.update st r (s r)) st = s := by
  induction rs generalizing st with
  | nil => exact funext fun r => (h r).resolve_left List.not_mem_nil
  | cons first rs ih =>
    refine ih fun r => ?_
    by_cases hr : r = first
    · subst hr
      exact .inr (Function.update_self ..)
    · dsimp only
      rw [Function.update_of_ne hr]
      exact (h r).imp_left fun hmem => (List.mem_cons.1 hmem).resolve_left hr

include hs hnames in
/-- The turns lay the entries over their regimes one by one. -/
theorem overlayRegimes_entries (hn : n ≤ banditMaxArms.toNat) (hm : m < 2 ^ 31) {front : List Char}
    (hfront : '"' ∉ front ∧ '\x00' ∉ front) (r : Fin m) (rs : List (Fin m)) (stale : List Char)
    (st : BanditStates fun _ : Fin m => n) :
    overlayRegimes fmt (rs.length + 1) (front ++ quoted '"' "regime_id".toList (": ".toList ++
        ridText print r (names r) (s r) (entryEnd r ++ entriesText print names s rs)) ++ '\x00' :: stale) false st =
      ⟨true, (r :: rs).foldl (fun st r => Function.update st r (s r)) st⟩ := by
  induction rs generalizing front r st with
  | nil =>
    have hlater : '\x00' ∉ entryEnd r ++ entriesText print names s [] := fun hmem =>
      (List.mem_append.1 hmem).elim (entryEnd_plain r).2 (nul_not_mem_entriesText hs hnames [])
    rw [overlayRegimes_entry hs hnames hn hm r hfront hlater]
    rfl
  | cons next rs ih =>
    have hlater : '\x00' ∉ entryEnd r ++ entriesText print names s (next :: rs) := fun hmem =>
      (List.mem_append.1 hmem).elim (entryEnd_plain r).2 (nul_not_mem_entriesText hs hnames (next :: rs))
    have hnext : entryEnd r ++ entriesText print names s (next :: rs) =
        (entryEnd r ++ ("    \x7b\n".toList ++ List.replicate 6 ' ')) ++ quoted '"' "regime_id".toList (": ".toList ++
          ridText print next (names next) (s next) (entryEnd next ++ entriesText print names s rs)) := by
      rw [entriesText, List.flatMap_cons, List.append_assoc, ← entriesText, entryText_eq]
      simp only [List.append_assoc]
    have hgap : '"' ∉ entryEnd r ++ ("    \x7b\n".toList ++ List.replicate 6 ' ') ∧
        '\x00' ∉ entryEnd r ++ ("    \x7b\n".toList ++ List.replicate 6 ' ') := by
      constructor
      · exact fun hmem => (List.mem_append.1 hmem).elim (entryEnd_plain r).1 (by decide)
      · exact fun hmem => (List.mem_append.1 hmem).elim (entryEnd_plain r).2 (by decide)
    rw [List.length_cons, overlayRegimes_entry hs hnames hn hm r hfront hlater, hnext, ih hgap next]
    rfl

end Entries

/-! ### The whole file -/

section File

variable {fmt : DoubleRounding} {print : Double → List Char} {m n : ℕ} {names : Fin m → Option (List Char)}
  {s : Fin m → Learned n} {savedAtNs : ℤ} {sha expectedSha : List Char}

theorem plainLine_headerLines (hsha : PlainWord sha) : ∀ line ∈ headerLines m n savedAtNs sha, PlainLine line := by
  refine List.forall_mem_cons.2 ⟨plainLine_numeric (by decide) (isNumeric_decimalInt _), ?_⟩
  refine List.forall_mem_cons.2 ⟨plainLine_numeric (by decide) (isNumeric_decimalInt _), ?_⟩
  refine List.forall_mem_cons.2 ⟨plainLine_text (by decide) hsha, ?_⟩
  refine List.forall_mem_cons.2 ⟨plainLine_numeric (by decide) (isNumeric_decimalInt _), ?_⟩
  exact List.forall_mem_singleton.2 (plainLine_numeric (by decide) (isNumeric_decimalInt _))

theorem headerLines_nodup : ((headerLines m n savedAtNs sha).map Prod.fst).Nodup :=
  (by decide : ["format_version", "saved_at_ts_ns", "model_bundle_sha256", "n_regimes", "n_arms"].Nodup)

/-- The id that the file was saved with is accepted. -/
theorem shaAccepted_saved (hsha : PlainWord sha) {buf behind : List Char}
    (h : findKey buf "model_bundle_sha256" = some (jsonText sha ++ ',' :: behind)) : shaAccepted buf sha = true := by
  have htext : jsonText sha ++ ',' :: behind = '"' :: (sha ++ '"' :: ',' :: behind) := by
    rw [jsonText, quoted_append]
    rfl
  have hcstring : cString (sha ++ '"' :: ',' :: behind) = sha ++ '"' :: cString (',' :: behind) := by
    have hplain : ∀ ch ∈ sha, decide (ch ≠ '\x00') = true := by
      intro ch hch
      exact decide_eq_true fun heq => hsha.no_nul (heq ▸ hch)
    rw [cString, List.takeWhile_append_of_pos hplain]
    rfl
  unfold shaAccepted
  rw [h, htext]
  dsimp only
  rw [List.dropWhile_cons_of_neg (by decide), List.head?_cons, if_neg fun hne => hne rfl, List.tail_cons, hcstring,
    strchr_append hsha.no_quote]
  dsimp only
  rw [List.take_left, decide_eq_true (rfl : sha = sha), Bool.or_true]

theorem banditSaveJSON_eq : banditSaveJSON print savedAtNs sha names s = "\x7b\n".toList ++
    (jsonLines 2 (headerLines m n savedAtNs sha) ++ ("  \"regimes\": [\n".toList ++
      entriesText print names s (List.finRange m))) := rfl

variable (hs : ∀ r, Printable fmt print (s r)) (hnames : ∀ r text, names r = some text → PlainWord text)

include hs hnames in
theorem nul_not_mem_banditSaveJSON (hsha : PlainWord sha) : '\x00' ∉ banditSaveJSON print savedAtNs sha names s := by
  have hlines : Inert (jsonLines 2 (headerLines m n savedAtNs sha)) := inert_jsonLines (plainLine_headerLines hsha) 2
  rw [banditSaveJSON_eq]
  intro hmem
  rcases List.mem_append.1 hmem with h | h
  · exact absurd h (by decide)
  · rcases List.mem_append.1 h with h | h
    · exact hlines.no_nul h
    · exact (List.mem_append.1 h).elim (by decide) (nul_not_mem_entriesText hs hnames _)

include hs hnames in
/-- The value of a key of the header. -/
theorem findKey_header (hsha : PlainWord sha) {key : String} {value : List Char} (hkey : key ∈ searchedKeys)
    (hmem : (key, value) ∈ headerLines m n savedAtNs sha) (stale : List Char) :
    ∃ behind, findKey (banditSaveJSON print savedAtNs sha names s ++ '\x00' :: stale) key =
      some ((value ++ ',' :: behind).dropWhile isKeyGap) := by
  have hnul : '\x00' ∉ banditSaveJSON print savedAtNs sha names s := nul_not_mem_banditSaveJSON hs hnames hsha
  rw [banditSaveJSON_eq] at hnul ⊢
  exact findKey_of_mem hkey (plainLine_headerLines hsha) headerLines_nodup hmem (Passes.plain (by decide)) hnul stale

include hs hnames in
/-- An `int` of the header. -/
theorem findKey_header_int (hsha : PlainWord sha) {key : String} {i : Int32} (hkey : key ∈ searchedKeys)
    (hmem : (key, decimalInt i.toInt) ∈ headerLines m n savedAtNs sha) (stale : List Char) :
    (findKey (banditSaveJSON print savedAtNs sha names s ++ '\x00' :: stale) key).map atoi = some i := by
  obtain ⟨behind, hbehind⟩ := findKey_header hs hnames hsha hkey hmem stale
  have hvalue := atoi_decimalInt_append i (noDigitFirst_cons (by decide : ','.isDigit = false) behind)
  rw [hbehind, Option.map_some, (isNumeric_decimalInt _).head isKeyGap_numeral, hvalue]

include hs hnames in
/-- The entries begin behind the key of all of them. -/
theorem findKey_regimes (hsha : PlainWord sha) (stale : List Char) :
    findKey (banditSaveJSON print savedAtNs sha names s ++ '\x00' :: stale) "regimes" =
      some ("[\n".toList ++ entriesText print names s (List.finRange m) ++ '\x00' :: stale) := by
  have hfront : Passes '"' "regimes".toList
      ("\x7b\n".toList ++ (jsonLines 2 (headerLines m n savedAtNs sha) ++ "  ".toList)) := by
    refine Passes.append (Passes.plain (by decide)) (Passes.append ?_ (Passes.plain (by decide)))
    refine Passes.flatMap fun line hline => ?_
    refine (plainLine_headerLines hsha line hline).passes (by decide) (fun heq => ?_) 2
    have hkeys : line.1 ∈ ["format_version", "saved_at_ts_ns", "model_bundle_sha256", "n_regimes", "n_arms"] :=
      List.mem_map_of_mem hline
    rw [heq] at hkeys
    exact absurd hkeys (by decide)
  have hsplit : banditSaveJSON print savedAtNs sha names s =
      ("\x7b\n".toList ++ (jsonLines 2 (headerLines m n savedAtNs sha) ++ "  ".toList)) ++
        quoted '"' "regimes".toList
          (": ".toList ++ ("[\n".toList ++ entriesText print names s (List.finRange m))) := by
    rw [banditSaveJSON_eq]
    simp only [List.append_assoc]
    rfl
  have hnul : '\x00' ∉ banditSaveJSON print savedAtNs sha names s := nul_not_mem_banditSaveJSON hs hnames hsha
  rw [hsplit] at hnul ⊢
  rw [findKey_found (by decide) hfront hnul]
  rfl

include hs hnames in
/-- The header of a saved file passes, and the first entry follows. -/
theorem regimesStart_saved (hn : n ≤ banditMaxArms.toNat) (hm : m < 2 ^ 31) (hsha : PlainWord sha)
    (hexpected : expectedSha = [] ∨ expectedSha = sha) {r : Fin m} {rs : List (Fin m)}
    (hrs : List.finRange m = r :: rs)
    (stale : List Char) :
    regimesStart m expectedSha (Int32.ofInt n) (banditSaveJSON print savedAtNs sha names s ++ '\x00' :: stale) =
      some (("\x7b\n".toList ++ List.replicate 6 ' ') ++ quoted '"' "regime_id".toList (": ".toList ++
        ridText print r (names r) (s r) (entryEnd r ++ entriesText print names s rs)) ++ '\x00' :: stale) := by
  have harms : n ≤ 8 := hn
  have hmself : (Int32.ofInt m).toInt = m := Int32.toInt_ofInt_of_le (by omega) (by omega)
  have hnself : (Int32.ofInt n).toInt = n := Int32.toInt_ofInt_of_le (by omega) (by omega)
  have hversion : (findKey (banditSaveJSON print savedAtNs sha names s ++ '\x00' :: stale)
      "format_version").map atoi = some banditStateFormatVersion := findKey_header_int hs hnames hsha (by decide) List.mem_cons_self stale
  have hnarms : (findKey (banditSaveJSON print savedAtNs sha names s ++ '\x00' :: stale) "n_arms").map atoi =
      some (Int32.ofInt n) := by
    refine findKey_header_int hs hnames hsha (by decide) ?_ stale
    rw [hnself]
    exact List.mem_of_mem_getLast? rfl
  have hregimes : (findKey (banditSaveJSON print savedAtNs sha names s ++ '\x00' :: stale) "n_regimes").map atoi =
      some (Int32.ofInt m) := by
    refine findKey_header_int hs hnames hsha (by decide) ?_ stale
    rw [hmself]
    exact List.mem_cons_of_mem _ (List.mem_cons_of_mem _ (List.mem_cons_of_mem _ List.mem_cons_self))
  have hcount : ¬(findKey (banditSaveJSON print savedAtNs sha names s ++ '\x00' :: stale) "n_regimes").elim true
      (fun p => decide ((atoi p).toInt < m)) = true := by
    obtain ⟨p, hp, hvalue⟩ := Option.map_eq_some_iff.1 hregimes
    rw [hp, Option.elim_some, hvalue, hmself, decide_eq_false (lt_irrefl _)]
    exact Bool.false_ne_true
  have haccepted : ¬(expectedSha ≠ [] ∧
      shaAccepted (banditSaveJSON print savedAtNs sha names s ++ '\x00' :: stale) expectedSha = false) := by
    rintro ⟨hne, hrefused⟩
    obtain rfl := hexpected.resolve_left hne
    obtain ⟨behind, hid⟩ := findKey_header hs hnames hsha (by decide : "model_bundle_sha256" ∈ searchedKeys)
      (List.mem_cons_of_mem _ (List.mem_cons_of_mem _ List.mem_cons_self)) stale
    have hskip : (jsonText expectedSha ++ ',' :: behind).dropWhile isKeyGap = jsonText expectedSha ++ ',' :: behind :=
      List.dropWhile_cons_of_neg (by decide)
    rw [shaAccepted_saved hsha (hid.trans (congrArg some hskip))] at hrefused
    cases hrefused
  have hfirst : entriesText print names s (List.finRange m) = "    \x7b\n".toList ++ (List.replicate 6 ' ' ++
      quoted '"' "regime_id".toList
        (": ".toList ++ ridText print r (names r) (s r) (entryEnd r ++ entriesText print names s rs))) := by
    rw [hrs, entriesText, List.flatMap_cons, List.append_assoc, ← entriesText, entryText_eq]
  rw [regimesStart, if_neg fun h => h hversion, if_neg fun h => h hnarms, if_neg hcount, if_neg haccepted,
    findKey_regimes hs hnames hsha, Option.map_some, hfirst]
  rfl

theorem length_le_length_flatMap {α : Type} {f : α → List Char} (h : ∀ x, f x ≠ []) (l : List α) :
    l.length ≤ (l.flatMap f).length := by
  induction l with
  | nil => exact Nat.le_refl _
  | cons x l ih =>
    have hx := List.length_pos_of_ne_nil (h x)
    rw [List.flatMap_cons, List.length_append, List.length_cons]
    omega

variable (print names s savedAtNs sha) in
/-- Every regime takes up room in the file. -/
theorem regimes_lt_length : m < (banditSaveJSON print savedAtNs sha names s).length := by
  have hentries := length_le_length_flatMap (f := entryText print names s)
    (fun r => List.append_ne_nil_of_left_ne_nil (by decide) _) (List.finRange m)
  have hopen : "\x7b\n".toList.length = 2 := rfl
  rw [List.length_finRange] at hentries
  rw [banditSaveJSON, List.length_append, List.length_append, List.length_append, List.length_append, hopen]
  omega

include hs hnames in
/-- A saved file is read back whole if it is no longer than the loader's buffer. -/
theorem banditLoadJSON_saved (hm : 0 < m) (hn : n ≤ banditMaxArms.toNat) (hsha : PlainWord sha)
    (hexpected : expectedSha = [] ∨ expectedSha = sha) (stale : List Char) (prior : BanditStates fun _ : Fin m => n) :
    banditLoadJSON fmt (some (banditSaveJSON print savedAtNs sha names s)) stale expectedSha
      (Int32.ofInt n) prior = ⟨true, s⟩ ↔
      (banditSaveJSON print savedAtNs sha names s).length < banditBufCap := by
  have hne : banditSaveJSON print savedAtNs sha names s ≠ [] := List.append_ne_nil_of_left_ne_nil (by decide) _
  constructor
  · intro h
    by_contra hlong
    rw [banditLoadJSON, if_neg hm.ne', fileBuffer, if_pos (.inr (Nat.not_lt.1 hlong)), Option.bind_none] at h
    cases h
  · intro hlen
    have hroom : m < 2 ^ 31 := (regimes_lt_length print names s savedAtNs sha).trans (hlen.trans (by decide))
    cases hrs : List.finRange m with
    | nil =>
      have hzero := congrArg List.length hrs
      rw [List.length_finRange] at hzero
      exact absurd hzero hm.ne'
    | cons r rs =>
      have hturns := congrArg List.length hrs
      rw [List.length_finRange, List.length_cons] at hturns
      have hfront : '"' ∉ "\x7b\n".toList ++ List.replicate 6 ' ' ∧
          '\x00' ∉ "\x7b\n".toList ++ List.replicate 6 ' ' := ⟨by decide, by decide⟩
      have hrun := overlayRegimes_entries hs hnames hn hroom hfront r rs stale prior
      have hall : (r :: rs).foldl (fun st r => Function.update st r (s r)) prior = s :=
        foldl_update_eq fun r => .inl (hrs ▸ List.mem_finRange r)
      rw [← hturns, hall] at hrun
      rw [banditLoadJSON, if_neg hm.ne', fileBuffer, if_neg (not_or.2 ⟨hne, Nat.not_le.2 hlen⟩), Option.bind_some,
        regimesStart_saved hs hnames hn hroom hsha hexpected hrs]
      exact hrun

end File

/-- What a saved file gives back, and what a refused file leaves behind. States of as many arms as there are
    cells, with values that print exactly, come back from their own file if and only if it is shorter than the
    loader's buffer; and any file at all is loaded or refused as a whole unless a turn of the loop finds no further
    entry behind one that is laid over already. -/
theorem banditJSON_iff (fmt : DoubleRounding) (print : Double → List Char) {m n : ℕ} (hm : 0 < m)
    (hn : n ≤ banditMaxArms.toNat) {s : Fin m → Learned n} (hs : ∀ r, Printable fmt print (s r))
    {names : Fin m → Option (List Char)} (hnames : ∀ r text, names r = some text → PlainWord text)
    {sha expectedSha : List Char} (hsha : PlainWord sha) (hexpected : expectedSha = [] ∨ expectedSha = sha)
    (savedAtNs : ℤ) :
    (∀ (stale : List Char) (prior : BanditStates fun _ : Fin m => n),
      banditLoadJSON fmt (some (banditSaveJSON print savedAtNs sha names s)) stale expectedSha (Int32.ofInt n) prior =
          ⟨true, s⟩ ↔
        (banditSaveJSON print savedAtNs sha names s).length < banditBufCap) ∧
      ∀ (regimes : ℕ) (arms : Fin regimes → ℕ) (file : Option (List Char)) (stale expectedSha : List Char)
        (expectedArms : Int32), AllOrNothing fmt arms file stale expectedSha expectedArms ↔
          ¬StopsHalfway fmt arms file stale expectedSha expectedArms :=
  ⟨fun stale prior => banditLoadJSON_saved hs hnames hm hn hsha hexpected stale prior,
    fun _ _ _ _ _ _ => allOrNothing_iff_not_stopsHalfway⟩

/-- Whole numbers by their digits. -/
def samplePrint : Double → List Char
  | .finite q => decimalInt q.num
  | .infinite neg => if neg then "-inf".toList else "inf".toList
  | .nan => "nan".toList

theorem exactDecimal_sample (k : ℕ) : ExactDecimal exactRounding samplePrint (.finite k) := by
  have hprint : samplePrint (.finite k) = Nat.toDigits 10 k := by
    show decimalInt ((k : ℚ).num) = Nat.toDigits 10 k
    rw [Rat.num_natCast, decimalInt, if_neg (by omega), Int.natAbs_natCast]
  refine ⟨rfl, isNumeric_decimalInt _, fun rest hrest => ?_⟩
  obtain ⟨htake, hdrop⟩ := takeWhile_isDigit (fun ch hch => isDigit_of_mem_decimalDigits (n := k) hch)
    (noDigitFirst_of_atSeparator hrest)
  have hminus : scanMinus (Nat.toDigits 10 k ++ rest) = (false, Nat.toDigits 10 k ++ rest) := by
    have hdigits : (Nat.toDigits 10 k).head? ≠ some '-' :=
      head?_ne_of_digits rfl fun ch hch => isDigit_of_mem_decimalDigits hch
    refine if_neg ?_
    rwa [List.head?_append_of_ne_nil _ Nat.toDigits_ne_nil]
  have hother : ∀ ch : Char, ch ≠ ',' → ch ≠ ']' → rest.head? ≠ some ch := by
    intro ch hcomma hclose heq
    rcases hrest with h | h
    · exact hcomma (Option.some.inj (heq.symm.trans h))
    · exact hclose (Option.some.inj (heq.symm.trans h))
  have hfraction : scanFraction rest = ([], rest) := if_neg (hother '.' (by decide) (by decide))
  have hexponent : scanExponent rest = (0, rest) :=
    if_neg fun h => h.1.elim (hother 'e' (by decide) (by decide)) (hother 'E' (by decide) (by decide))
  have hvalue : numeralValue false (Nat.toDigits 10 k) [] 0 = k := by
    have hdigits : digitsNat (Nat.toDigits 10 k) = k := Nat.ofDigitChars_ten_toDigits
    simp [numeralValue, hdigits]
  rw [hprint, ParseFast.fromChars, scanNumeral, hminus]
  dsimp only
  rw [htake, hdrop, hfraction]
  dsimp only
  rw [List.append_nil, if_neg Nat.toDigits_ne_nil, hexponent, hvalue]
  rfl

/-- The states of two regimes, the second of which has not learned yet. -/
def sampleLearned (r : Fin 2) : Learned 2 :=
  if r.val = 0 then
    { weights := fun a => .finite (if a.val = 0 then (3 : ℕ) else (1 : ℕ))
      cumReward := fun a => .finite (if a.val = 0 then (40 : ℕ) else (2 : ℕ))
      pulls := fun a => if a.val = 0 then 4 else 1
      totalSteps := 5 }
  else Learned.uniform

def sampleNames (r : Fin 2) : Option (List Char) :=
  if r.val = 0 then some "RANGING".toList else some "TRENDING".toList

theorem printable_sample (r : Fin 2) : Printable exactRounding samplePrint (sampleLearned r) := by
  have hzero : ExactDecimal exactRounding samplePrint (.finite 0) := Nat.cast_zero (R := ℚ) ▸ exactDecimal_sample 0
  have hone : ExactDecimal exactRounding samplePrint (.finite 1) := Nat.cast_one (R := ℚ) ▸ exactDecimal_sample 1
  unfold sampleLearned
  split
  · constructor
    · intro a
      dsimp only
      split
      · exact exactDecimal_sample 3
      · exact exactDecimal_sample 1
    · intro a
      dsimp only
      split
      · exact exactDecimal_sample 40
      · exact exactDecimal_sample 2
  · exact ⟨fun _ => hone, fun _ => hzero⟩

theorem plainWord_of_all {text : List Char}
    (h : text.all (fun ch => decide (ch ≠ '\x00') && decide (ch ≠ '\x7d') && decide (ch ≠ '"')) = true)
    (hkey : ∀ key ∈ searchedKeys, text ≠ key.toList) : PlainWord text := by
  rw [List.all_eq_true] at h
  refine ⟨⟨fun hmem => ?_, fun hmem => ?_⟩, fun hmem => ?_, hkey⟩
  · exact absurd (h _ hmem) (by decide)
  · exact absurd (h _ hmem) (by decide)
  · exact absurd (h _ hmem) (by decide)

theorem plainWord_sample (r : Fin 2) (text : List Char) (h : sampleNames r = some text) : PlainWord text := by
  unfold sampleNames at h
  split at h
  · cases h
    exact plainWord_of_all (by decide) (by decide)
  · cases h
    exact plainWord_of_all (by decide) (by decide)

/-- Into states that are initialised only. -/
theorem banditJSON_sample : banditLoadJSON exactRounding
    (some (banditSaveJSON samplePrint 1700000000000000000 "3f2a90c17be04d58".toList sampleNames sampleLearned)) []
      "3f2a90c17be04d58".toList 2 (fun _ => Learned.uniform) = ⟨true, sampleLearned⟩ :=
  ((banditJSON_iff exactRounding samplePrint (by decide) (by decide) printable_sample plainWord_sample
    (plainWord_of_all (by decide) (by decide)) (.inr rfl) 1700000000000000000).1 [] fun _ => Learned.uniform).2
      (by decide +kernel)

end FoxTrader
