import FoxTrader.Lib.Decimal
import Mathlib.Data.List.Basic
import Mathlib.Data.List.TakeWhile
import Mathlib.Algebra.Order.Field.Rat
import Mathlib.Algebra.Field.Rat
import Mathlib.Algebra.GroupWithZero.Basic

/-! # Numerals

    A numeral is an optional minus, digits with at most one dot among them and at least one digit, and an
    optional exponent. `scanNumeral` reads the longest numeral a text begins with: from a numeral it takes
    the whole (`scanNumeral_text`), and when it takes the whole text, the text is a numeral
    (`exists_numeral`). -/

namespace Lib

/-- The power of ten of a sign and digits. -/
def exponentValue (sign digits : List Char) : ℤ := if sign = ['-'] then -(digitsNat digits : ℤ) else digitsNat digits

/-- The parts of an exponent. -/
structure Exponent where
  mark : Char
  sign : List Char
  digits : List Char
  mark_mem : mark = 'e' ∨ mark = 'E'
  sign_mem : sign = [] ∨ sign = ['-'] ∨ sign = ['+']
  digits_digits : ∀ c ∈ digits, c.isDigit = true
  some_digit : digits ≠ []

namespace Exponent

def text (e : Exponent) : List Char := e.mark :: (e.sign ++ e.digits)

def value (e : Exponent) : ℤ := exponentValue e.sign e.digits

end Exponent

/-- The number of a sign, digits before and behind the point, and a power of ten. -/
def numeralValue (neg : Bool) (int frac : List Char) (e : ℤ) : ℚ :=
  (if neg then -1 else 1) * (digitsNat (int ++ frac) / 10 ^ frac.length) * 10 ^ e

/-- The parts of a numeral. -/
structure Numeral where
  neg : Bool
  int : List Char
  dot : Bool
  frac : List Char
  exponent : Option Exponent
  int_digits : ∀ c ∈ int, c.isDigit = true
  frac_digits : ∀ c ∈ frac, c.isDigit = true
  frac_dot : dot = false → frac = []
  some_digit : int ++ frac ≠ []

namespace Numeral

def exponentText (n : Numeral) : List Char := n.exponent.elim [] (·.text)

/-- What stands behind the integer digits. -/
def behind (n : Numeral) : List Char := (if n.dot then '.' :: n.frac else []) ++ n.exponentText

def text (n : Numeral) : List Char := (if n.neg then ['-'] else []) ++ (n.int ++ n.behind)

def value (n : Numeral) : ℚ := numeralValue n.neg n.int n.frac (n.exponent.elim 0 (·.value))

end Numeral

/-! ### Scanning -/

/-- A minus and what is behind it. -/
def scanMinus (cs : List Char) : Bool × List Char := if cs.head? = some '-' then (true, cs.tail) else (false, cs)

/-- The digits behind a point, if there is one, and what is behind them. -/
def scanFraction (cs : List Char) : List Char × List Char :=
  if cs.head? = some '.' then (cs.tail.takeWhile Char.isDigit, cs.tail.dropWhile Char.isDigit) else ([], cs)

/-- The sign of an exponent and what is behind it. -/
def scanSign (cs : List Char) : List Char × List Char :=
  if cs.head? = some '-' then (['-'], cs.tail) else if cs.head? = some '+' then (['+'], cs.tail) else ([], cs)

/-- The exponent a text begins with, and the rest; without a digit it is none. -/
def scanExponent (cs : List Char) : ℤ × List Char :=
  let digits := (scanSign cs.tail).2.takeWhile Char.isDigit
  if (cs.head? = some 'e' ∨ cs.head? = some 'E') ∧ digits ≠ [] then
    (exponentValue (scanSign cs.tail).1 digits, (scanSign cs.tail).2.dropWhile Char.isDigit)
  else (0, cs)

/-- The value of the longest numeral a text begins with, and the rest. -/
def scanNumeral (cs : List Char) : Option (ℚ × List Char) :=
  let body := (scanMinus cs).2
  let int := body.takeWhile Char.isDigit
  let frac := scanFraction (body.dropWhile Char.isDigit)
  let exponent := scanExponent frac.2
  if int ++ frac.1 = [] then none else some (numeralValue (scanMinus cs).1 int frac.1 exponent.1, exponent.2)

variable {front rest cs : List Char}

/-- Digits are taken up to what is none. -/
theorem takeWhile_isDigit (h : ∀ c ∈ front, c.isDigit = true) (hrest : ∀ c, rest.head? = some c → c.isDigit = false) :
    (front ++ rest).takeWhile Char.isDigit = front ∧ (front ++ rest).dropWhile Char.isDigit = rest := by
  rw [List.takeWhile_append_of_pos h, List.dropWhile_append_of_pos h]
  cases rest with
  | nil => exact ⟨List.append_nil _, rfl⟩
  | cons c rest =>
    have hc : ¬c.isDigit = true := by rw [hrest c rfl]; exact Bool.false_ne_true
    rw [List.takeWhile_cons_of_neg hc, List.dropWhile_cons_of_neg hc, List.append_nil]
    exact ⟨rfl, rfl⟩

theorem takeWhile_isDigit_self (h : ∀ c ∈ front, c.isDigit = true) :
    front.takeWhile Char.isDigit = front ∧ front.dropWhile Char.isDigit = [] := by
  have hsplit := @takeWhile_isDigit _ [] h fun c hc => by cases hc
  rwa [List.append_nil] at hsplit

theorem head?_ne_of_digits {c : Char} (hc : c.isDigit = false) (h : ∀ d ∈ front, d.isDigit = true) :
    front.head? ≠ some c := by
  intro hhead
  have hdigit := h c (List.mem_of_head? hhead)
  rw [hc] at hdigit
  cases hdigit

/-- Digits and what is behind them, as the scan splits a text. -/
theorem digits_split (cs : List Char) : cs.takeWhile Char.isDigit ++ cs.dropWhile Char.isDigit = cs ∧
    ∀ c ∈ cs.takeWhile Char.isDigit, c.isDigit = true :=
  ⟨List.takeWhile_append_dropWhile, fun _ hc => List.mem_takeWhile_imp hc⟩

/-- All of a text is digits when nothing is behind them. -/
theorem digits_of_dropWhile (h : cs.dropWhile Char.isDigit = []) :
    cs.takeWhile Char.isDigit = cs ∧ ∀ c ∈ cs, c.isDigit = true := by
  obtain ⟨hsplit, hall⟩ := digits_split cs
  rw [h, List.append_nil] at hsplit
  exact ⟨hsplit, hsplit ▸ hall⟩

/-! ### The parts -/

theorem scanMinus_spec (cs : List Char) : (if (scanMinus cs).1 then ['-'] else []) ++ (scanMinus cs).2 = cs := by
  unfold scanMinus
  split
  · rename_i h
    exact List.cons_head?_tail h
  · rfl

theorem scanMinus_append (neg : Bool) (h : cs.head? ≠ some '-') :
    scanMinus ((if neg then ['-'] else []) ++ cs) = (neg, cs) := by
  cases neg with
  | true => rfl
  | false => exact if_neg h

theorem scanSign_spec (cs : List Char) : (scanSign cs).1 ++ (scanSign cs).2 = cs ∧
    ((scanSign cs).1 = [] ∨ (scanSign cs).1 = ['-'] ∨ (scanSign cs).1 = ['+']) := by
  unfold scanSign
  split
  · rename_i h
    exact ⟨List.cons_head?_tail h, Or.inr (Or.inl rfl)⟩
  · split
    · rename_i h
      exact ⟨List.cons_head?_tail h, Or.inr (Or.inr rfl)⟩
    · exact ⟨rfl, Or.inl rfl⟩

theorem scanSign_append {sign : List Char} (hsign : sign = [] ∨ sign = ['-'] ∨ sign = ['+'])
    (h : ∀ c ∈ cs, c.isDigit = true) : scanSign (sign ++ cs) = (sign, cs) := by
  rcases hsign with rfl | rfl | rfl
  · rw [List.nil_append, scanSign, if_neg (head?_ne_of_digits rfl h), if_neg (head?_ne_of_digits rfl h)]
  · rfl
  · rfl

theorem scanFraction_spec (cs : List Char) : ∃ dot : Bool,
    (if dot then '.' :: (scanFraction cs).1 else []) ++ (scanFraction cs).2 = cs ∧
      (∀ c ∈ (scanFraction cs).1, c.isDigit = true) ∧ (dot = false → (scanFraction cs).1 = []) := by
  unfold scanFraction
  split
  · rename_i h
    obtain ⟨hsplit, hall⟩ := digits_split cs.tail
    refine ⟨true, ?_, hall, fun hf => by cases hf⟩
    rw [if_pos rfl, List.cons_append, hsplit]
    exact List.cons_head?_tail h
  · exact ⟨false, rfl, fun c hc => absurd hc List.not_mem_nil, fun _ => rfl⟩

/-- An exponent is taken whole. -/
theorem scanExponent_text (e : Exponent) : scanExponent e.text = (e.value, []) := by
  obtain ⟨htake, hdrop⟩ := takeWhile_isDigit_self e.digits_digits
  have hmark : e.text.head? = some 'e' ∨ e.text.head? = some 'E' :=
    e.mark_mem.imp (congrArg some) (congrArg some)
  have hsign : scanSign e.text.tail = (e.sign, e.digits) := scanSign_append e.sign_mem e.digits_digits
  unfold scanExponent
  rw [hsign]
  dsimp only
  rw [htake, hdrop, if_pos ⟨hmark, e.some_digit⟩, Exponent.value]

/-- A text that is taken whole for an exponent is one. -/
theorem exists_exponent (hne : cs ≠ []) (h : (scanExponent cs).2 = []) :
    ∃ e : Exponent, e.text = cs ∧ e.value = (scanExponent cs).1 := by
  unfold scanExponent at h ⊢
  by_cases htaken : (cs.head? = some 'e' ∨ cs.head? = some 'E') ∧ (scanSign cs.tail).2.takeWhile Char.isDigit ≠ []
  · dsimp only at h ⊢
    rw [if_pos htaken] at h ⊢
    obtain ⟨hall, hdigits⟩ := digits_of_dropWhile h
    obtain ⟨hsplit, hsign⟩ := scanSign_spec cs.tail
    obtain ⟨mark, tail, rfl⟩ := List.exists_cons_of_ne_nil hne
    have hmark : mark = 'e' ∨ mark = 'E' := htaken.1.imp Option.some.inj Option.some.inj
    refine ⟨⟨mark, _, _, hmark, hsign, hdigits, hall ▸ htaken.2⟩, congrArg (mark :: ·) hsplit, ?_⟩
    exact congrArg (exponentValue _) hall.symm
  · dsimp only at h
    rw [if_neg htaken] at h
    exact absurd h hne

namespace Numeral

variable (n : Numeral)

/-- The exponent's text begins with its mark. -/
theorem exponentText_head {c : Char} (h : n.exponentText.head? = some c) : c = 'e' ∨ c = 'E' := by
  unfold exponentText at h
  cases he : n.exponent with
  | none =>
    rw [he] at h
    cases h
  | some e =>
    rw [he] at h
    rw [← Option.some.inj h]
    exact e.mark_mem

theorem behind_head {c : Char} (h : n.behind.head? = some c) : c = '.' ∨ c = 'e' ∨ c = 'E' := by
  unfold behind at h
  split at h
  · exact Or.inl (Option.some.inj h).symm
  · exact Or.inr (n.exponentText_head h)

theorem not_digit_of_mark {c : Char} (h : c = '.' ∨ c = 'e' ∨ c = 'E') : c.isDigit = false := by
  rcases h with rfl | rfl | rfl <;> rfl

/-- An unsigned numeral does not begin with a minus. -/
theorem body_head_ne : (n.int ++ n.behind).head? ≠ some '-' := by
  intro h
  cases hint : n.int with
  | nil =>
    rw [hint, List.nil_append] at h
    rcases n.behind_head h with hc | hc | hc <;> exact absurd hc (by decide)
  | cons d int =>
    rw [hint] at h
    have hd := n.int_digits d (by rw [hint]; exact List.mem_cons_self)
    rw [Option.some.inj h] at hd
    exact absurd hd (by decide)

theorem scanExponent_exponentText : scanExponent n.exponentText = (n.exponent.elim 0 (·.value), []) := by
  unfold exponentText
  cases n.exponent with
  | none => decide
  | some e => exact scanExponent_text e

theorem scanFraction_behind : scanFraction n.behind = (n.frac, n.exponentText) := by
  unfold behind scanFraction
  cases hdot : n.dot with
  | true =>
    obtain ⟨hfrac, hrest⟩ := @takeWhile_isDigit _ n.exponentText n.frac_digits fun c hc =>
      not_digit_of_mark (Or.inr (n.exponentText_head hc))
    rw [if_pos rfl, List.cons_append, List.head?_cons, if_pos rfl, List.tail_cons, hfrac, hrest]
  | false =>
    have hnodot : n.exponentText.head? ≠ some '.' := by
      intro hc
      rcases n.exponentText_head hc with hc | hc <;> exact absurd hc (by decide)
    rw [if_neg Bool.false_ne_true, List.nil_append, if_neg hnodot, n.frac_dot hdot]

/-- A numeral is taken whole. -/
theorem scanNumeral_text : scanNumeral n.text = some (n.value, []) := by
  obtain ⟨htake, hdrop⟩ := @takeWhile_isDigit _ n.behind n.int_digits fun c hc =>
    not_digit_of_mark (n.behind_head hc)
  unfold scanNumeral
  rw [text, scanMinus_append _ n.body_head_ne]
  dsimp only
  rw [htake, hdrop, n.scanFraction_behind]
  dsimp only
  rw [if_neg n.some_digit, n.scanExponent_exponentText, value]

theorem text_ne_nil : n.text ≠ [] := by
  intro h
  have hscan := n.scanNumeral_text
  rw [h] at hscan
  cases hscan

end Numeral

/-- A text that is taken whole is a numeral. -/
theorem exists_numeral {q : ℚ} (h : scanNumeral cs = some (q, [])) : ∃ n : Numeral, n.text = cs ∧ n.value = q := by
  unfold scanNumeral at h
  dsimp only at h
  split at h
  · cases h
  · rename_i hdigit
    obtain ⟨hvalue, hrest⟩ := Prod.mk.inj (Option.some.inj h)
    have hminus := scanMinus_spec cs
    obtain ⟨hint, hints⟩ := digits_split (scanMinus cs).2
    obtain ⟨dot, hfrac, hfracs, hdot⟩ := scanFraction_spec ((scanMinus cs).2.dropWhile Char.isDigit)
    by_cases hnil : (scanFraction ((scanMinus cs).2.dropWhile Char.isDigit)).2 = []
    · refine ⟨⟨(scanMinus cs).1, _, dot, _, none, hints, hfracs, hdot, hdigit⟩, ?_, ?_⟩
      · rw [hnil] at hfrac
        rw [Numeral.text, Numeral.behind, Numeral.exponentText, Option.elim_none, hfrac, hint, hminus]
      · rw [← hvalue, hnil]
        rfl
    · obtain ⟨e, htext, hexp⟩ := exists_exponent hnil hrest
      refine ⟨⟨(scanMinus cs).1, _, dot, _, some e, hints, hfracs, hdot, hdigit⟩, ?_, ?_⟩
      · rw [Numeral.text, Numeral.behind, Numeral.exponentText, Option.elim_some, htext, hfrac, hint, hminus]
      · rw [← hvalue, ← hexp]
        rfl

end Lib
