import Mathlib.Data.List.Infix
import Mathlib.Tactic.Ring

/-! # C strings

    A C string is the list of its characters, without the terminator, and a pointer into it the
    number of characters before it. `strstr` and `strchr` give the first occurrence, `printed` is
    what `snprintf` leaves in a buffer, and `CharBuf` a text that its array holds whole. -/

namespace Lib

/-- `strstr`: where `pat` occurs first. -/
def strstr (pat : List Char) : List Char → Option Nat
  | [] => if pat = [] then some 0 else none
  | ch :: text => if pat.isPrefixOf (ch :: text) then some 0 else (strstr pat text).map (· + 1)

/-- `strchr`: where `ch` occurs first. -/
def strchr (text : List Char) (ch : Char) : Option Nat := text.findIdx? (· = ch)

/-- What `snprintf` leaves of a text in an array of `cap` characters. -/
def printed (cap : Nat) (text : List Char) : List Char := text.take (cap - 1)

/-- A text in an array of `cap` characters, the terminator included. -/
structure CharBuf (cap : Nat) where
  text : List Char
  fits : text.length < cap

theorem strstr_prefix (pat text : List Char) : strstr pat (pat ++ text) = some 0 := by
  rcases hpat : pat ++ text with _ | ⟨ch, rest⟩
  · rw [strstr, if_pos (List.append_eq_nil_iff.1 hpat).1]
  · rw [strstr, if_pos (by rw [← hpat, List.isPrefixOf_iff_prefix]; exact List.prefix_append ..)]

/-- A text without `ch`, and `ch` behind it. -/
theorem strchr_append {ch : Char} {text : List Char} (h : ch ∉ text) (rest : List Char) :
    strchr (text ++ ch :: rest) ch = some text.length := by
  have hnone : text.findIdx? (· = ch) = none := by
    rw [List.findIdx?_eq_none_iff]
    rintro other hother
    simpa using fun heq : other = ch => h (heq ▸ hother)
  simp [strchr, List.findIdx?_append, List.findIdx?_cons, hnone]

theorem printed_eq {cap : Nat} {text : List Char} (h : text.length < cap) : printed cap text = text :=
  List.take_of_length_le (by omega)

end Lib
