import Mathlib.Order.Monotone.Basic

/-! # Dates of days

    The days after 1970-01-01 with their dates, one day after the other by the rule of the Gregorian
    calendar, and a date as the number `YYYYMMDD`. The numbers grow with the days
    (`dateInt_strictMono`). -/

namespace Lib

structure Date where
  year : ℕ
  month : ℕ
  day : ℕ
  deriving DecidableEq

namespace Date

def isLeap (year : ℕ) : Bool := year % 4 = 0 && (year % 100 ≠ 0 || year % 400 = 0)

def daysIn (year month : ℕ) : ℕ :=
  if month = 2 then if isLeap year then 29 else 28
  else if month = 4 ∨ month = 6 ∨ month = 9 ∨ month = 11 then 30
  else 31

def next (d : Date) : Date :=
  if d.day < daysIn d.year d.month then { d with day := d.day + 1 }
  else if d.month < 12 then { d with month := d.month + 1, day := 1 }
  else { year := d.year + 1, month := 1, day := 1 }

/-- `YYYYMMDD`. -/
def toInt (d : Date) : ℕ := d.year * 10000 + d.month * 100 + d.day

/-- A date of the calendar. -/
structure Valid (d : Date) : Prop where
  month : 1 ≤ d.month ∧ d.month ≤ 12
  day : 1 ≤ d.day ∧ d.day ≤ 31

theorem daysIn_le (year month : ℕ) : daysIn year month ≤ 31 := by
  unfold daysIn
  split_ifs <;> omega

theorem Valid.next {d : Date} (h : d.Valid) : d.next.Valid := by
  obtain ⟨hmonth, hday⟩ := h
  have hle := daysIn_le d.year d.month
  have hfirst : 1 ≤ 1 ∧ 1 ≤ 31 := by decide
  unfold Date.next
  split_ifs
  · exact ⟨hmonth, Nat.le_add_left .., by simp only []; omega⟩
  · exact ⟨⟨Nat.le_add_left .., by simp only []; omega⟩, hfirst⟩
  · exact ⟨⟨Nat.le_refl 1, by simp only []; omega⟩, hfirst⟩

theorem Valid.toInt_lt_next {d : Date} (h : d.Valid) : d.toInt < d.next.toInt := by
  obtain ⟨hmonth, hday⟩ := h
  unfold Date.next toInt
  split_ifs <;> simp only [] <;> omega

/-- The date `n` days after 1970-01-01. -/
def afterEpoch : ℕ → Date
  | 0 => { year := 1970, month := 1, day := 1 }
  | n + 1 => (afterEpoch n).next

theorem afterEpoch_valid : ∀ n, (afterEpoch n).Valid
  | 0 => ⟨by decide, by decide⟩
  | n + 1 => (afterEpoch_valid n).next

theorem toInt_strictMono : StrictMono fun n => (afterEpoch n).toInt :=
  strictMono_nat_of_lt_succ fun n => (afterEpoch_valid n).toInt_lt_next

end Date

end Lib
