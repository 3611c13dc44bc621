/-!
Calendar dates of the proleptic Gregorian calendar, with year 0 before year 1.
-/
namespace ReleasePublisher

def isLeapYear (year : Int) : Bool := year % 4 == 0 && (year % 100 != 0 || year % 400 == 0)

def daysInMonth (year : Int) (month : Nat) : Nat :=
  match month with
  | 2 => if isLeapYear year then 29 else 28
  | 4 | 6 | 9 | 11 => 30
  | _ => 31

structure Date where
  year : Int
  month : Nat
  day : Nat
  month_pos : 1 ≤ month := by decide
  month_le : month ≤ 12 := by decide
  day_pos : 1 ≤ day := by decide
  day_le : day ≤ daysInMonth year month := by decide
  deriving DecidableEq, Repr

namespace Date

def ofNumbers? (year : Int) (month day : Nat) : Option Date :=
  if h : (1 ≤ month ∧ month ≤ 12) ∧ 1 ≤ day ∧ day ≤ daysInMonth year month then
    some ⟨year, month, day, h.1.1, h.1.2, h.2.1, h.2.2⟩
  else none

def inRange (d : Date) : Bool := -262143 ≤ d.year && d.year ≤ 262142

theorem twentyEight_le_daysInMonth (year : Int) (month : Nat) : 28 ≤ daysInMonth year month := by
  unfold daysInMonth
  split
  · split <;> omega
  all_goals omega

def next (d : Date) : Date :=
  if h : d.day < daysInMonth d.year d.month then
    ⟨d.year, d.month, d.day + 1, d.month_pos, d.month_le, by omega, by omega⟩
  else if h : d.month < 12 then
    ⟨d.year, d.month + 1, 1, by omega, by omega, by omega,
      Nat.le_trans (by omega) (twentyEight_le_daysInMonth _ _)⟩
  else ⟨d.year + 1, 1, 1, by omega, by omega, by omega, by simp [daysInMonth]⟩

def previous (d : Date) : Date :=
  if h : 1 < d.day then
    ⟨d.year, d.month, d.day - 1, d.month_pos, d.month_le, by omega,
      by have := d.day_le; omega⟩
  else if h : 1 < d.month then
    ⟨d.year, d.month - 1, daysInMonth d.year (d.month - 1), by omega,
      by have := d.month_le; omega,
      Nat.le_trans (by omega) (twentyEight_le_daysInMonth _ _), by omega⟩
  else ⟨d.year - 1, 12, 31, by omega, by omega, by omega, by simp [daysInMonth]⟩

def daysBeforeMonth (year : Int) (month : Nat) : Nat :=
  (List.range (month - 1)).foldl (fun days m => days + daysInMonth year (m + 1)) 0

def daysBeforeYear (year : Int) : Int :=
  let before := year - 1
  365 * year + (before.fdiv 4 - before.fdiv 100 + before.fdiv 400) + 1

def dayNumber (d : Date) : Int :=
  daysBeforeYear d.year + daysBeforeMonth d.year d.month + (d.day - 1 : Nat) - 719528

def epoch : Date := { year := 1970, month := 1, day := 1 }

/-- The year of a day number: a guess from the mean length of a year, which is off by at most
one. -/
def yearOfDay (n : Int) : Int :=
  let guess := ((n + 719528) * 400).fdiv 146097
  if n + 719528 < daysBeforeYear guess then guess - 1
  else if daysBeforeYear (guess + 1) ≤ n + 719528 then guess + 1
  else guess

def afterMonths (year : Int) : (left month day : Nat) → Option Date
  | 0, _, _ => none
  | left + 1, month, day =>
    if day < daysInMonth year month then ofNumbers? year month (day + 1)
    else afterMonths year left (month + 1) (day - daysInMonth year month)

def ofDayNumber (n : Int) : Date :=
  let year := yearOfDay n
  (afterMonths year 12 1 (n + 719528 - daysBeforeYear year).toNat).getD epoch

end Date

end ReleasePublisher
