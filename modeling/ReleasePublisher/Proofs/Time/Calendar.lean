import ReleasePublisher.Time.Timestamp

/-!
Days of the calendar and points in time. The day after a date is one day later, across the ends of
months and years, so that a clock that is shifted shows another point in time by just the minutes of
the shift.
-/
namespace ReleasePublisher

namespace Date

theorem daysBeforeMonth_succ {month : Nat} (h : 1 ≤ month) (year : Int) :
    daysBeforeMonth year (month + 1) = daysBeforeMonth year month + daysInMonth year month := by
  obtain ⟨before, rfl⟩ : ∃ before, month = before + 1 := ⟨month - 1, by omega⟩
  simp only [daysBeforeMonth, Nat.add_sub_cancel, List.range_succ, List.foldl_append,
    List.foldl_cons, List.foldl_nil]

/-- A leap year has a day more. -/
theorem daysBeforeYear_succ (year : Int) :
    daysBeforeYear (year + 1) = daysBeforeYear year + if isLeapYear year then 366 else 365 := by
  simp only [daysBeforeYear, isLeapYear, Int.fdiv_eq_ediv_of_nonneg _ (by decide : (0 : Int) ≤ 4),
    Int.fdiv_eq_ediv_of_nonneg _ (by decide : (0 : Int) ≤ 100),
    Int.fdiv_eq_ediv_of_nonneg _ (by decide : (0 : Int) ≤ 400), Bool.and_eq_true, Bool.or_eq_true,
    beq_iff_eq, bne_iff_ne]
  split <;> omega

theorem daysBeforeMonth_twelve (year : Int) :
    daysBeforeMonth year 12 = if isLeapYear year then 335 else 334 := by
  simp only [daysBeforeMonth, List.range, List.range.loop, List.foldl_cons, List.foldl_nil,
    daysInMonth]
  split <;> rfl

/-- A day later, the number of the day is one more. -/
theorem dayNumber_next (d : Date) : d.next.dayNumber = d.dayNumber + 1 := by
  obtain ⟨year, month, day, hmonth, hmonth', hday, hday'⟩ := d
  simp only [next]
  split
  · simp only [dayNumber]
    omega
  split
  · have hsucc := daysBeforeMonth_succ hmonth year
    simp only [dayNumber, hsucc]
    omega
  · -- after the last day of a year, a whole year lies behind the new one
    have hlast : month = 12 := by omega
    subst hlast
    have hfirst : daysBeforeMonth (year + 1) 1 = 0 := rfl
    have hdays : daysInMonth year 12 = 31 := rfl
    simp only [dayNumber, hfirst, daysBeforeYear_succ, daysBeforeMonth_twelve]
    split <;> omega

/-- The day before the first of a month is the last of the month before it. -/
theorem next_previous (d : Date) : d.previous.next = d := by
  obtain ⟨year, month, day, hmonth, hmonth', hday, hday'⟩ := d
  simp only [previous]
  split
  · have hlt : day - 1 < daysInMonth year month := by omega
    simp only [next, dif_pos hlt, mk.injEq, true_and]
    omega
  split
  · have hlt : month - 1 < 12 := by omega
    simp only [next, Nat.lt_irrefl, dif_neg, dif_pos hlt, mk.injEq, true_and, not_false_iff]
    omega
  · have hdays : daysInMonth (year - 1) 12 = 31 := rfl
    simp only [next, hdays, Nat.lt_irrefl, dif_neg, mk.injEq, not_false_iff]
    omega

theorem dayNumber_previous (d : Date) : d.previous.dayNumber = d.dayNumber - 1 := by
  have hnext := dayNumber_next d.previous
  rw [next_previous] at hnext
  omega

end Date

namespace Timestamp

/-- Less than a day further west, a clock shows the same point in time by that much less. -/
theorem sinceEpoch_shift (t : Timestamp) {minutes : Int} (h : minutes.natAbs < 1440) :
    (t.shift minutes).sinceEpoch = t.sinceEpoch - minutes * 60 * 1000000000 := by
  obtain ⟨date, hour, minute, second, nanosecond, hhour, hminute, -, -⟩ := t
  simp only [shift, sinceEpoch]
  split
  · rw [Date.dayNumber_previous]
    omega
  split
  · rw [Date.dayNumber_next]
    omega
  · omega

end Timestamp

end ReleasePublisher
