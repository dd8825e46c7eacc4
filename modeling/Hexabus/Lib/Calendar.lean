import Mathlib.Tactic

/-!
# The Gregorian calendar

Dates as year, month and day, which of them exist, the successor of a date and
the day of the week (Sunday is 0) by the usual congruence.
-/

namespace Hexabus.Lib.Calendar

def isLeapYear (y : Nat) : Bool :=
  y % 4 == 0 && (y % 100 != 0 || y % 400 == 0)

/-- The length of month `m`; months other than 1 to 12 do not occur. -/
def daysInMonth (y m : Nat) : Nat :=
  if m = 2 then (if isLeapYear y then 29 else 28)
  else if m = 4 ∨ m = 6 ∨ m = 9 ∨ m = 11 then 30
  else 31

theorem daysInMonth_bounds (y m : Nat) : 28 ≤ daysInMonth y m ∧ daysInMonth y m ≤ 31 := by
  unfold daysInMonth
  split
  · split <;> omega
  · split <;> omega

structure Date where
  year : Nat
  month : Nat
  day : Nat
  deriving DecidableEq, Repr

namespace Date

/-- The date exists in the calendar. -/
def Valid (d : Date) : Prop :=
  1 ≤ d.month ∧ d.month ≤ 12 ∧ 1 ≤ d.day ∧ d.day ≤ daysInMonth d.year d.month

instance (d : Date) : Decidable d.Valid :=
  inferInstanceAs (Decidable (_ ∧ _ ∧ _ ∧ _))

/-- The following day. -/
def next (d : Date) : Date :=
  if d.day < daysInMonth d.year d.month then { d with day := d.day + 1 }
  else if d.month < 12 then { d with month := d.month + 1, day := 1 }
  else { year := d.year + 1, month := 1, day := 1 }

theorem next_valid {d : Date} (h : d.Valid) : d.next.Valid := by
  obtain ⟨hm1, hm2, hd1, hd2⟩ := h
  unfold next
  split
  · rename_i hlt
    exact ⟨hm1, hm2, by show 1 ≤ d.day + 1; omega, hlt⟩
  · split
    · rename_i hlt
      have hlen := daysInMonth_bounds d.year (d.month + 1)
      exact ⟨by show 1 ≤ d.month + 1; omega, hlt, Nat.le_refl 1,
        by show 1 ≤ daysInMonth d.year (d.month + 1); omega⟩
    · have hlen := daysInMonth_bounds (d.year + 1) 1
      exact ⟨Nat.le_refl 1, by show 1 ≤ 12; omega, Nat.le_refl 1,
        by show 1 ≤ daysInMonth (d.year + 1) 1; omega⟩

theorem le_year_next (d : Date) : d.year ≤ d.next.year := by
  unfold next
  split
  · exact Nat.le_refl _
  · split
    · exact Nat.le_refl _
    · exact Nat.le_succ _

/-- The day of the week: March is month 1 of the shifted year, so that the leap
day is the last day of its year. -/
def dayOfWeek (d : Date) : Nat :=
  let a := (14 - d.month) / 12
  let y := d.year - a
  let m := d.month + 12 * a - 2
  (d.day + y + y / 4 - y / 100 + y / 400 + 31 * m / 12) % 7

theorem dayOfWeek_lt (d : Date) : d.dayOfWeek < 7 := Nat.mod_lt _ (by decide)

theorem iterate_valid {d : Date} (h : d.Valid) (n : Nat) : (next^[n] d).Valid := by
  induction n with
  | zero => exact h
  | succ n ih =>
    rw [Function.iterate_succ_apply']
    exact next_valid ih

/-- Days within a month. -/
theorem iterate_within {d : Date} {n : Nat} (h : d.day + n ≤ daysInMonth d.year d.month) :
    next^[n] d = { d with day := d.day + n } := by
  induction n with
  | zero => rfl
  | succ n ih =>
    have hlt : d.day + n < daysInMonth d.year d.month := by omega
    rw [Function.iterate_succ_apply', ih (by omega), next, if_pos hlt]
    rfl

end Date

/-! ## Date and time -/

/-- A date with its day of the week, and the seconds since midnight. -/
structure Moment where
  date : Date
  weekday : Nat
  time : Nat

namespace Moment

def Valid (m : Moment) : Prop := m.date.Valid ∧ m.weekday < 7 ∧ m.time < 86400

/-- The midnights in the next `n` seconds. -/
def midnights (m : Moment) (n : Nat) : Nat := (m.time + n) / 86400

/-- `n` seconds later. -/
def after (m : Moment) (n : Nat) : Moment where
  date := Date.next^[m.midnights n] m.date
  weekday := (m.weekday + m.midnights n) % 7
  time := (m.time + n) % 86400

theorem after_zero {m : Moment} (h : m.Valid) : m.after 0 = m := by
  obtain ⟨-, hweekday, htime⟩ := h
  unfold after midnights
  rw [Nat.add_zero, Nat.div_eq_of_lt htime, Nat.mod_eq_of_lt htime, Nat.add_zero,
    Nat.mod_eq_of_lt hweekday]
  rfl

/-- A second that is not the last one of its day, -/
theorem after_succ_within (m : Moment) (n : Nat) (h : (m.after n).time + 1 < 86400) :
    m.after (n + 1) = { m.after n with time := (m.after n).time + 1 } := by
  have hlt : (m.time + n) % 86400 + 1 < 86400 := h
  unfold after midnights
  have hdiv : (m.time + (n + 1)) / 86400 = (m.time + n) / 86400 := by omega
  have hmod : (m.time + (n + 1)) % 86400 = (m.time + n) % 86400 + 1 := by omega
  rw [hdiv, hmod]

/-- and the last one. -/
theorem after_succ_midnight (m : Moment) (n : Nat) (h : (m.after n).time + 1 = 86400) :
    m.after (n + 1) = ⟨(m.after n).date.next, ((m.after n).weekday + 1) % 7, 0⟩ := by
  have hlast : (m.time + n) % 86400 + 1 = 86400 := h
  unfold after midnights
  have hdiv : (m.time + (n + 1)) / 86400 = (m.time + n) / 86400 + 1 := by omega
  have hmod : (m.time + (n + 1)) % 86400 = 0 := by omega
  have hweekday : (m.weekday + ((m.time + n) / 86400 + 1)) % 7 =
      ((m.weekday + (m.time + n) / 86400) % 7 + 1) % 7 := by omega
  rw [hdiv, hmod, Function.iterate_succ_apply', hweekday]

end Moment

end Hexabus.Lib.Calendar
