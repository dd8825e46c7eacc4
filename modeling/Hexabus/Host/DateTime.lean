import Hexabus.Lib.Calendar

/-!
# Date-time and duration values of the host library

The host library keeps date-times as `boost::posix_time::ptime` and time stamps
as `boost::posix_time::time_duration`, both counted in microseconds. What the
code uses of the two classes is modelled here by what their documentation says:
dates run from 1400 to 9999 and a constructor call outside the calendar throws
an exception derived from `std::out_of_range`; a time of day past midnight
carries into the date. The special values (`not_a_date_time` and the infinities)
have no calendar fields and are left out.
-/

namespace Hexabus.Host

open Lib.Calendar

/-- How a call of the library ends without a value. -/
inductive Thrown
  /-- `hexabus::BadPacketException`, derived from `GenericException`. -/
  | badPacket (reason : String)
  /-- An exception derived from `std::out_of_range`, no `GenericException`. -/
  | outOfRange
  /-- A read behind the end of the buffer: undefined in C++. -/
  | undefinedRead
  deriving DecidableEq, Repr

/-- `boost::gregorian::date`. -/
structure GregorianDate where
  date : Date
  valid : date.Valid
  year_ge : 1400 ≤ date.year
  year_le : date.year ≤ 9999
  deriving DecidableEq

namespace GregorianDate

/-- `boost::gregorian::date(year, month, day)`. -/
def make (year month day : Nat) : Except Thrown GregorianDate :=
  if h : (Date.mk year month day).Valid ∧ 1400 ≤ year ∧ year ≤ 9999 then
    .ok ⟨⟨year, month, day⟩, h.1, h.2.1, h.2.2⟩
  else .error .outOfRange

/-- A year below 1400 is no year of the class. -/
theorem make_of_year_lt {year : Nat} (h : year < 1400) (month day : Nat) :
    make year month day = .error .outOfRange := by
  unfold make
  rw [dif_neg (by omega)]

/-- The following day, which may leave the range of the class. -/
def next (d : GregorianDate) : Except Thrown GregorianDate :=
  if h : d.date.next.year ≤ 9999 then
    .ok ⟨d.date.next, Date.next_valid d.valid, Nat.le_trans d.year_ge (Date.le_year_next d.date), h⟩
  else .error .outOfRange

def addDays (d : GregorianDate) : Nat → Except Thrown GregorianDate
  | 0 => .ok d
  | n + 1 => (addDays d n).bind next

def dayOfWeek (d : GregorianDate) : Nat := d.date.dayOfWeek

end GregorianDate

/-- Microseconds in a day. -/
def dayMicros : Nat := 86400000000

/-- `boost::posix_time::ptime`: a date and the microseconds since midnight. -/
structure PTime where
  date : GregorianDate
  micros : Nat
  micros_lt : micros < dayMicros
  deriving DecidableEq

namespace PTime

/-- `boost::posix_time::ptime(date, time_of_day)`; whole days carry into the date. -/
def make (d : GregorianDate) (micros : Nat) : Except Thrown PTime :=
  (d.addDays (micros / dayMicros)).map fun day =>
    ⟨day, micros % dayMicros, Nat.mod_lt _ (by decide)⟩

/-- `time_of_day().hours()`, `.minutes()` and `.seconds()`. -/
def hours (t : PTime) : Nat := t.micros / 3600000000

def minutes (t : PTime) : Nat := t.micros / 60000000 % 60

def seconds (t : PTime) : Nat := t.micros / 1000000 % 60

end PTime

/-- `boost::posix_time::time_duration`: a signed count of microseconds. -/
structure TimeDuration where
  micros : Int
  deriving DecidableEq, Repr

namespace TimeDuration

/-- `boost::posix_time::seconds`. -/
def seconds (n : Int) : TimeDuration := ⟨n * 1000000⟩

/-- `total_seconds()`: fractional seconds are cut off. -/
def totalSeconds (t : TimeDuration) : Int := t.micros.tdiv 1000000

@[simp] theorem totalSeconds_seconds (n : Int) : (seconds n).totalSeconds = n := by
  unfold totalSeconds seconds
  exact Int.mul_tdiv_cancel n (by decide)

end TimeDuration

end Hexabus.Host
