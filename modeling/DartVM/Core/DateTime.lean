import DartVM.Lib.Gregorian
import DartVM.Lib.Int64

/-!
The calendar arithmetic of `DateTime`. An `int` is a number of 64 bits, whose operations wrap
around, and `none` stands for a thrown error. The native offset of the local time zone, in
seconds, is a parameter.
-/

namespace dart.core
open int64

def Duration.microseconds_per_millisecond : Int := 1000
def Duration.microseconds_per_second : Int := 1000000
def Duration.microseconds_per_minute : Int := 60000000
def Duration.microseconds_per_hour : Int := 3600000000
def Duration.microseconds_per_day : Int := 86400000000

open Duration

/-- The arguments of the constructors. -/
structure BrokenDownDate where
  year : Int
  month : Int
  day : Int
  hour : Int
  minute : Int
  second : Int
  millisecond : Int
  microsecond : Int

/-- The result of `_computeUpperPart`. -/
structure Parts extends BrokenDownDate where
  weekday : Int

structure DateTime where
  value : Int
  is_utc : Bool
deriving DecidableEq

namespace DateTime

def max_milliseconds_since_epoch : Int := 8640000000000000
def max_microseconds_since_epoch : Int := 8640000000000000000
def sentinel : Int := -max_microseconds_since_epoch - 1

def days_until_month (leap : Bool) : List Int :=
  if leap then [0, 31, 60, 91, 121, 152, 182, 213, 244, 274, 305, 335]
  else [0, 31, 59, 90, 120, 151, 181, 212, 243, 273, 304, 334]

def floored_division (a b : Int) : Int := (wrap (a - if a < 0 then b - 1 else 0)).tdiv b

/-- The days since 1970 for the start of the given year. -/
def day_from_year (year : Int) : Int :=
  wrap (wrap (wrap (wrap (365 * wrap (year - 1970)) + floored_division (wrap (year - 1969)) 4) -
    floored_division (wrap (year - 1901)) 100) + floored_division (wrap (year - 1601)) 400)

def is_leap_year (y : Int) : Bool := y % 4 == 0 && (y % 16 == 0 || y % 100 != 0)

/-- `int.abs`, which does not change the least number. -/
def abs (x : Int) : Int := if x < 0 then wrap (-x) else x

def days_in_4_years : Int := 4 * 365 + 1
def days_in_100_years : Int := 25 * days_in_4_years - 1
def days_in_400_years : Int := 4 * days_in_100_years + 1
def days_1970_to_2000 : Int := 30 * 365 + 7
def days_offset : Int := 1000 * days_in_400_years + 5 * days_in_400_years - days_1970_to_2000
def years_offset : Int := 400000

/-- The first half of `_computeUpperPart`: the year, whether it is a leap year, and the days
since its beginning. None of these numbers is close to the limits of 64 bits. -/
def upper_year (days_since_1970 : Int) : Int × Bool × Int :=
  let days := days_since_1970 + days_offset
  let year := 400 * days.tdiv days_in_400_years - years_offset
  let days := days.tmod days_in_400_years - 1
  let yd1 := days.tdiv days_in_100_years
  let days := days.tmod days_in_100_years + 1
  let yd2 := days.tdiv days_in_4_years
  let days := days.tmod days_in_4_years - 1
  let yd3 := days.tdiv 365
  let days := days.tmod 365
  let is_leap := (yd1 == 0 || yd2 != 0) && yd3 == 0
  (year + 100 * yd1 + 4 * yd2 + yd3, is_leap, if is_leap then days + 1 else days)

/-- The loop over the months, from the last one on, that stops at one that has begun. -/
def find_month (days_until_month : List Int) (days : Int) : Nat → Option Nat
  | 0 => none
  | month + 1 =>
    if days_until_month.getD month 0 > days then find_month days_until_month days month else some (month + 1)

def compute_upper_part (local_micros : Int) : Option Parts := do
  let days_since_1970 := floored_division local_micros microseconds_per_day
  let (year, is_leap, days) := upper_year days_since_1970
  let month ← find_month (days_until_month is_leap) days 12
  return {
    year
    month
    day := days - (days_until_month is_leap).getD (month - 1) 0 + 1
    hour := floored_division local_micros microseconds_per_hour % 24
    minute := floored_division local_micros microseconds_per_minute % 60
    second := floored_division local_micros microseconds_per_second % 60
    millisecond := floored_division local_micros microseconds_per_millisecond % 1000
    microsecond := local_micros % microseconds_per_millisecond
    weekday := (days_since_1970 + 4 - 1) % 7 + 1 }

/-- The year and the zero-based month after under- and overflow. -/
def carry_months (year month : Int) : Int × Int :=
  let month := wrap (month - 1)
  if month ≥ 12 then (wrap (year + month.tdiv 12), month % 12)
  else if month < 0 then (wrap (year + (wrap (month - month % 12)).tdiv 12), month % 12)
  else (year, month)

def broken_down_date_to_value (to_local_time_offset : Int → Int) (date : BrokenDownDate) (is_utc : Bool) :
    Option Int := do
  let (year, month) := carry_months date.year date.month
  let days := wrap (wrap (wrap (date.day - 1) + (days_until_month (is_leap_year year)).getD month.toNat 0) +
    day_from_year year)
  let microseconds_since_epoch := wrap (wrap (wrap (wrap (wrap (wrap (days * microseconds_per_day) +
    wrap (date.hour * microseconds_per_hour)) + wrap (date.minute * microseconds_per_minute)) +
    wrap (date.second * microseconds_per_second)) + wrap (date.millisecond * microseconds_per_millisecond)) +
    date.microsecond)
  let microseconds_since_epoch ←
    if is_utc then some microseconds_since_epoch
    else if abs microseconds_since_epoch > max_microseconds_since_epoch + microseconds_per_day then none
    else some (wrap (microseconds_since_epoch - to_local_time_offset microseconds_since_epoch))
  if abs microseconds_since_epoch > max_microseconds_since_epoch then none else some microseconds_since_epoch

/-- `DateTime._internal`. -/
def of_date (to_local_time_offset : Int → Int) (date : BrokenDownDate) (is_utc : Bool) : Option DateTime :=
  let value := (broken_down_date_to_value to_local_time_offset date is_utc).getD sentinel
  if value = sentinel then none else some ⟨value, is_utc⟩

/-- `DateTime.utc`. -/
def utc (date : BrokenDownDate) : Option DateTime := of_date id date true

section
variable (time_zone_offset_in_seconds : Int → Int)

def local_date_in_utc_micros (self : DateTime) : Int :=
  if self.is_utc then self.value
  else wrap (self.value + wrap (time_zone_offset_in_seconds self.value * microseconds_per_second))

def validate (milliseconds_since_epoch microsecond : Int) : Bool :=
  !(microsecond < 0 || microsecond > 999) &&
  !(milliseconds_since_epoch < -max_milliseconds_since_epoch ||
    milliseconds_since_epoch > max_milliseconds_since_epoch) &&
  !(milliseconds_since_epoch == max_milliseconds_since_epoch && microsecond != 0)

def with_value (value : Int) (is_utc : Bool) : Option DateTime := do
  let self : DateTime := ⟨value, is_utc⟩
  let parts ← compute_upper_part (self.local_date_in_utc_micros time_zone_offset_in_seconds)
  if validate (floored_division value microseconds_per_millisecond) parts.microsecond then some self else none

def add (self : DateTime) (duration : Int) : Option DateTime :=
  with_value time_zone_offset_in_seconds (wrap (self.value + duration)) self.is_utc

def subtract (self : DateTime) (duration : Int) : Option DateTime :=
  with_value time_zone_offset_in_seconds (wrap (self.value - duration)) self.is_utc

end

/-- The microseconds of the `Duration`. -/
def difference (self other : DateTime) : Int := wrap (self.value - other.value)

end DateTime
end dart.core
