import Ebabf.Py.Text
import Mathlib.Data.Int.Interval

/-!
# Datetimes

A `datetime` is its calendar fields and, when it is aware, the offset from UTC in microseconds.
-/

namespace Py

def isLeapYear (year : ℕ) : Bool := year % 4 == 0 && (year % 100 != 0 || year % 400 == 0)

def daysInMonth (year month : ℕ) : ℕ :=
  if month = 2 then (if isLeapYear year then 29 else 28)
  else if month = 4 ∨ month = 6 ∨ month = 9 ∨ month = 11 then 30
  else 31

/-- Microseconds in a day; an offset from UTC is shorter than that. -/
def dayMicroseconds : ℕ := 86400000000

structure Datetime where
  year : ℕ
  month : ℕ
  day : ℕ
  hour : ℕ
  minute : ℕ
  second : ℕ
  microsecond : ℕ
  /-- `value.tzinfo.utcoffset(value)`, absent for a naive value. -/
  utcoffset : Option ℤ
  date_valid : 1 ≤ year ∧ year ≤ 9999 ∧ 1 ≤ month ∧ month ≤ 12 ∧ 1 ≤ day ∧
    day ≤ daysInMonth year month
  time_valid : hour < 24 ∧ minute < 60 ∧ second < 60 ∧ microsecond < 1000000
  offset_valid : ∀ o ∈ utcoffset, o.natAbs < dayMicroseconds
deriving DecidableEq

namespace Datetime

theorem firstOf1970_valid : 1 ≤ 1970 ∧ 1970 ≤ 9999 ∧ 1 ≤ 1 ∧ 1 ≤ 12 ∧ 1 ≤ 1 ∧
    1 ≤ daysInMonth 1970 1 := by decide

theorem midnight_valid : 0 < 24 ∧ 0 < 60 ∧ 0 < 60 ∧ 0 < 1000000 := by decide

theorem utc_valid : ∀ o ∈ some (0 : ℤ), o.natAbs < dayMicroseconds := by decide

/-- `datetime(1970, 1, 1, tzinfo=timezone.utc)` -/
def epoch : Datetime :=
  { year := 1970
    month := 1
    day := 1
    hour := 0
    minute := 0
    second := 0
    microsecond := 0
    utcoffset := some 0
    date_valid := firstOf1970_valid
    time_valid := midnight_valid
    offset_valid := utc_valid }

def colon : Str := str ":"

/-- `.ffffff`, left out when it is zero. -/
def fractionText (microsecond : ℕ) : Str :=
  if microsecond = 0 then [] else str "." ++ zeroPadded 6 microsecond

/-- `+HH:MM`, with seconds and microseconds only when they are not zero. -/
def offsetText (offset : ℤ) : Str :=
  let total := offset.natAbs
  let second := total / 1000000 % 60
  let microsecond := total % 1000000
  (if offset < 0 then str "-" else str "+") ++ zeroPadded 2 (total / 3600000000) ++ colon ++
    zeroPadded 2 (total / 60000000 % 60) ++
    (if second = 0 ∧ microsecond = 0 then []
     else colon ++ zeroPadded 2 second ++ fractionText microsecond)

/-- `value.isoformat()`. -/
def isoformat (d : Datetime) : Str :=
  zeroPadded 4 d.year ++ str "-" ++ zeroPadded 2 d.month ++ str "-" ++ zeroPadded 2 d.day ++
    str "T" ++ zeroPadded 2 d.hour ++ colon ++ zeroPadded 2 d.minute ++ colon ++
    zeroPadded 2 d.second ++ fractionText d.microsecond ++
    (match d.utcoffset with
     | none => []
     | some offset => offsetText offset)

end Datetime
end Py
