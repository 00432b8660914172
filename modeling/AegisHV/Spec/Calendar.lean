import Mathlib.Tactic

/-! The UTC date and time of an instant (`util.rs`), and the proleptic Gregorian calendar it is
checked against, which counts the days of the years and months from the first of January 1970. -/

namespace AegisHV.Calendar

structure Utc where
  year : ℤ
  month : ℤ
  day : ℤ
  hour : ℤ
  min : ℤ
  sec : ℤ

/-- A division of the source rounds to zero, and the casts at the end are `as i32` and `as u32`. -/
def civilFromDays (z : ℤ) : ℤ × ℤ × ℤ :=
  let z := z + 719468
  let era := (if 0 ≤ z then z else z - 146096).tdiv 146097
  let doe := z - era * 146097
  let yoe := (doe - doe.tdiv 1460 + doe.tdiv 36524 - doe.tdiv 146096).tdiv 365
  let y := yoe + era * 400
  let doy := doe - (365 * yoe + yoe.tdiv 4 - yoe.tdiv 100)
  let mp := (5 * doy + 2).tdiv 153
  let d := doy - (153 * mp + 2).tdiv 5 + 1
  let m := mp + if mp < 10 then 3 else -9
  let y := y + if m ≤ 2 then 1 else 0
  (y.bmod (2 ^ 32), m % 2 ^ 32, d % 2 ^ 32)

def unixToUtc (secs : ℤ) : Utc :=
  let sec := secs % 60
  let secs := secs / 60
  let min := secs % 60
  let secs := secs / 60
  let hour := secs % 24
  let days := secs / 24
  let (year, month, day) := civilFromDays days
  { year, month, day, hour, min, sec }

/-! The calendar. -/

def isLeap (y : ℤ) : Bool := y % 4 = 0 && (y % 100 ≠ 0 || y % 400 = 0)

def yearLength (y : ℤ) : ℤ := if isLeap y then 366 else 365

def monthLength (y m : ℤ) : ℤ :=
  if m = 2 then (if isLeap y then 29 else 28) else if m ∈ [4, 6, 9, 11] then 30 else 31

/-- The days from the first of January 1970 to that of the year. -/
def yearStart (y : ℤ) : ℤ :=
  if 1970 ≤ y then ((List.range (y - 1970).toNat).map fun k : ℕ => yearLength (1970 + k)).sum
  else -((List.range (1970 - y).toNat).map fun k : ℕ => yearLength (1969 - k)).sum

/-- The days of the year before the month. -/
def monthStart (y m : ℤ) : ℤ :=
  ((List.range (m - 1).toNat).map fun k : ℕ => monthLength y (k + 1)).sum

namespace Utc

structure Valid (t : Utc) : Prop where
  month : 1 ≤ t.month ∧ t.month ≤ 12
  day : 1 ≤ t.day ∧ t.day ≤ monthLength t.year t.month
  hour : 0 ≤ t.hour ∧ t.hour < 24
  min : 0 ≤ t.min ∧ t.min < 60
  sec : 0 ≤ t.sec ∧ t.sec < 60

/-- The seconds counted up to the instant. -/
def toUnix (t : Utc) : ℤ :=
  (((yearStart t.year + monthStart t.year t.month + (t.day - 1)) * 24 + t.hour) * 60 + t.min) * 60 +
    t.sec

def fields (t : Utc) : List ℤ := [t.year, t.month, t.day, t.hour, t.min, t.sec]

end Utc

/-- The instant is in the year. -/
def InYear (secs y : ℤ) : Prop := yearStart y * 86400 ≤ secs ∧ secs < yearStart (y + 1) * 86400

end AegisHV.Calendar
