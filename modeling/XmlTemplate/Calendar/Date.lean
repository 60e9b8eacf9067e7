import XmlTemplate.Text.Basic

/-!
# Civil dates

Days are counted from 1970-01-01 in the proleptic Gregorian calendar. A year of the counting
starts in March, so that the leap day is its last day, and 400 years have 146097 days.
-/

namespace XmlTemplate.Calendar

/-- A moment in UTC, to the second. -/
structure Moment where
  /-- Seconds since 1970-01-01 00:00:00. -/
  stamp : Int
  deriving Repr, DecidableEq

namespace Moment

/-- Days since 1970-01-01. -/
def day (m : Moment) : Int := m.stamp / 86400

/-- Seconds since midnight. -/
def secondOfDay (m : Moment) : Nat := (m.stamp % 86400).toNat

def hour (m : Moment) : Nat := m.secondOfDay / 3600
def minute (m : Moment) : Nat := m.secondOfDay / 60 % 60
def second (m : Moment) : Nat := m.secondOfDay % 60

/-- Hour on a twelve hour clock. -/
def hour12 (m : Moment) : Nat :=
  if m.hour % 12 = 0 then 12 else m.hour % 12

end Moment

/-- A day of the calendar. -/
structure Date where
  year : Int
  /-- From 1 to 12. -/
  month : Nat
  /-- From 1 to 31. -/
  day : Nat
  deriving Repr, DecidableEq

def isLeapYear (year : Int) : Bool :=
  year % 4 = 0 && (year % 100 != 0 || year % 400 = 0)

/-- The date of a day counted from 1970-01-01. -/
def Date.ofDay (count : Int) : Date :=
  let shifted := count + 719468
  let era := shifted / 146097
  let dayOfEra := (shifted % 146097).toNat
  let yearOfEra := (dayOfEra - dayOfEra / 1460 + dayOfEra / 36524 - dayOfEra / 146096) / 365
  let dayOfYear := dayOfEra - (365 * yearOfEra + yearOfEra / 4 - yearOfEra / 100)
  let monthFromMarch := (5 * dayOfYear + 2) / 153
  let day := dayOfYear - (153 * monthFromMarch + 2) / 5 + 1
  let month := if monthFromMarch < 10 then monthFromMarch + 3 else monthFromMarch - 9
  let year := era * 400 + yearOfEra
  ⟨if month ≤ 2 then year + 1 else year, month, day⟩

/-- Days from the first of January to the first of a month. -/
def daysBeforeMonth (year : Int) (month : Nat) : Nat :=
  let plain := [0, 31, 59, 90, 120, 151, 181, 212, 243, 273, 304, 334]
  plain.getD (month - 1) 0 + if month > 2 && isLeapYear year then 1 else 0

/-- Day of the year, from 1. -/
def Date.dayOfYear (d : Date) : Nat := daysBeforeMonth d.year d.month + d.day

/-- Day of the week of a day count, from 1 for Monday to 7 for Sunday. -/
def weekday (count : Int) : Nat := ((count + 3) % 7).toNat + 1

/-- Number of the weeks of a year: a year has 53 if it starts on a Thursday, or on a Wednesday
and is a leap year. -/
def weeksInYear (year : Int) (firstWeekday : Nat) : Nat :=
  if firstWeekday = 4 ∨ (firstWeekday = 3 ∧ isLeapYear year) then 53 else 52

/-- Year and number of the week that a day belongs to. Weeks start on Monday, and the first week
of a year is the one with its first Thursday. -/
def weekOf (count : Int) : Int × Nat :=
  let date := Date.ofDay count
  let dayOfYear := date.dayOfYear
  let week := (dayOfYear + 10 - weekday count) / 7
  if week = 0 then
    let previousFirst := count - dayOfYear + 1 - if isLeapYear (date.year - 1) then 366 else 365
    (date.year - 1, weeksInYear (date.year - 1) (weekday previousFirst))
  else if week > weeksInYear date.year (weekday (count - dayOfYear + 1)) then (date.year + 1, 1)
  else (date.year, week)

end XmlTemplate.Calendar
