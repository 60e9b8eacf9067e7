import XmlTemplate.Calendar.Date

/-!
# Date formats

In a date format letters stand for parts of a moment, a backslash makes the next character
stand for itself, and all other characters stand for themselves. Each letter is replaced
on its own, so the text of a format is the text of its parts, one after the other.
-/

namespace XmlTemplate.Calendar

def dayNames : List String :=
  ["Monday", "Tuesday", "Wednesday", "Thursday", "Friday", "Saturday", "Sunday"]

def monthNames : List String :=
  ["January", "February", "March", "April", "May", "June", "July", "August", "September",
    "October", "November", "December"]

/-- Name of a weekday from 1 to 7. -/
def dayName (weekday : Nat) : List Char := (dayNames.getD (weekday - 1) "").toList

/-- Name of a month from 1 to 12. -/
def monthName (month : Nat) : List Char := (monthNames.getD (month - 1) "").toList

/-- A year has four digits; outside of 0 to 9999 it has a sign. -/
def yearText (year : Int) : List Char :=
  if 0 ≤ year ∧ year ≤ 9999 then Text.padded 4 year.natAbs
  else (if year < 0 then '-' else '+') :: Text.padded 4 year.natAbs

/-- Year, month and day as in `2009-01-31`. -/
def isoDate (date : Date) : List Char :=
  yearText date.year ++ '-' :: Text.padded 2 date.month ++ '-' :: Text.padded 2 date.day

/-- Time of day as in `09:05:00`. -/
def clock (m : Moment) : List Char :=
  Text.padded 2 m.hour ++ ':' :: Text.padded 2 m.minute ++ ':' :: Text.padded 2 m.second

/-- What a character of a format stands for. -/
def letter (m : Moment) (c : Char) : List Char :=
  let date := Date.ofDay m.day
  let weekday := weekday m.day
  match c with
  | 'd' => Text.padded 2 date.day
  | 'D' => (dayName weekday).take 3
  | 'j' => Text.digits date.day
  | 'l' => dayName weekday
  | 'N' => Text.digits weekday
  | 'w' => Text.digits (weekday % 7)
  | 'W' => Text.padded 2 (weekOf m.day).2
  | 'F' => monthName date.month
  | 'm' => Text.padded 2 date.month
  | 'M' => (monthName date.month).take 3
  | 'n' => Text.digits date.month
  | 'Y' => yearText date.year
  | 'y' => Text.padded 2 (date.year % 100).toNat
  | 'o' => yearText (weekOf m.day).1
  | 'a' => (if m.hour < 12 then "am" else "pm").toList
  | 'A' => (if m.hour < 12 then "AM" else "PM").toList
  | 'g' => Text.digits m.hour12
  | 'G' => Text.digits m.hour
  | 'h' => Text.padded 2 m.hour12
  | 'H' => Text.padded 2 m.hour
  | 'i' => Text.padded 2 m.minute
  | 's' => Text.padded 2 m.second
  | 'v' => "000".toList
  | 'e' => "UTC".toList
  | 'T' => "UTC".toList
  | 'P' => "+00:00".toList
  | 'O' => "+0000".toList
  | 'c' => isoDate date ++ 'T' :: clock m ++ "+00:00".toList
  | 'r' =>
    (dayName weekday).take 3 ++ ", ".toList ++ Text.padded 2 date.day ++ ' '
      :: (monthName date.month).take 3 ++ ' ' :: yearText date.year ++ ' ' :: clock m
      ++ " +0000".toList
  | 'U' => (if m.stamp < 0 then ['-'] else []) ++ Text.digits m.stamp.natAbs
  | other => [other]

/-- The text of a moment under a format. A backslash at the end is dropped. -/
def format (m : Moment) : List Char → List Char
  | [] => []
  | ['\\'] => []
  | '\\' :: escaped :: rest => escaped :: format m rest
  | c :: rest => letter m c ++ format m rest

/-- Moments from the year -262143 to the year +262142 can be formatted. -/
def inRange (stamp : Int) : Bool :=
  -8334601228800 ≤ stamp && stamp ≤ 8210266876799

/-- Format a number of seconds since 1970; the empty text outside of the range of dates. -/
def formatStamp (stamp : Int) (pattern : String) : String :=
  if inRange stamp then String.ofList (format ⟨stamp⟩ pattern.toList) else ""

end XmlTemplate.Calendar
