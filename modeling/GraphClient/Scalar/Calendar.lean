import GraphClient.Text.Characters
import GraphClient.Text.Digits

/-! Days of the calendar, times of day, and instants with the clock that showed them. Each type holds
only values that exist, and each has one written form and a reader that is more generous than the
writer. -/

namespace GraphClient

open Text (padded takeNumber takeChar)

def isLeapYear (year : Int) : Bool := year % 4 = 0 && (year % 100 ≠ 0 || year % 400 = 0)

def daysInMonth (year : Int) (month : Nat) : Nat :=
  if month = 2 then (if isLeapYear year then 29 else 28)
  else if month ∈ [4, 6, 9, 11] then 30
  else 31

/-- The years that the calendar reaches. -/
def firstYear : Int := -262143

def lastYear : Int := 262142

/-- A day of the Gregorian calendar, continued backwards; the year 0 is the one before year 1. -/
structure Date where
  year : Int
  month : Nat
  day : Nat
  year_mem : firstYear ≤ year ∧ year ≤ lastYear
  month_mem : 1 ≤ month ∧ month ≤ 12
  day_mem : 1 ≤ day ∧ day ≤ daysInMonth year month
  deriving DecidableEq, Repr

namespace Date

def of? (year : Int) (month day : Nat) : Option Date :=
  if h : (firstYear ≤ year ∧ year ≤ lastYear) ∧ (1 ≤ month ∧ month ≤ 12) ∧
      (1 ≤ day ∧ day ≤ daysInMonth year month) then
    some ⟨year, month, day, h.1, h.2.1, h.2.2⟩
  else none

/-- The first of January 1970. -/
def epoch : Date := ⟨1970, 1, 1, by decide, by decide, by decide⟩

/-- A year has at least four digits, and a sign if it is before the year 0 or beyond 9999. -/
def yearText (year : Int) : List Char :=
  let digits := padded (max 4 (Nat.toDigits 10 year.natAbs).length) year.natAbs
  if year < 0 then '-' :: digits else if year ≤ 9999 then digits else '+' :: digits

/-- `2023-04-05`. -/
def chars (d : Date) : List Char :=
  yearText d.year ++ '-' :: padded 2 d.month ++ '-' :: padded 2 d.day

/-- A year: up to four digits, or any number of them behind a sign. -/
def takeYear : List Char → Option (Int × List Char)
  | '-' :: rest => (takeNumber 1 rest.length rest).map fun r => (-(r.1 : Int), r.2)
  | '+' :: rest => (takeNumber 1 rest.length rest).map fun r => ((r.1 : Int), r.2)
  | cs => (takeNumber 1 4 cs).map fun r => ((r.1 : Int), r.2)

/-- A number of one or two digits, white space allowed in front. -/
def takeShort (cs : List Char) : Option (Nat × List Char) := takeNumber 1 2 (cs.dropWhile Text.isBlank)

/-- Reads `2023-04-05`; white space may stand in front of each number. -/
def read? (cs : List Char) : Option Date := do
  let (year, rest) ← takeYear (cs.dropWhile Text.isBlank)
  let (month, rest) ← takeShort (← takeChar '-' rest)
  let (day, rest) ← takeShort (← takeChar '-' rest)
  if rest.isEmpty then of? year month day else none

end Date

/-- A time of day to the nanosecond. The second 60 is a leap second. -/
structure TimeOfDay where
  hour : Nat
  minute : Nat
  second : Nat
  nanosecond : Nat
  hour_lt : hour < 24
  minute_lt : minute < 60
  second_le : second ≤ 60
  nanosecond_lt : nanosecond < 1000000000
  deriving DecidableEq, Repr

namespace TimeOfDay

def of? (hour minute second nanosecond : Nat) : Option TimeOfDay :=
  if h : (hour < 24 ∧ minute < 60) ∧ second ≤ 60 ∧ nanosecond < 1000000000 then
    some ⟨hour, minute, second, nanosecond, h.1.1, h.1.2, h.2.1, h.2.2⟩
  else none

def midnight : TimeOfDay := ⟨0, 0, 0, 0, by decide, by decide, by decide, by decide⟩

/-- The fraction of a second in as few of 0, 3, 6 or 9 digits as hold it. -/
def fractionText (nanosecond : Nat) : List Char :=
  if nanosecond = 0 then []
  else if nanosecond % 1000000 = 0 then '.' :: padded 3 (nanosecond / 1000000)
  else if nanosecond % 1000 = 0 then '.' :: padded 6 (nanosecond / 1000)
  else '.' :: padded 9 nanosecond

/-- `06:07:08.250`. -/
def chars (t : TimeOfDay) : List Char :=
  padded 2 t.hour ++ ':' :: padded 2 t.minute ++ ':' :: padded 2 t.second ++ fractionText t.nanosecond

/-- The fraction behind a second, in nanoseconds; digits after the ninth are dropped. A point needs a
digit. -/
def takeFraction : List Char → Option (Nat × List Char)
  | '.' :: rest =>
      let digits := rest.takeWhile Char.isDigit
      if digits.isEmpty then none
      else
        let kept := digits.take 9
        some (Text.ofDigits kept * Nat.pow 10 (9 - kept.length), rest.dropWhile Char.isDigit)
  | rest => some (0, rest)

/-- Reads `06:07:08.25`; white space may stand in front of each number. -/
def read? (cs : List Char) : Option TimeOfDay := do
  let (hour, rest) ← Date.takeShort cs
  let (minute, rest) ← Date.takeShort (← takeChar ':' rest)
  let (second, rest) ← Date.takeShort (← takeChar ':' rest)
  let (nanosecond, rest) ← takeFraction rest
  if rest.isEmpty then of? hour minute second nanosecond else none

end TimeOfDay

/-- What a clock shows that is `offset` minutes ahead of universal time. -/
structure DateTime where
  date : Date
  time : TimeOfDay
  offset : Int
  year_mem : 0 ≤ date.year ∧ date.year ≤ 9999
  offset_mem : -1440 < offset ∧ offset < 1440
  deriving DecidableEq, Repr

namespace DateTime

def of? (date : Date) (time : TimeOfDay) (offset : Int) : Option DateTime :=
  if h : (0 ≤ date.year ∧ date.year ≤ 9999) ∧ (-1440 < offset ∧ offset < 1440) then
    some ⟨date, time, offset, h.1, h.2⟩
  else none

def epoch : DateTime := ⟨.epoch, .midnight, 0, by decide, by decide⟩

def offsetText (offset : Int) : List Char :=
  (if offset < 0 then '-' else '+') ::
    padded 2 (offset.natAbs / 60) ++ ':' :: padded 2 (offset.natAbs % 60)

/-- `2023-04-05T06:07:08+02:00`. -/
def chars (t : DateTime) : List Char :=
  t.date.chars ++ 'T' :: t.time.chars ++ offsetText t.offset

/-- Hours and minutes of exactly two digits. -/
def takeOffset (negative : Bool) (cs : List Char) : Option (Int × List Char) := do
  let (hours, rest) ← takeNumber 2 2 cs
  let (minutes, rest) ← takeNumber 2 2 (← takeChar ':' rest)
  if hours < 24 ∧ minutes < 60 then
    let size : Int := (hours * 60 + minutes : Nat)
    return (if negative then -size else size, rest)
  else none

/-- The offset, `Z` for none; the minus may be the mathematical one. -/
def readOffset? : List Char → Option (Int × List Char)
  | 'Z' :: rest | 'z' :: rest => some (0, rest)
  | '+' :: rest => takeOffset false rest
  | '-' :: rest | '\u2212' :: rest => takeOffset true rest
  | _ => none

/-- What follows the mark between a date and a time. -/
def takeSeparator : List Char → Option (List Char)
  | c :: rest => if c ∈ ['T', 't', ' '] then some rest else none
  | [] => none

/-- Reads `2023-04-05T06:07:08+02:00`, every number in full width. -/
def read? (cs : List Char) : Option DateTime := do
  let (year, rest) ← takeNumber 4 4 cs
  let (month, rest) ← takeNumber 2 2 (← takeChar '-' rest)
  let (day, rest) ← takeNumber 2 2 (← takeChar '-' rest)
  let (hour, rest) ← takeNumber 2 2 (← takeSeparator rest)
  let (minute, rest) ← takeNumber 2 2 (← takeChar ':' rest)
  let (second, rest) ← takeNumber 2 2 (← takeChar ':' rest)
  let (nanosecond, rest) ← TimeOfDay.takeFraction rest
  let (offset, rest) ← readOffset? rest
  if rest.isEmpty then
    of? (← Date.of? year month day) (← TimeOfDay.of? hour minute second nanosecond) offset
  else none

end DateTime

end GraphClient
