import Montage.Number.Numeral
import Montage.Text.Blank

/-!
Contract: points in time, to the nanosecond, as documents write them.

An instant is kept as its date and time of day in universal time. The written
form has no fraction or one of three, six or nine digits. Reading is lenient
about blanks before each part and takes any offset; the offset is worked into
the date and time.

Owns: the calendar, writing and reading.
-/

namespace Montage

open Montage.Number
open Montage.Text

/-- A point in time in universal time; second sixty is a leap second. -/
structure Instant where
  year : Int
  month : Nat
  day : Nat
  hour : Nat
  minute : Nat
  second : Nat
  nano : Nat
deriving DecidableEq, Repr

namespace Instant

def epoch : Instant := ⟨1970, 1, 1, 0, 0, 0, 0⟩

/-! ## Calendar -/

def isLeapYear (year : Int) : Bool :=
  year % 4 == 0 && (year % 100 != 0 || year % 400 == 0)

def daysInMonth (year : Int) (month : Nat) : Nat :=
  if month = 2 then if isLeapYear year then 29 else 28
  else if month = 4 ∨ month = 6 ∨ month = 9 ∨ month = 11 then 30
  else 31

def firstYear : Int := -262143

def lastYear : Int := 262142

def isValid (t : Instant) : Bool :=
  firstYear ≤ t.year && t.year ≤ lastYear && 1 ≤ t.month && t.month ≤ 12 && 1 ≤ t.day &&
    t.day ≤ daysInMonth t.year t.month && t.hour < 24 && t.minute < 60 && t.second ≤ 60 &&
    t.nano < 1000000000

def nextDay (t : Instant) : Instant :=
  if t.day < daysInMonth t.year t.month then { t with day := t.day + 1 }
  else if t.month < 12 then { t with month := t.month + 1, day := 1 }
  else { t with year := t.year + 1, month := 1, day := 1 }

def previousDay (t : Instant) : Instant :=
  if 1 < t.day then { t with day := t.day - 1 }
  else if 1 < t.month then
    { t with month := t.month - 1, day := daysInMonth t.year (t.month - 1) }
  else { t with year := t.year - 1, month := 12, day := 31 }

def withMinutes (t : Instant) (minutes : Nat) : Instant :=
  { t with hour := minutes / 60, minute := minutes % 60 }

/-- Goes back by less than a day, or forward when `minutes` is negative. -/
def back (t : Instant) (minutes : Int) : Instant :=
  let ofDay : Int := 60 * t.hour + t.minute - minutes
  if ofDay < 0 then t.previousDay.withMinutes (ofDay + 1440).toNat
  else if 1440 ≤ ofDay then t.nextDay.withMinutes (ofDay - 1440).toNat
  else t.withMinutes ofDay.toNat

/-! ## Writing -/

/-- Years of four digits are written plainly, all others with a sign. -/
def yearChars (year : Int) : List Char :=
  if 0 ≤ year ∧ year ≤ 9999 then paddedDigits 4 year.toNat
  else (if year < 0 then '-' else '+') :: paddedDigits 4 year.natAbs

def fractionChars (nano : Nat) : List Char :=
  if nano = 0 then []
  else if nano % 1000000 = 0 then '.' :: paddedDigits 3 (nano / 1000000)
  else if nano % 1000 = 0 then '.' :: paddedDigits 6 (nano / 1000)
  else '.' :: paddedDigits 9 nano

def chars (t : Instant) : List Char :=
  yearChars t.year ++ '-' :: (paddedDigits 2 t.month ++ '-' :: (paddedDigits 2 t.day ++ 'T' ::
    (paddedDigits 2 t.hour ++ ':' :: (paddedDigits 2 t.minute ++ ':' ::
      (paddedDigits 2 t.second ++ (fractionChars t.nano ++ ['Z']))))))

def text (t : Instant) : String := String.ofList t.chars

/-! ## Reading -/

/-- Takes a number of one to `most` digits after blanks. -/
def takeNumber? (most : Nat) (cs : List Char) : Option (Nat × List Char) :=
  let body := trimStart cs
  let ds := (body.take most).takeWhile Char.isDigit
  if ds.isEmpty then none else some (wholeValue ds, body.drop ds.length)

/-- Takes a year: up to four digits, or a sign and any number of digits. -/
def takeYear? (cs : List Char) : Option (Int × List Char) :=
  let signed (rest : List Char) : Option (Nat × List Char) :=
    let ds := rest.takeWhile Char.isDigit
    if ds.isEmpty then none else some (wholeValue ds, rest.drop ds.length)
  match trimStart cs with
  | '-' :: rest => (signed rest).map fun taken => (-(taken.1 : Int), taken.2)
  | '+' :: rest => (signed rest).map fun taken => ((taken.1 : Int), taken.2)
  | body => (takeNumber? 4 body).map fun taken => ((taken.1 : Int), taken.2)

/-- Takes a mark after blanks. -/
def takeMark? (mark : Char) (cs : List Char) : Option (List Char) :=
  match trimStart cs with
  | c :: rest => if c = mark then some rest else none
  | [] => none

/-- Takes a fraction of a second; digits after the ninth are passed over. -/
def takeFraction? : List Char → Option (Nat × List Char)
  | '.' :: rest =>
    let (ds, after) := spanDigits rest
    if ds.isEmpty then none
    else
      let kept := ds.take 9
      some (wholeValue kept * tenTo (9 - kept.length), after)
  | cs => some (0, cs)

/-- Takes the letter between date and time. -/
def takeBetween? : List Char → Option (List Char)
  | c :: rest => if c = 'T' ∨ c = 't' ∨ c = ' ' then some rest else none
  | [] => none

def twoDigits? : List Char → Option (Nat × List Char)
  | a :: b :: rest =>
    if a.isDigit && b.isDigit then some (wholeValue [a, b], rest) else none
  | _ => none

/-- Takes hours and minutes of an offset, with colons or blanks between them. -/
def takeHoursMinutes? (cs : List Char) : Option (Nat × List Char) := do
  let (hours, afterHours) ← twoDigits? cs
  let (minutes, rest) ← twoDigits? (afterHours.dropWhile fun c => c == ':' || isBlank c)
  if 60 ≤ minutes ∨ 24 ≤ hours then none else pure (60 * hours + minutes, rest)

/-- Takes an offset from universal time in minutes. -/
def takeOffset? (cs : List Char) : Option (Int × List Char) :=
  match cs with
  | '+' :: rest => (takeHoursMinutes? rest).map fun taken => ((taken.1 : Int), taken.2)
  | '-' :: rest => (takeHoursMinutes? rest).map fun taken => (-(taken.1 : Int), taken.2)
  | '−' :: rest => (takeHoursMinutes? rest).map fun taken => (-(taken.1 : Int), taken.2)
  | 'Z' :: rest => some (0, rest)
  | 'z' :: rest => some (0, rest)
  | u :: t :: c :: rest =>
    if [u.toUpper, t.toUpper, c.toUpper] = "UTC".toList then some (0, rest) else none
  | _ => none

/-- Reads a date, a time and an offset that fill the text up to blanks. -/
def read? (cs : List Char) : Option Instant := do
  let (year, afterYear) ← takeYear? cs
  let (month, afterMonth) ← takeNumber? 2 (← takeMark? '-' afterYear)
  let (day, afterDay) ← takeNumber? 2 (← takeMark? '-' afterMonth)
  let (hour, afterHour) ← takeNumber? 2 (← takeBetween? afterDay)
  let (minute, afterMinute) ← takeNumber? 2 (← takeMark? ':' afterHour)
  let (second, afterSecond) ← takeNumber? 2 (← takeMark? ':' afterMinute)
  let (nano, afterFraction) ← takeFraction? afterSecond
  let (offset, rest) ← takeOffset? (trimStart afterFraction)
  let written : Instant := ⟨year, month, day, hour, minute, second, nano⟩
  let t := written.back offset
  if written.isValid && t.isValid && (trimStart rest).isEmpty then pure t else none

end Instant

end Montage
