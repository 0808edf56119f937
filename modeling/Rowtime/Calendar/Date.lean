import Rowtime.Text.Blank
import Rowtime.Text.Digits

/-!
# Dates

A `Date` is a day of the proleptic Gregorian calendar with an astronomical year,
so there is a year zero. It is written as year, month and day; a year that does
not fit four digits has a sign. The reader skips blanks in front of each number
and takes one to four digits for a year without sign.
-/
namespace Rowtime

/-- The years that can be represented. -/
def minYear : Int := -262143

/-- The last year that can be represented. -/
def maxYear : Int := 262142

/-- The Gregorian leap years. -/
def isLeapYear (y : Int) : Bool :=
  y % 4 == 0 && (y % 100 != 0 || y % 400 == 0)

/-- The number of days of a month; zero for a number that is no month. -/
def daysInMonth (y : Int) (m : Nat) : Nat :=
  match m with
  | 1 | 3 | 5 | 7 | 8 | 10 | 12 => 31
  | 4 | 6 | 9 | 11 => 30
  | 2 => if isLeapYear y then 29 else 28
  | _ => 0

/-- Whether the numbers name a day of the calendar. -/
def validDate (y : Int) (m d : Nat) : Bool :=
  decide (minYear ≤ y) && decide (y ≤ maxYear) && decide (1 ≤ d) && decide (d ≤ daysInMonth y m)

/-- A day of the calendar. -/
structure Date where
  year : Int
  month : Nat
  day : Nat
  valid : validDate year month day = true
deriving DecidableEq

namespace Date

open Text

/-- The day with the given numbers, if there is one. -/
def ofParts? (y : Int) (m d : Nat) : Option Date :=
  if h : validDate y m d = true then some ⟨y, m, d, h⟩ else none

/-- The order of the days. -/
def compare (a b : Date) : Ordering :=
  (Ord.compare a.year b.year).then ((Ord.compare a.month b.month).then (Ord.compare a.day b.day))

/-- The following day, if it can be represented. -/
def succ? (a : Date) : Option Date :=
  if a.day < daysInMonth a.year a.month then ofParts? a.year a.month (a.day + 1)
  else if a.month < 12 then ofParts? a.year (a.month + 1) 1
  else ofParts? (a.year + 1) 1 1

/-- The preceding day, if it can be represented. -/
def pred? (a : Date) : Option Date :=
  if 1 < a.day then ofParts? a.year a.month (a.day - 1)
  else if 1 < a.month then ofParts? a.year (a.month - 1) (daysInMonth a.year (a.month - 1))
  else ofParts? (a.year - 1) 12 31

/-- The text of a year: four digits, or a sign and at least four. -/
def yearChars (y : Int) : List Char :=
  if 0 ≤ y ∧ y ≤ 9999 then Digits.padded 4 y.natAbs
  else (if y < 0 then '-' else '+') :: Digits.padded 4 y.natAbs

/-- The text of a date. -/
def chars (a : Date) : List Char :=
  yearChars a.year ++ '-' :: (Digits.padded 2 a.month ++ '-' :: Digits.padded 2 a.day)

/-- The text of a date as a string. -/
def display (a : Date) : String := String.ofList a.chars

/-- Reads at least one and at most `width` digits. -/
def field? (width : Nat) (s : List Char) : Option (Nat × List Char) :=
  let ds := (s.take width).takeWhile Digits.isDigit
  if ds.isEmpty then none else some (Digits.value ds, s.drop ds.length)

/-- Reads a number of up to `width` digits behind any blanks. -/
def number? (width : Nat) (s : List Char) : Option (Nat × List Char) :=
  field? width (trimLeft isBlank s)

/-- Reads a year: with a sign any number of digits, else up to four. -/
def year? (s : List Char) : Option (Int × List Char) :=
  match trimLeft isBlank s with
  | '-' :: r => (field? r.length r).map fun x => (-(x.1 : Int), x.2)
  | '+' :: r => (field? r.length r).map fun x => ((x.1 : Int), x.2)
  | r => (field? 4 r).map fun x => ((x.1 : Int), x.2)

/-- Reads one given character. -/
def mark? (c : Char) : List Char → Option (List Char)
  | [] => none
  | k :: r => if k == c then some r else none

/-- Reads a date at the start of a text. -/
def scan? (s : List Char) : Option (Date × List Char) :=
  (year? s).bind fun y =>
  (mark? '-' y.2).bind fun s =>
  (number? 2 s).bind fun m =>
  (mark? '-' m.2).bind fun s =>
  (number? 2 s).bind fun d =>
  (ofParts? y.1 m.1 d.1).map fun a => (a, d.2)

/-- Reads a date that is the whole text. -/
def read? (s : List Char) : Option Date :=
  match scan? s with
  | some (a, []) => some a
  | _ => none

end Date

end Rowtime
