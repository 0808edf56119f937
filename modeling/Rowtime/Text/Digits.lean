/-!
# Decimal digits

Writing a natural number in decimal and reading it back. `ofNat` gives the
digits without leading zeros, `padded` fills up to a width, `value` reads any
list of digits. Integers are read with an optional sign, and `readBounded`
refuses what does not fit between two bounds.
-/
namespace Rowtime.Text.Digits

/-- An ASCII decimal digit. -/
def isDigit (c : Char) : Bool :=
  '0' ≤ c && c ≤ '9'

/-- The value of one digit. -/
def digit (c : Char) : Nat :=
  c.toNat - 48

/-- The digit with the given value, taken modulo ten. -/
def toChar (n : Nat) : Char :=
  Char.ofNat (48 + n % 10)

/-- The last `width` decimal digits of a number, most significant first. -/
def lastDigits : Nat → Nat → List Char
  | 0, _ => []
  | w + 1, n => lastDigits w (n / 10) ++ [toChar n]

/-- How many decimal digits a number has; zero has one. -/
def count (n : Nat) : Nat :=
  if _h : n < 10 then 1 else count (n / 10) + 1
termination_by n

/-- The decimal digits of a number without leading zeros. -/
def ofNat (n : Nat) : List Char :=
  lastDigits (count n) n

/-- The digits of a number, with zeros in front up to the width. -/
def padded (width n : Nat) : List Char :=
  lastDigits (max width (count n)) n

/-- The number that a list of digits denotes, continuing from `acc`. -/
def valueFrom (acc : Nat) (ds : List Char) : Nat :=
  ds.foldl (fun a c => a * 10 + digit c) acc

/-- The number that a list of digits denotes. -/
def value (ds : List Char) : Nat :=
  valueFrom 0 ds

/-- The decimal text of an integer. -/
def ofInt (i : Int) : List Char :=
  if i < 0 then '-' :: ofNat i.natAbs else ofNat i.natAbs

/-- The decimal text of a natural number as a string. -/
def text (n : Nat) : String :=
  String.ofList (ofNat n)

/-- The decimal text of an integer as a string. -/
def intText (i : Int) : String :=
  String.ofList (ofInt i)

/-- Reads a non-empty run of digits that is the whole text. -/
def readNat? (s : List Char) : Option Nat :=
  if s.isEmpty || !s.all isDigit then none else some (value s)

/-- Reads digits that may have one sign in front. -/
def readInt? : List Char → Option Int
  | '+' :: r => (readNat? r).map Int.ofNat
  | '-' :: r => (readNat? r).map fun n => -Int.ofNat n
  | s => (readNat? s).map Int.ofNat

/-- Reads a signed integer that lies between the bounds, both included. -/
def readBounded? (lo hi : Int) (s : List Char) : Option Int :=
  match readInt? s with
  | some i => if lo ≤ i ∧ i ≤ hi then some i else none
  | none => none

/-- Reads an unsigned number that does not exceed the bound; a plus sign may stand in front. -/
def readUpTo? (hi : Nat) (s : List Char) : Option Nat :=
  let ds := match s with
    | '+' :: r => r
    | r => r
  (readNat? ds).bind fun n => if n ≤ hi then some n else none

/-- The longest run of digits at the start, and what follows it. -/
def spanDigits (s : List Char) : List Char × List Char :=
  (s.takeWhile isDigit, s.dropWhile isDigit)

end Rowtime.Text.Digits
