import Rowtime.Decimal.Arithmetic
import Rowtime.Text.Digits

/-!
# Text of decimals

A decimal is written with all the fractional digits of its scale. Reading takes
an optional sign, digits with at most one point, and underscores after the first
digit. Digits that do not fit any more are rounded away at the first of them,
halves upward, and nothing behind that digit is looked at. A text that is no
plain decimal may have an exponent.
-/
namespace Rowtime.Decimal

open Text

/-- The text of a decimal with all its fractional digits. -/
def chars (d : Decimal) : List Char :=
  let sign := if d.negative then ['-'] else []
  if d.scale == 0 then sign ++ Digits.ofNat d.coeff
  else
    sign ++ Digits.ofNat (d.coeff / Nat.pow 10 d.scale) ++ '.' :: Digits.lastDigits d.scale d.coeff

/-- The text of a decimal as a string. -/
def display (d : Decimal) : String := String.ofList d.chars

/-- Where the reader stands: the digits so far, the digits after the point, and whether a point
and a digit have been seen. -/
structure Reading where
  coeff : Nat
  scale : Nat
  point : Bool
  digits : Bool

/-- The number read when the digit `c` does not fit any more. -/
def Reading.close (st : Reading) (neg : Bool) (c : Char) : Option Decimal :=
  let up := Digits.isDigit c && 5 ≤ Digits.digit c
  if Digits.isDigit c || c == '_' || c == '.' then
    if up then
      if st.coeff + 1 == coeffLimit then
        if st.scale == 0 then none else ofParts? neg ((st.coeff + 5) / 10) (st.scale - 1)
      else ofParts? neg (st.coeff + 1) st.scale
    else ofParts? neg st.coeff st.scale
  else none

/-- Reads the characters after the sign. -/
def Reading.run (neg : Bool) : Reading → List Char → Option Decimal
  | st, [] => if st.digits then ofParts? neg st.coeff st.scale else none
  | st, c :: r =>
    if st.point && st.digits && maxScale ≤ st.scale then st.close neg c
    else if Digits.isDigit c then
      let n := st.coeff * 10 + Digits.digit c
      if coeffLimit ≤ n then
        if st.point then st.close neg c else none
      else run neg ⟨n, if st.point then st.scale + 1 else 0, st.point, true⟩ r
    else if c == '.' && !st.point then run neg { st with point := true } r
    else if c == '_' && st.digits then run neg st r
    else none

/-- Reads the text of a decimal without exponent. -/
def readPlain? (s : List Char) : Option Decimal :=
  match s with
  | '-' :: r => Reading.run true ⟨0, 0, false, false⟩ r
  | '+' :: r => Reading.run false ⟨0, 0, false, false⟩ r
  | r => Reading.run false ⟨0, 0, false, false⟩ r

/-- The decimal without zeros at the end of its fraction. -/
def normalized (d : Decimal) : Option Decimal :=
  let x := dropZeros d.scale d.coeff
  ofParts? d.negative x.1 x.2

/-- The decimal times ten to the power `n`. -/
def shift? (d : Decimal) (n : Nat) : Option Decimal :=
  if n ≤ d.scale then ofParts? d.negative d.coeff (d.scale - n)
  else if maxScale < n then none
  else
    let low := min n 19
    ((ofParts? false (Nat.pow 10 low) 0).bind d.mul?).bind fun x =>
      ((ofParts? false (Nat.pow 10 (n - low)) 0).bind x.mul?).bind normalized

/-- Reads a decimal with an exponent, whose mark is the first `e`. -/
def readScientific? (s : List Char) : Option Decimal :=
  let isMark (c : Char) : Bool := c == 'e' || c == 'E'
  match s.dropWhile fun c => !isMark c with
  | [] => none
  | _ :: e =>
    (readPlain? (s.takeWhile fun c => !isMark c)).bind fun d =>
      match e with
      | '-' :: r =>
        (Digits.readUpTo? 4294967295 r).bind fun n => ofParts? d.negative d.coeff (d.scale + n)
      | r => (Digits.readUpTo? 4294967295 r).bind fun n => d.shift? n

/-- Reads the text of a decimal, with or without exponent. -/
def read? (s : List Char) : Option Decimal :=
  match readPlain? s with
  | some d => some d
  | none => readScientific? s

end Rowtime.Decimal
