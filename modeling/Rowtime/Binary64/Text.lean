import Rowtime.Binary64.Shortest
import Rowtime.Text.Case

/-!
# Text of binary64 numbers

Two written forms and one reader. `display` is always positional: the shortest
digits with as many zeros as it takes, without a point for whole numbers.
`exactWhole` writes all digits of a whole number and `.0`. `read?` accepts an
optional sign, digits with an optional point and an optional exponent, or one of
the words for infinity and for what is not a number, in any case.
-/
namespace Rowtime.Binary64

open Text

/-- The positional text of digits with a decimal exponent. -/
def positional (x : DecimalDigits) : List Char :=
  let ds := Digits.ofNat x.digits
  if 0 ≤ x.exp then ds ++ List.replicate x.exp.toNat '0'
  else
    let places := (-x.exp).toNat
    if places < ds.length then
      ds.take (ds.length - places) ++ '.' :: ds.drop (ds.length - places)
    else '0' :: '.' :: (List.replicate (places - ds.length) '0' ++ ds)

/-- The sign that is written in front. -/
def signText (neg : Bool) : List Char :=
  if neg then ['-'] else []

/-- The text of a value: positional, equally near candidates resolved upward. -/
def display (x : Binary64) : String :=
  match x.unpack with
  | .nan => "NaN"
  | .infinite neg => if neg then "-inf" else "inf"
  | .finite neg m e =>
    if m == 0 then String.ofList (signText neg ++ ['0'])
    else String.ofList (signText neg ++ positional (shortest .up m e))

/-- All digits of a whole number, followed by `.0`. -/
def exactWhole (x : Binary64) : String :=
  String.ofList (signText x.negative ++ Digits.ofNat x.truncate.natAbs ++ ['.', '0'])

/-- The value nearest to `± digits * 10 ^ exp`. Exponents far outside the range are cut, which
changes no result. -/
def ofDecimal (neg : Bool) (digits : Nat) (exp : Int) : Binary64 :=
  if digits == 0 then zero neg
  else
    let top : Int := (Digits.count digits : Int) + exp
    if 310 < top then infinity neg
    else if top < -400 then zero neg
    else if 0 ≤ exp then ofRatio neg (digits * Nat.pow 10 exp.toNat) 1
    else ofRatio neg digits (Nat.pow 10 (-exp).toNat)

/-- Reads an exponent mark with its digits; the whole rest must be read. -/
def readExponent? : List Char → Option Int
  | [] => some 0
  | c :: r => if c == 'e' || c == 'E' then Digits.readInt? r else none

/-- Reads the digits of an unsigned number, with point and exponent. -/
def readUnsigned? (neg : Bool) (s : List Char) : Option Binary64 :=
  let whole := Digits.spanDigits s
  let part := match whole.2 with
    | '.' :: r => Digits.spanDigits r
    | r => ([], r)
  if whole.1.isEmpty && part.1.isEmpty then none
  else
    (readExponent? part.2).map fun e =>
      ofDecimal neg (Digits.value (whole.1 ++ part.1)) (e - part.1.length)

/-- Reads a number or one of the special words, without sign. -/
def readBody? (neg : Bool) (s : List Char) : Option Binary64 :=
  let word := String.ofList (s.map asciiLower)
  if word == "nan" then some (ofParts neg nan.magnitude)
  else if word == "inf" || word == "infinity" then some (infinity neg)
  else readUnsigned? neg s

/-- Reads the text of a number. -/
def read? : List Char → Option Binary64
  | '+' :: r => readBody? false r
  | '-' :: r => readBody? true r
  | s => readBody? false s

end Rowtime.Binary64
