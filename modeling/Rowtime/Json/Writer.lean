import Rowtime.Binary64.Text
import Rowtime.Json.Basic
import Rowtime.Text.Hex

/-!
# Compact JSON text

A document is written without blanks. `pieces` lists the portions in which the
text is handed to a sink, in order; `text` is their concatenation. Strings
escape quotes, backslashes and control characters only, so a line break never
stands in the text.

Double-precision numbers are written with their shortest digits, equally near
candidates going to the even one: positional when the point stands at most
sixteen places behind or four places before the first digit, else with an exponent
that always has a sign.
-/
namespace Rowtime.Json

open Text

/-- The escaped form of a character that may not stand for itself. -/
def escape? (c : Char) : Option (List Char) :=
  if c == '"' then some ['\\', '"']
  else if c == '\\' then some ['\\', '\\']
  else if c.toNat == 0x08 then some ['\\', 'b']
  else if c == '\t' then some ['\\', 't']
  else if c == '\n' then some ['\\', 'n']
  else if c.toNat == 0x0c then some ['\\', 'f']
  else if c == '\r' then some ['\\', 'r']
  else if c.toNat < 0x20 then some ('\\' :: 'u' :: '0' :: '0' :: Hex.lastDigits 2 c.toNat)
  else none

/-- The content of a string in portions: runs of plain characters and single escapes. `run`
holds the plain characters already passed, last one first. -/
def stringPieces (run : List Char) : List Char → List String
  | [] => if run.isEmpty then [] else [String.ofList run.reverse]
  | c :: r =>
    match escape? c with
    | none => stringPieces (c :: run) r
    | some e =>
      if run.isEmpty then String.ofList e :: stringPieces [] r
      else String.ofList run.reverse :: String.ofList e :: stringPieces [] r

/-- A string between quotes, in portions. -/
def quotedPieces (s : String) : List String :=
  "\"" :: (stringPieces [] s.toList ++ ["\""])

/-- The text of positive digits: positional with a fraction, or with an exponent. -/
def realChars (x : Binary64.DecimalDigits) : List Char :=
  let ds := Digits.ofNat x.digits
  let n : Int := ds.length
  let point := n + x.exp
  if 0 ≤ x.exp ∧ point ≤ 16 then
    ds ++ List.replicate x.exp.toNat '0' ++ ['.', '0']
  else if 0 < point ∧ point ≤ 16 then
    ds.take point.toNat ++ '.' :: ds.drop point.toNat
  else if -5 < point ∧ point ≤ 0 then
    '0' :: '.' :: (List.replicate (-point).toNat '0' ++ ds)
  else
    let e := point - 1
    let mantissa := match ds with
      | [d] => [d]
      | d :: r => d :: '.' :: r
      | [] => []
    mantissa ++ 'e' :: (if e < 0 then '-' else '+') :: Digits.ofNat e.natAbs

/-- The text of a double-precision number; what JSON cannot write is `null`. -/
def realText (x : Binary64) : String :=
  match x.unpack with
  | .finite neg m e =>
    let body := if m == 0 then ['0', '.', '0'] else realChars (Binary64.shortest .toEven m e)
    String.ofList (Binary64.signText neg ++ body)
  | _ => "null"

/-- The text of a number. -/
def numberText : JsonNumber → String
  | .whole n => Digits.intText n
  | .real x => realText x

mutual

/-- The portions in which a document is written. -/
def pieces : Json → List String
  | .null => ["null"]
  | .bool b => [if b then "true" else "false"]
  | .number n => [numberText n]
  | .string s => quotedPieces s
  | .array items => "[" :: (itemPieces true items ++ ["]"])
  | .object members => "\x7b" :: (memberPieces true members ++ ["\x7d"])

/-- The portions of array items. -/
def itemPieces (first : Bool) : List Json → List String
  | [] => []
  | v :: r => (if first then [] else [","]) ++ pieces v ++ itemPieces false r

/-- The portions of object members. -/
def memberPieces (first : Bool) : List (String × Json) → List String
  | [] => []
  | (k, v) :: r =>
    (if first then [] else [","]) ++ quotedPieces k ++ ":" :: (pieces v ++ memberPieces false r)

end

/-- The compact text of a document. -/
def text (j : Json) : String := String.join (pieces j)

end Rowtime.Json
