import Rowtime.Binary64.Arithmetic
import Rowtime.Binary64.Text
import Rowtime.Json.Basic
import Rowtime.Text.Hex

/-!
# Reading JSON text

`read?` accepts one document with blanks around it and nothing else. At most 127
arrays and objects may be nested. A number without point and exponent that fits
64 bits is whole; any other number is computed from its first digits, as many as
fit 64 bits, and a power of ten, and one that is too large is refused, like a
surrogate without its partner and a control character in a string.
-/
namespace Rowtime.Json

open Text

/-- The blanks of JSON. -/
def skipBlanks (s : List Char) : List Char := s.dropWhile isBlankChar
where
  /-- Space, tab and the two line ends. -/
  isBlankChar (c : Char) : Bool := c == ' ' || c == '\n' || c == '\t' || c == '\r'

/-- The first number that does not fit 64 bits. -/
def wordLimit : Nat := Nat.pow 2 64

/-- The number `± f * 10 ^ exp`: one multiplication or division by a power of ten, after as many
divisions by the largest power as it takes; none when it becomes infinite. -/
def scaleReal? (neg : Bool) : Nat → Binary64 → Int → Option Binary64
  | fuel, f, exp =>
    if exp.natAbs ≤ 308 then
      let p := Binary64.ofDecimal false 1 exp.natAbs
      if 0 ≤ exp then
        let g := f.mul p
        if g.isFinite then some (sign g) else none
      else some (sign (f.div p))
    else if f.magnitude == 0 then some (sign f)
    else if 0 ≤ exp then none
    else match fuel with
      | 0 => some (sign (Binary64.zero false))
      | n + 1 => scaleReal? neg n (f.div (Binary64.ofDecimal false 1 308)) (exp + 308)
where
  /-- The result with the sign of the number. -/
  sign (x : Binary64) : Binary64 := if neg then x.neg else x

/-- The number with the given digits and exponent. -/
def real? (neg : Bool) (sig : Nat) (exp : Int) : Option Binary64 :=
  scaleReal? neg 8 (Binary64.ofNat sig) exp

/-- Reads an exponent behind its mark. -/
def exponent? (neg : Bool) (sig : Nat) (exp : Int) (s : List Char) :
    Option (Binary64 × List Char) :=
  let signed := match s with
    | '+' :: r => (false, r)
    | '-' :: r => (true, r)
    | r => (false, r)
  let ds := Digits.spanDigits signed.2
  if ds.1.isEmpty then none
  else
    let e := Digits.value ds.1
    if e ≤ 2147483647 then
      (real? neg sig (if signed.1 then exp - e else exp + e)).map (·, ds.2)
    else if sig != 0 && !signed.1 then none
    else some (Binary64.zero neg, ds.2)

/-- Reads what may follow the digits of a number: an exponent or nothing. -/
def afterDigits? (neg : Bool) (sig : Nat) (exp : Int) (s : List Char) :
    Option (Binary64 × List Char) :=
  match s with
  | 'e' :: r | 'E' :: r => exponent? neg sig exp r
  | r => (real? neg sig exp).map (·, r)

/-- Takes digits into the significand while it fits 64 bits; gives the significand, how many
digits were taken, and the rest. -/
def takeDigits (sig taken : Nat) : List Char → Nat × Nat × List Char
  | [] => (sig, taken, [])
  | c :: r =>
    if Digits.isDigit c && sig * 10 + Digits.digit c < wordLimit then
      takeDigits (sig * 10 + Digits.digit c) (taken + 1) r
    else (sig, taken, c :: r)

/-- Reads the fraction behind the point of a number; digits that do not fit are passed over. -/
def fraction? (neg : Bool) (sig : Nat) (exp : Int) (s : List Char) :
    Option (Binary64 × List Char) :=
  let t := takeDigits sig 0 s
  let rest := t.2.2.dropWhile Digits.isDigit
  if t.2.1 == 0 && rest.length == t.2.2.length then none
  else afterDigits? neg t.1 (exp - t.2.1) rest

/-- Reads a number behind its sign. -/
def number? (neg : Bool) (s : List Char) : Option (JsonNumber × List Char) :=
  let ds := Digits.spanDigits s
  match ds.1 with
  | [] => none
  | c :: more =>
    if c == '0' && !more.isEmpty then none
    else
      let t := takeDigits 0 0 ds.1
      let skipped : Int := t.2.2.length
      match ds.2 with
      | '.' :: r => (fraction? neg t.1 skipped r).map fun x => (.real x.1, x.2)
      | 'e' :: r | 'E' :: r => (exponent? neg t.1 skipped r).map fun x => (.real x.1, x.2)
      | r =>
        if skipped != 0 then (real? neg t.1 skipped).map fun x => (.real x, r)
        else if !neg then some (.whole t.1, r)
        else if t.1 == 0 || Nat.pow 2 63 < t.1 then
          some (.real ((Binary64.ofNat t.1).neg), r)
        else some (.whole (-(t.1 : Int)), r)

/-- Reads four hexadecimal digits. -/
def hex4? (s : List Char) : Option (Nat × List Char) :=
  if (s.take 4).length == 4 then (Hex.value? (s.take 4)).map (·, s.drop 4) else none

/-- Reads the code point behind `\u`; a high surrogate takes the low one that follows. -/
def unicode? (s : List Char) : Option (Char × List Char) :=
  (hex4? s).bind fun h =>
  if 0xdc00 ≤ h.1 && h.1 ≤ 0xdfff then none
  else if 0xd800 ≤ h.1 && h.1 ≤ 0xdbff then
    match h.2 with
    | '\\' :: 'u' :: r =>
      (hex4? r).bind fun l =>
      if 0xdc00 ≤ l.1 && l.1 ≤ 0xdfff then
        some (Char.ofNat (0x10000 + (h.1 - 0xd800) * 0x400 + (l.1 - 0xdc00)), l.2)
      else none
    | _ => none
  else some (Char.ofNat h.1, h.2)

/-- The character of a short escape. -/
def shortEscape? (c : Char) : Option Char :=
  if c == '"' || c == '\\' || c == '/' then some c
  else if c == 'b' then some (Char.ofNat 8)
  else if c == 'f' then some (Char.ofNat 12)
  else if c == 'n' then some '\n'
  else if c == 'r' then some '\r'
  else if c == 't' then some '\t'
  else none

/-- Reads the content of a string up to its closing quote; `acc` is what was read, last first. -/
def string? (acc : List Char) : Nat → List Char → Option (String × List Char)
  | 0, _ => none
  | _, [] => none
  | fuel + 1, c :: r =>
    if c == '"' then some (String.ofList acc.reverse, r)
    else if c == '\\' then
      match r with
      | [] => none
      | e :: r' =>
        if e == 'u' then (unicode? r').bind fun x => string? (x.1 :: acc) fuel x.2
        else (shortEscape? e).bind fun x => string? (x :: acc) fuel r'
    else if c.toNat < 0x20 then none
    else string? (c :: acc) fuel r

/-- Reads a fixed word. -/
def word? (w : String) (s : List Char) : Option (List Char) :=
  if w.toList.isPrefixOf s then some (s.drop w.length) else none

mutual

/-- Reads a document inside `depth` arrays and objects. The fuel is larger than the text. -/
def value? : Nat → Nat → List Char → Option (Json × List Char)
  | 0, _, _ => none
  | fuel + 1, depth, s =>
    match skipBlanks s with
    | [] => none
    | c :: r =>
      if c == 'n' then (word? "ull" r).map (.null, ·)
      else if c == 't' then (word? "rue" r).map (.bool true, ·)
      else if c == 'f' then (word? "alse" r).map (.bool false, ·)
      else if c == '"' then (string? [] (r.length + 1) r).map fun x => (.string x.1, x.2)
      else if c == '-' then (number? true r).map fun x => (.number x.1, x.2)
      else if Digits.isDigit c then (number? false (c :: r)).map fun x => (.number x.1, x.2)
      else if c == '[' then
        if 127 ≤ depth then none
        else match skipBlanks r with
          | ']' :: r' => some (.array [], r')
          | r' => (items? fuel (depth + 1) r').map fun x => (.array x.1, x.2)
      else if c == '\x7b' then
        if 127 ≤ depth then none
        else match skipBlanks r with
          | '\x7d' :: r' => some (.object [], r')
          | r' => (members? fuel (depth + 1) r').map fun x => (.object x.1, x.2)
      else none

/-- Reads array items up to the closing bracket. -/
def items? : Nat → Nat → List Char → Option (List Json × List Char)
  | 0, _, _ => none
  | fuel + 1, depth, s =>
    (value? fuel depth s).bind fun v =>
    match skipBlanks v.2 with
    | ',' :: r => (items? fuel depth r).map fun x => (v.1 :: x.1, x.2)
    | ']' :: r => some ([v.1], r)
    | _ => none

/-- Reads object members up to the closing brace. -/
def members? : Nat → Nat → List Char → Option (List (String × Json) × List Char)
  | 0, _, _ => none
  | fuel + 1, depth, s =>
    match skipBlanks s with
    | '"' :: r =>
      (string? [] (r.length + 1) r).bind fun k =>
      match skipBlanks k.2 with
      | ':' :: r =>
        (value? fuel depth r).bind fun v =>
        match skipBlanks v.2 with
        | ',' :: r => (members? fuel depth r).map fun x => ((k.1, v.1) :: x.1, x.2)
        | '\x7d' :: r => some ([(k.1, v.1)], r)
        | _ => none
      | _ => none
    | _ => none

end

mutual

/-- The document with the members of every object sorted and repeated names resolved. -/
def settled : Json → Json
  | .array items => .array (settledItems items)
  | .object members => ofMembers (settledMembers members)
  | j => j

/-- The settled items of an array. -/
def settledItems : List Json → List Json
  | [] => []
  | v :: r => settled v :: settledItems r

/-- The settled members of an object, in their order. -/
def settledMembers : List (String × Json) → List (String × Json)
  | [] => []
  | (k, v) :: r => (k, settled v) :: settledMembers r

end

/-- Reads a whole text as one document. -/
def read? (s : String) : Option Json :=
  let cs := s.toList
  match value? (2 * cs.length + 2) 0 cs with
  | some (j, r) => if (skipBlanks r).isEmpty then some (settled j) else none
  | none => none

end Rowtime.Json
