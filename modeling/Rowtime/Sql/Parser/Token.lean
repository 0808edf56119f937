import Rowtime.Decimal.Text
import Rowtime.Sql.Identifier
import Rowtime.Sql.Parser.Basic
import Rowtime.Value.Basic

/-!
# Tokens

Keywords in any case, identifiers, string and number literals, and column types.
A keyword ends where no identifier character follows. A whole number must fit 64
bits and must not run into a letter; a number with a point is a decimal and may.
-/
namespace Rowtime.Sql.Parser

open Text

/-- Drops a word from the front of a text, in any case. -/
def dropWord? : List Char → List Char → Option (List Char)
  | [], s => some s
  | _ :: _, [] => none
  | k :: w, c :: s => if asciiLower k == asciiLower c then dropWord? w s else none

/-- Whether an identifier character comes next. -/
def identFollows : List Char → Bool
  | c :: _ => isIdentChar c
  | [] => false

/-- A keyword with any gaps around it. -/
def keyword (w : String) : Parser Unit := fun s =>
  match dropWord? w.toList (s.dropWhile isGap) with
  | some r => if identFollows r then .error ⟨s, .character⟩ else .ok ((), r.dropWhile isGap)
  | none => .error ⟨s, .character⟩

/-- A letter or underscore with the identifier characters that follow. -/
def bareWord : Parser String := fun s =>
  match s with
  | c :: r =>
    if isIdentStart c then .ok (String.ofList (c :: r.takeWhile isIdentChar), r.dropWhile isIdentChar)
    else .error ⟨s, .character⟩
  | [] => .error ⟨s, .character⟩

/-- A text between two quote characters. -/
def quotedText (q : Char) : Parser String := fun s =>
  match s with
  | c :: r =>
    if c == q then
      match Doubled.scan q r with
      | some (x, rest) => .ok (String.ofList x, rest)
      | none => .error ⟨s, .character⟩
    else .error ⟨s, .character⟩
  | [] => .error ⟨s, .character⟩

/-- A name in double quotes or a bare word that is not reserved. -/
def identifier : Parser String :=
  orElse (quotedText '"') (filterMap (fun w => if isReserved w then none else some w) bareWord)

/-- A name in double quotes or any bare word. -/
def anyIdentifier : Parser String := orElse (quotedText '"') bareWord

/-- A string literal. -/
def stringLiteral : Parser String := quotedText '\''

/-- One or more digits. -/
def digits : Parser (List Char) := fun s =>
  let x := Digits.spanDigits s
  if x.1.isEmpty then .error ⟨s, .character⟩ else .ok x

/-- A number below a limit. -/
def natBelow (limit : Nat) : Parser Nat :=
  filterMap (fun ds => let n := Digits.value ds; if n < limit then some n else none) digits

/-- Digits, a point and digits: a decimal. -/
def decimal : Parser Decimal :=
  filterMap (fun x => Decimal.read? (x.1 ++ '.' :: x.2)) (do
    let whole ← digits
    char '.'
    let part ← digits
    return (whole, part))

/-- Digits that run into no identifier: a 64-bit integer. -/
def wholeNumber : Parser Int64 :=
  filterMap (fun ds => toInt64? (Digits.value ds)) (fun s =>
    match digits s with
    | .ok (ds, r) => if identFollows r then .error ⟨s, .character⟩ else .ok (ds, r)
    | .error e => .error e)

/-- A number without sign. -/
def number : Parser Value :=
  orElse (do return .numeric (← decimal)) (do return .integer (← wholeNumber))

/-- The number with the opposite sign. -/
def negated : Value → Value
  | .integer i => .integer (-i)
  | .numeric d => .numeric d.neg
  | v => v

/-- A literal as it stands in rows and defaults. -/
def literal : Parser Value :=
  spaced (oneOf [
    do keyword "NULL"; return .null,
    do keyword "TRUE"; return .boolean true,
    do keyword "FALSE"; return .boolean false,
    do return .text (← stringLiteral),
    do char '-'; return negated (← number),
    number])

/-- A length in parentheses. -/
def length : Parser UInt64 := do
  let n ← parenthesized (spaced (natBelow (Nat.pow 2 64)))
  return UInt64.ofNat n

/-- The precision and scale of a decimal type. -/
def precision : Parser (UInt8 × UInt8) := parenthesized (do
  let p ← spaced (natBelow 256)
  let s ← optional (do symbol ','; spaced (natBelow 256))
  return (UInt8.ofNat p, UInt8.ofNat (s.getD 0)))

/-- A keyword that stands for a type. -/
def typeWord (w : String) (t : SqlType) : Parser SqlType := do
  keyword w
  return t

/-- A decimal type, ten digits without fraction by default. -/
def numericType : Parser SqlType := do
  orElse (keyword "NUMERIC") (keyword "DECIMAL")
  let p ← optional precision
  return .numeric (p.getD (10, 0)).1 (p.getD (10, 0)).2

/-- A column type. -/
def sqlType : Parser SqlType :=
  oneOf [
    numericType,
    typeWord "SMALLINT" .smallInt,
    typeWord "BIGINT" .bigInt,
    typeWord "INTEGER" .integer,
    typeWord "INT" .integer,
    do keyword "DOUBLE"; keyword "PRECISION"; return .real,
    typeWord "REAL" .real,
    typeWord "FLOAT" .real,
    typeWord "DOUBLE" .real,
    do keyword "VARCHAR"; let n ← optional length; return .varchar (n.getD 255),
    do keyword "CHAR"; let n ← optional length; return .char (n.getD 1),
    typeWord "TEXT" .text,
    typeWord "BOOLEAN" .boolean,
    typeWord "BOOL" .boolean,
    typeWord "TIMESTAMPTZ" .timestampTz,
    typeWord "TIMESTAMP" .timestamp,
    typeWord "DATETIME" .timestamp,
    typeWord "DATE" .date,
    typeWord "UUID" .uuid,
    typeWord "JSONB" .json,
    typeWord "JSON" .json,
    typeWord "BYTEA" .bytea,
    typeWord "BLOB" .bytea]

end Rowtime.Sql.Parser
