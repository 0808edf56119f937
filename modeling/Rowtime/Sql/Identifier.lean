import Rowtime.Text.Case
import Rowtime.Text.Doubled

/-!
# Identifiers

A bare identifier is an ASCII letter or underscore followed by letters, digits
and underscores, and no reserved word. Any other name is written between double
quotes. `Identifier.chars` chooses the form so that reading it gives the name
back.
-/
namespace Rowtime.Sql

open Text

/-- Words that end an expression or a source and so are never bare identifiers. -/
def reservedWords : List String :=
  ["ALL", "AND", "AS", "ASC", "BETWEEN", "BY", "CREATE", "CROSS", "DESC", "DISTINCT", "DROP",
   "EXISTS", "FALSE", "FROM", "FULL", "GROUP", "HAVING", "IN", "INNER", "INSERT", "INTO", "IS",
   "JOIN", "LEFT", "LIKE", "LIMIT", "NOT", "NULL", "OFFSET", "ON", "OR", "ORDER", "OUTER",
   "RIGHT", "SELECT", "TABLE", "TRUE", "UNION", "VALUES", "WHERE"]

/-- Whether a word is reserved, in any case. -/
def isReserved (w : String) : Bool := reservedWords.any fun k => sameName k w

/-- The characters that may start a bare identifier. -/
def isIdentStart (c : Char) : Bool :=
  ('a' ≤ c && c ≤ 'z') || ('A' ≤ c && c ≤ 'Z') || c == '_'

/-- The characters that may follow in a bare identifier. -/
def isIdentChar (c : Char) : Bool :=
  isIdentStart c || ('0' ≤ c && c ≤ '9')

/-- Whether a name can be written without quotes. -/
def isPlainName (name : String) : Bool :=
  match name.toList with
  | [] => false
  | c :: r => isIdentStart c && r.all isIdentChar && !isReserved name

/-- The text of a name, quoted where it has to be. -/
def nameText (name : String) : String :=
  if isPlainName name then name else Doubled.quoted '"' name

/-- The characters of a name in a statement. -/
def nameChars (name : String) : List Char := (nameText name).toList

end Rowtime.Sql
