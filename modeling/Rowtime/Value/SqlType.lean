import Rowtime.Text.Digits

/-!
# Column types

The types that a column can be declared with, the text by which each is written,
and the storage class it belongs to. Texts of a date, time, identifier or
document type are stored from text; only exact and approximate numbers and bytes
have classes of their own.
-/
namespace Rowtime

/-- A declared column type. -/
inductive SqlType where
  | smallInt
  | integer
  | bigInt
  | real
  | numeric (precision scale : UInt8)
  | text
  | varchar (maxLength : UInt64)
  | char (length : UInt64)
  | boolean
  | date
  | timestamp
  | timestampTz
  | uuid
  | json
  | bytea
deriving DecidableEq, Inhabited

/-- The storage class of a type: how a text is read before the declared type is looked at. -/
inductive Affinity where
  | integer
  | real
  | numeric
  | text
  | blob
deriving DecidableEq

namespace SqlType

/-- The text of a type in a statement. -/
def display : SqlType → String
  | .smallInt => "SMALLINT"
  | .integer => "INTEGER"
  | .bigInt => "BIGINT"
  | .real => "REAL"
  | .numeric p s => "NUMERIC(" ++ Text.Digits.text p.toNat ++ ", " ++ Text.Digits.text s.toNat ++ ")"
  | .text => "TEXT"
  | .varchar n => "VARCHAR(" ++ Text.Digits.text n.toNat ++ ")"
  | .char n => "CHAR(" ++ Text.Digits.text n.toNat ++ ")"
  | .boolean => "BOOLEAN"
  | .date => "DATE"
  | .timestamp => "TIMESTAMP"
  | .timestampTz => "TIMESTAMPTZ"
  | .uuid => "UUID"
  | .json => "JSON"
  | .bytea => "BYTEA"

/-- The storage class of a type. -/
def affinity : SqlType → Affinity
  | .smallInt | .integer | .bigInt | .boolean => .integer
  | .real => .real
  | .numeric .. => .numeric
  | .bytea => .blob
  | .text | .varchar _ | .char _ | .date | .timestamp | .timestampTz | .uuid | .json => .text

/-- The types that hold a 64-bit integer, which a row time needs. -/
def isInt64 : SqlType → Bool
  | .bigInt | .integer => true
  | _ => false

end SqlType

end Rowtime
