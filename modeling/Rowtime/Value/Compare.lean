import Rowtime.Value.Cast

/-!
# Comparing values

`compare?` is the three-valued comparison of SQL: no answer when a side is NULL
or a number is not a number, a fault when the kinds cannot be compared. Texts
are compared without trailing blanks, and a text that meets a date, a moment or
an identifier is first read as one. `sortCompare` is the order of sorting and
grouping, where NULLs come first and what cannot be compared counts as equal.
`same` is equality of kind and content.
-/
namespace Rowtime.Value

open Text

/-- The order of two texts, without trailing blanks. -/
def compareText (a b : String) : Ordering :=
  Ord.compare (trimRight isBlank a.toList) (trimRight isBlank b.toList)

/-- The fault of two kinds that cannot be compared. -/
def cannotCompare (a b : Value) : Fault := .typeMismatch (.compare a.kind b.kind)

/-- The order of two values of one kind, or of two text kinds; none for any other pair. -/
def sameKindOrder? : Value → Value → Option Ordering
  | .text a, .text b | .text a, .char b | .char a, .text b | .char a, .char b =>
    some (compareText a b)
  | .boolean a, .boolean b => some (Ord.compare a b)
  | .date a, .date b => some (a.compare b)
  | .timestamp a, .timestamp b => some (a.compare b)
  | .timestampTz a, .timestampTz b => some (a.compare b)
  | .uuid a, .uuid b => some (a.compare b)
  | .json a, .json b => some (Ord.compare a.toList b.toList)
  | .bytea a, .bytea b => some (Ord.compare a b)
  | _, _ => none

/-- The type as which a text is read when it meets a value of a typed kind. -/
def literalType? : Value → Option SqlType
  | .date _ => some .date
  | .timestamp _ => some .timestamp
  | .timestampTz _ => some .timestampTz
  | .uuid _ => some .uuid
  | _ => none

/-- Compares a value of a typed kind with a text read as that kind. -/
def compareLiteral (a : Value) (t : SqlType) (s : String) : Except Fault Ordering :=
  match cast (.text s) t with
  | .error e => .error e
  | .ok b =>
    match sameKindOrder? a b with
    | some o => .ok o
    | none => .error (cannotCompare a b)

/-- Compares two values that are neither NULL nor both numbers. -/
def comparePlain (a b : Value) : Except Fault Ordering :=
  match sameKindOrder? a b with
  | some o => .ok o
  | none =>
    match literalType? a, b with
    | some t, .text s => compareLiteral a t s
    | _, _ =>
      match a, literalType? b with
      | .text s, some t => (compareLiteral b t s).map Ordering.swap
      | _, _ => .error (cannotCompare a b)

/-- The comparison of SQL. -/
def compare? (a b : Value) : Except Fault (Option Ordering) :=
  if a.isNull || b.isNull then .ok none
  else
    match Number.ofValue? a, Number.ofValue? b with
    | some x, some y => .ok (x.compare? y)
    | _, _ => (comparePlain a b).map some

/-- The order of sorting and grouping. -/
def sortCompare (a b : Value) : Ordering :=
  match a.isNull, b.isNull with
  | true, true => .eq
  | true, false => .lt
  | false, true => .gt
  | false, false =>
    match compare? a b with
    | .ok (some o) => o
    | _ => .eq

/-- Equality of kind and content: decimals by value, and what is not a number differs from all. -/
def same : Value → Value → Bool
  | .real a, .real b => a.sameValue b
  | .numeric a, .numeric b => a.sameValue b
  | a, b => decide (a = b)

/-- Rows are grouped together when no position tells them apart. -/
def sameGroup (a b : Row) : Bool :=
  a.length == b.length && (a.zip b).all fun p => p.1.sortCompare p.2 == .eq

end Rowtime.Value
