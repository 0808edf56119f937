import Rowtime.Engine.Plan
import Rowtime.Value.Literal

/-!
# Records

Every result row is written as one line of JSON: an array of its values, or an
object with the column names as keys. A column name that occurred before gets
its position, counted from one, behind it.

A record is handed over in pieces. A piece can be refused; then the record is
abandoned, and so is the result, but rows behind it can still be written.
-/
namespace Rowtime

open Text

/-- The shape of a record. -/
inductive Shape where
  | array
  | object
deriving DecidableEq, Inhabited

/-- The keys for columns from position `i` on, `seen` holding the names before. -/
def objectKeysFrom (seen : List String) (i : Nat) : List String → List String
  | [] => []
  | name :: r =>
    (if seen.contains name then name ++ "_" ++ Digits.text (i + 1) else name) ::
      objectKeysFrom (name :: seen) (i + 1) r

/-- The keys of the members of a record. -/
def objectKeys (columns : List String) : List String := objectKeysFrom [] 0 columns

/-- The record of a row. -/
def Shape.record (shape : Shape) (columns : List String) (row : Row) : Json :=
  match shape with
  | .array => .array (row.map Value.toJson)
  | .object => .ofMembers ((objectKeys columns).zip (row.map Value.toJson))

/-- The pieces of the line of a row. -/
def Shape.linePieces (shape : Shape) (columns : List String) (row : Row) : List String :=
  (shape.record columns row).pieces ++ ["\n"]

/-- What takes the pieces: it accepts a piece or says why not. -/
abbrev Write (m : Type → Type) := String → m (Except String Unit)

section
variable {m : Type → Type} [Monad m]

/-- Writes pieces one after the other, up to the first that is refused. -/
def writePieces (write : Write m) : List String → m (Except String Unit)
  | [] => return .ok ()
  | p :: r => do
    match ← write p with
    | .ok () => writePieces write r
    | .error why => return .error why

/-- Writes rows up to the first that is refused; gives their number, and the rows behind the
last one tried. -/
def writeRows (write : Write m) (shape : Shape) (columns : List String) :
    List Row → m (Except String Nat × List Row)
  | [] => return (.ok 0, [])
  | row :: rest => do
    match ← writePieces write (shape.linePieces columns row) with
    | .error why => return (.error why, rest)
    | .ok () =>
      let r ← writeRows write shape columns rest
      return (r.1.map (· + 1), r.2)

end

/-- A place for text with an optional limit in bytes. -/
structure Sink where
  content : String
  limit : Option Nat
deriving DecidableEq, Inhabited

namespace Sink

/-- A sink without content. -/
def empty (limit : Option Nat) : Sink := ⟨"", limit⟩

/-- Whether a piece stays within the limit. -/
def accepts (s : Sink) (piece : String) : Bool :=
  match s.limit with
  | none => true
  | some n => s.content.utf8ByteSize + piece.utf8ByteSize ≤ n

/-- The error of a piece beyond the limit. -/
def closed : String := "closed"

/-- Takes a piece, or refuses it as a whole. -/
def write (piece : String) : StateM Sink (Except String Unit) := fun s =>
  if s.accepts piece then (.ok (), { s with content := s.content ++ piece })
  else (.error closed, s)

/-- The lines that are complete; `line` holds the characters of the current one backwards. -/
def linesFrom (line : List Char) : List Char → List String
  | [] => []
  | c :: r =>
    if c = '\n' then String.ofList line.reverse :: linesFrom [] r else linesFrom (c :: line) r

/-- The complete lines of the content. -/
def lines (s : Sink) : List String := linesFrom [] s.content.toList

end Sink

end Rowtime
