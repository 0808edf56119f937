import Rowtime.Fault
import Rowtime.Text.Blank

/-!
# Parsers

A parser takes characters from the front of a list and gives a result with the
rest, or says where it stopped. There is no hidden state, and a failed
alternative leaves no trace: `orElse` reports the stop of the last alternative
tried.
-/
namespace Rowtime.Sql

open Text

/-- A function that reads something at the front of a text. -/
def Parser (α : Type) : Type := List Char → Except Stop (α × List Char)

namespace Parser

/-- Reads nothing. -/
def pure (a : α) : Parser α := fun s => .ok (a, s)

/-- Goes on with a parser that depends on what was read. -/
def bind (p : Parser α) (f : α → Parser β) : Parser β := fun s =>
  match p s with
  | .ok (a, r) => f a r
  | .error e => .error e

instance : Monad Parser where
  pure := Parser.pure
  bind := Parser.bind

/-- Stops at once. -/
def stop (kind : StopKind) : Parser α := fun s => .error ⟨s, kind⟩

instance : Inhabited (Parser α) := ⟨stop .character⟩

/-- The second parser where the first one stops. -/
def orElse (p q : Parser α) : Parser α := fun s =>
  match p s with
  | .ok x => .ok x
  | .error _ => q s

/-- The first of several parsers that does not stop. -/
def oneOf : List (Parser α) → Parser α
  | [] => stop .character
  | [p] => p
  | p :: q :: r => orElse p (oneOf (q :: r))

/-- What is read, or nothing where the parser stops. -/
def optional (p : Parser α) : Parser (Option α) := fun s =>
  match p s with
  | .ok (a, r) => .ok (some a, r)
  | .error _ => .ok (none, s)

/-- Whether the parser reads something. -/
def present (p : Parser α) : Parser Bool := do
  let x ← optional p
  return x.isSome

/-- Repetitions up to where the parser stops, at most as many as the first list is long. -/
def repeated (p : Parser α) : List Char → List Char → List α × List Char
  | [], s => ([], s)
  | _ :: fuel, s =>
    match p s with
    | .error _ => ([], s)
    | .ok (a, r) =>
      let x := repeated p fuel r
      (a :: x.1, x.2)

/-- Repetitions up to where the parser stops. The parser must read at least one character each
time, so the text itself bounds their number. -/
def many (p : Parser α) : Parser (List α) := fun s => .ok (repeated p s s)

/-- One or more, with separators between them. A separator without a successor is left unread. -/
def separated (sep : Parser β) (p : Parser α) : Parser (List α) := do
  let a ← p
  let more ← many (do let _ ← sep; p)
  return a :: more

/-- None or more, with separators between them. -/
def separatedOrNone (sep : Parser β) (p : Parser α) : Parser (List α) := do
  let x ← optional (separated sep p)
  return x.getD []

/-- One operand and further ones behind operators, grouped to the left. -/
def chain (operand : Parser α) (more : Parser (α → α)) : Parser α := do
  let a ← operand
  let fs ← many more
  return fs.foldl (fun acc f => f acc) a

/-- What is read, if a function accepts it. -/
def filterMap (f : α → Option β) (p : Parser α) : Parser β := fun s =>
  match p s with
  | .error e => .error e
  | .ok (a, r) =>
    match f a with
    | some b => .ok (b, r)
    | none => .error ⟨s, .character⟩

/-- Passes over gaps between tokens. -/
def gap : Parser Unit := fun s => .ok ((), s.dropWhile isGap)

/-- A token with any gaps around it. -/
def spaced (p : Parser α) : Parser α := do
  gap
  let a ← p
  gap
  return a

/-- One given character. -/
def char (c : Char) : Parser Unit := fun s =>
  match s with
  | k :: r => if k == c then .ok ((), r) else .error ⟨s, .character⟩
  | [] => .error ⟨s, .character⟩

/-- One given character with any gaps around it. -/
def symbol (c : Char) : Parser Unit := spaced (char c)

/-- Given characters in a row. -/
def exactly (w : List Char) : Parser Unit := fun s =>
  if w.isPrefixOf s then .ok ((), s.drop w.length) else .error ⟨s, .character⟩

/-- Something in parentheses. -/
def parenthesized (p : Parser α) : Parser α := do
  symbol '('
  let a ← p
  symbol ')'
  return a

/-- Something behind a parser whose result does not matter. -/
def after (p : Parser β) (q : Parser α) : Parser α := do
  let _ ← p
  q

end Parser

end Rowtime.Sql
