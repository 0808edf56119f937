/-!
# Patterns

The pattern language of LIKE. A percent sign stands for any piece of text, an
underscore for one character, any other character for itself. `Fits` states this
as a relation between a pattern and a text, `matchesPattern` decides it.
-/
namespace Rowtime.Pattern

/-- Whether a test holds of the text or of one of its remainders. -/
def anyRemainder (p : List Char → Bool) : List Char → Bool
  | [] => p []
  | c :: r => p (c :: r) || anyRemainder p r

/-- Whether a text has the form of a pattern. -/
def matchesPattern : List Char → List Char → Bool
  | [], t => t.isEmpty
  | p :: ps, t =>
    if p == '%' then anyRemainder (matchesPattern ps) t
    else
      match t with
      | [] => false
      | c :: r => (p == '_' || c == p) && matchesPattern ps r

/-- The texts of a pattern: one piece for each of its characters. -/
inductive Fits : List Char → List Char → Prop where
  | nil : Fits [] []
  | percent (piece : List Char) {ps t : List Char} (h : Fits ps t) : Fits ('%' :: ps) (piece ++ t)
  | underscore (c : Char) {ps t : List Char} (h : Fits ps t) : Fits ('_' :: ps) (c :: t)
  | itself (c : Char) {ps t : List Char} (hp : c ≠ '%') (hu : c ≠ '_') (h : Fits ps t) :
      Fits (c :: ps) (c :: t)

end Rowtime.Pattern
