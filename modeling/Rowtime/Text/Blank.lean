/-!
# White space and trimming

Three sets of blank characters occur in the language. `isBlank` is the
White_Space property of the Unicode standard; it decides what is trimmed from
statements, from typed literals and from compared strings. `isGap` is the
set of four characters that may separate the tokens of a statement. A plain
space alone pads fixed-width text.

All trimming functions work on lists of characters and keep the rest as it is.
-/
namespace Rowtime.Text

/-- The characters with the White_Space property. -/
def isBlank (c : Char) : Bool :=
  let n := c.toNat
  (0x09 ≤ n && n ≤ 0x0d) || n == 0x20 || n == 0x85 || n == 0xa0 || n == 0x1680 ||
  (0x2000 ≤ n && n ≤ 0x200a) || n == 0x2028 || n == 0x2029 || n == 0x202f ||
  n == 0x205f || n == 0x3000

/-- The characters that may stand between two tokens: space, tab and the two line ends. -/
def isGap (c : Char) : Bool :=
  c == ' ' || c == '\t' || c == '\r' || c == '\n'

/-- The text without its leading characters in `p`. -/
def trimLeft (p : Char → Bool) (s : List Char) : List Char :=
  s.dropWhile p

/-- The text without its trailing characters in `p`. -/
def trimRight (p : Char → Bool) : List Char → List Char
  | [] => []
  | c :: r =>
    match trimRight p r with
    | [] => if p c then [] else [c]
    | k :: t => c :: k :: t

/-- The text without blanks at either end. -/
def trim (s : List Char) : List Char :=
  trimRight isBlank (trimLeft isBlank s)

/-- The string without blanks at either end. -/
def trimmed (s : String) : String :=
  String.ofList (trim s.toList)

/-- The string without blanks at its end. -/
def trimmedEnd (s : String) : String :=
  String.ofList (trimRight isBlank s.toList)

/-- The string without the plain spaces at its end. -/
def unpadded (s : String) : String :=
  String.ofList (trimRight (· == ' ') s.toList)

theorem trimRight_eq_self_of_not {p : Char → Bool} {s : List Char} {c : Char}
    (h : p c = false) : trimRight p (s ++ [c]) = s ++ [c] := by
  induction s with
  | nil => simp [trimRight, h]
  | cons k r ih =>
    simp only [List.cons_append, trimRight, ih]
    cases r <;> rfl

end Rowtime.Text
