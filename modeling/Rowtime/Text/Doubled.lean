/-!
# Quoting by doubling

A quoted text stands between two quote characters, and a quote inside it is
written twice. `encode` doubles, `scan` reads up to the closing quote and gives
the content and what follows.
-/
namespace Rowtime.Text.Doubled

/-- The content with every quote character written twice. -/
def encode (q : Char) : List Char → List Char
  | [] => []
  | c :: r => if c == q then q :: q :: encode q r else c :: encode q r

/-- Reads the content of a quoted text up to its closing quote. A pair of quotes stands for one;
without a closing quote there is no result. -/
def scan (q : Char) : List Char → Option (List Char × List Char)
  | [] => none
  | [c] => if c == q then some ([], []) else none
  | c :: d :: r =>
    if c == q then
      if d == q then (scan q r).map fun x => (q :: x.1, x.2)
      else some ([], d :: r)
    else (scan q (d :: r)).map fun x => (c :: x.1, x.2)

/-- The text between two quote characters. -/
def quoted (q : Char) (s : String) : String :=
  String.ofList (q :: (encode q s.toList ++ [q]))

end Rowtime.Text.Doubled
