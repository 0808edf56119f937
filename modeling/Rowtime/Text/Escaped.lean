import Rowtime.Text.Case
import Rowtime.Text.Hex
import Rowtime.Text.PrintTable

/-!
# Escaped text

The form in which a fragment of input is shown inside an error message: between
double quotes, with a backslash before quotes and backslashes, short escapes for
tab, line ends and NUL, and a braced code point for every other character that
is not shown as it is.
-/
namespace Rowtime.Text.Escaped

/-- Characters that are shown as they are. -/
def isShown (c : Char) : Bool :=
  let n := c.toNat
  if n < 0x80 then 0x20 ≤ n && n < 0x7f
  else !inRanges PrintTable.hidden n && !inRanges PrintTable.extending n

/-- The escaped form of one character. -/
def encodeChar (c : Char) : List Char :=
  if c == '"' then ['\\', '"']
  else if c == '\\' then ['\\', '\\']
  else if c == '\t' then ['\\', 't']
  else if c == '\n' then ['\\', 'n']
  else if c == '\r' then ['\\', 'r']
  else if c.toNat == 0 then ['\\', '0']
  else if isShown c then [c]
  else ['\\', 'u', '\x7b'] ++ Hex.ofNat c.toNat ++ ['\x7d']

/-- The text between double quotes, escaped. -/
def encode (s : List Char) : String :=
  String.ofList ('"' :: (s.flatMap encodeChar ++ ['"']))

end Rowtime.Text.Escaped
