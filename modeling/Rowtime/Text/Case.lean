import Rowtime.Text.CaseTable

/-!
# Upper and lower case

Names are compared without regard to ASCII case (`sameName`); catalog keys and
the text functions use the full case forms of the Unicode standard (`lower`,
`upper`). A capital sigma becomes the final form at the end of a word: when a
letter with case stands before it and none after it, ignorable characters being
passed over.
-/
namespace Rowtime.Text

/-- The ASCII lower-case form of a character; other characters stay. -/
def asciiLower (c : Char) : Char :=
  if 'A' ≤ c && c ≤ 'Z' then Char.ofNat (c.toNat + 32) else c

/-- The ASCII upper-case form of a character; other characters stay. -/
def asciiUpper (c : Char) : Char :=
  if 'a' ≤ c && c ≤ 'z' then Char.ofNat (c.toNat - 32) else c

/-- The string with its ASCII letters in lower case. -/
def asciiLowerText (s : String) : String :=
  String.ofList (s.toList.map asciiLower)

/-- The string with its ASCII letters in upper case. -/
def asciiUpperText (s : String) : String :=
  String.ofList (s.toList.map asciiUpper)

/-- Two names are the same when they differ at most in the case of ASCII letters. -/
def sameName (a b : String) : Bool :=
  a.toList.map asciiLower == b.toList.map asciiLower

/-- Membership in a table of closed ranges. -/
def inRanges (table : List (Nat × Nat)) (n : Nat) : Bool :=
  table.any fun r => r.1 ≤ n && n ≤ r.2

/-- The partner of a code point in a table of runs. -/
def partner? (table : List (Nat × Nat × Nat × Int)) (n : Nat) : Option Nat :=
  (table.find? fun r => r.1 ≤ n && n ≤ r.2.1 && (n - r.1) % r.2.2.1 == 0).map
    fun r => ((n : Int) + r.2.2.2).toNat

/-- The lower-case form of a character by itself. -/
def lowerChar (c : Char) : List Char :=
  if c.toNat < 128 then [asciiLower c]
  else if c.toNat == 0x130 then ['i', Char.ofNat 0x307]
  else match partner? CaseTable.lower c.toNat with
    | some n => [Char.ofNat n]
    | none => [c]

/-- The upper-case form of a character. -/
def upperChar (c : Char) : List Char :=
  if c.toNat < 128 then [asciiUpper c]
  else match CaseTable.upperMany.find? fun e => e.1 == c.toNat with
    | some e => e.2.map Char.ofNat
    | none =>
      match partner? CaseTable.upper c.toNat with
      | some n => [Char.ofNat n]
      | none => [c]

/-- Whether the first character that is not passed over is a letter with case. -/
def startsCased : List Char → Bool
  | [] => false
  | c :: r =>
    if inRanges CaseTable.ignorable c.toNat then startsCased r
    else inRanges CaseTable.cased c.toNat

/-- Lower case of a text; `before` holds the characters already passed, last one first. -/
def lowerFrom (before : List Char) : List Char → List Char
  | [] => []
  | c :: r =>
    let small :=
      if c.toNat == 0x3a3 then
        if startsCased before && !startsCased r then [Char.ofNat 0x3c2] else [Char.ofNat 0x3c3]
      else lowerChar c
    small ++ lowerFrom (c :: before) r

/-- The text in lower case. -/
def lower (s : String) : String :=
  String.ofList (lowerFrom [] s.toList)

/-- The text in upper case. -/
def upper (s : String) : String :=
  String.ofList (s.toList.flatMap upperChar)

end Rowtime.Text
