import Rowtime.Toml.Scalar

/-!
# Reading configuration documents

A document is a list of lines: a key with its value, the header of a table, the
header of one more table in a list, or nothing, each with an optional comment.
Arrays may go over several lines. `read?` refuses a document as a whole when
anything in it is wrong, also a key or table that is defined twice.
-/
namespace Rowtime.Toml

open Text

/-- The characters of a key without quotes. -/
def isKeyChar (c : Char) : Bool :=
  ('a' ≤ c && c ≤ 'z') || ('A' ≤ c && c ≤ 'Z') || Digits.isDigit c || c == '_' || c == '-'

/-- Drops the blanks in front. -/
def skip (s : List Char) : List Char := s.dropWhile isBlankChar

/-- Takes one part of a key: a quoted string on one line or a bare word. -/
def keyPart? (s : List Char) : Option (String × List Char) :=
  match s with
  | '"' :: r => (scanString? true (r.length + 1) r).map fun x => (String.ofList x.1, x.2)
  | '\'' :: r => (scanString? false (r.length + 1) r).map fun x => (String.ofList x.1, x.2)
  | s =>
    let k := s.takeWhile isKeyChar
    if k.isEmpty then none else some (String.ofList k, s.drop k.length)

/-- Takes a key: parts with dots between them, and blanks around each. -/
def key? : Nat → List Char → Option (List String × List Char)
  | 0, _ => none
  | fuel + 1, s =>
    (keyPart? (skip s)).bind fun k =>
      match skip k.2 with
      | '.' :: r => (key? fuel r).map fun x => (k.1 :: x.1, x.2)
      | r => some ([k.1], r)

/-- Drops a comment up to the end of its line; a control character in it is an error. -/
def comment? (s : List Char) : Option (List Char) :=
  match s with
  | '#' :: r => some (r.dropWhile isPlain)
  | s => some s

/-- Drops blanks, comments and line ends. -/
def skipLines? : Nat → List Char → Option (List Char)
  | 0, s => some s
  | fuel + 1, s =>
    match skip s with
    | '#' :: r =>
      match r.dropWhile isPlain with
      | [] => some []
      | t => (lineBreak? t).bind (skipLines? fuel)
    | t =>
      match lineBreak? t with
      | some r => skipLines? fuel r
      | none => some t

/-- Drops what may stand behind a line, up to the start of the next one. -/
def endOfLine? (s : List Char) : Option (List Char) :=
  (comment? (skip s)).bind fun r => if r.isEmpty then some [] else lineBreak? r

mutual

/-- Takes a value. -/
def value? : Nat → List Char → Option (Toml × List Char)
  | 0, _ => none
  | fuel + 1, s =>
    match s with
    | '[' :: r => (skipLines? r.length r).bind fun r => (items? fuel r).map fun x => (.array x.1, x.2)
    | '\x7b' :: r =>
      match skip r with
      | '\x7d' :: r => some (.table .inline [], r)
      | r => (members? fuel [] r).map fun x => (.table .inline x.1, x.2)
    | '"' :: _ | '\'' :: _ => (scanQuoted? s).map fun x => (.text x.1, x.2)
    | _ => scanWord? s

/-- Takes the items of an array and its closing bracket. -/
def items? : Nat → List Char → Option (List Toml × List Char)
  | 0, _ => none
  | fuel + 1, s =>
    match s with
    | ']' :: r => some ([], r)
    | _ =>
      (value? fuel s).bind fun v =>
      (skipLines? v.2.length v.2).bind fun r =>
      match r with
      | ',' :: r =>
        (skipLines? r.length r).bind fun r => (items? fuel r).map fun x => (v.1 :: x.1, x.2)
      | ']' :: r => some ([v.1], r)
      | _ => none

/-- Takes the members of a table in one piece and its closing brace. -/
def members? : Nat → TomlMembers → List Char → Option (TomlMembers × List Char)
  | 0, _, _ => none
  | fuel + 1, ms, s =>
    (key? (s.length + 1) s).bind fun k =>
      match k.2 with
      | '=' :: r =>
        (value? fuel (skip r)).bind fun v =>
        (assign k.1.dropLast (k.1.getLast?.getD "") v.1 .inline ms).bind fun ms =>
        match skip v.2 with
        | ',' :: r => members? fuel ms r
        | '\x7d' :: r => some (ms, r)
        | _ => none
      | _ => none

end

/-- A document that is being read: what there is of it, and the header that is in force. -/
structure Draft where
  root : TomlMembers
  header : List String

/-- Takes a header and what follows it on its line. -/
def header? (d : Draft) (double : Bool) (s : List Char) : Option (Draft × List Char) :=
  (key? (s.length + 1) s).bind fun k =>
    let path := k.1.dropLast
    let name := k.1.getLast?.getD ""
    match double, k.2 with
    | true, ']' :: ']' :: r => (addElement path name d.root).map fun root => (⟨root, k.1⟩, r)
    | false, ']' :: r => (addTable path name d.root).map fun root => (⟨root, k.1⟩, r)
    | _, _ => none

/-- Takes a key with its value. -/
def entry? (d : Draft) (s : List Char) : Option (Draft × List Char) :=
  (key? (s.length + 1) s).bind fun k =>
    match k.2 with
    | '=' :: r =>
      (value? (r.length + 1) (skip r)).bind fun v =>
      (change false (assign k.1.dropLast (k.1.getLast?.getD "") v.1) d.header .header d.root).map
        fun root => (⟨root, d.header⟩, v.2)
    | _ => none

/-- Takes the content of one line. -/
def line? (d : Draft) (s : List Char) : Option (Draft × List Char) :=
  match s with
  | [] | '#' :: _ | '\n' :: _ | '\r' :: _ => some (d, s)
  | '[' :: '[' :: r => header? d true r
  | '[' :: r => header? d false r
  | s => entry? d s

/-- Reads the lines of a document one after the other. -/
def lines? : Nat → Draft → List Char → Option TomlMembers
  | 0, d, _ => some d.root
  | fuel + 1, d, s =>
    match skip s with
    | [] => some d.root
    | s =>
      (line? d s).bind fun x => (endOfLine? x.2).bind fun r => lines? fuel x.1 r

/-- Reads a document. -/
def read? (text : String) : Option TomlMembers :=
  let s := match text.toList with
    | '\uFEFF' :: r => r
    | r => r
  lines? (s.length + 1) ⟨[], []⟩ s

end Rowtime.Toml
