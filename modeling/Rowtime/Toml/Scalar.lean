import Rowtime.Calendar.Timestamp
import Rowtime.Text.Hex
import Rowtime.Toml.Basic

/-!
# Numbers, dates and strings of configuration documents

The values that have no parts. Underscores may stand between digits; an integer
has to fit 64 bits; a float that is too large is refused. Dates and times are
checked and kept as text with a `T` between date and time.
-/
namespace Rowtime.Toml

open Text

/-- Digits of which neighbours may be separated by one underscore; the digits alone. -/
def underscored? (isDigit : Char → Bool) : List Char → Option (List Char)
  | [] => none
  | [c] => if isDigit c then some [c] else none
  | c :: '_' :: r => if isDigit c then (underscored? isDigit r).map (c :: ·) else none
  | c :: r => if isDigit c then (underscored? isDigit r).map (c :: ·) else none

/-- Decimal digits without a needless zero in front. -/
def wholeDigits? (s : List Char) : Option (List Char) :=
  (underscored? Digits.isDigit s).bind fun ds =>
    if 1 < ds.length && ds.head? == some '0' then none else some ds

/-- A sign and what follows it. -/
def splitSign : List Char → Bool × List Char
  | '+' :: r => (false, r)
  | '-' :: r => (true, r)
  | s => (false, s)

/-- An integer of 64 bits. -/
def bounded? (i : Int) : Option Toml :=
  if -9223372036854775808 ≤ i ∧ i ≤ 9223372036854775807 then some (.integer i) else none

/-- The number of digits in a base. -/
def inBase (base : Nat) (ds : List Char) : Nat :=
  ds.foldl (fun n c => n * base + (Hex.digit? c).getD 0) 0

/-- Whether a character is a digit of a base up to sixteen. -/
def isDigitOf (base : Nat) (c : Char) : Bool :=
  match Hex.digit? c with
  | some d => d < base
  | none => false

/-- Reads an integer. -/
def integer? (s : List Char) : Option Toml :=
  match s with
  | '0' :: 'x' :: r => (underscored? (isDigitOf 16) r).bind fun ds => bounded? (inBase 16 ds)
  | '0' :: 'o' :: r => (underscored? (isDigitOf 8) r).bind fun ds => bounded? (inBase 8 ds)
  | '0' :: 'b' :: r => (underscored? (isDigitOf 2) r).bind fun ds => bounded? (inBase 2 ds)
  | _ =>
    let x := splitSign s
    (wholeDigits? x.2).bind fun ds =>
      let n : Int := Digits.value ds
      bounded? (if x.1 then -n else n)

/-- Whether a character starts an exponent. -/
def isExponentMark (c : Char) : Bool := c == 'e' || c == 'E'

/-- Reads a float: digits with a fraction, an exponent or both, or a special word. -/
def real? (s : List Char) : Option Toml :=
  let x := splitSign s
  if x.2 == "inf".toList then some (.real (Binary64.infinity x.1))
  else if x.2 == "nan".toList then some (.real (Binary64.ofParts x.1 Binary64.nan.magnitude))
  else
    let mantissa := x.2.takeWhile fun c => !isExponentMark c
    let whole := mantissa.takeWhile (· != '.')
    let fraction : Option (List Char) := match mantissa.dropWhile (· != '.') with
      | [] => some []
      | _ :: r => underscored? Digits.isDigit r
    let exponent : Option (List Char) := match x.2.dropWhile fun c => !isExponentMark c with
      | [] => some []
      | _ :: r =>
        let e := splitSign r
        (underscored? Digits.isDigit e.2).map fun ds => 'e' :: (if e.1 then '-' :: ds else ds)
    if mantissa == x.2 && !mantissa.contains '.' then none
    else
      (wholeDigits? whole).bind fun w =>
      fraction.bind fun f =>
      exponent.bind fun e =>
      let sign := if x.1 then ['-'] else []
      (Binary64.read? (sign ++ w ++ (if f.isEmpty then [] else '.' :: f) ++ e)).bind fun v =>
        if v == Binary64.infinity false then none else some (.real v)

/-- Reads a time of day with two digits for each part; its text without needless zeros. -/
def time? (s : List Char) : Option (List Char × List Char) :=
  (TimeOfDay.scanWith? (Timestamp.digits? 2) s).map fun t =>
    let nano := t.1.nano % 1000000000
    let places := ((Digits.padded 9 nano).reverse.dropWhile (· == '0')).reverse
    (t.1.chars.take 8 ++ (if nano == 0 then [] else '.' :: places), t.2)

/-- Reads a zone; its text. -/
def zone? (s : List Char) : Option (List Char) :=
  match s with
  | [] => some []
  | ['Z'] | ['z'] => some ['Z']
  | c :: _ =>
    if c == '+' || c == '-' then
      (Timestamp.offset? s).bind fun o => if o.2.isEmpty then some s else none
    else none

/-- Reads a date, a time, or both with or without zone; its text. -/
def moment? (s : List Char) : Option Toml :=
  let dated : Option (List Char) :=
    (Timestamp.exactDate? s).bind fun d =>
      match d.2 with
      | [] => some d.1.chars
      | c :: r =>
        if c == 'T' || c == 't' || c == ' ' then
          (time? r).bind fun t => (zone? t.2).map fun z => d.1.chars ++ 'T' :: (t.1 ++ z)
        else none
  match dated with
  | some x => some (.text (String.ofList x))
  | none => (time? s).bind fun t => if t.2.isEmpty then some (.text (String.ofList t.1)) else none

/-- The value of a word without quotes. -/
def word? (s : List Char) : Option Toml :=
  if s == "true".toList then some (.boolean true)
  else if s == "false".toList then some (.boolean false)
  else
    match integer? s with
    | some v => some v
    | none =>
      match real? s with
      | some v => some v
      | none => moment? s

/-- The characters of a word without quotes. -/
def isWordChar (c : Char) : Bool :=
  ('a' ≤ c && c ≤ 'z') || ('A' ≤ c && c ≤ 'Z') || Digits.isDigit c ||
    c == '+' || c == '-' || c == '_' || c == '.' || c == ':'

/-- Takes a word; a date goes on behind a space if a time follows. -/
def scanWord? (s : List Char) : Option (Toml × List Char) :=
  let w := s.takeWhile isWordChar
  let rest := s.drop w.length
  let longer : Option (List Char × List Char) := match rest with
    | ' ' :: c :: r =>
      if w.length == 10 && Digits.isDigit c && (Timestamp.exactDate? w).isSome then
        let t := (c :: r).takeWhile isWordChar
        some (w ++ ' ' :: t, (c :: r).drop t.length)
      else none
    | _ => none
  let x := longer.getD (w, rest)
  (word? x.1).map (·, x.2)

/-- The characters that may stand in a comment and, apart from quotes and backslashes, in a
string. -/
def isPlain (c : Char) : Bool := c == '\t' || (' ' ≤ c && c.toNat != 127)

/-- The character that an escape stands for; digits that denote no character are refused. -/
def escape? : List Char → Option (Char × List Char)
  | [] => none
  | c :: r =>
    let coded (width : Nat) : Option (Char × List Char) :=
      let ds := r.take width
      if ds.length == width then
        (Hex.value? ds).bind fun n =>
          if n < 0xD800 || (0xDFFF < n && n < 0x110000) then some (Char.ofNat n, r.drop width)
          else none
      else none
    match c with
    | 'b' => some ('\x08', r)
    | 't' => some ('\t', r)
    | 'n' => some ('\n', r)
    | 'f' => some ('\x0c', r)
    | 'r' => some ('\r', r)
    | '"' => some ('"', r)
    | '\\' => some ('\\', r)
    | 'u' => coded 4
    | 'U' => coded 8
    | _ => none

/-- A line end at the front, removed. -/
def lineBreak? : List Char → Option (List Char)
  | '\n' :: r => some r
  | '\r' :: '\n' :: r => some r
  | _ => none

/-- Whether a character is a blank within a line. -/
def isBlankChar (c : Char) : Bool := c == ' ' || c == '\t'

/-- Takes the content of a string on one line, up to its closing quote. -/
def scanString? (basic : Bool) : Nat → List Char → Option (List Char × List Char)
  | 0, _ => none
  | _ + 1, [] => none
  | fuel + 1, c :: r =>
    if c == (if basic then '"' else '\'') then some ([], r)
    else if basic && c == '\\' then
      (escape? r).bind fun e => (scanString? basic fuel e.2).map fun x => (e.1 :: x.1, x.2)
    else if isPlain c then (scanString? basic fuel r).map fun x => (c :: x.1, x.2)
    else none

/-- Takes the content of a string on several lines, up to its three closing quotes; up to two
more quotes in front of these belong to the content. -/
def scanLines? (basic : Bool) : Nat → List Char → Option (List Char × List Char)
  | 0, _ => none
  | fuel + 1, s =>
    let q := if basic then '"' else '\''
    let n := (s.takeWhile (· == q)).length
    if 3 ≤ n then if n ≤ 5 then some (List.replicate (n - 3) q, s.drop n) else none
    else if 0 < n then
      (scanLines? basic fuel (s.drop n)).map fun x => (List.replicate n q ++ x.1, x.2)
    else
      match lineBreak? s with
      | some r => (scanLines? basic fuel r).map fun x => ('\n' :: x.1, x.2)
      | none =>
        match s with
        | [] => none
        | c :: r =>
          if basic && c == '\\' then
            match lineBreak? (r.dropWhile isBlankChar) with
            | some r' => scanLines? basic fuel (dropBlankLines r'.length r')
            | none => (escape? r).bind fun e =>
              (scanLines? basic fuel e.2).map fun x => (e.1 :: x.1, x.2)
          else if isPlain c then (scanLines? basic fuel r).map fun x => (c :: x.1, x.2)
          else none
where
  /-- Drops blanks and line ends. -/
  dropBlankLines : Nat → List Char → List Char
    | 0, s => s
    | fuel + 1, s =>
      let t := s.dropWhile isBlankChar
      match lineBreak? t with
      | some r => dropBlankLines fuel r
      | none => t

/-- Takes a string with its quotes; one that starts with three quotes goes over several lines,
and a line end right behind them is dropped. -/
def scanQuoted? (s : List Char) : Option (String × List Char) :=
  let lines (basic : Bool) (r : List Char) : Option (String × List Char) :=
    (scanLines? basic (r.length + 1) ((lineBreak? r).getD r)).map fun x => (String.ofList x.1, x.2)
  let line (basic : Bool) (r : List Char) : Option (String × List Char) :=
    (scanString? basic (r.length + 1) r).map fun x => (String.ofList x.1, x.2)
  match s with
  | '"' :: '"' :: '"' :: r => lines true r
  | '\'' :: '\'' :: '\'' :: r => lines false r
  | '"' :: r => line true r
  | '\'' :: r => line false r
  | _ => none

end Rowtime.Toml
