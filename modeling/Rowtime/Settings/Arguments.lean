import Rowtime.Settings.Basic

/-!
# The command line

The words of a command line are read from left to right. An option has a long
name behind two hyphens, some also have a letter behind one; its value follows
an equals sign or, for a letter, at once, or it is the next word. A word that
starts with a hyphen is never such a next word. No word stands for itself, and
behind two bare hyphens there may be none.

The value of an option is looked at when the next option begins or the line
ends; an unknown word is reported before that. Every option is given at most
once, and the statement has to be given.
-/
namespace Rowtime

open Text

/-- The options that take a value. -/
inductive OptionName where
  | query
  | dataDir
  | pollMillis
  | shape
  | logLevel
deriving DecidableEq

/-- What an option name stands for. -/
inductive Flag where
  | value (o : OptionName)
  | help
  | version
deriving DecidableEq

/-- Why a command line is not run: what is wrong with it, or what it asks for instead. -/
inductive ArgumentFault where
  | missing
  | invalidValue
  | malformedValue
  | unknown
  | repeated
  | needlessValue
  | help
  | version
deriving DecidableEq

/-- A command line that has been read. -/
structure Arguments where
  query : String
  settings : PartialSettings
deriving DecidableEq

/-- The option with a long name. -/
def Flag.ofLong? (name : String) : Option Flag :=
  if name == "query" then some (.value .query)
  else if name == "data-dir" then some (.value .dataDir)
  else if name == "poll-interval-ms" then some (.value .pollMillis)
  else if name == "format" then some (.value .shape)
  else if name == "log-level" then some (.value .logLevel)
  else if name == "help" then some .help
  else if name == "version" then some .version
  else none

/-- The option with a letter. -/
def Flag.ofLetter? (c : Char) : Option Flag :=
  if c == 'q' then some (.value .query)
  else if c == 'd' then some (.value .dataDir)
  else if c == 'h' then some .help
  else if c == 'V' then some .version
  else none

/-- Where the reader of a command line stands: the values so far, and an option whose value is
still awaited or not yet looked at. -/
structure ArgumentReading where
  query : Option String
  settings : PartialSettings
  pending : Option (OptionName × Option String)

namespace ArgumentReading

/-- Nothing read yet. -/
def start : ArgumentReading := ⟨none, .empty, none⟩

/-- Whether an option has its value. -/
def has (st : ArgumentReading) : OptionName → Bool
  | .query => st.query.isSome
  | .dataDir => st.settings.dataDir.isSome
  | .pollMillis => st.settings.pollMillis.isSome
  | .shape => st.settings.shape.isSome
  | .logLevel => st.settings.logLevel.isSome

/-- Looks at the value of an option and keeps it. -/
def give (st : ArgumentReading) (o : OptionName) (v : String) :
    Except ArgumentFault ArgumentReading :=
  if st.has o then .error .repeated
  else
    match o with
    | .query => .ok { st with query := some v }
    | .dataDir =>
      if v.isEmpty then .error .invalidValue
      else .ok { st with settings := { st.settings with dataDir := some v } }
    | .pollMillis =>
      match Digits.readUpTo? (Nat.pow 2 64 - 1) v.toList with
      | none => .error .malformedValue
      | some n =>
        .ok { st with settings := { st.settings with pollMillis := some (UInt64.ofNat n) } }
    | .shape =>
      match Shape.ofName? v with
      | none => .error .invalidValue
      | some s => .ok { st with settings := { st.settings with shape := some s } }
    | .logLevel => .ok { st with settings := { st.settings with logLevel := some v } }

/-- Looks at the value of the pending option. -/
def settle (st : ArgumentReading) : Except ArgumentFault ArgumentReading :=
  match st.pending with
  | none => .ok st
  | some (_, none) => .error .invalidValue
  | some (o, some v) => { st with pending := none }.give o v

/-- Begins an option, with its value if the word holds it. -/
def begin (st : ArgumentReading) (o : OptionName) (v : Option String) :
    Except ArgumentFault ArgumentReading :=
  match st.settle with
  | .error e => .error e
  | .ok st' =>
    match v with
    | some x => st'.give o x
    | none => .ok { st' with pending := some (o, none) }

/-- Answers an option that asks for something else than a run. -/
def divert (st : ArgumentReading) (e : ArgumentFault) : Except ArgumentFault ArgumentReading :=
  match st.settle with
  | .error e' => .error e'
  | .ok _ => .error e

/-- Reads an option with a long name; `s` are the characters behind the hyphens. -/
def long (st : ArgumentReading) (s : List Char) : Except ArgumentFault ArgumentReading :=
  let name := s.takeWhile (· != '=')
  let value := match s.dropWhile (· != '=') with
    | [] => none
    | _ :: v => some (String.ofList v)
  match Flag.ofLong? (String.ofList name), value with
  | none, _ => .error .unknown
  | some (.value o), v => st.begin o v
  | some _, some _ => .error .needlessValue
  | some .help, none => st.divert .help
  | some .version, none => st.divert .version

/-- Reads an option with a letter; `r` are the characters behind it. -/
def letter (st : ArgumentReading) (c : Char) (r : List Char) :
    Except ArgumentFault ArgumentReading :=
  match Flag.ofLetter? c with
  | none => .error .unknown
  | some .help => st.divert .help
  | some .version => st.divert .version
  | some (.value o) =>
    match r with
    | [] => st.begin o none
    | '=' :: v => st.begin o (some (String.ofList v))
    | v => st.begin o (some (String.ofList v))

/-- Takes a word that is no option as the awaited value. -/
def plain (st : ArgumentReading) (w : String) : Except ArgumentFault ArgumentReading :=
  match st.pending with
  | some (o, none) => .ok { st with pending := some (o, some w) }
  | _ => .error .unknown

/-- The end of the line. -/
def finish (st : ArgumentReading) : Except ArgumentFault Arguments :=
  match st.settle with
  | .error e => .error e
  | .ok st' =>
    match st'.query with
    | none => .error .missing
    | some q => .ok ⟨q, st'.settings⟩

/-- Reads the words of a line. -/
def run (st : ArgumentReading) : List String → Except ArgumentFault Arguments
  | [] => st.finish
  | w :: rest =>
    match w.toList with
    | ['-', '-'] => if rest.isEmpty then st.finish else .error .unknown
    | '-' :: '-' :: s =>
      match st.long s with
      | .error e => .error e
      | .ok st' => run st' rest
    | '-' :: c :: r =>
      match st.letter c r with
      | .error e => .error e
      | .ok st' => run st' rest
    | _ =>
      match st.plain w with
      | .error e => .error e
      | .ok st' => run st' rest

end ArgumentReading

/-- Reads a command line without the name of the program. -/
def Arguments.read (words : List String) : Except ArgumentFault Arguments :=
  ArgumentReading.start.run words

end Rowtime
