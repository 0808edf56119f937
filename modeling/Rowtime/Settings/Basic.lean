import Rowtime.Follow.Record

/-!
# Settings

What a run is set up with besides its statement: the directory of the log, the
pause between two checks, the shape of the records and the level of the
messages. Directories are equal when their parts are, whatever the number of
separators between them.
-/
namespace Rowtime

/-- The parts of a path. Separators and single dots count once at most, at the front. -/
def pathParts (path : String) : List String :=
  let parts := splitAt [] path.toList
  match parts with
  | "" :: _ :: _ => "/" :: named parts
  | "." :: r => "." :: named r
  | _ => named parts
where
  /-- The texts between slashes; `part` holds the characters of the current one backwards. -/
  splitAt (part : List Char) : List Char → List String
    | [] => [String.ofList part.reverse]
    | '/' :: r => String.ofList part.reverse :: splitAt [] r
    | c :: r => splitAt (c :: part) r
  /-- The parts that name something. -/
  named (parts : List String) : List String := parts.filter fun p => p != "" && p != "."

/-- Whether two paths have the same parts. -/
def samePath (a b : String) : Bool := pathParts a == pathParts b

/-- What a run is set up with. -/
structure Settings where
  dataDir : String
  pollMillis : UInt64
  shape : Shape
  logLevel : String
deriving DecidableEq, Inhabited

namespace Settings

/-- The settings where nothing else is said. -/
def standard : Settings := ⟨"./data", 1000, .array, "info"⟩

/-- Equality of settings. -/
def same (a b : Settings) : Bool :=
  samePath a.dataDir b.dataDir && a.pollMillis == b.pollMillis && a.shape == b.shape &&
    a.logLevel == b.logLevel

/-- The whole seconds of the pause. -/
def pollSeconds (s : Settings) : Nat := s.pollMillis.toNat / 1000

end Settings

/-- The settings that a source gives; the others are left to the sources behind it. -/
structure PartialSettings where
  dataDir : Option String
  pollMillis : Option UInt64
  shape : Option Shape
  logLevel : Option String
deriving DecidableEq, Inhabited

namespace PartialSettings

/-- A source that gives nothing. -/
def empty : PartialSettings := ⟨none, none, none, none⟩

/-- The settings given here, and otherwise those of a base. -/
def fill (p : PartialSettings) (base : Settings) : Settings :=
  ⟨p.dataDir.getD base.dataDir, p.pollMillis.getD base.pollMillis, p.shape.getD base.shape,
    p.logLevel.getD base.logLevel⟩

end PartialSettings

/-- The shape with a name. -/
def Shape.ofName? (name : String) : Option Shape :=
  if name == "array" then some .array else if name == "object" then some .object else none

end Rowtime
