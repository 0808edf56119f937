import Rowtime.Settings.Arguments
import Rowtime.Text.Case
import Rowtime.Toml.Reader

/-!
# Where settings come from

The command line comes before the environment, the environment before the first
configuration file that exists, and that before the standard settings. In the
environment a setting has its name behind `STREAMQL_`, in any case; its value is
a truth value, an integer, a number or a text, whichever is the first that fits.

A setting takes values of other kinds as far as they can be converted: a text
takes everything but lists and tables, a number takes a whole text, a truth
value and the nearest number. Unknown names are passed over.
-/
namespace Rowtime

open Text

namespace Toml

/-- A value as a text. -/
def asText? : Toml → Option String
  | .text s => some s
  | .integer i => some (Digits.intText i)
  | .real x => some x.display
  | .boolean b => some (if b then "true" else "false")
  | .array _ | .table .. | .tables _ => none

/-- The 64-bit number without sign nearest to a double-precision number, after rounding. -/
def nearestWord (x : Binary64) : UInt64 :=
  match x.unpack with
  | .nan => 0
  | .infinite neg => if neg then 0 else UInt64.ofNat (Nat.pow 2 64 - 1)
  | .finite .. => UInt64.ofNat (min (Nat.pow 2 64 - 1) x.round.truncate.toNat)

/-- A value as a 64-bit number without sign. -/
def asWord? : Toml → Option UInt64
  | .text s =>
    let w := asciiLowerText s
    if w == "true" || w == "on" || w == "yes" then some 1
    else if w == "false" || w == "off" || w == "no" then some 0
    else (Digits.readUpTo? (Nat.pow 2 64 - 1) s.toList).map UInt64.ofNat
  | .integer i => if 0 ≤ i then some (UInt64.ofNat i.toNat) else none
  | .real x => some (nearestWord x)
  | .boolean b => some (if b then 1 else 0)
  | .array _ | .table .. | .tables _ => none

/-- A value as the shape of records: its name in any case, or a table with that name alone. -/
def asShape? : Toml → Option Shape
  | .text s => Shape.ofName? (lower s)
  | .table _ [m] => Shape.ofName? (lower m.1)
  | _ => none

end Toml

/-- The value of an environment variable. -/
def environmentValue (s : String) : Toml :=
  if asciiLowerText s == "true" then .boolean true
  else if asciiLowerText s == "false" then .boolean false
  else
    match Digits.readBounded? (-9223372036854775808) 9223372036854775807 s.toList with
    | some i => .integer i
    | none =>
      match Binary64.read? s.toList with
      | some x => .real x
      | none => .text s

/-- What the names of settings start with in the environment, in lower case. -/
def environmentMark : List Char := "streamql_".toList

/-- The setting that an environment variable gives. -/
def environmentSetting? (v : String × String) : Option (String × Toml) :=
  let name := (lower v.1).toList
  if name.take environmentMark.length == environmentMark then
    some (String.ofList (name.drop environmentMark.length), environmentValue v.2)
  else none

/-- The value that a source gives for a setting; the last one counts. -/
def settingOf? (ms : TomlMembers) (name : String) : Option Toml :=
  (ms.reverse.find? fun m => lower m.1 == name).map (·.2)

/-- A setting converted, or nothing if it is not given; `none` if it cannot be converted. -/
def converted (f : Toml → Option α) (ms : TomlMembers) (name : String) : Option (Option α) :=
  match settingOf? ms name with
  | none => some none
  | some v => (f v).map some

/-- The settings that a source gives, if all of them can be converted. -/
def PartialSettings.ofMembers? (ms : TomlMembers) : Option PartialSettings :=
  (converted Toml.asText? ms "data_dir").bind fun dataDir =>
  (converted Toml.asWord? ms "poll_interval_ms").bind fun pollMillis =>
  (converted Toml.asShape? ms "format").bind fun shape =>
  (converted Toml.asText? ms "log_level").map fun logLevel =>
  ⟨dataDir, pollMillis, shape, logLevel⟩

/-- The settings for a command line, the texts of the configuration files of which some may not
exist, and the environment. -/
def Settings.load? (args : PartialSettings) (files : List (Option String))
    (environment : List (String × String)) : Option Settings :=
  let file : Option TomlMembers := match files.filterMap id with
    | [] => some []
    | text :: _ => Toml.read? text
  file.bind fun ms =>
    (PartialSettings.ofMembers? (ms ++ environment.filterMap environmentSetting?)).map fun p =>
      args.fill (p.fill .standard)

end Rowtime
