import Rowtime.Binary64.Text

/-!
# Configuration documents

A document of the configuration language TOML is a table of keys and values. A
table remembers how it came about, because that decides whether it may be
extended: by a header of its own, as a part of another header, by a key with
dots, or in one piece with its members. Dates and times are kept as text.
-/
namespace Rowtime

/-- How a table came about. -/
inductive TableOrigin where
  | header
  | implied
  | dotted
  | inline
deriving DecidableEq

/-- A value of a document. -/
inductive Toml where
  | text (s : String)
  | integer (i : Int)
  | real (x : Binary64)
  | boolean (b : Bool)
  | array (items : List Toml)
  | table (origin : TableOrigin) (members : List (String × Toml))
  | tables (items : List (List (String × Toml)))

instance : Inhabited Toml := ⟨.boolean false⟩

/-- The keys and values of a table. -/
abbrev TomlMembers := List (String × Toml)

namespace Toml

/-- The value of a key. -/
def find? (ms : TomlMembers) (k : String) : Option Toml :=
  (ms.find? fun m => m.1 == k).map (·.2)

/-- The members with another value for a key that is there. -/
def replace (ms : TomlMembers) (k : String) (v : Toml) : TomlMembers :=
  ms.map fun m => if m.1 == k then (k, v) else m

/-- Changes the table at the end of a path by `f`, which is told how that table came about.
Missing tables on the way are created. A key with dots may not enter a table that has a header;
nothing may enter a table that was written in one piece. -/
def change (dotted : Bool) (f : TableOrigin → TomlMembers → Option TomlMembers) :
    List String → TableOrigin → TomlMembers → Option TomlMembers
  | [], o, ms => f o ms
  | k :: path, _, ms =>
    match find? ms k with
    | none =>
      let o : TableOrigin := if dotted then .dotted else .implied
      (change dotted f path o []).map fun sub => ms ++ [(k, .table o sub)]
    | some (.table o sub) =>
      if o == .inline || (dotted && o == .header) then none
      else (change dotted f path o sub).map fun sub' => replace ms k (.table o sub')
    | some (.tables items) =>
      match items.getLast? with
      | none => none
      | some sub =>
        (change dotted f path .header sub).map fun sub' =>
          replace ms k (.tables (items.dropLast ++ [sub']))
    | some _ => none

/-- Adds a value under a key with dots. The last table on the way has to come from such keys
itself. -/
def assign (path : List String) (k : String) (v : Toml) (o : TableOrigin) (ms : TomlMembers) :
    Option TomlMembers :=
  change true (fun o ms =>
    if (o == .dotted) == path.isEmpty then none
    else if (find? ms k).isSome then none
    else some (ms ++ [(k, v)])) path o ms

/-- Adds the table of a header. -/
def addTable (path : List String) (k : String) (root : TomlMembers) : Option TomlMembers :=
  change false (fun _ ms =>
    match find? ms k with
    | none => some (ms ++ [(k, .table .header [])])
    | some (.table .implied sub) => some (replace ms k (.table .header sub))
    | some _ => none) path .header root

/-- Adds one more table to the list of tables of a header. -/
def addElement (path : List String) (k : String) (root : TomlMembers) : Option TomlMembers :=
  change false (fun _ ms =>
    match find? ms k with
    | none => some (ms ++ [(k, .tables [[]])])
    | some (.tables items) => some (replace ms k (.tables (items ++ [[]])))
    | some _ => none) path .header root

end Toml

end Rowtime
