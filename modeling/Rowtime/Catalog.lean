import Rowtime.Table

/-!
# The catalog

The tables of a database under their lower-cased names, in the order of those
names. Names are looked up without regard to case.
-/
namespace Rowtime

open Text

/-- Tables under their keys, in key order. -/
structure Catalog where
  entries : List (String × Table)
deriving DecidableEq, Inhabited

namespace Catalog

/-- A catalog without tables. -/
def empty : Catalog := ⟨[]⟩

/-- The key of a table name. -/
def key (name : String) : String := lower name

/-- The table with a name. -/
def get? (c : Catalog) (name : String) : Option Table :=
  (c.entries.find? fun e => e.1 == key name).map (·.2)

/-- The entries with one more, in key order; an equal key is replaced. -/
def insertEntry (k : String) (t : Table) : List (String × Table) → List (String × Table)
  | [] => [(k, t)]
  | (k', t') :: r =>
    if k < k' then (k, t) :: (k', t') :: r
    else if k == k' then (k, t) :: r
    else (k', t') :: insertEntry k t r

/-- The catalog with a table under its own name. -/
def set (c : Catalog) (name : String) (t : Table) : Catalog :=
  ⟨insertEntry (key name) t c.entries⟩

/-- The catalog with a new table. -/
def create (c : Catalog) (t : Table) : Except Fault Catalog :=
  match c.get? t.name with
  | some _ => .error (.tableExists t.name)
  | none => .ok (c.set t.name t)

/-- The catalog without a table. -/
def drop (c : Catalog) (name : String) : Except Fault Catalog :=
  match c.get? name with
  | none => .error (.tableNotFound name)
  | some _ => .ok ⟨c.entries.filter fun e => !(e.1 == key name)⟩

/-- The table with a name, or the fault that there is none. -/
def table (c : Catalog) (name : String) : Except Fault Table :=
  match c.get? name with
  | some t => .ok t
  | none => .error (.tableNotFound name)

/-- The tables in key order. -/
def tables (c : Catalog) : List Table := c.entries.map (·.2)

end Catalog

end Rowtime
