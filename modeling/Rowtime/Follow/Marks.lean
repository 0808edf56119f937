import Rowtime.Engine.Plan
import Rowtime.Follow.TableRef

/-!
# Watermarks

The mark of a table is the greatest row time stored in it, or zero. `Marks`
holds the marks of several occurrences in the order in which they were found.
A mark is found by a probe: a query for the greatest row time, whose answer has
to be a 64-bit integer.
-/
namespace Rowtime

open Text

/-- Occurrences with their marks. -/
structure Marks where
  entries : List (TableRef × Int64)
deriving DecidableEq, Inhabited

namespace Marks

/-- No marks. -/
def empty : Marks := ⟨[]⟩

/-- The entries with a new mark in place of the first for an equal occurrence, else at the end. -/
def putEntry (t : TableRef) (mark : Int64) : List (TableRef × Int64) → List (TableRef × Int64)
  | [] => [(t, mark)]
  | (u, n) :: r => if u.same t then (u, mark) :: r else (u, n) :: putEntry t mark r

/-- The marks with one set. -/
def put (s : Marks) (t : TableRef) (mark : Int64) : Marks := ⟨putEntry t mark s.entries⟩

/-- The marks of a list of occurrences, set one after the other. -/
def ofList (ms : List (TableRef × Int64)) : Marks := ms.foldl (fun s m => s.put m.1 m.2) empty

/-- The mark of an occurrence. -/
def get? (s : Marks) (t : TableRef) : Option Int64 :=
  (s.entries.find? fun e => e.1.same t).map (·.2)

/-- The marks of the occurrences in a list. -/
def restrict (s : Marks) (ts : List TableRef) : Marks :=
  ⟨s.entries.filter fun e => e.1.isIn ts⟩

/-- Equality: equal occurrences with equal marks in the same order. -/
def same (a b : Marks) : Bool :=
  Sql.sameBy (fun x y => x.1.same y.1 && x.2 == y.2) a.entries b.entries

end Marks

/-- The statement that asks for the mark of a table; the table is addressed by its name. -/
def TableRef.probe (t : TableRef) : String :=
  "SELECT COALESCE(max(rowtime), 0) FROM " ++ Doubled.quoted '"' t.name

/-- The mark in the answer to a probe; no row or no value stands for zero. -/
def markOf (o : Outcome) : Except Fault Int64 :=
  match o.rows with
  | [] | [] :: _ => .ok 0
  | (v :: _) :: _ =>
    match v.toInt64? with
    | some i => .ok i
    | none => .error (.typeMismatch (.watermark v.display))

end Rowtime
