import Rowtime.Engine.Site
import Rowtime.Follow.Rounds

/-!
# Rehearsing a run

A run is rehearsed on two engines that share a log. The reader follows a query;
the writer executes what a script says at given moments: before the run, in the
middle of a wait, or after a statement of the reader. The script also says when
the run is cancelled. Waits take no time, and what happens is kept in a list of
events.
-/
namespace Rowtime

/-- When the writer writes what, and when the run is cancelled: in the middle of the wait behind
`polls` others, or after a statement of the reader. Waits and statements are counted from one. -/
structure Script where
  polls : Nat
  duringWait : List (Nat × List String)
  afterStatement : List (Nat × List String)
  cancelAfter : Option Nat

/-- Something that happened: a statement of the reader or of the writer. -/
inductive Event where
  | executed (id : UInt64) (sql : String) (result : Except Fault Tag)
  | written (sql : String) (result : Except Fault Tag)

/-- The state of a rehearsal. Events are kept with the last one first. -/
structure Rehearsal where
  site : Site
  clock : Int64
  statements : Nat
  waits : Nat
  cancelled : Bool
  sink : Sink
  events : List Event

namespace Rehearsal

/-- The number of the engine that follows. -/
def reader : Nat := 0

/-- The number of the engine that writes. -/
def writer : Nat := 1

/-- The beginning of a rehearsal with a limit for the output. -/
def start (clock : Int64) (limit : Option Nat) : Rehearsal :=
  ⟨.empty, clock, 0, 0, false, .empty limit, []⟩

/-- The short report of a result. -/
def tagOf (x : Except Fault Outcome) : Except Fault Tag := x.map (·.tag)

/-- Lets the writer execute a statement under a number of its own. -/
def write (x : Rehearsal) (sql : String) : Except Fault Tag × Rehearsal :=
  let r := x.site.execute x.clock writer none sql
  (tagOf r.1, { x with site := r.2 })

/-- Lets the writer execute a statement and notes it. -/
def writeNoted (x : Rehearsal) (sql : String) : Rehearsal :=
  let r := x.write sql
  { r.2 with events := .written sql r.1 :: r.2.events }

/-- The statements of a script for a moment. -/
def due (entries : List (Nat × List String)) (n : Nat) : List String :=
  (entries.filter fun e => e.1 = n).flatMap (·.2)

/-- Lets the writer execute what the script says for a moment. -/
def perform (x : Rehearsal) (entries : List (Nat × List String)) (n : Nat) : Rehearsal :=
  (due entries n).foldl writeNoted x

/-- Lets the reader execute a statement, then what the script says for this moment. -/
def execute (s : Script) (id : UInt64) (sql : String) :
    StateM Rehearsal (Except Fault Outcome) := fun x =>
  let r := x.site.execute x.clock reader (some id) sql
  let n := x.statements + 1
  let x := { x with site := r.2, statements := n, events := .executed id sql (tagOf r.1) :: x.events }
  let x := x.perform s.afterStatement n
  (r.1, if s.cancelAfter = some n then { x with cancelled := true } else x)

/-- Takes a piece of output. -/
def take (piece : String) : StateM Rehearsal (Except String Unit) := fun x =>
  let r := (Sink.write piece).run x.sink
  (r.1, { x with sink := r.2 })

/-- A wait: cut short at once if the run is cancelled, cut short in the middle if it is behind
the last that the script grants, else with the writes of the script in its middle. -/
def wait (s : Script) : StateM Rehearsal Bool := fun x =>
  let n := x.waits + 1
  let x := { x with waits := n }
  if x.cancelled then (false, x)
  else if s.polls < n then (false, { x with cancelled := true })
  else (true, x.perform s.duringWait n)

/-- The host of a rehearsal. -/
def host (s : Script) : Host (StateM Rehearsal) := ⟨execute s, take, wait s⟩

/-- Lets the writer execute statements before the run; gives their reports. -/
def prepare (x : Rehearsal) : List String → List (Except Fault Tag) × Rehearsal
  | [] => ([], x)
  | sql :: r =>
    let a := x.write sql
    let b := prepare a.2 r
    (a.1 :: b.1, b.2)

/-- The count of statements in the entries of a script. -/
def size (entries : List (Nat × List String)) : Nat := entries.foldr (fun e n => e.2.length + n) 0

/-- A number of steps within which a rehearsed run ends: only a write can start a round of
changes, and apart from these a step is a wait or leads to one. -/
def enoughSteps (s : Script) (sql : String) : Nat :=
  (s.polls + size s.duringWait + size s.afterStatement + 4) * (sql.length + 8)

/-- Follows the text of a statement to its end. -/
def follow (x : Rehearsal) (s : Script) (shape : Shape) (sql : String) : Progress × Rehearsal :=
  (Run.follow (host s) shape (enoughSteps s sql) sql).run x

end Rehearsal

end Rowtime
