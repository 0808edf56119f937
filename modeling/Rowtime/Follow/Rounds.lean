import Rowtime.Follow.Bounds
import Rowtime.Follow.Record
import Rowtime.Sql.Parser.Statement

/-!
# Following a query in rounds

A query is followed by running it once up to the marks that its tables have,
and then again for what was added, table by table:

* the first round probes every table and runs the query within the marks;
* a check probes every table again; while no mark has changed, it waits;
* a round of changes runs the query once for each table, bounded by the new
  marks from above and, for that table, by its former mark from below. It waits
  after each of these that finds no rows.

Waiting also follows a first round without rows. The loop ends when a wait is
cut short, or at the first fault. Every statement, probes included, has an
execution number of its own, counted from one.

The loop is given as single steps over a `Host`, which executes statements,
takes pieces of output and waits. A step is finite; nothing is said about how
many steps there are.
-/
namespace Rowtime

open Sql

/-- What ends a run that is not cancelled. -/
inductive FollowFault where
  | syntaxFault (why : Fault)
  | probe (table : String) (why : Fault)
  | execution (why : Fault)
  | output (why : String)
deriving DecidableEq

/-- The wording of a fault. -/
def FollowFault.message : FollowFault → String
  | .syntaxFault why => "Parse error: " ++ why.message
  | .probe table why =>
    "Watermark probe failed for table '" ++ table ++ "': " ++ why.message
  | .execution why => "Query execution failed: " ++ why.message
  | .output why => "Failed to write output: " ++ why

/-- What a run needs: something that executes statements under their numbers, something that
takes pieces of output, and a wait that tells whether it lasted its whole time. -/
structure Host (m : Type → Type) where
  execute : UInt64 → String → m (Except Fault Outcome)
  write : Write m
  wait : m Bool

/-- The counts of a run: rounds begun, queries that were run and written, rows written. -/
structure Totals where
  rounds : UInt64
  queries : UInt64
  rows : UInt64
deriving DecidableEq, Inhabited

namespace Totals

/-- Nothing counted. -/
def zero : Totals := ⟨0, 0, 0⟩

/-- One round more. -/
def addRound (t : Totals) : Totals := { t with rounds := t.rounds + 1 }

/-- One query more, with its rows. -/
def addQuery (t : Totals) (rows : Nat) : Totals :=
  { t with queries := t.queries + 1, rows := t.rows + UInt64.ofNat rows }

end Totals

/-- Where a run stands. In a round of changes the tables are listed that have not had their
query yet. -/
inductive Phase where
  | first
  | idle
  | check
  | changes (marks : Marks) (pending : List TableRef)
deriving DecidableEq

/-- A run between two steps: the phase, the marks of the last round, the next execution number
and the counts. -/
structure Run where
  phase : Phase
  former : Marks
  nextId : UInt64
  totals : Totals
deriving DecidableEq

/-- The result of a step. -/
inductive Progress where
  | running (r : Run)
  | cancelled (t : Totals)
  | failed (why : FollowFault)
deriving DecidableEq

namespace Run

/-- The beginning of a run. -/
def start : Run := ⟨.first, .empty, 1, .zero⟩

section
variable {m : Type → Type} [Monad m]

/-- The mark of a table, asked for under a number. -/
def probe (host : Host m) (id : UInt64) (t : TableRef) : m (Except FollowFault Int64) := do
  match ← host.execute id t.probe with
  | .error why => return .error (.probe t.name why)
  | .ok o =>
    match markOf o with
    | .error why => return .error (.probe t.name why)
    | .ok mark => return .ok mark

/-- The marks of tables, asked for one after the other, added to those there are; and the next
number. -/
def probeAll (host : Host m) (id : UInt64) (found : Marks) :
    List TableRef → m (Except FollowFault Marks × UInt64)
  | [] => return (.ok found, id)
  | t :: r => do
    match ← probe host id t with
    | .error why => return (.error why, id + 1)
    | .ok mark => probeAll host (id + 1) (found.put t mark) r

/-- Runs a statement and writes its rows; gives their number. -/
def deliver (host : Host m) (shape : Shape) (id : UInt64) (sql : String) :
    m (Except FollowFault Nat) := do
  match ← host.execute id sql with
  | .error why => return .error (.execution why)
  | .ok o =>
    match (← writeRows host.write shape o.columns o.rows).1 with
    | .error why => return .error (.output why)
    | .ok n => return .ok n

/-- The first round. -/
def firstRound (host : Host m) (shape : Shape) (q : Query) (r : Run) : m Progress := do
  match ← probeAll host r.nextId .empty q.tables with
  | (.error why, _) => return .failed why
  | (.ok marks, id) =>
    match ← deliver host shape id (q.bounded marks none).display with
    | .error why => return .failed why
    | .ok n =>
      return .running ⟨if n = 0 then .idle else .check, marks, id + 1,
        r.totals.addRound.addQuery n⟩

/-- A check whether a mark has changed. -/
def check (host : Host m) (q : Query) (r : Run) : m Progress := do
  match ← probeAll host r.nextId .empty q.tables with
  | (.error why, _) => return .failed why
  | (.ok marks, id) =>
    if marks.same r.former then return .running { r with phase := .idle, nextId := id }
    else
      return .running
        { r with phase := .changes marks q.tables, nextId := id, totals := r.totals.addRound }

/-- The query for one table of a round of changes, and the wait behind it if it finds no rows. -/
def advance (host : Host m) (shape : Shape) (q : Query) (r : Run) (marks : Marks) (t : TableRef)
    (pending : List TableRef) : m Progress := do
  let a : Advance := ⟨t, (r.former.get? t).getD 0⟩
  match ← deliver host shape r.nextId (q.bounded marks (some a)).display with
  | .error why => return .failed why
  | .ok n =>
    let r' : Run :=
      { r with
        phase := .changes marks pending, nextId := r.nextId + 1, totals := r.totals.addQuery n }
    if n = 0 then
      if ← host.wait then return .running r' else return .cancelled r'.totals
    else return .running r'

/-- One step of following a query. -/
def step (host : Host m) (shape : Shape) (q : Query) (r : Run) : m Progress :=
  match r.phase with
  | .first => firstRound host shape q r
  | .idle => do
    if ← host.wait then return .running { r with phase := .check } else return .cancelled r.totals
  | .check => check host q r
  | .changes marks [] => return .running { r with phase := .check, former := marks }
  | .changes marks (t :: pending) => advance host shape q r marks t pending

/-- Up to `n` steps of following a query. -/
def steps (host : Host m) (shape : Shape) (q : Query) : Nat → Run → m Progress
  | 0, r => return .running r
  | n + 1, r => do
    match ← step host shape q r with
    | .running r' => steps host shape q n r'
    | done => return done

/-- Runs a statement that is no query, once. -/
def once (host : Host m) (shape : Shape) (sql : String) : m Progress := do
  match ← deliver host shape 1 sql with
  | .error why => return .failed why
  | .ok n => return .cancelled (Totals.zero.addQuery n)

/-- Up to `n` steps for the text of a statement. -/
def follow (host : Host m) (shape : Shape) (n : Nat) (sql : String) : m Progress :=
  match parseStatement sql with
  | .error why => return .failed (.syntaxFault why)
  | .ok (.query q) => steps host shape q n start
  | .ok _ => once host shape sql

end

end Run

end Rowtime
