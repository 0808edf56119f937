import Rowtime.Engine.Plan
import Rowtime.Log.Frame
import Rowtime.Sql.Parser.Statement

/-!
# Engines

An engine is one reader and writer of a log. Its catalog is the replay of the
log up to its cursor. It catches up with the log when a statement comes under
an execution number other than that of the statement before, and after it has
written; under one number the writes of others stay out of sight until then.

The log is an argument and a result: several engines can work on one.
-/
namespace Rowtime

open Log Sql

/-- A reader and writer of a log. -/
structure Engine where
  catalog : Catalog
  cursor : Cursor
  lastExecution : Option UInt64
deriving DecidableEq, Inhabited

/-- What became of a statement. -/
structure Executed where
  result : Except Fault Outcome
  engine : Engine
  log : Bytes

namespace Engine

/-- An engine that has read nothing. -/
def blank : Engine := ⟨.empty, .start, none⟩

/-- The engine after it has applied what was added to the log. -/
def catchUp (e : Engine) (log : Bytes) : Engine :=
  let r := e.cursor.read log
  { e with catalog := replay e.catalog (r.1.map (·.operation)), cursor := r.2 }

/-- How many of the added entries fit. -/
def countNew (e : Engine) (log : Bytes) : Nat :=
  countApplied e.catalog ((e.cursor.read log).1.map (·.operation))

/-- An engine that has read the whole log. -/
def start (log : Bytes) : Engine := blank.catchUp log

/-- The engine at the beginning of a statement: under a new number it catches up first. -/
def enter (e : Engine) (id : UInt64) (log : Bytes) : Engine :=
  if e.lastExecution = some id then e else { e.catchUp log with lastExecution := some id }

/-- Seconds of a clock reading in nanoseconds; there are none before the epoch. -/
def seconds (now : Int64) : UInt64 := UInt64.ofNat (now.toInt.toNat / 1000000000)

/-- Records operations one after the other, up to the first that is refused. -/
def record (e : Engine) (now : Int64) (log : Bytes) : List Operation → Option Fault × Engine × Bytes
  | [] => (none, e, log)
  | op :: r =>
    match e.cursor.append (seconds now) op log with
    | (.ok log', c) => record { e with cursor := c } now log' r
    | (.error why, c) => (some why, { e with cursor := c }, log)

/-- Carries out a plan. -/
def carryOut (e : Engine) (now : Int64) (log : Bytes) : Plan → Executed
  | .answer o => ⟨.ok o, e, log⟩
  | .record ops o =>
    match e.record now log ops with
    | (none, e', log') => ⟨.ok o, e'.catchUp log', log'⟩
    | (some why, e', log') => ⟨.error why, e', log'⟩

/-- Decides about a statement under an execution number at a clock reading in nanoseconds. Nothing
is recorded yet. -/
def decide (e : Engine) (now : Int64) (id : UInt64) (log : Bytes) (s : Statement) :
    Except Fault Plan × Engine :=
  let e := e.enter id log
  (s.plan now e.catalog, e)

/-- Runs a statement under an execution number at a clock reading in nanoseconds. -/
def executeStatement (e : Engine) (now : Int64) (id : UInt64) (log : Bytes) (s : Statement) :
    Executed :=
  match e.decide now id log s with
  | (.error why, e') => ⟨.error why, e', log⟩
  | (.ok p, e') => e'.carryOut now log p

/-- Runs the text of a statement. A text that is no statement does not touch the engine. -/
def execute (e : Engine) (now : Int64) (id : UInt64) (log : Bytes) (sql : String) : Executed :=
  match parseStatement sql with
  | .error why => ⟨.error why, e, log⟩
  | .ok s => e.executeStatement now id log s

end Engine

end Rowtime
