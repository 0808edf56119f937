import Rowtime.Engine.Basic

/-!
# Engines that share a log

A site is one log and the engines that work on it, each under a number. An
engine is opened on first use. Every engine has its own series of execution
numbers: a statement without a number gets the one after the last.
-/
namespace Rowtime

open Log

/-- An engine with the last execution number used on it. -/
structure Client where
  engine : Engine
  lastId : UInt64
deriving Inhabited

/-- One log and its engines. -/
structure Site where
  log : Bytes
  clients : List (Nat × Client)
deriving Inhabited

namespace Site

/-- A site with an empty log and no engines. -/
def empty : Site := ⟨[], []⟩

/-- An engine that is opened now. -/
def opened (s : Site) : Client := ⟨Engine.start s.log, 0⟩

/-- The engine with a number; it is opened if it is not there. -/
def client (s : Site) (n : Nat) : Client :=
  ((s.clients.find? fun c => c.1 = n).map (·.2)).getD s.opened

/-- The site with an engine under a number. -/
def put (s : Site) (n : Nat) (c : Client) : Site :=
  { s with clients := (n, c) :: s.clients.filter fun x => x.1 ≠ n }

/-- Opens or reopens an engine. -/
def reopen (s : Site) (n : Nat) : Site := s.put n s.opened

/-- Runs a statement on an engine. -/
def execute (s : Site) (now : Int64) (n : Nat) (id : Option UInt64) (sql : String) :
    Except Fault Outcome × Site :=
  let c := s.client n
  let id := id.getD (c.lastId + 1)
  let x := c.engine.execute now id s.log sql
  (x.result, { s with log := x.log }.put n ⟨x.engine, id⟩)

/-- Lets an engine catch up, and counts the entries that fit. -/
def refresh (s : Site) (n : Nat) : Nat × Site :=
  let c := s.client n
  (c.engine.countNew s.log, s.put n ⟨c.engine.catchUp s.log, c.lastId⟩)

/-- The tables that an engine sees. -/
def catalog (s : Site) (n : Nat) : Catalog × Site :=
  let c := s.client n
  (c.engine.catalog, s.put n c)

end Site

end Rowtime
