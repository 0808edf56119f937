import Rowtime.Proofs.Expressions
import Rowtime.Proofs.PlainCalls

/-!
# Statements that are read again

A statement that was read from a text is printed and read again. It is the same
statement unless its own text says less than the first text did. That happens in
three ways. Parentheses between a minus sign and a number are not written, and the
sign becomes part of the number. NULL behind PRIMARY KEY is not written, and the key
takes no NULL. And the name of a call is written without its quotes.

These are the only ways (`Statement.settled`, `Statement.callsPlain`).
-/
namespace Rowtime.Sql

open Rowtime.Sql.Parser

/-- Whether the column is no key that takes NULL. -/
def ColumnDef.settled (c : ColumnDef) : Bool := !(c.primaryKey && c.nullable)

/-- Whether the statement has no sign directly in front of a number and no key that takes NULL. -/
def Statement.settled : Statement → Bool
  | .createTable _ columns _ => columns.all ColumnDef.settled
  | .query q => q.exprs.all fun e => e.every Expr.signApart
  | _ => true

theorem ColumnDef.reread_eq_self_iff {c : ColumnDef} (h : c.primaryKey = true → c.unique = true) :
    c.reread = c ↔ c.settled = true := by
  obtain ⟨name, type, nullable, primaryKey, unique, defaultValue⟩ := c
  cases primaryKey with
  | false => simp [reread, settled]
  | true =>
      have hunique : unique = true := h rfl
      cases nullable <;> simp [reread, settled, hunique]

theorem Statement.reread_eq_self_iff {s : Statement} (h : GoodStatement s) :
    s.reread = s ↔ s.settled = true := by
  cases s with
  | createTable name columns b =>
      have hcolumns : columns.map ColumnDef.reread = columns ↔
          ∀ c ∈ columns, c.settled = true := by
        have hmap := List.map_eq_map_iff (f := ColumnDef.reread) (g := id) (l := columns)
        rw [List.map_id] at hmap
        exact hmap.trans
          (forall₂_congr fun c hc => ColumnDef.reread_eq_self_iff (h.2 name columns b rfl c hc))
      rw [reread, settled, List.all_eq_true, createTable.injEq]
      simpa using hcolumns
  | query q =>
      rw [reread, settled, List.all_eq_true, query.injEq, Query.reread_eq_self_iff]
      exact forall₂_congr fun e _ => Expr.reread_eq_self_iff
  | _ => exact ⟨fun _ => rfl, fun _ => rfl⟩

/-- A statement that was read from a text is read from its own text exactly if its calls have plain
names, no sign stands directly in front of a number and no key takes NULL. -/
theorem Statement.read_again_iff {text : String} {s : Statement} (h : parseStatement text = .ok s) :
    parseStatement s.display = .ok s ↔ s.callsPlain = true ∧ s.settled = true := by
  have hgood := good_of_parsed h
  have hplain : s.callsPlain = true → (parseStatement s.display = .ok s ↔ s.settled = true) := by
    intro hc
    rw [Statement.parse_display (hgood.1 hc), Except.ok.injEq]
    exact Statement.reread_eq_self_iff hgood
  constructor
  · intro hread
    have hc := Statement.callsPlain_of_read hread
    exact ⟨hc, (hplain hc).mp hread⟩
  · rintro ⟨hc, hsettled⟩
    exact (hplain hc).mpr hsettled

/-- Whether a text is a statement that passes a test. -/
def accepted (p : Statement → Bool) (text : String) : Bool :=
  match parseStatement text with
  | .ok s => p s
  | .error _ => false

theorem accepted_iff {p : Statement → Bool} {text : String} :
    accepted p text = true ↔ ∃ s, parseStatement text = .ok s ∧ p s = true := by
  unfold accepted
  cases parseStatement text with
  | error e => simp
  | ok s => simp

/-- A table called `if`, its options in another order than they are printed in. -/
def tableText : String :=
  "create table \"if\" (a decimal unique default -1.50 not null, b char primary key)"

theorem Statement.read_again_table :
    ∃ s, parseStatement tableText = .ok s ∧ s.callsPlain = true ∧
      parseStatement s.display = .ok s := by
  have htest : accepted (fun s => s.callsPlain && s.settled) tableText = true := by decide +kernel
  obtain ⟨s, hs, hp⟩ := accepted_iff.mp htest
  rw [Bool.and_eq_true] at hp
  exact ⟨s, hs, hp.1, (Statement.read_again_iff hs).mpr hp⟩

/-- Whether what is read from the text of a statement is that statement, numbers being equal by
value. -/
def Statement.readAgain (s : Statement) : Bool := accepted (fun t => t.same s) s.display

/-- Three texts that are statements whose own text is read as another statement or as none. -/
theorem Statement.not_read_again :
    (∃ s, parseStatement "SELECT -(5)" = .ok s ∧ s.readAgain = false) ∧
      (∃ s, parseStatement "CREATE TABLE t (a INTEGER PRIMARY KEY NULL)" = .ok s ∧
        s.readAgain = false) ∧
      ∃ s, parseStatement "SELECT \"my f\"(1)" = .ok s ∧ s.readAgain = false := by
  have htexts : ∀ text ∈ ["SELECT -(5)", "CREATE TABLE t (a INTEGER PRIMARY KEY NULL)",
      "SELECT \"my f\"(1)"], accepted (fun s => !s.readAgain) text = true := by decide +kernel
  simpa [accepted_iff] using htexts

end Rowtime.Sql
