import Rowtime.Sql.Parser.Query
import Rowtime.Sql.Statement

/-!
# Parsing statements

A statement may have blanks around it and semicolons at its end. The forms are
tried one after the other, a query last, so a text that is no statement is
reported where the query stopped.
-/
namespace Rowtime.Sql

namespace Parser

/-- A change that a column option makes to a declared column. -/
def columnOption : Parser (ColumnDef → ColumnDef) :=
  oneOf [
    do keywords "NOT" "NULL"; return fun c => { c with nullable := false },
    do keyword "NULL"; return fun c => { c with nullable := true },
    do
      keywords "PRIMARY" "KEY"
      return fun c => { c with primaryKey := true, nullable := false, unique := true },
    do keyword "UNIQUE"; return fun c => { c with unique := true },
    do
      keyword "DEFAULT"
      let v ← literal
      return fun c => { c with defaultValue := some v }]

/-- A declared column; options apply in their order. -/
def columnDef : Parser ColumnDef := do
  let name ← spaced identifier
  let type ← spaced sqlType
  let options ← many columnOption
  return options.foldl (fun c f => f c) ⟨name, type, true, false, false, none⟩

/-- The definition of a table. -/
def createTable : Parser Statement := do
  keywords "CREATE" "TABLE"
  let flag ← present (do keyword "IF"; keywords "NOT" "EXISTS")
  let name ← spaced identifier
  let columns ← parenthesized (separated (symbol ',') columnDef)
  return .createTable name columns flag

/-- The removal of a table. -/
def dropTable : Parser Statement := do
  keywords "DROP" "TABLE"
  let flag ← present (keywords "IF" "EXISTS")
  let name ← spaced identifier
  return .dropTable name flag

/-- Rows for a table. -/
def insertRows : Parser Statement := do
  keywords "INSERT" "INTO"
  let table ← spaced identifier
  let columns ← optional (parenthesized (separated (symbol ',') (spaced identifier)))
  keyword "VALUES"
  let rows ← separated (symbol ',') (parenthesized (separated (symbol ',') literal))
  return .insert table columns rows

/-- The question for the tables, in either of its forms. -/
def showTables : Parser Statement := do
  orElse (keywords "SHOW" "TABLES") (spaced (exactly ['\\', 'd', 't']))
  return .showTables

/-- Any statement. -/
def statement : Parser Statement :=
  oneOf [showTables, createTable, dropTable, insertRows, do return .query (← query)]

end Parser

open Text

/-- Reads a text that is one statement. -/
def parseStatement (text : String) : Except Fault Statement :=
  match Parser.statement (trimRight (· == ';') (trim text.toList)) with
  | .error e => .error (.badSyntax (.stopped e))
  | .ok (s, r) =>
    match trim r with
    | [] => .ok s
    | rest => .error (.badSyntax (.trailing (String.ofList rest)))

end Rowtime.Sql
