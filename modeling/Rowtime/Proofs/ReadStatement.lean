import Rowtime.Proofs.ReadColumn
import Rowtime.Proofs.RoundTrip

/-!
# Reading statements back

The text of a legible statement of any kind is one statement. What is read from it
is the statement but for two things (`Statement.reread`): a minus sign in front of
a number becomes part of the number, and a key column is unique and takes no NULL.

A table may be called `if`. The words IF EXISTS and IF NOT EXISTS are then not
there, and the name is left for what reads the name.
-/
namespace Rowtime.Sql

open Text

namespace Statement

/-- The statement has a text from which it is read. -/
def Legible : Statement → Prop
  | .createTable _ columns _ => columns ≠ [] ∧ ∀ c ∈ columns, c.Legible
  | .dropTable _ _ => True
  | .insert _ columns rows =>
    columns ≠ some [] ∧ rows ≠ [] ∧ ∀ r ∈ rows, r ≠ [] ∧ ∀ v ∈ r, LegibleLiteral v
  | .showTables => True
  | .query q => q.Legible

/-- What is read from the text of a statement. -/
def reread : Statement → Statement
  | .createTable name columns b => .createTable name (columns.map ColumnDef.reread) b
  | .query q => .query q.reread
  | s => s

end Statement

namespace Parser

/-! ## Tables -/

/-- A name behind which a space, a parenthesis or the end stands. -/
theorem spaced_identifier (name : String) {rest : List Char} (h : nameEnds rest = true) :
    spaced identifier (nameChars name ++ rest) = .ok (name, skip rest) :=
  spaced_ok (by rw [(nameChars_solid name).skip, identifier_ok name h])

/-- Words behind IF are read where they are written, and not taken from a name. -/
theorem flag_ok {q : Parser Unit} {word : List Char} (b : Bool) (name : String) {rest : List Char}
    (hends : nameEnds rest = true) (hq : Refuses q (skip rest))
    (hword : ∀ r, (do keyword "IF"; q) (word ++ r) = .ok ((), skip r)) :
    present (do keyword "IF"; q) ((if b then word else []) ++ (nameChars name ++ rest)) =
      .ok (b, nameChars name ++ rest) := by
  cases b with
  | true =>
      have hread := hword (nameChars name ++ rest)
      rw [(nameChars_solid name).skip] at hread
      exact present_ok hread
  | false =>
      apply present_refuses
      change Refuses (do keyword "IF"; q) (nameChars name ++ rest)
      rcases keyword_name (v := "IF") (by decide) (by decide) name hends with h | h
      · exact bind_refuses h
      · exact bind_ok_refuses h hq

/-- A list in parentheses is read when each of its elements is, before every fence. -/
theorem listInParens_ok {α β : Type} {p : Parser β} {xs : List α} {text : α → List Char} {f : α → β}
    (hne : xs ≠ []) (hsolid : ∀ x ∈ xs, Solid (text x))
    (hread : ∀ x ∈ xs, ∀ s, Fence [] s → p (text x ++ s) = .ok (f x, skip s)) (rest : List Char) :
    parenthesized (separated (symbol ',') p) ('(' :: (commaList (xs.map text) ++ ')' :: rest)) =
      .ok (xs.map f, skip rest) := by
  have hlist : separated (symbol ',') p (commaList (xs.map text) ++ ')' :: rest) =
      .ok (xs.map f, ')' :: rest) :=
    (list_ok hne hsolid (fun x hx s hs => .behind (hread x hx s hs)) ⟨.close rest, rfl⟩).ok
      (skip_cons (by decide) rest)
  refine parenthesized_ok (r := ')' :: rest) ?_ (skip_cons (by decide) rest)
  rw [(list_solid hne hsolid).skip, hlist]

theorem flagged_solid (word : List Char) (hw : Solid word) (b : Bool) (name : String)
    (rest : List Char) : Solid ((if b then word else []) ++ (nameChars name ++ rest)) := by
  cases b with
  | true => exact hw.append _
  | false => exact (nameChars_solid name).append rest

/-- The words of a definition by themselves, before all that stands behind them. -/
theorem createChars_eq (f n l : List Char) :
    "CREATE TABLE ".toList ++ f ++ n ++ " (".toList ++ l ++ [')'] =
      "CREATE".toList ++ ' ' ::
        ("TABLE".toList ++ ' ' :: (f ++ (n ++ ' ' :: '(' :: (l ++ [')'])))) := by
  simp only [List.append_assoc]
  rfl

/-- The definition of a table is read from its text. -/
theorem createTable_ok (name : String) {columns : List ColumnDef} (hne : columns ≠ [])
    (h : ∀ c ∈ columns, c.Legible) (b : Bool) :
    createTable (Statement.createTable name columns b).chars =
      .ok (.createTable name (columns.map ColumnDef.reread) b, []) := by
  have hsolid : ∀ c ∈ columns, Solid c.chars := fun c _ => by
    rw [c.chars_eq]
    exact (nameChars_solid c.name).append _
  have hcolumns : parenthesized (separated (symbol ',') columnDef)
      ('(' :: (commaList (columns.map ColumnDef.chars) ++ [')'])) =
        .ok (columns.map ColumnDef.reread, []) :=
    listInParens_ok hne hsolid (fun c hc _ hs => columnDef_ok (h c hc) hs) []
  have hname : spaced identifier (nameChars name ++
      ' ' :: '(' :: (commaList (columns.map ColumnDef.chars) ++ [')'])) =
        .ok (name, '(' :: (commaList (columns.map ColumnDef.chars) ++ [')'])) :=
    spaced_identifier name rfl
  have hflag : present (do keyword "IF"; keywords "NOT" "EXISTS")
      ((if b then "IF NOT EXISTS ".toList else []) ++ (nameChars name ++
        ' ' :: '(' :: (commaList (columns.map ColumnDef.chars) ++ [')']))) =
      .ok (b, nameChars name ++ ' ' :: '(' :: (commaList (columns.map ColumnDef.chars) ++ [')'])) := by
    refine flag_ok b name rfl (bind_refuses (keyword_refuses rfl)) fun r => ?_
    have hif : keyword "IF" ("IF NOT EXISTS ".toList ++ r) = .ok ((), "NOT EXISTS ".toList ++ r) :=
      keyword_space (w := "IF") (t := "NOT EXISTS ".toList ++ r) rfl
    have hnot : keywords "NOT" "EXISTS" ("NOT EXISTS ".toList ++ r) = .ok ((), skip r) :=
      keywords_at (v := "EXISTS") (r := ' ' :: r) (solid_of_head rfl) rfl rfl
    exact (bind_ok hif).trans hnot
  have hcreate : Solid "CREATE".toList := solid_of_head rfl
  have hwords := keywords_space (w := "CREATE") (v := "TABLE") (solid_of_head rfl)
    (flagged_solid "IF NOT EXISTS ".toList (solid_of_head rfl) b name
      (' ' :: '(' :: (commaList (columns.map ColumnDef.chars) ++ [')']))) (hcreate.skip _)
  apply (congrArg createTable (createChars_eq _ _ _)).trans
  exact (bind_ok hwords).trans ((bind_ok hflag).trans ((bind_ok hname).trans
    ((bind_ok hcolumns).trans rfl)))

theorem dropChars_eq (f n : List Char) :
    "DROP TABLE ".toList ++ f ++ n =
      "DROP".toList ++ ' ' :: ("TABLE".toList ++ ' ' :: (f ++ (n ++ []))) := by
  simp only [List.append_assoc, List.append_nil]
  rfl

/-- The removal of a table is read from its text. -/
theorem dropTable_ok (name : String) (b : Bool) :
    dropTable (Statement.dropTable name b).chars = .ok (.dropTable name b, []) := by
  have hname : spaced identifier (nameChars name ++ []) = .ok (name, []) := spaced_identifier name rfl
  have hflag : present (keywords "IF" "EXISTS")
      ((if b then "IF EXISTS ".toList else []) ++ (nameChars name ++ [])) =
      .ok (b, nameChars name ++ []) := by
    refine flag_ok (q := keyword "EXISTS") b name rfl (keyword_refuses rfl) fun r => ?_
    exact keywords_at (w := "IF") (v := "EXISTS") (r := ' ' :: r) (solid_of_head rfl) rfl rfl
  have hdrop : Solid "DROP".toList := solid_of_head rfl
  have hwords := keywords_space (w := "DROP") (v := "TABLE") (solid_of_head rfl)
    (flagged_solid "IF EXISTS ".toList (solid_of_head rfl) b name []) (hdrop.skip _)
  apply (congrArg dropTable (dropChars_eq _ _)).trans
  exact (bind_ok hwords).trans ((bind_ok hflag).trans ((bind_ok hname).trans rfl))

/-! ## Rows -/

/-- A row of literals is read from its text. -/
theorem row_ok {r : Row} (hne : r ≠ []) (h : ∀ v ∈ r, LegibleLiteral v) (rest : List Char) :
    parenthesized (separated (symbol ',') literal) (rowChars r ++ rest) = .ok (r, skip rest) := by
  have hread := listInParens_ok (p := literal) (f := id) hne (fun v hv => literal_solid (h v hv))
    (fun v hv s hs => literal_ok (h v hv) (clear_touches hs.isClear).1) rest
  rw [List.map_id] at hread
  have htext : rowChars r ++ rest =
      '(' :: (commaList (r.map fun v => v.literal.toList) ++ ')' :: rest) := by
    rw [rowChars, List.cons_append, List.append_assoc]
    rfl
  exact (congrArg _ htext).trans hread

theorem rows_ok {rows : List Row} (hne : rows ≠ [])
    (h : ∀ r ∈ rows, r ≠ [] ∧ ∀ v ∈ r, LegibleLiteral v) :
    separated (symbol ',') (parenthesized (separated (symbol ',') literal))
      (commaList (rows.map rowChars) ++ []) = .ok (rows, []) := by
  have hwall : Wall [] [] := ⟨.nil, rfl⟩
  have hread := list_ok (p := parenthesized (separated (symbol ',') literal)) (f := id) hne
    (fun r _ => solid_of_head rfl) (fun r hr s _ => .behind (row_ok (h r hr).1 (h r hr).2 s)) hwall
  rw [List.map_id] at hread
  exact hread.ok rfl

/-- The text of the names of columns, if there are any. -/
def columnsChars : Option (List String) → List Char
  | some cs => " (".toList ++ commaList (cs.map nameChars) ++ [')']
  | none => []

theorem columns_ok {columns : Option (List String)} (h : columns ≠ some []) (rest : List Char) :
    optional (parenthesized (separated (symbol ',') (spaced identifier)))
      (skip (columnsChars columns ++ (" VALUES ".toList ++ rest))) =
        .ok (columns, "VALUES".toList ++ ' ' :: rest) := by
  cases columns with
  | none => exact optional_refuses (bind_refuses (symbol_refuses rfl))
  | some cs =>
      have hne : cs ≠ [] := fun hcs => h (congrArg some hcs)
      have hread := listInParens_ok (p := spaced identifier) (f := id) hne
        (fun c _ => nameChars_solid c)
        (fun c _ s hs => spaced_identifier c hs.endsName) (" VALUES ".toList ++ rest)
      rw [List.map_id] at hread
      have htext : columnsChars (some cs) ++ (" VALUES ".toList ++ rest) =
          ' ' :: '(' :: (commaList (cs.map nameChars) ++ ')' :: (" VALUES ".toList ++ rest)) := by
        rw [columnsChars, List.append_assoc, List.append_assoc]
        rfl
      rw [htext]
      exact optional_ok hread

theorem insertChars_eq (n c r : List Char) :
    "INSERT INTO ".toList ++ n ++ c ++ " VALUES ".toList ++ r =
      "INSERT".toList ++ ' ' ::
        ("INTO".toList ++ ' ' :: (n ++ (c ++ (" VALUES ".toList ++ (r ++ []))))) := by
  simp only [List.append_assoc, List.append_nil]
  rfl

/-- Rows for a table are read from their text. -/
theorem insertRows_ok (name : String) {columns : Option (List String)} (hc : columns ≠ some [])
    {rows : List Row} (hne : rows ≠ []) (h : ∀ r ∈ rows, r ≠ [] ∧ ∀ v ∈ r, LegibleLiteral v) :
    insertRows (Statement.insert name columns rows).chars = .ok (.insert name columns rows, []) := by
  have hends : nameEnds (columnsChars columns ++
      (" VALUES ".toList ++ (commaList (rows.map rowChars) ++ []))) = true := by
    cases columns with
    | none => rfl
    | some cs => rfl
  have hinsert : Solid "INSERT".toList := solid_of_head rfl
  have hwords := keywords_space (w := "INSERT") (v := "INTO") (solid_of_head rfl)
    ((nameChars_solid name).append (columnsChars columns ++
      (" VALUES ".toList ++ (commaList (rows.map rowChars) ++ [])))) (hinsert.skip _)
  have hvalues : keyword "VALUES" ("VALUES".toList ++ ' ' :: (commaList (rows.map rowChars) ++ [])) =
      .ok ((), commaList (rows.map rowChars) ++ []) := by
    have hsolid : Solid (commaList (rows.map rowChars)) := list_solid hne fun r _ => solid_of_head rfl
    rw [keyword_space rfl, hsolid.skip]
  apply (congrArg insertRows (insertChars_eq _ _ _)).trans
  exact (bind_ok hwords).trans ((bind_ok (spaced_identifier name hends)).trans
    ((bind_ok (columns_ok hc _)).trans ((bind_ok hvalues).trans
      ((bind_ok (rows_ok hne h)).trans rfl))))

/-! ## Any statement -/

theorem statement_create {x : List Char} {s : Statement}
    (h : createTable ("CREATE".toList ++ ' ' :: x) = .ok (s, [])) :
    statement ("CREATE".toList ++ ' ' :: x) = .ok (s, []) :=
  (oneOf_refuses (showTables_refuses rfl rfl)).trans (oneOf_ok h)

theorem statement_drop {x : List Char} {s : Statement}
    (h : dropTable ("DROP".toList ++ ' ' :: x) = .ok (s, [])) :
    statement ("DROP".toList ++ ' ' :: x) = .ok (s, []) :=
  (oneOf_refuses (showTables_refuses rfl rfl)).trans
    ((oneOf_refuses (bind_refuses (bind_refuses (keyword_refuses rfl)))).trans (oneOf_ok h))

theorem statement_insert {x : List Char} {s : Statement}
    (h : insertRows ("INSERT".toList ++ ' ' :: x) = .ok (s, [])) :
    statement ("INSERT".toList ++ ' ' :: x) = .ok (s, []) :=
  (oneOf_refuses (showTables_refuses rfl rfl)).trans
    ((oneOf_refuses (bind_refuses (bind_refuses (keyword_refuses rfl)))).trans
      ((oneOf_refuses (bind_refuses (bind_refuses (keyword_refuses rfl)))).trans (oneOf_ok h)))

/-- The text of a legible statement is read to its end. -/
theorem statement_ok {s : Statement} (h : s.Legible) : statement s.chars = .ok (s.reread, []) := by
  cases s with
  | createTable name columns b =>
      have hread := createTable_ok name h.1 h.2 b
      have htext := createChars_eq (if b then "IF NOT EXISTS ".toList else []) (nameChars name)
        (commaList (columns.map ColumnDef.chars))
      exact (congrArg statement htext).trans
        (statement_create ((congrArg createTable htext).symm.trans hread))
  | dropTable name b =>
      have hread := dropTable_ok name b
      have htext := dropChars_eq (if b then "IF EXISTS ".toList else []) (nameChars name)
      exact (congrArg statement htext).trans
        (statement_drop ((congrArg dropTable htext).symm.trans hread))
  | insert name columns rows =>
      have hread := insertRows_ok name h.1 h.2.1 h.2.2
      have htext := insertChars_eq (nameChars name) (columnsChars columns)
        (commaList (rows.map rowChars))
      exact (congrArg statement htext).trans
        (statement_insert ((congrArg insertRows htext).symm.trans hread))
  | showTables =>
      have hwords : keywords "SHOW" "TABLES" "SHOW TABLES".toList = .ok ((), []) :=
        keywords_at (r := []) (solid_of_head rfl) rfl rfl
      exact oneOf_ok ((bind_ok (orElse_ok hwords)).trans rfl)
  | query q =>
      obtain ⟨r, hread, hl⟩ := query_ok h ⟨.nil, rfl⟩
      have hr : r = [] := by rcases hl with rfl | rfl <;> rfl
      rw [List.append_nil, hr] at hread
      exact (statement_query (query_start q)).trans ((bind_ok hread).trans rfl)

/-- The text of a legible statement begins with no blank. -/
theorem statement_head (s : Statement) : ∃ c r, s.chars = c :: r ∧ isBlank c = false := by
  cases s with
  | createTable name columns b => exact ⟨_, _, createChars_eq _ _ _, by decide⟩
  | dropTable name b => exact ⟨_, _, dropChars_eq _ _, by decide⟩
  | insert name columns rows =>
      exact ⟨_, _, insertChars_eq (nameChars name) (columnsChars columns) _, by decide⟩
  | showTables => exact ⟨_, _, rfl, by decide⟩
  | query q => exact BeginsQuery.head (query_start q)

/-- The text of a legible statement ends in no blank and no semicolon. -/
theorem closes_statement {s : Statement} (h : s.Legible) : Closes s.chars := by
  cases s with
  | createTable name columns b => exact closes_paren _
  | dropTable name b => exact (closes_name name).append _
  | insert name columns rows =>
      refine (closes_commaList (by simpa using h.2.1) fun x hx => ?_).append _
      obtain ⟨r, -, rfl⟩ := List.mem_map.mp hx
      exact closes_paren ('(' :: _)
  | showTables => exact ⟨"SHOW TABLE".toList, 'S', rfl, by decide, by decide⟩
  | query q => exact closes_query q h

end Parser

open Rowtime.Sql.Parser

/-- The text of a legible statement is one statement, and what is read from it is the statement,
reread. -/
theorem Statement.parse_display {s : Statement} (h : s.Legible) :
    parseStatement s.display = .ok s.reread := by
  have htext : s.display.toList = s.chars := String.toList_ofList
  apply parseStatement_of_statement
  · rw [htext]
    exact statement_head s
  · rw [htext]
    exact closes_statement h
  · rw [htext, statement_ok h]

end Rowtime.Sql
