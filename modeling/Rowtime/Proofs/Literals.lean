import Rowtime.Proofs.Casting
import Rowtime.Proofs.Displayed
import Rowtime.Proofs.Produced
import Rowtime.Proofs.Rendered

/-!
# Values that are read back

The text of a value in a statement is read as a literal, in a row as well as in an expression. What
is read is not always the value: a small integer is read as a long one, a decimal may get a zero
behind its point, and what is neither a number nor a boolean is read as a text. But the type that
the value was stored by takes it for the value again.

There are two exceptions. The least integer is stored from a text, but its digits are read before
their sign and are beyond the greatest integer. And a moment with zone is stored in any year, but
its text is read in years of four digits only.
-/
namespace Rowtime

open Text Sql

/-! ## The text of a value -/

namespace Value

/-- The literal with the text of a value. -/
def asLiteral : Value → Value
  | .null => .null
  | .smallInt i => .integer i.toInt64
  | .integer i => .integer i
  | .real x => .real x
  | .numeric d => .numeric d
  | .text s => .text s
  | .boolean b => .boolean b
  | v => .text v.display

theorem literal_asLiteral (v : Value) : v.asLiteral.literal = v.literal := by
  cases v with
  | smallInt i =>
      change Digits.intText i.toInt64.toInt = Digits.intText i.toInt
      rw [Int16.toInt_toInt64]
  | _ => rfl

theorem renderable_asLiteral {v : Value} (hreal : ∀ x, v ≠ .real x)
    (hmin : v ≠ .integer Int64.minValue) : v.asLiteral.renderable = true := by
  cases v with
  | real x => exact absurd rfl (hreal x)
  | smallInt i =>
      have hlow := i.le_toInt
      have hne : i.toInt64 ≠ Int64.minValue := by
        intro he
        have htoInt := congrArg Int64.toInt he
        rw [Int16.toInt_toInt64, Int64.toInt_minValue] at htoInt
        omega
      simpa [asLiteral, renderable] using hne
  | integer i => simpa [asLiteral, renderable] using hmin
  | _ => rfl

/-- What is read from the literal of a value. -/
def reading (v : Value) : Value := v.asLiteral.written

theorem literal_reading (v : Value) : v.reading.literal = v.literal := by
  rw [reading, literal_written, literal_asLiteral]

/-- The text of a value is read as a literal before anything that does not run into it. -/
theorem literal_text {v : Value} (h : v.asLiteral.renderable = true) {rest : List Char}
    (hr : Parser.touches rest = false) :
    Parser.literal (v.literal.toList ++ rest) = .ok (v.reading, Parser.skip rest) := by
  rw [← literal_reading]
  exact Parser.literal_ok (legible_written h) hr

/-- It is also read as an expression. -/
theorem parseExpr_text {v : Value} (h : v.asLiteral.renderable = true) :
    parseExpr v.literal = .ok (.literal v.reading) := by
  have hlegible : (Expr.literal v.reading).Legible := legible_written h
  have hclear : Parser.clear 1 [] = true := rfl
  have hread := (Parser.expr_ok hlegible hclear).ok rfl
  rw [List.append_nil, Expr.chars, literal_reading] at hread
  rw [parseExpr, hread]
  rfl

end Value

/-! ## The value of a text -/

namespace Decimal

theorem sameValue_self (d : Decimal) : d.sameValue d = true := by
  rw [sameValue, compare, beq_iff_eq]
  exact Std.ReflOrd.compare_self

/-- The zero that was written behind the point is dropped where the scale has no room for it. -/
theorem sameValue_roundTo_written {d : Decimal} {places : Nat} (h : d.scale ≤ places) :
    (d.written.roundTo places).sameValue d = true := by
  by_cases hroom : d.written.scale ≤ places
  · have hround : d.written.roundTo places = d.written := if_pos hroom
    rw [hround]
    exact d.sameValue_written
  · have hzero : d.scale = 0 ∧ d.coeff * 10 < Nat.pow 2 96 := by
      by_contra hnot
      have hsame : d.written = d := dif_neg hnot
      rw [hsame] at hroom
      exact hroom h
    have hplain : d.written.roundTo places = d.plain := by
      obtain ⟨negative, coeff, scale, hcoeff, hscale⟩ := d
      obtain ⟨rfl, hlt⟩ := hzero
      have hwritten : written ⟨negative, coeff, 0, hcoeff, hscale⟩ =
          ⟨negative, coeff * 10, 1, hlt, by decide⟩ := dif_pos ⟨rfl, hlt⟩
      rw [hwritten] at hroom ⊢
      obtain rfl : places = 0 := Nat.lt_one_iff.mp (Nat.lt_of_not_le hroom)
      have hround : Binary64.roundDiv (coeff * 10) (Nat.pow 10 (1 - 0)) = coeff := by
        simp [Binary64.roundDiv]
      rw [roundTo, if_neg hroom]
      simp only [hround, ofParts?_eq negative hcoeff hscale]
      rfl
    rw [hplain, sameValue_plain_left]
    exact d.sameValue_self

end Decimal

namespace Value

theorem same_of_not_real {v : Value} (h : ∀ x, v ≠ .real x) : v.same v = true := by
  cases v with
  | real x => exact absurd rfl (h x)
  | numeric d => exact d.sameValue_self
  | _ => simp [same]

theorem cast_char {n : UInt64} {s : String} (h : s.length = n.toNat) :
    (Value.text s).cast (.char n) = .ok (.char s) := by
  refine (if_neg (Nat.not_lt.mpr h.le)).trans ?_
  change Except.ok (char (padTo n.toNat s)) = .ok (char s)
  rw [padTo_self h]

theorem cast_smallInt (i : Int16) :
    (Value.integer i.toInt64).cast .smallInt = .ok (.smallInt i) := by
  have hi : (integer i.toInt64).toInt64?.bind (fun j => Rowtime.toInt16? j.toInt) = some i :=
    toInt16?_toInt64 i
  simp only [cast, isNull, read, fit, hi, Bool.false_eq_true, if_false]

theorem cast_date (d : Date) : (Value.text d.display).cast .date = .ok (.date d) := by
  have hread : Date.read? (trim d.display.toList) = some d := by
    rw [Date.display, String.toList_ofList, d.trim_chars, d.read?_chars]
  simp only [cast, isNull, read, SqlType.affinity, fit, hread, orCannotStore, Option.map_some,
    Bool.false_eq_true, if_false]

theorem cast_timestamp (m : Timestamp) :
    (Value.text m.display).cast .timestamp = .ok (.timestamp m) := by
  have hread : Timestamp.read? m.display.toList = some m := by
    rw [Timestamp.display, String.toList_ofList, m.read?_chars]
  simp only [cast, isNull, read, SqlType.affinity, fit, hread, orCannotStore, Option.map_some,
    Bool.false_eq_true, if_false]

theorem cast_timestampTz (m : Timestamp) :
    (Value.text m.displayUtc).cast .timestampTz = orCannotStore .timestampTz m.displayUtc
      ((Timestamp.readUtc? m.displayUtc.toList).map .timestampTz) := by
  simp only [cast, isNull, read, SqlType.affinity, fit, Bool.false_eq_true, if_false]

theorem cast_uuid (u : Uuid) : (Value.text u.display).cast .uuid = .ok (.uuid u) := by
  have hread : Uuid.read? (trim u.display.toList) = some u := by
    rw [Uuid.display, String.toList_ofList, u.trim_chars, u.read?_chars]
  simp only [cast, isNull, read, SqlType.affinity, fit, hread, orCannotStore, Option.map_some,
    Bool.false_eq_true, if_false]

theorem cast_json {s : String} (h : (Json.read? s).isSome = true) :
    (Value.text s).cast .json = .ok (.json s) :=
  if_pos h

theorem cast_bytea (bs : List UInt8) :
    (Value.text (Value.bytea bs).display).cast .bytea = .ok (.bytea bs) := by
  have hread : toBytes? (Value.bytea bs).display = some bs := by
    rw [toBytes?, display, String.toList_ofList]
    exact Hex.decode?_encode bs
  simp only [cast, isNull, read, SqlType.affinity, fit, hread, orCannotStore, Option.map_some,
    Bool.false_eq_true, if_false]

/-- What is read from the text of a value of a type is cast to that value again: by value, where it
is a decimal. JSON must be well formed, and a moment with zone must have a year of four digits. -/
theorem cast_reading {t : SqlType} {v : Value} (hv : v.isOf t = true) (ht : t ≠ .real)
    (hjson : ∀ s, v = .json s → (Json.read? s).isSome = true)
    (hyear : ∀ m, v = .timestampTz m → 0 ≤ m.date.year ∧ m.date.year ≤ 9999) :
    ∃ x, v.reading.cast t = .ok x ∧ x.same v = true := by
  have hexact : (∀ x, v ≠ .real x) → v.reading.cast t = .ok v →
      ∃ x, v.reading.cast t = .ok x ∧ x.same v = true :=
    fun hreal hcast => ⟨v, hcast, same_of_not_real hreal⟩
  cases v with
  | null => exact hexact (by simp) (cast_of_isOf hv)
  | integer i => exact hexact (by simp) (cast_of_isOf hv)
  | text s => exact hexact (by simp) (cast_of_isOf hv)
  | boolean b => exact hexact (by simp) (cast_of_isOf hv)
  | real x =>
      cases t with
      | real => exact absurd rfl ht
      | _ => cases hv
  | smallInt i =>
      cases t with
      | smallInt => exact hexact (by simp) (cast_smallInt i)
      | _ => cases hv
  | numeric d =>
      cases t with
      | numeric p s => exact ⟨_, rfl, Decimal.sameValue_roundTo_written (of_decide_eq_true hv)⟩
      | _ => cases hv
  | char s =>
      cases t with
      | char n => exact hexact (by simp) (cast_char (beq_iff_eq.mp hv))
      | _ => cases hv
  | date d =>
      cases t with
      | date => exact hexact (by simp) (cast_date d)
      | _ => cases hv
  | timestamp m =>
      cases t with
      | timestamp => exact hexact (by simp) (cast_timestamp m)
      | _ => cases hv
  | timestampTz m =>
      cases t with
      | timestampTz =>
          obtain ⟨hlow, hhigh⟩ := hyear m rfl
          refine hexact (by simp) ((cast_timestampTz m).trans ?_)
          rw [m.readUtc?_display hlow hhigh]
          rfl
      | _ => cases hv
  | uuid u =>
      cases t with
      | uuid => exact hexact (by simp) (cast_uuid u)
      | _ => cases hv
  | json s =>
      cases t with
      | json => exact hexact (by simp) (cast_json (hjson s rfl))
      | _ => cases hv
  | bytea bs =>
      cases t with
      | bytea => exact hexact (by simp) (cast_bytea bs)
      | _ => cases hv

end Value

/-! ## Stored values -/

namespace Value

/-- A literal of some text. -/
def IsLiteral (w : Value) : Prop := ∃ s rest, Parser.literal s = .ok (w, rest)

/-- A value that a column of a type can have from a literal. -/
def Storable (t : SqlType) (v : Value) : Prop := ∃ w : Value, w.IsLiteral ∧ w.cast t = .ok v

/-- The text of a value is read as a literal, before anything that does not run into it, and as an
expression, both of one value, which is cast to the same value again. -/
def ReadsBack (t : SqlType) (v : Value) : Prop :=
  ∃ w x, (∀ rest, Parser.touches rest = false →
      Parser.literal (v.literal.toList ++ rest) = .ok (w, Parser.skip rest)) ∧
    parseExpr v.literal = .ok (.literal w) ∧ w.cast t = .ok x ∧ x.same v = true

/-- A value whose text can be read: not the least integer, whose digits are beyond the greatest, and
no moment with zone outside the years of four digits. -/
structure Writable (v : Value) : Prop where
  notLeast : v ≠ .integer Int64.minValue
  plainYear : ∀ m, v = .timestampTz m → 0 ≤ m.date.year ∧ m.date.year ≤ 9999

theorem isLiteral_iff {w : Value} : w.IsLiteral ↔ LegibleLiteral w := by
  constructor
  · rintro ⟨s, rest, h⟩
    exact Parser.makes_literal s w rest h
  · intro h
    have hend : Parser.touches [] = false := rfl
    exact ⟨_, _, Parser.literal_ok h hend⟩

theorem Storable.isOf {t : SqlType} {v : Value} (h : Storable t v) : v.isOf t = true := by
  obtain ⟨w, -, hw⟩ := h
  exact cast_isOf hw

/-- Stored JSON was read as JSON. -/
theorem Storable.json {t : SqlType} {s : String} (h : Storable t (.json s)) :
    (Json.read? s).isSome = true := by
  have htype := h.isOf
  obtain ⟨w, hliteral, hw⟩ := h
  rw [isLiteral_iff] at hliteral
  cases t with
  | json =>
      cases w with
      | text s' =>
          change (if (Json.read? s').isSome then Except.ok (Value.json s')
            else .error Fault.invalidJson) = .ok (.json s) at hw
          split at hw
          · rename_i hread
            cases hw
            exact hread
          · cases hw
      | json s' => exact absurd hliteral (by simp [LegibleLiteral])
      | _ => cases hw
  | _ => cases htype

/-- The text of the least integer is no literal. -/
theorem literal_least (x : Value × List Char) :
    Parser.literal (Value.integer Int64.minValue).literal.toList ≠ .ok x := by
  have hrefused : (Parser.literal (Value.integer Int64.minValue).literal.toList).isOk = false := by
    decide +kernel
  intro hx
  rw [hx] at hrefused
  cases hrefused

theorem not_readsBack_least (t : SqlType) : ¬ReadsBack t (.integer Int64.minValue) := by
  rintro ⟨w, x, hliteral, -⟩
  have halone := hliteral [] rfl
  rw [List.append_nil] at halone
  exact literal_least _ halone

theorem not_readsBack_year {t : SqlType} {m : Timestamp} (ht : (timestampTz m).isOf t = true)
    (h : ¬(0 ≤ m.date.year ∧ m.date.year ≤ 9999)) : ¬ReadsBack t (.timestampTz m) := by
  rintro ⟨w, x, hliteral, -, hcast, -⟩
  have hw := hliteral [] rfl
  rw [literal_text rfl rfl, Except.ok.injEq, Prod.mk.injEq] at hw
  obtain ⟨rfl, -⟩ := hw
  cases t with
  | timestampTz =>
      have hnone := (cast_timestampTz m).symm.trans hcast
      rw [m.readUtc?_signed h] at hnone
      cases hnone
  | _ => cases ht

/-- What a column other than REAL has from a literal is read back exactly if it is writable. -/
theorem readsBack_iff {t : SqlType} {v : Value} (ht : t ≠ .real) (h : Storable t v) :
    ReadsBack t v ↔ v.Writable := by
  constructor
  · intro hback
    refine ⟨?_, ?_⟩
    · rintro rfl
      exact not_readsBack_least t hback
    · rintro m rfl
      by_contra hyear
      exact not_readsBack_year h.isOf hyear hback
  · intro hwritable
    have hreal : ∀ x, v ≠ .real x := by
      rintro x rfl
      have htype := h.isOf
      cases t with
      | real => exact ht rfl
      | _ => cases htype
    have hrenderable := renderable_asLiteral hreal hwritable.notLeast
    obtain ⟨x, hcast, hsame⟩ := cast_reading h.isOf ht (by rintro s rfl; exact h.json)
      hwritable.plainYear
    exact ⟨v.reading, x, fun rest hr => literal_text hrenderable hr, parseExpr_text hrenderable,
      hcast, hsame⟩

end Value

/-! ## Rows of an INSERT -/

/-- The default of a column is one that it can have from a literal. -/
def Column.Storable (c : Column) : Prop := ∀ v ∈ c.defaultValue, v.Storable c.type

/-- A row has a value in each column that the column can have from a literal. -/
def StorableRow (cs : List Column) (row : Row) : Prop :=
  ∀ (i : Nat) (c : Column), cs[i]? = some c → ∃ v : Value, row[i]? = some v ∧ v.Storable c.type

theorem Sql.ColumnDef.column_storable {d : ColumnDef} {c : Column} (hd : d.Legible)
    (h : d.column = .ok c) : c.Storable := by
  unfold column at h
  split at h
  · cases h
    rintro v ⟨⟩
  · rename_i v hv
    split at h
    · cases h
    · rename_i w hw
      cases h
      rintro x ⟨⟩
      exact ⟨v, Value.isLiteral_iff.mpr (hd v hv), hw⟩

namespace Table

theorem mem_of_given? {targets : List Nat} {values : Row} {i : Nat} {v : Value}
    (h : given? targets values i = some v) : v ∈ values := by
  unfold given? at h
  obtain ⟨p, hp, rfl⟩ := Option.map_eq_some_iff.mp h
  exact (List.of_mem_zip (List.mem_of_find?_eq_some hp)).2

/-- A generated row time is above the least integer, and so it is a literal. -/
theorem nextRowtime_literal (t : Table) (now : Int64) :
    (Value.integer (t.nextRowtime now)).IsLiteral := by
  have hmax := t.maxRowtime.le_toInt
  have hclamp : (t.nextRowtime now).toInt =
      max (-9223372036854775808) (min (max now.toInt (t.maxRowtime.toInt + 1))
        9223372036854775807) := by
    rw [nextRowtime, Value.clampInt64, Int64.toInt_ofInt_of_le (by omega) (by omega)]
  refine Value.isLiteral_iff.mpr ?_
  change -9223372036854775808 < (t.nextRowtime now).toInt
  omega

/-- The value for a column is a literal, or the default of the column. -/
theorem valueFor_cases {t : Table} {now : Int64} {i : Nat} {c : Column} {given : Option Value}
    (h : ∀ v ∈ given, v.IsLiteral) :
    (t.valueFor now i c given).IsLiteral ∨ t.valueFor now i c given ∈ c.defaultValue := by
  unfold valueFor
  split
  · left
    split
    · exact t.nextRowtime_literal now
    · exact t.nextRowtime_literal now
    · rename_i v hnull
      exact h v rfl
  · cases given with
    | some v => exact .inl (h v rfl)
    | none =>
        cases hdefault : c.defaultValue with
        | none => exact .inl (Value.isLiteral_iff.mpr trivial)
        | some v => exact .inr rfl

/-- A row that was filled in has a value in each column that the column can have from a literal. -/
theorem fill_storable {t : Table} {now : Int64} {named : Option (List Nat)} {values row : Row}
    (hcolumns : ∀ c ∈ t.columns, c.Storable) (hvalues : ∀ v ∈ values, v.IsLiteral)
    (h : t.fill now named values = .ok row) : StorableRow t.columns row := by
  intro i c hc
  unfold fill at h
  simp only at h
  split at h
  · cases h
  · obtain ⟨v, hv, hcast⟩ := fillFrom_getElem h hc
    refine ⟨v, hv, ?_⟩
    have hgiven : ∀ w ∈ given? (t.targets named values) values (0 + i), w.IsLiteral :=
      fun w hw => hvalues w (mem_of_given? hw)
    rcases valueFor_cases hgiven with hliteral | hdefault
    · exact ⟨_, hliteral, hcast⟩
    · have hstorable := hcolumns c (List.mem_of_getElem? hc) _ hdefault
      have hsame := (Value.cast_of_isOf hstorable.isOf).symm.trans hcast
      rwa [Except.ok.inj hsame] at hstorable

/-- So has every row of an INSERT of literals. -/
theorem fillAll_storable {t : Table} {now : Int64} {named : Option (List Nat)}
    {tuples rows : List Row} (hcolumns : ∀ c ∈ t.columns, c.Storable)
    (hvalues : ∀ values ∈ tuples, ∀ v ∈ values, v.IsLiteral)
    (h : t.fillAll now named tuples = .ok rows) : ∀ row ∈ rows, StorableRow t.columns row := by
  induction tuples generalizing t rows with
  | nil =>
      rw [fillAll_nil_eq_ok.mp h]
      simp
  | cons values tuples ih =>
      obtain ⟨row, t', rest, hrow, ht, hrest, rfl⟩ := fillAll_cons_eq_ok.mp h
      rw [List.forall_mem_cons] at hvalues
      have hsame : t'.columns = t.columns := by
        obtain ⟨-, -, i, -, -, -, rfl⟩ := insert_spec ht
        rfl
      refine List.forall_mem_cons.mpr ⟨fill_storable hcolumns hvalues.1 hrow, ?_⟩
      have hnext := ih (by rwa [hsame]) hvalues.2 hrest
      rwa [hsame] at hnext

end Table

/-- A table that was created by a statement that was read has defaults that its columns can have
from literals. -/
theorem Table.create_storable {text name : String} {defs : List ColumnDef} {ifNotExists : Bool}
    {columns : List Column} {t : Table}
    (hread : parseStatement text = .ok (.createTable name defs ifNotExists))
    (hdefs : collect ColumnDef.column defs = .ok columns)
    (ht : Table.create name columns = .ok t) : ∀ c ∈ t.columns, c.Storable := by
  have hlegible : ∀ d ∈ defs, d.Legible := ((good_of_parsed hread).1 rfl).2
  refine Table.create_columns ?_ (fun _ hc => hc) ht fun c hc => ?_
  · rintro v ⟨⟩
  · obtain ⟨d, hd, hcolumn⟩ := exists_of_mem_collect hdefs hc
    exact ColumnDef.column_storable (hlegible d hd) hcolumn

theorem Table.prepare_storable {t : Table} {now : Int64} {text name : String}
    {names : Option (List String)} {tuples rows : List Row}
    (hcolumns : ∀ c ∈ t.columns, c.Storable)
    (hread : parseStatement text = .ok (.insert name names tuples))
    (h : t.prepare now names tuples = .ok rows) : ∀ row ∈ rows, StorableRow t.columns row := by
  obtain ⟨named, hfilled⟩ := Table.prepare_eq_fillAll h
  have hlegible := ((good_of_parsed hread).1 rfl).2.2
  exact Table.fillAll_storable hcolumns
    (fun values hvalues v hv => Value.isLiteral_iff.mpr ((hlegible values hvalues).2 v hv)) hfilled

/-- A value that an INSERT makes for a column of a type: the INSERT and the statement by which the
table was created are read from texts. -/
inductive Value.Inserted (t : SqlType) (v : Value) : Prop where
  | intro {created inserted name name' : String} {defs : List ColumnDef} {ifNotExists : Bool}
      {columns : List Column} {table table' : Table} {now : Int64} {names : Option (List String)}
      {tuples rows : List Row} {row : Row} {i : Nat} {c : Column}
      (hcreated : parseStatement created = .ok (.createTable name defs ifNotExists))
      (hdefs : collect ColumnDef.column defs = .ok columns)
      (htable : Table.create name columns = .ok table)
      (hcolumns : table'.columns = table.columns)
      (hinserted : parseStatement inserted = .ok (.insert name' names tuples))
      (hrows : table'.prepare now names tuples = .ok rows) (hrow : row ∈ rows)
      (hc : table.columns[i]? = some c) (ht : c.type = t) (hv : row[i]? = some v)

theorem Value.Inserted.storable {t : SqlType} {v : Value} (h : v.Inserted t) : v.Storable t := by
  obtain ⟨hcreated, hdefs, htable, hcolumns, hinserted, hrows, hrow, hc, rfl, hv⟩ := h
  have hdefaults := Table.create_storable hcreated hdefs htable
  rw [← hcolumns] at hdefaults hc
  obtain ⟨w, hw, hstorable⟩ := Table.prepare_storable hdefaults hinserted hrows _ hrow _ _ hc
  rw [hv, Option.some.injEq] at hw
  rwa [hw]

/-- A table of one column beside the row time. -/
def singleTable (t : SqlType) : Table :=
  ⟨"t", [.rowtime, ⟨"v", t, true, false, false, none⟩], [], 0, 0⟩

theorem singleTable_create (t : SqlType) :
    Table.create "t" [⟨"v", t, true, false, false, none⟩] = .ok (singleTable t) := by
  have hname : sameName "v" rowtimeName = false := by decide
  have hother : sameName rowtimeName "v" = false := by decide
  simp [Table.create, Table.withRowtime, Column.isRowtime, Column.rowtime, Table.repeatedName?,
    singleTable, hname, hother]

theorem singleTable_prepare {t : SqlType} {v w : Value} (h : w.cast t = .ok v) :
    (singleTable t).prepare 20 none [[.integer 10, w]] = .ok [[.integer 10, v]] := by
  have hfill : (singleTable t).fill 20 none [.integer 10, w] = .ok [.integer 10, v] := by
    have hrowtime : (Value.integer 10).cast .bigInt = .ok (.integer 10) := rfl
    simp [Table.fill, Table.targets, Table.allPositions, singleTable, Table.fillFrom, Table.given?,
      Table.valueFor, Column.rowtime, hrowtime, h, List.range_succ, Except.map]
  have hinsert : ∃ t', (singleTable t).insert [.integer 10, v] = .ok t' := by
    simp [Table.insert, singleTable, Table.rowFault?, Table.columnFault?, Table.rowtimeOf,
      Value.isNull, Column.rowtime]
  obtain ⟨t', ht'⟩ := hinsert
  rw [Table.prepare, Table.fillAll, hfill]
  simp only [ht', Table.fillAll, Except.map]

/-- What a column can have from a literal is inserted by a row of this literal. -/
theorem Value.Storable.inserted {t : SqlType} {v : Value} (h : v.Storable t) : v.Inserted t := by
  obtain ⟨w, hliteral, hcast⟩ := h
  rw [isLiteral_iff] at hliteral
  have hlegible : (Statement.insert "t" none [[.integer 10, w]]).Legible := by
    refine ⟨by simp, by simp, List.forall_mem_singleton.mpr ⟨List.cons_ne_nil _ _, ?_⟩⟩
    exact List.forall_mem_cons.mpr
      ⟨legibleLiteral_integer (by decide), List.forall_mem_singleton.mpr hliteral⟩
  have hdeclared : (Statement.createTable "t" [⟨"v", t, true, false, false, none⟩] false).Legible :=
    ⟨List.cons_ne_nil _ _, by simp [ColumnDef.Legible]⟩
  have hdefs : collect ColumnDef.column [⟨"v", t, true, false, false, none⟩] =
      .ok [⟨"v", t, true, false, false, none⟩] := rfl
  have hlast : (singleTable t).columns[1]? = some ⟨"v", t, true, false, false, none⟩ := rfl
  exact .intro (Statement.parse_display hdeclared) hdefs (singleTable_create t) rfl
    (Statement.parse_display hlegible) (singleTable_prepare hcast) (List.mem_singleton_self _)
    hlast rfl rfl

/-- What an INSERT makes for a column of a type other than REAL is read back from its text exactly
if it is writable. -/
theorem Value.stored_read_back_iff {t : SqlType} {v : Value} (ht : t ≠ .real) (h : v.Inserted t) :
    v.ReadsBack t ↔ v.Writable :=
  readsBack_iff ht h.storable

/-- A text with a quote in a column of five characters. -/
theorem Value.stored_read_back_quoted :
    (Value.char "it's ").literal = "'it''s '" ∧ (Value.char "it's ").ReadsBack (.char 5) := by
  have hstorable : (Value.char "it's ").Storable (.char 5) :=
    ⟨.text "it's", isLiteral_iff.mpr trivial, by decide +kernel⟩
  have hback := (stored_read_back_iff (by decide) hstorable.inserted).mpr ⟨by simp, by simp⟩
  exact ⟨by decide +kernel, hback⟩

/-- The least integer can be inserted as a text, and a moment with zone in the year 10000 as one
without zone; neither is read back from its text. -/
theorem Value.stored_not_read_back :
    ((Value.integer Int64.minValue).Inserted .bigInt ∧
        (Value.integer Int64.minValue).literal = "-9223372036854775808" ∧
        ¬(Value.integer Int64.minValue).ReadsBack .bigInt) ∧
      (Value.timestampTz ⟨⟨10000, 1, 1, by decide⟩, .midnight⟩).Inserted .timestampTz ∧
        (Value.timestampTz ⟨⟨10000, 1, 1, by decide⟩, .midnight⟩).literal =
          "'+10000-01-01T00:00:00+00:00'" ∧
        ¬(Value.timestampTz ⟨⟨10000, 1, 1, by decide⟩, .midnight⟩).ReadsBack .timestampTz := by
  have hleast : (Value.integer Int64.minValue).Storable .bigInt :=
    ⟨.text "-9223372036854775808", isLiteral_iff.mpr trivial, by decide +kernel⟩
  have hlate : (Value.timestampTz ⟨⟨10000, 1, 1, by decide⟩, .midnight⟩).Storable .timestampTz :=
    ⟨.text "+10000-01-01 00:00:00", isLiteral_iff.mpr trivial, by decide +kernel⟩
  exact ⟨⟨hleast.inserted, by decide +kernel, not_readsBack_least _⟩, hlate.inserted,
    by decide +kernel, not_readsBack_year rfl (by decide)⟩

end Rowtime
