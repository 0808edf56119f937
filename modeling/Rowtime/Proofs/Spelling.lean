import Rowtime.Proofs.Databases
import Rowtime.Proofs.Evaluation
import Rowtime.Proofs.Past
import Rowtime.Proofs.Sources

/-!
# The spelling of names

Names are compared without regard to the case of ASCII letters: those of tables, of columns and of
qualifiers, in every clause. Two queries that differ in nothing else therefore come to the same
end. Both give results, with the same rows in the same order, under columns whose names differ in
nothing else either; or both fail, with faults of one kind, which may show the names as they are
spelled. And they read the same tables.

What is proved is that a query comes to the same end as the query with all its names in small
letters.
-/
namespace Rowtime

open Text Sql

/-! ## Small letters -/

namespace Text

theorem folded_asciiLowerText (s : String) : folded (asciiLowerText s) = folded s := by
  rw [folded, folded, asciiLowerText, String.toList_ofList, List.map_map]
  exact congrArg s.toList.map (funext asciiLower_idem)

theorem asciiLowerText_eq_iff {a b : String} :
    asciiLowerText a = asciiLowerText b ↔ folded a = folded b := by
  rw [asciiLowerText, asciiLowerText, String.ofList_inj]
  rfl

theorem sameName_lowered {a a' b b' : String} (ha : folded a = folded a')
    (hb : folded b = folded b') : sameName a b = sameName a' b' := by
  rw [Bool.eq_iff_iff, sameName_iff, sameName_iff, ha, hb]

theorem asciiLowerText_idem (s : String) : asciiLowerText (asciiLowerText s) = asciiLowerText s :=
  asciiLowerText_eq_iff.mpr (folded_asciiLowerText s)

theorem map_asciiLowerText_idem (q : Option String) :
    (q.map asciiLowerText).map asciiLowerText = q.map asciiLowerText := by
  cases q with
  | none => rfl
  | some s => exact congrArg some (asciiLowerText_idem s)

end Text

/-- A column with its names in small letters. -/
def Binding.lowered (b : Binding) : Binding := ⟨b.qualifier.map asciiLowerText, asciiLowerText b.name⟩

namespace Sql

/-- A reference with its names in small letters. -/
def ColumnRef.lowered (c : ColumnRef) : ColumnRef :=
  ⟨c.qualifier.map asciiLowerText, asciiLowerText c.name⟩

/-- An expression with the names of its columns in small letters. -/
def Expr.lowered (e : Expr) : Expr := e.renamed ColumnRef.lowered

/-- An item of a projection with its names in small letters. -/
def SelectItem.lowered : SelectItem → SelectItem
  | .all => .all
  | .allOf q => .allOf (asciiLowerText q)
  | .expr e name => .expr e.lowered (name.map asciiLowerText)

/-- A sort key with its names in small letters. -/
def SortKey.lowered (k : SortKey) : SortKey := ⟨k.expr.lowered, k.order⟩

/-- Closing clauses with their names in small letters. -/
def Tail.lowered (t : Tail) : Tail := { t with orderBy := t.orderBy.map SortKey.lowered }

/-- Clauses with their names in small letters. -/
def Clauses.lowered (c : Clauses) : Clauses where
  distinct := c.distinct
  projection := c.projection.map SelectItem.lowered
  condition := c.condition.map Expr.lowered
  groupBy := c.groupBy.map Expr.lowered
  having := c.having.map Expr.lowered

mutual

/-- A query with the names of its tables and columns in small letters. -/
def Query.lowered : Query → Query
  | .select source c t => .select (FromItem.loweredList source) c.lowered t.lowered
  | .union l r all t => .union l.lowered r.lowered all t.lowered
  | .paren q => .paren q.lowered

/-- A source item with its names in small letters. -/
def FromItem.lowered : FromItem → FromItem
  | .table name a => .table (asciiLowerText name) (a.map asciiLowerText)
  | .subquery q a => .subquery q.lowered (a.map asciiLowerText)
  | .paren items => .paren (FromItem.loweredList items)
  | .join k l r on => .join k l.lowered r.lowered (on.map Expr.lowered)

/-- Source items with their names in small letters. -/
def FromItem.loweredList : List FromItem → List FromItem
  | [] => []
  | x :: r => x.lowered :: FromItem.loweredList r

end

end Sql

/-! ## References -/

/-- Columns whose names differ at most in the case of letters. -/
def AlikeColumns (bs bs' : List Binding) : Prop := bs.map Binding.lowered = bs'.map Binding.lowered

theorem AlikeColumns.pairs {bs bs' : List Binding} (h : AlikeColumns bs bs') :
    List.Forall₂ (fun b b' => b.lowered = b'.lowered) bs bs' := by
  rwa [AlikeColumns, ← List.forall₂_eq_eq_eq, List.forall₂_map_left_iff,
    List.forall₂_map_right_iff] at h

theorem AlikeColumns.length {bs bs' : List Binding} (h : AlikeColumns bs bs') :
    bs.length = bs'.length := by
  rw [← List.length_map Binding.lowered, h, List.length_map]

theorem AlikeColumns.append {as as' bs bs' : List Binding} (h : AlikeColumns as as')
    (k : AlikeColumns bs bs') : AlikeColumns (as ++ bs) (as' ++ bs') := by
  rw [AlikeColumns, List.map_append, List.map_append, h, k]

/-- The names alone, under qualifiers that differ in nothing else either. -/
theorem AlikeColumns.requalify {bs bs' : List Binding} (h : AlikeColumns bs bs') {q q' : Option String}
    (hq : q.map asciiLowerText = q'.map asciiLowerText) :
    AlikeColumns (bs.map fun b => ⟨q, b.name⟩) (bs'.map fun b => ⟨q', b.name⟩) := by
  have hnames := congrArg (List.map fun b => (⟨q.map asciiLowerText, b.name⟩ : Binding)) h
  rw [List.map_map, List.map_map] at hnames
  rw [AlikeColumns, List.map_map, List.map_map]
  refine hnames.trans (List.map_congr_left fun b _ => ?_)
  rw [Function.comp_apply, Function.comp_apply, hq]
  rfl

/-- The names alone. -/
theorem AlikeColumns.bare {bs bs' : List Binding} (h : AlikeColumns bs bs') :
    AlikeColumns (bs.map fun b => ⟨none, b.name⟩) (bs'.map fun b => ⟨none, b.name⟩) :=
  h.requalify rfl

theorem hasQualifier_lowered {b b' : Binding} (h : b.lowered = b'.lowered) (q : String) :
    b'.hasQualifier (asciiLowerText q) = b.hasQualifier q := by
  obtain ⟨own, name⟩ := b
  obtain ⟨own', name'⟩ := b'
  obtain ⟨hown, -⟩ := Binding.mk.inj h
  cases own with
  | none =>
      cases own' with
      | none => rfl
      | some p' => cases hown
  | some p =>
      cases own' with
      | none => cases hown
      | some p' =>
          have hp := asciiLowerText_eq_iff.mp (Option.some.inj hown)
          exact sameName_lowered hp.symm (folded_asciiLowerText q)

theorem fits_lowered {b b' : Binding} (h : b.lowered = b'.lowered) (c : ColumnRef) :
    b'.fits c.lowered = b.fits c := by
  have hname : folded b'.name = folded b.name :=
    asciiLowerText_eq_iff.mp (Binding.mk.inj h).2.symm
  unfold Binding.fits ColumnRef.lowered
  rw [sameName_lowered hname (folded_asciiLowerText c.name)]
  cases c.qualifier with
  | none => rfl
  | some q => exact congrArg (sameName b.name c.name && ·) (hasQualifier_lowered h q)

theorem positionsFrom_lowered {bs bs' : List Binding} (h : AlikeColumns bs bs') (c : ColumnRef)
    (i : Nat) : positionsFrom c.lowered i bs' = positionsFrom c i bs := by
  have hpairs := h.pairs
  clear h
  induction hpairs generalizing i with
  | nil => rfl
  | cons hb _ ih => rw [positionsFrom, positionsFrom, fits_lowered hb, ih]

theorem resolve_lowered {bs bs' : List Binding} (h : AlikeColumns bs bs') (c : ColumnRef) :
    (resolve bs' c.lowered).mapError Fault.kind = (resolve bs c).mapError Fault.kind := by
  rw [resolve, resolve, positionsFrom_lowered h]
  match positionsFrom c 0 bs with
  | [] => rfl
  | [i] => rfl
  | i :: j :: is => rfl

/-- The same row and group under columns whose names differ at most in the case of letters. -/
structure Context.SpelledLike (ctx ctx' : Context) : Prop where
  columns : AlikeColumns ctx.columns ctx'.columns
  row : ctx.row = ctx'.row
  group : ctx.group = ctx'.group

theorem AlikeColumns.ofRow {columns columns' : List Binding} (h : AlikeColumns columns columns')
    (row : Row) : Context.SpelledLike (.ofRow columns row) (.ofRow columns' row) :=
  ⟨h, rfl, rfl⟩

theorem AlikeColumns.groupContext {columns columns' : List Binding}
    (h : AlikeColumns columns columns') (group : List Row) :
    (Relation.groupContext columns group).SpelledLike (Relation.groupContext columns' group) :=
  ⟨h, by rw [Relation.groupContext, Relation.groupContext, h.length], rfl⟩

section Expressions

variable {ctx ctx' : Context}

theorem renames_lowered (h : ctx.SpelledLike ctx') :
    ctx.Renames Fault.kind ColumnRef.lowered ctx' := by
  intro c
  rw [Context.lookup, Context.lookup, h.row]
  exact mapError_bind Fault.kind (resolve_lowered h.columns c) fun _ => rfl

theorem eval_lowered (h : ctx.SpelledLike ctx') (e : Expr) :
    (e.lowered.eval ctx').mapError Fault.kind = (e.eval ctx).mapError Fault.kind :=
  Expr.eval_renamed (renames_lowered h) fun _ =>
    ⟨h.group.symm, fun _ _ row _ => renames_lowered (h.columns.ofRow row)⟩

theorem holds_lowered (h : ctx.SpelledLike ctx') (e : Expr) :
    (e.lowered.holds ctx').mapError Fault.kind = (e.holds ctx).mapError Fault.kind :=
  mapError_bind Fault.kind (eval_lowered h e) fun _ => rfl

end Expressions

/-! ## Ends -/

/-- Two computations come to the same end: both give results, which are in the relation `S`, or
both fail, with faults of one kind. -/
inductive AlikeBy {α : Type} (S : α → α → Prop) : Except Fault α → Except Fault α → Prop
  | ok {a b : α} (h : S a b) : AlikeBy S (.ok a) (.ok b)
  | error {e e' : Fault} (h : e.kind = e'.kind) : AlikeBy S (.error e) (.error e')

namespace AlikeBy

variable {α β : Type} {S : α → α → Prop} {T : β → β → Prop} {x y z : Except Fault α}

theorem of_mapError (h : y.mapError Fault.kind = x.mapError Fault.kind) : AlikeBy Eq x y := by
  obtain ⟨a, rfl, rfl⟩ | ⟨e, e', rfl, rfl, hkind⟩ := mapError_eq_iff.mp h
  · exact .ok rfl
  · exact .error hkind.symm

theorem bind {f g : α → Except Fault β} (h : AlikeBy S x y)
    (hf : ∀ a b, S a b → AlikeBy T (f a) (g b)) : AlikeBy T (x >>= f) (y >>= g) := by
  cases h with
  | ok h => exact hf _ _ h
  | error h => exact .error h

/-- Two computations that come to the end of a third one. -/
theorem join (hS : ∀ a b c, S a c → S b c → S a b) (hx : AlikeBy S x z) (hy : AlikeBy S y z) :
    AlikeBy S x y := by
  cases hx with
  | ok ha =>
      cases hy with
      | ok hb => exact .ok (hS _ _ _ ha hb)
  | error ha =>
      cases hy with
      | error hb => exact .error (ha.trans hb.symm)

theorem collect {f g : α → Except Fault β} {as : List α} (h : ∀ a ∈ as, AlikeBy T (f a) (g a)) :
    AlikeBy (List.Forall₂ T) (collect f as) (collect g as) := by
  induction as with
  | nil => exact .ok .nil
  | cons a as ih =>
      rw [List.forall_mem_cons] at h
      exact h.1.bind fun b b' hb => (ih h.2).bind fun bs bs' hbs => .ok (.cons hb hbs)

end AlikeBy

/-! ## Rows -/

namespace Relation

theorem zip_hasQualifier_lowered {columns columns' : List Binding} (h : AlikeColumns columns columns')
    (q : String) (row : Row) :
    (((columns'.zip row).filter fun p => p.1.hasQualifier (asciiLowerText q)).map (·.2)) =
      ((columns.zip row).filter fun p => p.1.hasQualifier q).map (·.2) := by
  have hpairs := h.pairs
  clear h
  induction hpairs generalizing row with
  | nil => rfl
  | cons hb _ ih =>
      cases row with
      | nil => rfl
      | cons v row =>
          simp only [List.zip_cons_cons, List.filter_cons, hasQualifier_lowered hb]
          split
          · rw [List.map_cons, List.map_cons, ih]
          · exact ih row

section Context

variable {ctx ctx' : Context} {output output' : List Binding}

theorem itemValues_lowered (h : ctx.SpelledLike ctx') (i : SelectItem) :
    (itemValues ctx' i.lowered).mapError Fault.kind = (itemValues ctx i).mapError Fault.kind := by
  cases i with
  | all => exact congrArg (Except.mapError Fault.kind ∘ .ok) h.row.symm
  | allOf q =>
      have hvalues := zip_hasQualifier_lowered h.columns q ctx.row
      rw [SelectItem.lowered, itemValues, itemValues, ← h.row, hvalues]
  | expr e name => exact mapError_bind Fault.kind (eval_lowered h e) fun _ => rfl

theorem project_lowered (h : ctx.SpelledLike ctx') (items : List SelectItem) :
    (project (items.map SelectItem.lowered) ctx').mapError Fault.kind =
      (project items ctx).mapError Fault.kind := by
  unfold project
  rw [collect_map]
  exact mapError_bind Fault.kind (mapError_collect fun i _ => itemValues_lowered h i) fun _ => rfl

theorem positional?_lowered (e : Expr) (width : Nat) :
    positional? e.lowered width = positional? e width := by
  cases e <;> rfl

theorem outputPosition?_lowered (h : AlikeColumns output output') (e : Expr) :
    outputPosition? e.lowered output' = outputPosition? e output := by
  cases e with
  | column c =>
      obtain ⟨q, name⟩ := c
      cases q with
      | none =>
          have hpos : positionsFrom ⟨none, asciiLowerText name⟩ 0 output' =
              positionsFrom ⟨none, name⟩ 0 output := positionsFrom_lowered h ⟨none, name⟩ 0
          simp only [Expr.lowered, Expr.renamed, ColumnRef.lowered, Option.map_none, outputPosition?,
            hpos]
      | some q => rfl
  | _ => rfl

theorem sortKeyValue_lowered (ho : AlikeColumns output output') (h : ctx.SpelledLike ctx')
    (projected : Row) (k : SortKey) :
    (sortKeyValue output' projected ctx' k.lowered).mapError Fault.kind =
      (sortKeyValue output projected ctx k).mapError Fault.kind := by
  unfold sortKeyValue
  rw [← ho.length]
  refine mapError_bind Fault.kind (congrArg _ (positional?_lowered k.expr _)) fun position => ?_
  cases position with
  | some i => rfl
  | none =>
      simp only [SortKey.lowered, outputPosition?_lowered ho k.expr]
      split
      · rfl
      · exact eval_lowered h k.expr

theorem unionKeyValue_lowered (h : AlikeColumns output output') (row : Row) (k : SortKey) :
    (unionKeyValue output' row k.lowered).mapError Fault.kind =
      (unionKeyValue output row k).mapError Fault.kind := by
  unfold unionKeyValue
  rw [← h.length]
  refine mapError_bind Fault.kind (congrArg _ (positional?_lowered k.expr _)) fun position => ?_
  cases position with
  | some i => rfl
  | none => exact eval_lowered (h.ofRow row) k.expr

theorem outputRow_lowered (ho : AlikeColumns output output') (h : ctx.SpelledLike ctx')
    (c : Clauses) (t : Tail) :
    (outputRow c.lowered t.lowered output' ctx').mapError Fault.kind =
      (outputRow c t output ctx).mapError Fault.kind := by
  unfold outputRow
  refine mapError_bind Fault.kind (project_lowered h c.projection) fun projected => ?_
  refine mapError_bind Fault.kind ?_ fun _ => rfl
  rw [Tail.lowered, collect_map]
  exact mapError_collect fun k _ => sortKeyValue_lowered ho h projected k

end Context

theorem applyTail_lowered (t : Tail) (rows : List KeyedRow) :
    applyTail t.lowered rows = applyTail t rows := by
  have horder : (t.orderBy.map SortKey.lowered).map (·.order) = t.orderBy.map (·.order) := by
    rw [List.map_map]
    rfl
  simp only [applyTail, Tail.lowered, horder]

theorem isGrouped_lowered (c : Clauses) (t : Tail) : isGrouped c.lowered t.lowered = isGrouped c t := by
  have hkey : (fun k : SortKey => k.lowered.expr.hasAggregate) = fun k => k.expr.hasAggregate :=
    funext fun k => Expr.hasAggregate_renamed ColumnRef.lowered k.expr
  simp only [isGrouped, Clauses.lowered, Tail.lowered, List.isEmpty_map, Option.isSome_map,
    List.any_map, Function.comp_def, hkey]
  congr 3
  funext i
  cases i with
  | expr e name => exact Expr.hasAggregate_renamed ColumnRef.lowered e
  | _ => rfl

theorem mapError_filterM {test test' : α → Except Fault Bool}
    (h : ∀ a, (test' a).mapError Fault.kind = (test a).mapError Fault.kind) (as : List α) :
    (filterM test' as).mapError Fault.kind = (filterM test as).mapError Fault.kind := by
  induction as with
  | nil => rfl
  | cons a as ih =>
      exact mapError_bind Fault.kind (h a) fun b => mapError_bind Fault.kind ih fun rest => rfl

/-! ## Rows of a relation -/

section Columns

variable {columns columns' output output' : List Binding} (h : AlikeColumns columns columns')

include h in
theorem groupOutput_lowered (ho : AlikeColumns output output') (c : Clauses) (t : Tail)
    (group : List Row) :
    (groupOutput c.lowered t.lowered output' columns' group).mapError Fault.kind =
      (groupOutput c t output columns group).mapError Fault.kind := by
  have hctx := h.groupContext group
  rw [groupOutput_eq, groupOutput_eq]
  refine mapError_bind Fault.kind ?_ fun pass => ?_
  · rw [Clauses.lowered]
    cases c.having with
    | none => rfl
    | some e => exact holds_lowered hctx e
  · cases pass with
    | false => rfl
    | true => exact mapError_bind Fault.kind (outputRow_lowered ho hctx c t) fun _ => rfl

include h in
theorem groupRows_lowered (keys : List Expr) (rows : List Row) :
    (groupRows (keys.map Expr.lowered) ⟨columns', rows⟩).mapError Fault.kind =
      (groupRows keys ⟨columns, rows⟩).mapError Fault.kind := by
  unfold groupRows
  rw [List.isEmpty_map]
  split
  · rfl
  · refine mapError_bind Fault.kind (mapError_collect fun row _ => ?_) fun _ => rfl
    refine mapError_bind Fault.kind ?_ fun _ => rfl
    rw [collect_map]
    exact mapError_collect fun e _ => eval_lowered (h.ofRow row) e

include h in
theorem keyedRows_lowered (ho : AlikeColumns output output') (c : Clauses) (t : Tail)
    (rows : List Row) :
    (keyedRows c.lowered t.lowered output' ⟨columns', rows⟩).mapError Fault.kind =
      (keyedRows c t output ⟨columns, rows⟩).mapError Fault.kind := by
  unfold keyedRows
  rw [isGrouped_lowered]
  split
  · refine mapError_bind Fault.kind (groupRows_lowered h c.groupBy rows) fun groups => ?_
    exact mapError_bind Fault.kind
      (mapError_collect fun group _ => groupOutput_lowered h ho c t group) fun _ => rfl
  · exact mapError_collect fun row _ => outputRow_lowered ho (h.ofRow row) c t

include h in
theorem joins_lowered (on : Option Expr) (l r : Row) :
    (joins columns' (on.map Expr.lowered) l r).mapError Fault.kind =
      (joins columns on l r).mapError Fault.kind := by
  cases on with
  | none => rfl
  | some e => exact holds_lowered (h.ofRow (l ++ r)) e

include h in
theorem joinRow_lowered (on : Option Expr) (kind : JoinKind) (width : Nat) (right : List Row)
    (l : Row) :
    (joinRow columns' (on.map Expr.lowered) kind width right l).mapError Fault.kind =
      (joinRow columns on kind width right l).mapError Fault.kind :=
  mapError_bind Fault.kind (mapError_filterM (fun r => joins_lowered h on l r) right) fun _ => rfl

include h in
theorem joinRowRight_lowered (on : Option Expr) (width : Nat) (left : List Row) (r : Row) :
    (joinRowRight columns' (on.map Expr.lowered) width left r).mapError Fault.kind =
      (joinRowRight columns on width left r).mapError Fault.kind :=
  mapError_bind Fault.kind (mapError_filterM (fun l => joins_lowered h on l r) left) fun _ => rfl

end Columns

/-! ## Relations -/

/-- The same rows under columns whose names differ at most in the case of letters. -/
structure SpelledLike (a b : Relation) : Prop where
  columns : AlikeColumns a.columns b.columns
  rows : a.rows = b.rows

theorem SpelledLike.of_both {a b c : Relation} (ha : SpelledLike a c) (hb : SpelledLike b c) :
    SpelledLike a b :=
  ⟨ha.columns.trans hb.columns.symm, ha.rows.trans hb.rows.symm⟩

theorem SpelledLike.cross {a a' b b' : Relation} (ha : SpelledLike a a') (hb : SpelledLike b b') :
    SpelledLike (a.cross b) (a'.cross b') where
  columns := ha.columns.append hb.columns
  rows := by rw [Relation.cross, Relation.cross, ha.rows, hb.rows]

theorem SpelledLike.qualified {r r' : Relation} (h : SpelledLike r r') (q : Option String) :
    SpelledLike (r.qualified q) (r'.qualified (q.map asciiLowerText)) where
  columns := h.columns.requalify (map_asciiLowerText_idem q).symm
  rows := h.rows

theorem fromTable_lowered (db : Catalog) (name : String) (a : Option String) :
    AlikeBy SpelledLike (fromTable db name a)
      (fromTable db (asciiLowerText name) (a.map asciiLowerText)) := by
  have hname : sameName (asciiLowerText name) name = true :=
    sameName_iff.mpr (folded_asciiLowerText name)
  rw [fromTable, fromTable, Catalog.get?_congr (Catalog.key_of_sameName hname),
    sameName_congr hname]
  cases db.get? name with
  | some t =>
      have hq : asciiLowerText (a.getD name) =
          asciiLowerText ((a.map asciiLowerText).getD (asciiLowerText name)) := by
        cases a <;> exact (asciiLowerText_idem _).symm
      refine .ok ⟨?_, rfl⟩
      rw [AlikeColumns, ofTable, ofTable, List.map_map, List.map_map]
      exact List.map_congr_left fun c _ => congrArg (Binding.mk · _) (congrArg some hq)
  | none =>
      dsimp only
      split
      · exact .ok ⟨rfl, rfl⟩
      · exact .error rfl

theorem joinParts_lowered {columns₁ columns₁' columns₂ columns₂' : List Binding}
    (h₁ : AlikeColumns columns₁ columns₁') (h₂ : AlikeColumns columns₂ columns₂') (kind : JoinKind)
    (on : Option Expr) (rows₁ rows₂ : List Row) :
    (joinParts kind (on.map Expr.lowered) ⟨columns₁', rows₁⟩ ⟨columns₂', rows₂⟩).mapError
        Fault.kind =
      (joinParts kind on ⟨columns₁, rows₁⟩ ⟨columns₂, rows₂⟩).mapError Fault.kind := by
  unfold joinParts
  rw [h₁.length, h₂.length]
  split
  · exact mapError_collect fun r _ => joinRowRight_lowered (h₁.append h₂) on _ rows₁ r
  · exact mapError_collect fun l _ => joinRow_lowered (h₁.append h₂) on kind _ rows₂ l

theorem join_lowered {a a' b b' : Relation} (ha : SpelledLike a a') (hb : SpelledLike b b')
    (kind : JoinKind) (on : Option Expr) :
    AlikeBy SpelledLike (join kind on a b) (join kind (on.map Expr.lowered) a' b') := by
  obtain ⟨as, rows₁⟩ := a
  obtain ⟨as', rows₁'⟩ := a'
  obtain ⟨bs, rows₂⟩ := b
  obtain ⟨bs', rows₂'⟩ := b'
  obtain ⟨has, rfl⟩ := ha
  obtain ⟨hbs, rfl⟩ := hb
  rw [join_eq, join_eq]
  refine (AlikeBy.of_mapError (joinParts_lowered has hbs kind on rows₁ rows₂)).bind ?_
  rintro parts _ rfl
  exact .ok ⟨has.append hbs, rfl⟩

theorem filtered_lowered {r r' : Relation} (h : SpelledLike r r') (condition : Option Expr) :
    AlikeBy SpelledLike (filtered condition r) (filtered (condition.map Expr.lowered) r') := by
  obtain ⟨columns, rows⟩ := r
  obtain ⟨columns', rows'⟩ := r'
  obtain ⟨hcolumns, rfl⟩ := h
  cases condition with
  | none => exact .ok ⟨hcolumns, rfl⟩
  | some w =>
      have hrows := mapError_filterM (fun row => holds_lowered (hcolumns.ofRow row) w) rows
      refine (AlikeBy.of_mapError hrows).bind ?_
      rintro kept _ rfl
      exact .ok ⟨hcolumns, rfl⟩

theorem filter_hasQualifier_lowered {columns columns' : List Binding}
    (h : AlikeColumns columns columns') (q : String) :
    AlikeColumns (columns.filter fun b => b.hasQualifier q)
      (columns'.filter fun b => b.hasQualifier (asciiLowerText q)) := by
  have hpairs := h.pairs
  clear h
  induction hpairs with
  | nil => rfl
  | cons hb _ ih =>
      rw [List.filter_cons, List.filter_cons, hasQualifier_lowered hb]
      split
      · exact congrArg₂ List.cons hb ih
      · exact ih

theorem derivedName_lowered (e : Expr) :
    asciiLowerText (derivedName e.lowered) = asciiLowerText (derivedName e) := by
  cases e with
  | column c => exact asciiLowerText_idem c.name
  | _ => rfl

theorem itemColumns_lowered {columns columns' : List Binding} (h : AlikeColumns columns columns')
    (i : SelectItem) :
    AlikeBy AlikeColumns (itemColumns columns i) (itemColumns columns' i.lowered) := by
  cases i with
  | all => exact .ok h.bare
  | allOf q =>
      have hfit := filter_hasQualifier_lowered h q
      rw [SelectItem.lowered, itemColumns, itemColumns]
      generalize columns.filter (fun b => b.hasQualifier q) = bs at hfit ⊢
      generalize columns'.filter (fun b => b.hasQualifier (asciiLowerText q)) = bs' at hfit ⊢
      cases bs with
      | nil =>
          cases bs' with
          | nil => exact .error rfl
          | cons b' bs' => cases hfit
      | cons b bs =>
          cases bs' with
          | nil => cases hfit
          | cons b' bs' => exact .ok hfit.bare
  | expr e name =>
      refine .ok (congrArg (fun n => [(⟨none, n⟩ : Binding)]) ?_)
      cases name with
      | none => exact (derivedName_lowered e).symm
      | some n => exact (asciiLowerText_idem n).symm

theorem outputColumns_lowered {columns columns' : List Binding} (h : AlikeColumns columns columns')
    (items : List SelectItem) :
    AlikeBy AlikeColumns (outputColumns items columns)
      (outputColumns (items.map SelectItem.lowered) columns') := by
  unfold outputColumns
  rw [collect_map]
  refine (AlikeBy.collect fun i _ => itemColumns_lowered h i).bind fun parts parts' hparts => .ok ?_
  induction hparts with
  | nil => rfl
  | cons hpart hparts ih => exact hpart.append ih

theorem selectKept_lowered {r r' : Relation} (h : SpelledLike r r') (c : Clauses) (t : Tail) :
    AlikeBy SpelledLike (selectKept c t r) (selectKept c.lowered t.lowered r') := by
  obtain ⟨columns, rows⟩ := r
  obtain ⟨columns', rows'⟩ := r'
  obtain ⟨hcolumns, rfl⟩ := h
  refine (outputColumns_lowered hcolumns c.projection).bind fun output output' ho => ?_
  refine (AlikeBy.of_mapError (keyedRows_lowered hcolumns ho c t rows)).bind ?_
  rintro keyed _ rfl
  refine .ok ⟨ho, ?_⟩
  rw [applyTail_lowered]
  rfl

theorem select_lowered {r r' : Relation} (h : SpelledLike r r') (c : Clauses) (t : Tail) :
    AlikeBy SpelledLike (select c t r) (select c.lowered t.lowered r') := by
  rw [select_eq, select_eq]
  exact (filtered_lowered h c.condition).bind fun _ _ hkept => selectKept_lowered hkept c t

theorem union_lowered {a a' b b' : Relation} (ha : SpelledLike a a') (hb : SpelledLike b b')
    (all : Bool) (t : Tail) : AlikeBy SpelledLike (union all t a b) (union all t.lowered a' b') := by
  obtain ⟨as, rows₁⟩ := a
  obtain ⟨as', rows₁'⟩ := a'
  obtain ⟨bs, rows₂⟩ := b
  obtain ⟨bs', rows₂'⟩ := b'
  obtain ⟨has, rfl⟩ := ha
  obtain ⟨hbs, rfl⟩ := hb
  unfold union
  rw [has.length, hbs.length]
  split
  · exact .error rfl
  · have ho := has.bare
    refine AlikeBy.bind (AlikeBy.of_mapError (mapError_collect fun row _ => ?_)) ?_
    · refine mapError_bind Fault.kind ?_ fun _ => rfl
      rw [Tail.lowered, collect_map]
      exact mapError_collect fun k _ => unionKeyValue_lowered ho row k
    · rintro keyed _ rfl
      refine .ok ⟨ho, ?_⟩
      rw [applyTail_lowered]

end Relation

/-! ## Queries -/

open Rowtime.Relation

namespace Sql

theorem FromItem.runList_lowered {db : Catalog} {xs : List FromItem}
    (h : ∀ x ∈ xs, AlikeBy SpelledLike (x.run db) (x.lowered.run db)) {acc acc' : Relation}
    (hacc : SpelledLike acc acc') :
    AlikeBy SpelledLike (runList db acc xs) (runList db acc' (loweredList xs)) := by
  induction xs generalizing acc acc' with
  | nil =>
      rw [loweredList, runList, runList]
      exact .ok hacc
  | cons x xs ih =>
      rw [List.forall_mem_cons] at h
      rw [loweredList, runList, runList]
      exact h.1.bind fun b b' hb => ih h.2 (hacc.cross hb)

/-- Small letters in all names do not change how a query ends. -/
theorem run_lowered (db : Catalog) :
    (∀ q : Query, AlikeBy SpelledLike (q.run db) (q.lowered.run db)) ∧
      ∀ x : FromItem, AlikeBy SpelledLike (x.run db) (x.lowered.run db) := by
  have hunit : SpelledLike Relation.unit Relation.unit := ⟨rfl, rfl⟩
  refine Query.induct ?_ ?_ ?_ ?_ ?_ ?_ ?_
  · intro source c t ih
    rw [Query.lowered, Query.run, Query.run]
    exact (FromItem.runList_lowered ih hunit).bind fun _ _ hs => select_lowered hs c t
  · intro l r all t hl hr
    rw [Query.lowered, Query.run, Query.run]
    exact hl.bind fun _ _ ha => hr.bind fun _ _ hb => union_lowered ha hb all t
  · intro q hq
    rw [Query.lowered, Query.run, Query.run]
    exact hq
  · intro name a
    rw [FromItem.lowered, FromItem.run, FromItem.run]
    exact fromTable_lowered db name a
  · intro q a hq
    rw [FromItem.lowered, FromItem.run, FromItem.run]
    exact hq.bind fun _ _ hr => .ok (hr.qualified a)
  · intro xs ih
    rw [FromItem.lowered, FromItem.run, FromItem.run]
    exact FromItem.runList_lowered ih hunit
  · intro k l r on hl hr
    rw [FromItem.lowered, FromItem.run, FromItem.run]
    exact hl.bind fun _ _ ha => hr.bind fun _ _ hb => join_lowered ha hb k on

end Sql

/-! ## The tables that are read -/

/-- An occurrence with its names in small letters. -/
def TableRef.lowered (t : TableRef) : TableRef :=
  ⟨asciiLowerText t.name, t.alias?.map asciiLowerText⟩

namespace TableRef

theorem same_of_lowered {t u : TableRef} (h : t.lowered = u.lowered) : t.same u = true := by
  have hfolded : ∀ a : Option String, (a.map asciiLowerText).map folded = a.map folded := by
    intro a
    cases a with
    | none => rfl
    | some s => exact congrArg some (folded_asciiLowerText s)
  obtain ⟨hname, ha⟩ := TableRef.mk.inj h
  have halias := congrArg (Option.map folded) ha
  rw [hfolded, hfolded] at halias
  exact same_iff.mpr ⟨asciiLowerText_eq_iff.mp hname, halias⟩

/-- Occurrences that are equal pair by pair. -/
def Alike (ts us : List TableRef) : Prop := List.Forall₂ (fun t u => t.same u = true) ts us

theorem Alike.of_lowered {ts us : List TableRef} (h : ts.map lowered = us.map lowered) :
    Alike ts us := by
  rw [← List.forall₂_eq_eq_eq, List.forall₂_map_left_iff, List.forall₂_map_right_iff] at h
  exact h.imp fun _ _ => same_of_lowered

theorem Alike.isIn {kept kept' : List TableRef} (h : Alike kept kept') {t u : TableRef}
    (htu : t.same u = true) : t.isIn kept = u.isIn kept' := by
  rw [isIn_congr htu]
  induction h with
  | nil => rfl
  | cons hab _ ih => exact congrArg₂ or (same_congr hab u) ih

/-- Of occurrences that are equal pair by pair, those at the same places are left. -/
theorem Alike.distinctFrom {kept kept' ts us : List TableRef} (hkept : Alike kept kept')
    (h : Alike ts us) : Alike (distinctFrom kept ts) (distinctFrom kept' us) := by
  induction h generalizing kept kept' with
  | nil => exact hkept
  | cons htu _ ih =>
      rw [TableRef.distinctFrom, TableRef.distinctFrom, isDual_of_same htu, hkept.isIn htu]
      split
      · exact ih hkept
      · exact ih (List.rel_append hkept (.cons htu .nil))

end TableRef

namespace Sql

/-- The occurrences are in small letters in turn. -/
theorem occurrences_lowered :
    (∀ q : Query, q.lowered.occurrences = q.occurrences.map TableRef.lowered) ∧
      ∀ x : FromItem, x.lowered.occurrences = x.occurrences.map TableRef.lowered := by
  have hlist : ∀ xs : List FromItem,
      (∀ x ∈ xs, x.lowered.occurrences = x.occurrences.map TableRef.lowered) →
      FromItem.occurrencesList (FromItem.loweredList xs) =
        (FromItem.occurrencesList xs).map TableRef.lowered := by
    intro xs h
    induction xs with
    | nil => rfl
    | cons x xs ih =>
        rw [List.forall_mem_cons] at h
        rw [FromItem.loweredList, FromItem.occurrencesList, FromItem.occurrencesList,
          List.map_append, h.1, ih h.2]
  refine Query.induct ?_ ?_ ?_ ?_ ?_ ?_ ?_
  · intro source c t ih
    rw [Query.lowered, Query.occurrences, Query.occurrences, hlist source ih]
  · intro l r all t hl hr
    rw [Query.lowered, Query.occurrences, Query.occurrences, List.map_append, hl, hr]
  · intro q hq
    rw [Query.lowered, Query.occurrences, Query.occurrences, hq]
  · intro name a
    rw [FromItem.lowered, FromItem.occurrences, FromItem.occurrences]
    rfl
  · intro q a hq
    rw [FromItem.lowered, FromItem.occurrences, FromItem.occurrences, hq]
  · intro xs ih
    rw [FromItem.lowered, FromItem.occurrences, FromItem.occurrences, hlist xs ih]
  · intro k l r on hl hr
    rw [FromItem.lowered, FromItem.occurrences, FromItem.occurrences, List.map_append, hl, hr]

/-- Queries that differ at most in the case of letters in their names come to the same end: both
give the same rows in the same order, under columns whose names differ in nothing else, or both fail
with faults of one kind. They read the same tables, in the same order. -/
theorem Query.spelling_immaterial (db : Catalog) {q q' : Query} (h : q.lowered = q'.lowered) :
    AlikeBy SpelledLike (q.run db) (q'.run db) ∧ TableRef.Alike q.tables q'.tables := by
  constructor
  · have hq := (run_lowered db).1 q
    have hq' := (run_lowered db).1 q'
    rw [← h] at hq'
    exact hq.join (fun _ _ _ => SpelledLike.of_both) hq'
  · have hsame : q.occurrences.map TableRef.lowered = q'.occurrences.map TableRef.lowered := by
      rw [← occurrences_lowered.1, ← occurrences_lowered.1, h]
    exact TableRef.Alike.distinctFrom .nil (.of_lowered hsame)

/-- `SELECT other.*, name.column AS shown FROM name other JOIN name ON other.column <=
name.column ORDER BY shown DESC`. -/
def pairsDescending (name other column shown : String) : Query :=
  .select [.join .inner (.table name (some other)) (.table name none)
      (some (.binary .le (.column ⟨some other, column⟩) (.column ⟨some name, column⟩)))]
    ⟨false, [.allOf other, .expr (.column ⟨some name, column⟩) (some shown)], none, [], none⟩
    ⟨[⟨.column ⟨none, shown⟩, .desc⟩], none, none⟩

/-- Pairs of readings, with all names in the other case. -/
theorem Query.spelling_immaterial_readings :
    (pairsDescending "t" "x" "v" "high").lowered = (pairsDescending "T" "X" "V" "HIGH").lowered ∧
      (∃ r r', (pairsDescending "t" "x" "v" "high").run readings = .ok r ∧
        (pairsDescending "T" "X" "V" "HIGH").run readings = .ok r' ∧ SpelledLike r r' ∧
        r.columnNames = ["rowtime", "v", "high"] ∧
        r.rows = [[.integer 1, .integer 10, .integer 20], [.integer 2, .integer 20, .integer 20],
          [.integer 1, .integer 10, .integer 10]]) ∧
      TableRef.Alike [⟨"t", some "x"⟩, ⟨"t", none⟩]
        (pairsDescending "T" "X" "V" "HIGH").tables := by
  have hrun : (pairsDescending "t" "x" "v" "high").run readings =
      .ok ⟨[⟨none, "rowtime"⟩, ⟨none, "v"⟩, ⟨none, "high"⟩],
        [[.integer 1, .integer 10, .integer 20], [.integer 2, .integer 20, .integer 20],
          [.integer 1, .integer 10, .integer 10]]⟩ := by decide +kernel
  have htables : (pairsDescending "t" "x" "v" "high").tables =
      [⟨"t", some "x"⟩, ⟨"t", none⟩] := by decide +kernel
  have hlowered : ∀ name other column shown,
      (pairsDescending name other column shown).lowered =
        pairsDescending (asciiLowerText name) (asciiLowerText other) (asciiLowerText column)
          (asciiLowerText shown) := fun _ _ _ _ => rfl
  have hsame : (pairsDescending "t" "x" "v" "high").lowered =
      (pairsDescending "T" "X" "V" "HIGH").lowered := by
    have ht : asciiLowerText "t" = asciiLowerText "T" := by decide +kernel
    have hx : asciiLowerText "x" = asciiLowerText "X" := by decide +kernel
    have hv : asciiLowerText "v" = asciiLowerText "V" := by decide +kernel
    have hhigh : asciiLowerText "high" = asciiLowerText "HIGH" := by decide +kernel
    rw [hlowered, hlowered, ht, hx, hv, hhigh]
  obtain ⟨hends, hread⟩ := Query.spelling_immaterial readings hsame
  rw [hrun] at hends
  rw [htables] at hread
  refine ⟨hsame, ?_, hread⟩
  cases hother : (pairsDescending "T" "X" "V" "HIGH").run readings with
  | error why =>
      rw [hother] at hends
      cases hends
  | ok r' =>
      rw [hother] at hends
      cases hends with
      | ok hlike => exact ⟨_, r', hrun, rfl, hlike, rfl, rfl⟩

end Sql

end Rowtime
