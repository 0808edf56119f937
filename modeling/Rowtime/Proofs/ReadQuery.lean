import Rowtime.Proofs.LegibleQuery

/-!
# Reading queries back

The text of a legible query is read as that query, `reread`. A source item is
read as a first item with the joins behind it, and a query as a first SELECT or
a query in parentheses with the unions behind it, so that the left part passes on
what it has been followed by.

In a source, an opening parenthesis is first taken for that of a subquery. Items
in parentheses are never such: what is read of them as a query stops before
another item, a name or a join.
-/
namespace Rowtime.Sql

open Text

namespace Parser

/-! ## Clauses -/

section
variable {α β : Type} {p : Parser α} {w : String} {x rest r s : List Char} {a : α}

/-- Something behind a keyword. -/
theorem after_keyword (hs : skip r = w.toList ++ ' ' :: (x ++ rest)) (hx : Solid x)
    (h : ReadsTo p (x ++ rest) a rest) : ReadsTo (after (keyword w) p) r a rest := by
  obtain ⟨u, hu, hl⟩ := h
  have hword : keyword w r = .ok ((), x ++ rest) := by
    rw [keyword_space hs, hx.skip]
  exact ⟨u, (bind_ok hword).trans hu, hl⟩

theorem after_keyword_refuses (h : wordNext w r = false) : Refuses (after (keyword w) p) r :=
  bind_refuses (keyword_refuses h)

/-- Two keywords as they are written, behind gaps. -/
theorem keywords_at {v : String} (hv : Solid v.toList)
    (hs : skip s = w.toList ++ ' ' :: (v.toList ++ r)) (hr : identFollows r = false) :
    keywords w v s = .ok ((), skip r) := by
  rw [keywords, bind_ok (keyword_space hs), hv.skip]
  exact keyword_at (hv.skip r) hr

/-- Two keywords and what stands behind them. -/
theorem keywords_space {v : String} (hv : Solid v.toList) (hx : Solid x)
    (hs : skip s = w.toList ++ ' ' :: (v.toList ++ ' ' :: x)) : keywords w v s = .ok ((), x) := by
  have hskip : skip (' ' :: x) = x := by
    have h := hx.skip []
    rwa [List.append_nil] at h
  rw [keywords_at hv hs rfl, hskip]

/-- Something behind two keywords. -/
theorem after_keywords {v : String} (hv : Solid v.toList)
    (hs : skip r = w.toList ++ ' ' :: (v.toList ++ ' ' :: (x ++ rest))) (hx : Solid x)
    (h : ReadsTo p (x ++ rest) a rest) : ReadsTo (after (keywords w v) p) r a rest := by
  obtain ⟨u, hu, hl⟩ := h
  exact ⟨u, (bind_ok (keywords_space hv (hx.append rest) hs)).trans hu, hl⟩

theorem after_keywords_refuses {v : String} (h : wordNext w r = false) :
    Refuses (after (keywords w v) p) r :=
  bind_refuses (bind_refuses (keyword_refuses h))

/-- What is left of a fence is refused what the fence is refused. -/
theorem Fence.left {ws : List String} (h : Fence ws rest) (hl : r = rest ∨ r = skip rest) {v : String}
    (hv : v ∈ fenceWords) (hn : v ∉ ws) : wordNext v r = false := by
  rw [wordNext_congr (skip_of_left hl)]
  exact h.noWord hv hn

end

/-! ## Names of items -/

theorem aliasName_ok {a : String} {r rest : List Char}
    (hs : skip r = "AS".toList ++ ' ' :: (nameChars a ++ rest)) (h : nameEnds rest = true) :
    aliasName r = .ok (a, skip rest) := by
  have hname : spaced anyIdentifier (nameChars a ++ rest) = .ok (a, skip rest) :=
    spaced_ok (by rw [(nameChars_solid a).skip, anyIdentifier_ok a h])
  have hword : keyword "AS" r = .ok ((), nameChars a ++ rest) := by
    rw [keyword_space hs, (nameChars_solid a).skip]
  exact orElse_ok ((bind_ok hword).trans hname)

theorem aliasName_refuses {ws : List String} {r rest : List Char} (h : Fence ws rest)
    (hl : r = rest ∨ r = skip rest) (has : "AS" ∉ ws) : Refuses aliasName r := by
  have hid := h.noName
  rw [← skip_of_left hl] at hid
  obtain ⟨e, he⟩ := spaced_refuses hid
  exact ⟨e, by rw [aliasName, orElse_refuses (bind_refuses (keyword_refuses
    (h.left hl (by decide) has))), he]⟩

/-- An optional name is read as it is written. -/
theorem alias_ok (a : Option String) {ws : List String} {r rest : List Char} (h : Fence ws rest)
    (has : "AS" ∉ ws) (hl : r = aliasChars a ++ rest ∨ r = skip (aliasChars a ++ rest)) :
    ReadsTo (optional aliasName) r a rest := by
  cases a with
  | none => exact .none (aliasName_refuses h hl has) hl
  | some a =>
      have hs : skip r = "AS".toList ++ ' ' :: (nameChars a ++ rest) := by
        rw [skip_of_left hl, aliasChars, List.append_assoc]
        rfl
      exact .some (.behind (aliasName_ok hs h.endsName))

theorem alias_fence (a : Option String) {ws : List String} {rest : List Char} (h : Fence ws rest) :
    Fence ("AS" :: ws) (aliasChars a ++ rest) := by
  cases a with
  | none => exact h.mono fun _ hw => List.mem_cons_of_mem _ hw
  | some a =>
      rw [aliasChars, List.append_assoc]
      exact .word (w := "AS") (r := ' ' :: (nameChars a ++ rest)) (by simp) (by decide) rfl

/-! ## Projections -/

theorem selectItem_solid {x : SelectItem} (h : x.Legible) : Solid x.chars := by
  cases x with
  | all => exact solid_of_head rfl
  | allOf q => exact (nameChars_solid q).append _
  | expr e n => exact (chars_solid h).append _

/-- An expression is read as an item of a projection. -/
theorem selectItem_expr {x : List Char} {e : Expr} (ho : Opens 1 x)
    (hx : ∀ s, clear 1 s = true → ReadsTo expr (x ++ s) e s) (n : Option String) {ws : List String}
    {rest : List Char} (hr : Fence ws rest) (has : "AS" ∉ ws) :
    ReadsTo selectItem (x ++ (aliasChars n ++ rest)) (.expr e n) rest := by
  have hf : Fence ("AS" :: ws) (aliasChars n ++ rest) := alias_fence n hr
  have hstart := ho (aliasChars n ++ rest) (clear_touches hf.isClear).1
  have hwild : Refuses (spaced (do let name ← identifier; exactly ['.', '*']; return name))
      (x ++ (aliasChars n ++ rest)) := by
    refine spaced_refuses ?_
    have hskip := hstart.solid.skip []
    rw [List.append_nil] at hskip
    rw [hskip]
    exact hstart.wild
  have hread : ReadsTo (do let e ← expr; let name ← optional aliasName; return SelectItem.expr e name)
      (x ++ (aliasChars n ++ rest)) (.expr e n) rest :=
    (hx _ hf.isClear).andThen fun r hl => (alias_ok n hr has hl).map _
  obtain ⟨r, hr', hl⟩ := hread
  refine ⟨r, ?_, hl⟩
  exact (oneOf_refuses (bind_refuses (symbol_refuses hstart.star))).trans
    ((oneOf_refuses (bind_refuses hwild)).trans hr')

/-- An item of a projection is read back. -/
theorem selectItem_ok {x : SelectItem} (h : x.Legible) {ws : List String} {rest : List Char}
    (hr : Fence ws rest) (has : "AS" ∉ ws) : ReadsTo selectItem (x.chars ++ rest) x.reread rest := by
  cases x with
  | all =>
      have hstar : symbol '*' ('*' :: rest) = .ok ((), skip rest) := symbol_here (by decide) rest
      exact .behind (oneOf_ok ((bind_ok hstar).trans rfl))
  | allOf q =>
      obtain ⟨c, t, hn, hg, hs, -⟩ := nameChars_head q
      have hstar : Refuses (symbol '*') (nameChars q ++ ('.' :: '*' :: rest)) := by
        refine symbol_refuses ?_
        rw [hn, List.cons_append, charNext, skip_cons hg]
        simpa using hs
      have hname : spaced (do let name ← identifier; exactly ['.', '*']; return name)
          (nameChars q ++ ('.' :: '*' :: rest)) = .ok (q, skip rest) := by
        refine spaced_ok ?_
        rw [(nameChars_solid q).skip, bind_ok (identifier_ok q rfl)]
        exact (bind_ok (exactly_ok ['.', '*'] rest)).trans rfl
      have htext : (SelectItem.allOf q).chars ++ rest = nameChars q ++ ('.' :: '*' :: rest) := by
        simp [SelectItem.chars]
      rw [htext]
      exact .behind ((oneOf_refuses (bind_refuses hstar)).trans (oneOf_ok ((bind_ok hname).trans rfl)))
  | expr e n =>
      rw [SelectItem.chars, List.append_assoc]
      exact selectItem_expr ((opens_chars e h).mono e.strength_pos) (fun _ hs => expr_ok h hs) n hr has

/-! ## Lists -/

/-- A fence that is no comma. -/
def Wall (ws : List String) (s : List Char) : Prop := Fence ws s ∧ charNext ',' s = false

theorem Wall.mono {ws vs : List String} (h : ∀ w ∈ ws, w ∈ vs) {s : List Char} (hs : Wall ws s) :
    Wall vs s :=
  ⟨hs.1.mono h, hs.2⟩

theorem Wall.word {ws : List String} {w : String} (h : w ∈ ws) (k : w ∈ fenceWords) {r : List Char}
    (hr : identFollows r = false) : Wall ws (' ' :: (w.toList ++ r)) := by
  refine ⟨.word h k hr, ?_⟩
  obtain ⟨c, t, hl, hc, -⟩ := fenceWord_spec k
  rw [charNext, Fence.skip_word k, hl]
  have hne : c ≠ ',' := by
    rintro rfl
    revert hc
    decide
  simpa using hne

/-- The first of several texts, and what follows it. -/
theorem commaList_cons (x : List Char) (xs : List (List Char)) (rest : List Char) :
    ∃ s, commaList (x :: xs) ++ rest = x ++ s ∧ (s = rest ∨ ∃ y, s = ',' :: y) := by
  cases xs with
  | nil => exact ⟨rest, rfl, Or.inl rfl⟩
  | cons y ys =>
      exact ⟨',' :: ' ' :: (commaList (y :: ys) ++ rest), by simp [commaList, joinChars],
        Or.inr ⟨_, rfl⟩⟩

section
variable {α β : Type} {p : Parser β} {xs : List α} {text : α → List Char} {f : α → β}
  {ws : List String} {rest : List Char}

/-- A list is read when each of its elements is, before every fence. -/
theorem list_ok (hne : xs ≠ []) (hsolid : ∀ x ∈ xs, Solid (text x))
    (hread : ∀ x ∈ xs, ∀ s, Fence ws s → ReadsTo p (text x ++ s) (f x) s) (hr : Wall ws rest) :
    ReadsTo (separated (symbol ',') p) (commaList (xs.map text) ++ rest) (xs.map f) rest := by
  refine separated_commaList hne hsolid ?_ hr.2
  rintro x hx s (rfl | ⟨y, rfl⟩)
  · exact hread x hx _ hr.1
  · exact hread x hx _ (.comma y)

theorem list_solid (hne : xs ≠ []) (hsolid : ∀ x ∈ xs, Solid (text x)) :
    Solid (commaList (xs.map text)) := by
  refine commaList_solid (by simpa using hne) fun c hc => ?_
  obtain ⟨x, hx, rfl⟩ := List.mem_map.mp hc
  exact hsolid x hx

end

theorem exprs_ok {es : List Expr} (hne : es ≠ []) (h : ∀ e ∈ es, e.Legible) {ws : List String}
    {rest : List Char} (hr : Wall ws rest) :
    ReadsTo (separated (symbol ',') expr) (commaList (es.map Expr.chars) ++ rest)
      (es.map Expr.reread) rest :=
  list_ok hne (fun e he => chars_solid (h e he)) (fun e he _ hs => expr_ok (h e he) hs.isClear) hr

/-- No projection begins with the word for distinct rows. -/
theorem projection_distinct {xs : List SelectItem} (hne : xs ≠ []) (h : ∀ x ∈ xs, x.Legible)
    {ws : List String} {rest : List Char} (hr : Fence ws rest) :
    wordNext "DISTINCT" (commaList (xs.map SelectItem.chars) ++ rest) = false := by
  cases xs with
  | nil => exact absurd rfl hne
  | cons x xs =>
      obtain ⟨s, hs, hf⟩ := commaList_cons x.chars (xs.map SelectItem.chars) rest
      have hfence : Fence ws s := by
        rcases hf with rfl | ⟨y, rfl⟩
        · exact hr
        · exact .comma y
      rw [List.map_cons, hs]
      have hx := h x (by simp)
      cases x with
      | all => rfl
      | allOf q =>
          rw [SelectItem.chars, List.append_assoc]
          exact wordNext_name (by decide) (by decide) (by decide) q rfl
      | expr e n =>
          rw [SelectItem.chars, List.append_assoc]
          exact (opens_chars e hx _ (clear_touches (alias_fence n hfence).isClear).1).distinct

/-! ## Clauses of a SELECT -/

section
variable {w word : String} {o : Option Expr} {ws : List String} {rest r : List Char}

/-- An optional condition is read behind its word. -/
theorem condition_ok (hw : w ∈ fenceWords) (hword : word.toList = ' ' :: (w.toList ++ [' ']))
    (ho : ∀ e ∈ o, e.Legible) (hr : Fence ws rest) (hn : w ∉ ws)
    (hl : r = conditionChars word o ++ rest ∨ r = skip (conditionChars word o ++ rest)) :
    ReadsTo (optional (after (keyword w) expr)) r (o.map Expr.reread) rest := by
  cases o with
  | none => exact .none (after_keyword_refuses (hr.left hl hw hn)) hl
  | some e =>
      have he := ho e rfl
      refine .some (after_keyword ?_ (chars_solid he) (expr_ok he hr.isClear))
      rw [skip_of_left hl, conditionChars, clauseChars, hword]
      simp only [List.cons_append, List.append_assoc, List.nil_append]
      exact Fence.skip_word hw _

theorem condition_wall (hw : w ∈ fenceWords) (hword : word.toList = ' ' :: (w.toList ++ [' ']))
    (hr : Wall ws rest) : Wall (w :: ws) (conditionChars word o ++ rest) := by
  cases o with
  | none => exact hr.mono fun _ hv => List.mem_cons_of_mem _ hv
  | some e =>
      rw [conditionChars, clauseChars, hword]
      simp only [List.cons_append, List.append_assoc, List.nil_append]
      exact .word (by simp) hw rfl

end

section
variable {es : List Expr} {ws : List String} {rest r : List Char}

/-- The text of grouping keys, if there are any. -/
def groupChars (es : List Expr) : List Char :=
  if es.isEmpty then [] else clauseChars " GROUP BY " (commaList (es.map Expr.chars))

theorem group_ok (h : ∀ e ∈ es, e.Legible) (hr : Wall ws rest) (hn : "GROUP" ∉ ws)
    (hl : r = groupChars es ++ rest ∨ r = skip (groupChars es ++ rest)) :
    ∃ o, ReadsTo (optional (after (keywords "GROUP" "BY") (separated (symbol ',') expr))) r o rest ∧
      o.getD [] = es.map Expr.reread := by
  cases es with
  | nil => exact ⟨none, .none (after_keywords_refuses (hr.1.left hl (by decide) hn)) hl, rfl⟩
  | cons e es =>
      refine ⟨_, .some (after_keywords (solid_of_head rfl) ?_
        (list_solid (List.cons_ne_nil e es) fun x hx => chars_solid (h x hx))
        (exprs_ok (List.cons_ne_nil e es) h hr)), rfl⟩
      rw [skip_of_left hl, groupChars, if_neg (by simp), clauseChars, List.append_assoc]
      rfl

theorem group_wall (es : List Expr) (hr : Wall ws rest) :
    Wall ("GROUP" :: ws) (groupChars es ++ rest) := by
  cases es with
  | nil => exact hr.mono fun _ hv => List.mem_cons_of_mem _ hv
  | cons e es =>
      rw [groupChars, if_neg (by simp), clauseChars, List.append_assoc]
      exact .word (w := "GROUP") (by simp) (by decide) rfl

end

/-- The text of a source, if there is one. -/
def sourceChars (xs : List FromItem) : List Char :=
  if xs.isEmpty then [] else clauseChars " FROM " (commaList (xs.map FromItem.chars))

section
variable {source : Parser (List FromItem)} {xs : List FromItem} {rest r : List Char}

theorem source_ok {ws : List String} (hsolid : ∀ x ∈ xs, Solid x.chars)
    (hsource : xs ≠ [] →
      ReadsTo source (commaList (xs.map FromItem.chars) ++ rest) (xs.map FromItem.reread) rest)
    (hr : Wall ws rest) (hn : "FROM" ∉ ws)
    (hl : r = sourceChars xs ++ rest ∨ r = skip (sourceChars xs ++ rest)) :
    ∃ o, ReadsTo (optional (after (keyword "FROM") source)) r o rest ∧
      o.getD [] = xs.map FromItem.reread := by
  cases xs with
  | nil => exact ⟨none, .none (after_keyword_refuses (hr.1.left hl (by decide) hn)) hl, rfl⟩
  | cons x xs =>
      refine ⟨_, .some (after_keyword ?_ (list_solid (List.cons_ne_nil x xs) hsolid)
        (hsource (List.cons_ne_nil x xs))), rfl⟩
      rw [skip_of_left hl, sourceChars, if_neg (by simp), clauseChars, List.append_assoc]
      rfl

theorem source_wall (xs : List FromItem) {ws : List String} (hr : Wall ws rest) :
    Wall ("FROM" :: ws) (sourceChars xs ++ rest) := by
  cases xs with
  | nil => exact hr.mono fun _ hv => List.mem_cons_of_mem _ hv
  | cons x xs =>
      rw [sourceChars, if_neg (by simp), clauseChars, List.append_assoc]
      exact .word (w := "FROM") (by simp) (by decide) rfl

theorem restChars_eq (c : Clauses) : c.restChars = conditionChars " WHERE " c.condition ++
    (groupChars c.groupBy ++ conditionChars " HAVING " c.having) := by
  rw [Clauses.restChars, List.append_assoc]
  rfl

/-- The word SELECT by itself, before all that stands behind it. -/
theorem selectChars_eq (d l f w g h rest : List Char) :
    ("SELECT ".toList ++ d ++ l) ++ f ++ (w ++ (g ++ h)) ++ rest =
      "SELECT".toList ++ ' ' :: (d ++ (l ++ (f ++ (w ++ (g ++ (h ++ rest)))))) := by
  simp only [List.append_assoc]
  rfl

/-- A SELECT without closing clauses is read back. -/
theorem selectCore_ok (source : Parser (List FromItem)) (xs : List FromItem) {c : Clauses} (hc : c.Legible) (hsolid : ∀ x ∈ xs, Solid x.chars)
    (hsource : xs ≠ [] → ∀ s, Wall clauseWords s →
      ReadsTo source (commaList (xs.map FromItem.chars) ++ s) (xs.map FromItem.reread) s)
    (hr : Wall openWords rest) :
    ReadsTo (selectCore source) (c.headChars ++ sourceChars xs ++ c.restChars ++ rest)
      (.select (xs.map FromItem.reread) c.reread .empty) rest := by
  -- what stands behind each of the clauses, the last one first
  have hhaving : Wall ("HAVING" :: openWords) (conditionChars " HAVING " c.having ++ rest) :=
    condition_wall (by decide) rfl hr
  have hgroup := group_wall c.groupBy hhaving
  have hwhere : Wall clauseWords (conditionChars " WHERE " c.condition ++ (groupChars c.groupBy ++
      (conditionChars " HAVING " c.having ++ rest))) :=
    condition_wall (by decide) rfl hgroup
  have hfrom := source_wall xs hwhere
  have hitems : ∀ x ∈ c.projection, Solid x.chars := fun x hx => selectItem_solid (hc.projection x hx)
  have hlist := list_ok hc.items hitems
    (fun x hx s hs => selectItem_ok (hc.projection x hx) hs (by decide)) hfrom
  obtain ⟨hskip, hdistinct⟩ := distinct_ok c.distinct
    ((list_solid hc.items hitems).append (sourceChars xs ++ (conditionChars " WHERE " c.condition ++
      (groupChars c.groupBy ++ (conditionChars " HAVING " c.having ++ rest)))))
    (projection_distinct hc.items hc.projection hfrom.1)
  have hselect : keyword "SELECT" (c.headChars ++ sourceChars xs ++ c.restChars ++ rest) =
      .ok ((), (if c.distinct then "DISTINCT ".toList else []) ++
        (commaList (c.projection.map SelectItem.chars) ++ (sourceChars xs ++
          (conditionChars " WHERE " c.condition ++ (groupChars c.groupBy ++
            (conditionChars " HAVING " c.having ++ rest)))))) := by
    have hsolid : Solid "SELECT".toList := solid_of_head rfl
    have hword := keyword_space (hsolid.skip (' ' :: ((if c.distinct then "DISTINCT ".toList else []) ++
        (commaList (c.projection.map SelectItem.chars) ++ (sourceChars xs ++
          (conditionChars " WHERE " c.condition ++ (groupChars c.groupBy ++
            (conditionChars " HAVING " c.having ++ rest))))))))
    rw [hskip] at hword
    have htext : c.headChars ++ sourceChars xs ++ c.restChars ++ rest = _ :=
      (congrArg (fun x => c.headChars ++ sourceChars xs ++ x ++ rest) (restChars_eq c)).trans
        (selectChars_eq _ _ _ _ _ _ _)
    exact (congrArg _ htext).trans hword
  obtain ⟨u, hu, hl⟩ : ReadsTo (do
        let projection ← separated (symbol ',') selectItem
        let from_ ← optional (after (keyword "FROM") source)
        let condition ← optional (after (keyword "WHERE") expr)
        let groupBy ← optional (after (keywords "GROUP" "BY") (separated (symbol ',') expr))
        let having ← optional (after (keyword "HAVING") expr)
        return Query.select (from_.getD [])
          ⟨c.distinct, projection, condition, groupBy.getD [], having⟩ .empty)
      (commaList (c.projection.map SelectItem.chars) ++ (sourceChars xs ++
          (conditionChars " WHERE " c.condition ++ (groupChars c.groupBy ++
            (conditionChars " HAVING " c.having ++ rest)))))
      (.select (xs.map FromItem.reread) c.reread .empty) rest := by
    refine hlist.andThen fun r1 h1 => ?_
    obtain ⟨o, ho, hof⟩ := source_ok hsolid (fun hne => hsource hne _ hwhere) hwhere (by decide) h1
    refine ho.andThen fun r2 h2 => ?_
    refine (condition_ok (by decide) rfl hc.condition hgroup.1 (by decide) h2).andThen fun r3 h3 => ?_
    obtain ⟨g, hg, hgf⟩ := group_ok hc.groupBy hhaving (by decide) h3
    refine hg.andThen fun r4 h4 => ?_
    refine ((condition_ok (by decide) rfl hc.having hr.1 (by decide) h4).map _).congr ?_
    rw [hof, hgf]
    rfl
  exact ⟨u, (bind_ok hselect).trans ((bind_ok hdistinct).trans hu), hl⟩

end

/-! ## Closing clauses -/

theorem sortKey_solid {k : SortKey} (h : k.expr.Legible) : Solid k.chars := by
  unfold SortKey.chars
  split
  · exact chars_solid h
  · exact (chars_solid h).append _

/-- A sort key is read back. -/
theorem sortKey_ok {k : SortKey} (h : k.expr.Legible) {ws : List String} {rest : List Char}
    (hr : Fence ws rest) (hd : "DESC" ∉ ws) : ReadsTo sortKey (k.chars ++ rest) k.reread rest := by
  obtain ⟨e, order⟩ := k
  have hdiff : ∀ w ∈ fenceWords, "ASC".toList.map asciiLower ≠ w.toList.map asciiLower := by decide
  have hasc : ∀ vs r, Fence vs r → wordNext "ASC" r = false := fun _ _ hf =>
    hf.noOther (by decide) (by decide) fun w hw _ => hdiff w hw
  cases order with
  | asc =>
      refine (expr_ok h hr.isClear).andThen fun r hl => ?_
      refine ((ReadsTo.none (refuses_oneOf ?_) hl).map _).congr rfl
      simp only [List.forall_mem_cons, List.not_mem_nil]
      refine ⟨bind_refuses (keyword_refuses ?_), bind_refuses (keyword_refuses
        (hr.left hl (by decide) hd)), fun _ hx => hx.elim⟩
      rw [wordNext_congr (skip_of_left hl)]
      exact hasc _ rest hr
  | desc =>
      have hi : identFollows rest = false := (nameEnds_spec hr.endsName).1
      have hf : Fence ("DESC" :: ws) (" DESC".toList ++ rest) :=
        .word (w := "DESC") (by simp) (by decide) hi
      have htext : (SortKey.mk e .desc).chars ++ rest = e.chars ++ (" DESC".toList ++ rest) :=
        List.append_assoc _ _ _
      refine htext ▸ (expr_ok h hf.isClear).andThen fun r hl => ?_
      have hs : skip r = "DESC".toList ++ rest := by
        rw [skip_of_left hl]
        exact Fence.skip_word (w := "DESC") (by decide) rest
      have hone : oneOf [
          do keyword "ASC"; return SortOrder.asc,
          do keyword "DESC"; return SortOrder.desc] r = .ok (.desc, skip rest) := by
        refine (oneOf_refuses (bind_refuses (keyword_refuses ?_))).trans
          (oneOf_ok ((bind_ok (keyword_at hs hi)).trans rfl))
        rw [wordNext_congr (skip_of_left hl)]
        exact hasc _ _ hf
      exact ((ReadsTo.behind hone).some.map _).congr rfl

theorem digits_solid (n : Nat) : Solid (Digits.ofNat n) := by
  obtain ⟨c, r, hn, hd⟩ := Digits.ofNat_cons n
  exact ⟨c, r, hn, (isDigit_spec hd).2.1⟩

/-- A number below a limit is read from its digits. -/
theorem natBelow_ok {limit n : Nat} (h : n < limit) {rest : List Char}
    (hr : identFollows rest = false) :
    natBelow limit (Digits.ofNat n ++ rest) = .ok (n, rest) := by
  obtain ⟨c, r, hn, -⟩ := Digits.ofNat_cons n
  have hall := Digits.ofNat_all n
  have hval := Digits.value_ofNat n
  rw [hn] at hall hval ⊢
  refine filterMap_ok (digits_ok hall fun k t hk => ?_) ?_
  · cases hd : Digits.isDigit k with
    | false => rfl
    | true =>
        rw [hk, identFollows, (isDigit_spec hd).1] at hr
        cases hr
  · simp only [hval, h, if_true]

theorem spaced_natBelow {limit n : Nat} (h : n < limit) {rest : List Char}
    (hr : identFollows rest = false) :
    spaced (natBelow limit) (Digits.ofNat n ++ rest) = .ok (n, skip rest) :=
  spaced_ok (by rw [(digits_solid n).skip, natBelow_ok h hr])

theorem rowCount_ok (n : UInt64) {rest : List Char} (hr : identFollows rest = false) :
    ReadsTo rowCount (Digits.ofNat n.toNat ++ rest) n rest := by
  have hread : spaced (natBelow (2 ^ 64)) (Digits.ofNat n.toNat ++ rest) = .ok (n.toNat, skip rest) :=
    spaced_natBelow n.toNat_lt hr
  refine .behind ((bind_ok hread).trans ?_)
  rw [UInt64.ofNat_toNat]
  rfl

/-- The text of a count of rows behind its word. -/
def countChars (word : String) : Option UInt64 → List Char
  | some n => clauseChars word (Digits.ofNat n.toNat)
  | none => []

section
variable {w word : String} {o : Option UInt64} {ws : List String} {rest r : List Char}

theorem count_ok (hw : w ∈ fenceWords) (hword : word.toList = ' ' :: (w.toList ++ [' ']))
    (hr : Fence ws rest) (hn : w ∉ ws)
    (hl : r = countChars word o ++ rest ∨ r = skip (countChars word o ++ rest)) :
    ReadsTo (optional (after (keyword w) rowCount)) r o rest := by
  cases o with
  | none => exact .none (after_keyword_refuses (hr.left hl hw hn)) hl
  | some n =>
      refine .some (after_keyword ?_ (digits_solid n.toNat)
        (rowCount_ok n (nameEnds_spec hr.endsName).1))
      rw [skip_of_left hl, countChars, clauseChars, hword]
      simp only [List.cons_append, List.append_assoc, List.nil_append]
      exact Fence.skip_word hw _

theorem count_wall (hw : w ∈ fenceWords) (hword : word.toList = ' ' :: (w.toList ++ [' ']))
    (hr : Wall ws rest) : Wall (w :: ws) (countChars word o ++ rest) := by
  cases o with
  | none => exact hr.mono fun _ hv => List.mem_cons_of_mem _ hv
  | some n =>
      rw [countChars, clauseChars, hword]
      simp only [List.cons_append, List.append_assoc, List.nil_append]
      exact .word (by simp) hw rfl

end

/-- The text of sort keys, if there are any. -/
def orderChars (ks : List SortKey) : List Char :=
  if ks.isEmpty then [] else clauseChars " ORDER BY " (commaList (ks.map SortKey.chars))

section
variable {ks : List SortKey} {ws : List String} {rest r : List Char}

theorem order_ok (h : ∀ k ∈ ks, k.expr.Legible) (hr : Wall ws rest) (hn : "ORDER" ∉ ws)
    (hd : "DESC" ∉ ws) (hl : r = orderChars ks ++ rest ∨ r = skip (orderChars ks ++ rest)) :
    ∃ o, ReadsTo (optional (after (keywords "ORDER" "BY") (separated (symbol ',') sortKey))) r o rest ∧
      o.getD [] = ks.map SortKey.reread := by
  cases ks with
  | nil => exact ⟨none, .none (after_keywords_refuses (hr.1.left hl (by decide) hn)) hl, rfl⟩
  | cons k ks =>
      have hsolid : ∀ x ∈ k :: ks, Solid x.chars := fun x hx => sortKey_solid (h x hx)
      have hlist := list_ok (List.cons_ne_nil k ks) hsolid
        (fun x hx s hs => sortKey_ok (h x hx) hs hd) hr
      refine ⟨_, .some (after_keywords (solid_of_head rfl) ?_
        (list_solid (List.cons_ne_nil k ks) hsolid) hlist), rfl⟩
      rw [skip_of_left hl, orderChars, if_neg (by simp), clauseChars, List.append_assoc]
      rfl

theorem order_wall (hr : Wall ws rest) : Wall ("ORDER" :: ws) (orderChars ks ++ rest) := by
  cases ks with
  | nil => exact hr.mono fun _ hv => List.mem_cons_of_mem _ hv
  | cons k ks =>
      rw [orderChars, if_neg (by simp), clauseChars, List.append_assoc]
      exact .word (w := "ORDER") (by simp) (by decide) rfl

end

theorem tailChars_eq (t : Tail) : t.chars =
    orderChars t.orderBy ++ (countChars " LIMIT " t.limit ++ countChars " OFFSET " t.offset) := by
  obtain ⟨ks, limit, offset⟩ := t
  cases limit <;> cases offset <;> simp only [Tail.chars, List.append_assoc] <;> rfl

theorem tail_wall {t : Tail} {rest : List Char} (hr : Wall [] rest) : Wall tailWords (t.chars ++ rest) := by
  rw [tailChars_eq, List.append_assoc, List.append_assoc]
  exact order_wall (count_wall (by decide) rfl (count_wall (by decide) rfl hr))

/-- Closing clauses are read back. -/
theorem tail_ok {t : Tail} (h : t.Legible) {rest r : List Char} (hr : Wall [] rest)
    (hl : r = t.chars ++ rest ∨ r = skip (t.chars ++ rest)) : ReadsTo tail r t.reread rest := by
  have hoffset : Wall ["OFFSET"] (countChars " OFFSET " t.offset ++ rest) :=
    count_wall (by decide) rfl hr
  have hlimit : Wall ["LIMIT", "OFFSET"] (countChars " LIMIT " t.limit ++
      (countChars " OFFSET " t.offset ++ rest)) :=
    count_wall (by decide) rfl hoffset
  rw [tailChars_eq, List.append_assoc, List.append_assoc] at hl
  obtain ⟨o, ho, hof⟩ := order_ok h hlimit (by decide) (by decide) hl
  refine ho.andThen fun r1 h1 => ?_
  refine (count_ok (by decide) rfl hoffset.1 (by decide) h1).andThen fun r2 h2 => ?_
  refine ((count_ok (by decide) rfl hr.1 (by decide) h2).map _).congr ?_
  rw [hof]
  rfl

end Parser

end Rowtime.Sql
