import Rowtime.Proofs.TextEnds

/-!
# The round trip of statements

Sources and queries contain each other, so both are read back by one induction:
a source item as a first item and its joins (`ItemLinks`), a query as a first
SELECT and its unions (`QueryLinks`). What follows decides where they end.

The result is `parseStatement_display`: the text of a legible query is the text of
one statement, and what is read from it is the query, `reread`.
-/
namespace Rowtime.Sql

open Text

namespace Parser

/-! ## Joins -/

/-- The words behind an item that may still be joined. -/
def joinableWords : List String := joinWords ++ clauseWords

/-- The words behind an item, a condition being one of the things that may follow. -/
def itemWords : List String := "ON" :: joinableWords

/-- Items joined one after the other behind a first one. -/
inductive Joined (factor : Parser FromItem) (s : List Char) (x : FromItem) :
    List Char → FromItem → Prop where
  | start : Joined factor s x s x
  | join {t u v w : List Char} {y r : FromItem} {k : JoinKind} {on : Option Expr}
      (h : Joined factor s x t y) (hk : joinKind t = .ok (k, u)) (hr : factor u = .ok (r, v))
      (ho : joinCondition k v = .ok (on, w)) (hl : w.length < t.length) :
      Joined factor s x w (.join k y r on)

theorem joinsFrom_of_joined {factor : Parser FromItem} {s t : List Char} {x y : FromItem}
    (h : Joined factor s x t y) {fuel : List Char} (hf : s.length ≤ fuel.length) :
    ∃ fuel' : List Char, t.length ≤ fuel'.length ∧
      joinsFrom factor fuel x s = joinsFrom factor fuel' y t := by
  induction h with
  | start => exact ⟨fuel, hf, rfl⟩
  | join _ hk hr ho hl ih =>
      obtain ⟨fuel', hf', he⟩ := ih
      cases fuel' with
      | nil => simp only [List.length_nil] at hf'; omega
      | cons c fuel' =>
          refine ⟨fuel', by simp only [List.length_cons] at hf'; omega, ?_⟩
          rw [he, joinsFrom]
          simp only [hk]
          rw [bind_ok hr, bind_ok ho]

theorem joinsFrom_end {factor : Parser FromItem} {t : List Char} {y : FromItem}
    (h : Refuses joinKind t) (fuel : List Char) : joinsFrom factor fuel y t = .ok (y, t) := by
  obtain ⟨e, he⟩ := h
  cases fuel with
  | nil => rfl
  | cons c fuel =>
      rw [joinsFrom]
      simp only [he]

theorem joinedItem_ok {factor : Parser FromItem} {s r t : List Char} {x y : FromItem}
    (hx : factor s = .ok (x, r)) (h : Joined factor r x t y) (ht : Refuses joinKind t) :
    joinedItem factor s = .ok (y, t) := by
  obtain ⟨fuel, -, he⟩ := joinsFrom_of_joined h (Nat.le_refl r.length)
  exact (bind_ok hx).trans (he.trans (joinsFrom_end ht fuel))

/-- The words of a join are read. -/
theorem joinKind_ok (k : JoinKind) {t z : List Char} (hs : skip t = skip (k.words.toList ++ z)) :
    joinKind t = .ok (k, skip z) := by
  have hfree : ∀ {v : String} {a b : Parser JoinKind} {ps : List (Parser JoinKind)},
      wordNext v (k.words.toList ++ z) = false → (∃ f, a = keyword v >>= f) →
      oneOf (a :: b :: ps) t = oneOf (b :: ps) t := by
    rintro v a b ps hv ⟨f, rfl⟩
    refine oneOf_refuses (bind_refuses (keyword_refuses ?_))
    rw [wordNext_congr hs]
    exact hv
  have hjoin : keyword "JOIN" ("JOIN".toList ++ ' ' :: z) = .ok ((), skip z) := keyword_space rfl
  have houter : optional (keyword "OUTER") ("JOIN".toList ++ ' ' :: z) =
      .ok (none, "JOIN".toList ++ ' ' :: z) :=
    optional_refuses (keyword_refuses rfl)
  cases k with
  | inner => exact oneOf_ok ((bind_ok (keyword_space (w := "JOIN") hs)).trans rfl)
  | left =>
      refine (hfree (v := "JOIN") rfl ⟨_, rfl⟩).trans ((hfree (v := "INNER") rfl ⟨_, rfl⟩).trans
        (oneOf_ok ?_))
      have hword : keyword "LEFT" t = .ok ((), "JOIN".toList ++ ' ' :: z) :=
        keyword_space (t := "JOIN".toList ++ ' ' :: z) hs
      exact (bind_ok hword).trans ((bind_ok houter).trans ((bind_ok hjoin).trans rfl))
  | right =>
      refine (hfree (v := "JOIN") rfl ⟨_, rfl⟩).trans ((hfree (v := "INNER") rfl ⟨_, rfl⟩).trans
        ((hfree (v := "LEFT") rfl ⟨_, rfl⟩).trans (oneOf_ok ?_)))
      have hword : keyword "RIGHT" t = .ok ((), "JOIN".toList ++ ' ' :: z) :=
        keyword_space (t := "JOIN".toList ++ ' ' :: z) hs
      exact (bind_ok hword).trans ((bind_ok houter).trans ((bind_ok hjoin).trans rfl))
  | cross =>
      refine (hfree (v := "JOIN") rfl ⟨_, rfl⟩).trans ((hfree (v := "INNER") rfl ⟨_, rfl⟩).trans
        ((hfree (v := "LEFT") rfl ⟨_, rfl⟩).trans ((hfree (v := "RIGHT") rfl ⟨_, rfl⟩).trans ?_)))
      have hword : keyword "CROSS" t = .ok ((), "JOIN".toList ++ ' ' :: z) :=
        keyword_space (t := "JOIN".toList ++ ' ' :: z) hs
      exact (bind_ok hword).trans ((bind_ok hjoin).trans rfl)

theorem joinKind_refuses {rest r : List Char} (hr : Fence clauseWords rest)
    (hl : r = rest ∨ r = skip rest) : Refuses joinKind r := by
  have hinner : wordNext "INNER" r = false := by
    have hdiff : ∀ w ∈ fenceWords, "INNER".toList.map asciiLower ≠ w.toList.map asciiLower := by
      decide
    rw [wordNext_congr (skip_of_left hl)]
    exact hr.noOther (by decide) (by decide) fun w hw _ => hdiff w hw
  refine refuses_oneOf ?_
  simp only [List.forall_mem_cons, List.not_mem_nil]
  exact ⟨bind_refuses (keyword_refuses (hr.left hl (by decide) (by decide))),
    bind_refuses (keyword_refuses hinner),
    bind_refuses (keyword_refuses (hr.left hl (by decide) (by decide))),
    bind_refuses (keyword_refuses (hr.left hl (by decide) (by decide))),
    bind_refuses (keyword_refuses (hr.left hl (by decide) (by decide))), fun _ hx => hx.elim⟩

theorem words_fence (k : JoinKind) (z : List Char) : Fence joinWords (k.words.toList ++ z) := by
  cases k with
  | inner => exact .word (w := "JOIN") (r := ' ' :: z) (by decide) (by decide) rfl
  | left => exact .word (w := "LEFT") (r := " JOIN ".toList ++ z) (by decide) (by decide) rfl
  | right => exact .word (w := "RIGHT") (r := " JOIN ".toList ++ z) (by decide) (by decide) rfl
  | cross => exact .word (w := "CROSS") (r := " JOIN ".toList ++ z) (by decide) (by decide) rfl

/-- The condition of a join is read back. -/
theorem joinCondition_ok {k : JoinKind} {on : Option Expr} (hk : k = .cross → on = none)
    (ho : ∀ e ∈ on, e.Legible) {rest r : List Char} (hr : Fence joinableWords rest)
    (hl : r = conditionChars " ON " on ++ rest ∨ r = skip (conditionChars " ON " on ++ rest)) :
    ReadsTo (joinCondition k) r (on.map Expr.reread) rest := by
  by_cases hc : k = .cross
  · obtain rfl := hk hc
    rw [joinCondition, if_pos (by simp [hc])]
    exact ⟨r, rfl, hl⟩
  · rw [joinCondition, if_neg (by simpa using hc)]
    exact condition_ok (by decide) rfl ho hr (by decide) hl

theorem conditionChars_fence {on : Option Expr} {rest : List Char} (hr : Fence joinableWords rest) :
    Fence itemWords (conditionChars " ON " on ++ rest) := by
  cases on with
  | none => exact hr.mono fun _ hv => List.mem_cons_of_mem _ hv
  | some e =>
      rw [conditionChars, clauseChars, List.append_assoc]
      exact .word (w := "ON") (r := ' ' :: (e.chars ++ rest)) (by decide) (by decide) rfl

/-! ## Items and queries of a nesting -/

/-- The reader of an item without joins. -/
abbrev factor (n : Nat) : Parser FromItem := sourceFactor (queryAt n) (sourceAt n)

/-- The reader of a SELECT or a query in parentheses. -/
abbrev term (n : Nat) : Parser Query := queryTerm (queryAt n) (sourceWith (queryAt n) (sourceAt n))

/-- An item is read as a first one and its joins. -/
def ItemLinks (n : Nat) (x : FromItem) : Prop :=
  ∀ rest, Fence joinableWords rest → ∃ first r t, factor n (x.chars ++ rest) = .ok (first, r) ∧
    Joined (factor n) r first t x.reread ∧ (t = rest ∨ t = skip rest)

/-- An item is read without joins behind it. -/
def ItemReads (n : Nat) (x : FromItem) : Prop :=
  ∀ rest, Fence itemWords rest → ReadsTo (factor n) (x.chars ++ rest) x.reread rest

/-- A subquery without a name. -/
def isNameless : FromItem → Bool
  | .subquery _ none => true
  | _ => false

/-- What is read of an item as a query is not closed by a parenthesis. -/
def NoQuery (n : Nat) (x : FromItem) : Prop :=
  ∀ rest, Fence ("AS" :: "ON" :: joinWords) rest →
    (isNameless x = true → charNext ')' rest = false) →
    ∀ q r, queryWith (queryAt n) (sourceAt n) (x.chars ++ rest) = .ok (q, r) →
      charNext ')' r = false

/-- The text of a query without its closing clauses. -/
def bodyChars : Query → List Char
  | .select source c _ => c.headChars ++ sourceChars source ++ c.restChars
  | .union l r all _ =>
    grouped l.hasTail l.chars ++ " UNION ".toList ++ (if all then "ALL ".toList else []) ++
      grouped (r.hasTail || r.isUnion) r.chars
  | .paren q => '(' :: (q.chars ++ [')'])

/-- The closing clauses of a query. -/
def tailOf : Query → Tail
  | .select _ _ t => t
  | .union _ _ _ t => t
  | .paren _ => .empty

/-- The query without its closing clauses. -/
def bare : Query → Query
  | .select source c _ => .select source c .empty
  | .union l r all _ => .union l r all .empty
  | .paren q => .paren q

theorem chars_eq (q : Query) : q.chars = bodyChars q ++ (tailOf q).chars := by
  cases q with
  | select source c t =>
      rw [Query.chars, FromItem.charsList_eq]
      rfl
  | union l r all t => rw [Query.chars]; rfl
  | paren q => simp [Query.chars, bodyChars, tailOf, Tail.chars, Tail.empty]

/-- A query is read as a first part and its unions. -/
def QueryLinks (n : Nat) (q : Query) : Prop :=
  ∀ rest, Wall openWords rest → ∃ first r us t, term n (bodyChars q ++ rest) = .ok (first, r) ∧
    Steps (unionStep (term n)) r us t ∧ (t = rest ∨ t = skip rest) ∧
    us.foldl (fun l x => Query.union l x.2 x.1 .empty) first = bare q.reread

/-- A query is read before the end or a closing parenthesis. -/
def QueryReads (n : Nat) (q : Query) : Prop :=
  ∀ rest, Wall [] rest →
    ReadsTo (queryWith (queryAt n) (sourceAt n)) (q.chars ++ rest) q.reread rest

theorem queryWith_ok {n : Nat} {s r t : List Char} {first : Query} {us : List (Bool × Query)}
    (hf : term n s = .ok (first, r)) (hs : Steps (unionStep (term n)) r us t)
    (ht : wordNext "UNION" t = false) :
    queryWith (queryAt n) (sourceAt n) s =
      (match tail t with
      | .error e => .error e
      | .ok (cl, rest) =>
        if cl.isNone then .ok (us.foldl (fun l x => Query.union l x.2 x.1 .empty) first, t)
        else
          match withTail? cl (us.foldl (fun l x => Query.union l x.2 x.1 .empty) first) with
          | some q => .ok (q, rest)
          | none => .error ⟨t, .verify⟩) := by
  have hend : Refuses (unionStep (term n)) t := bind_refuses (keyword_refuses ht)
  exact (bind_ok hf).trans (bind_ok (many_of_steps hs hend))

theorem tail_nothing {r : List Char} (h : ∀ v ∈ tailWords, wordNext v r = false) :
    tail r = .ok (.empty, r) := by
  refine (bind_ok (optional_refuses (after_keywords_refuses (h "ORDER" (by decide))))).trans ?_
  refine (bind_ok (optional_refuses (after_keyword_refuses (h "LIMIT" (by decide))))).trans ?_
  exact bind_ok (optional_refuses (after_keyword_refuses (h "OFFSET" (by decide))))

/-- A first part that nothing follows is the query. -/
theorem queryWith_alone {n : Nat} {s r : List Char} {q : Query} (h : term n s = .ok (q, r))
    (hr : ∀ v ∈ openWords, wordNext v r = false) :
    queryWith (queryAt n) (sourceAt n) s = .ok (q, r) := by
  have hend := queryWith_ok h (.nil _) (hr "UNION" (by decide))
  rw [tail_nothing fun v hv => hr v (List.mem_cons_of_mem _ hv)] at hend
  exact hend

theorem reread_isNone (t : Tail) : t.reread.isNone = t.isNone := by
  obtain ⟨ks, limit, offset⟩ := t
  cases ks <;> rfl

theorem tail_eq_empty {t : Tail} (h : t.isNone = true) : t = .empty := by
  obtain ⟨ks, limit, offset⟩ := t
  simp only [Tail.isNone, Bool.and_eq_true, List.isEmpty_iff, Option.isNone_iff_eq_none] at h
  obtain ⟨⟨rfl, rfl⟩, rfl⟩ := h
  rfl

/-- A query that is read as parts is read with its closing clauses. -/
theorem QueryLinks.reads {n : Nat} {q : Query} (h : QueryLinks n q) (hl : (tailOf q).Legible) :
    QueryReads n q := by
  intro rest hr
  have htail := tail_wall (t := tailOf q) hr
  obtain ⟨first, r, us, t, hf, hs, ht, hfold⟩ :=
    h _ (htail.mono fun _ hw => List.mem_cons_of_mem _ hw)
  obtain ⟨u, hu, hleft⟩ := tail_ok hl hr ht
  have hq := queryWith_ok hf hs (htail.1.left ht (by decide) (by decide))
  rw [hu, hfold] at hq
  rw [chars_eq, List.append_assoc, ReadsTo, hq]
  simp only [reread_isNone]
  by_cases hn : (tailOf q).isNone = true
  · have hempty := tail_eq_empty hn
    rw [hempty] at ht
    refine ⟨t, ?_, ht⟩
    rw [if_pos hn]
    have hbare : bare q.reread = q.reread := by
      cases q with
      | select source c t => rw [show t = .empty from hempty]; rfl
      | union l r all t => rw [show t = .empty from hempty]; rfl
      | paren q => rfl
    rw [hbare]
  · refine ⟨u, ?_, hleft⟩
    rw [if_neg hn]
    cases q with
    | select source c t => rfl
    | union l r all t => rfl
    | paren q => exact absurd rfl hn

/-! ## How items and queries begin -/

theorem item_solid (x : FromItem) : Solid x.chars := by
  have h : (∀ q : Query, True) ∧ ∀ x : FromItem, Solid x.chars := by
    refine Query.induct (fun _ _ _ _ => trivial) (fun _ _ _ _ _ _ => trivial) (fun _ _ => trivial)
      ?_ ?_ ?_ ?_
    · intro name a
      rw [FromItem.chars]
      exact (nameChars_solid name).append _
    · intro q a _
      rw [FromItem.chars]
      exact solid_of_head rfl
    · intro xs _
      rw [FromItem.chars]
      exact solid_of_head rfl
    · intro k l r on hl _
      rw [FromItem.chars, List.append_assoc, List.append_assoc]
      exact hl.append _
  exact h.2 x

/-- The text of a query begins with the word SELECT or with a parenthesis. -/
theorem query_start (q : Query) :
    (∃ x, q.chars = "SELECT".toList ++ ' ' :: x) ∨ ∃ x, q.chars = '(' :: x := by
  have h : (∀ q : Query, (∃ x, q.chars = "SELECT".toList ++ ' ' :: x) ∨ ∃ x, q.chars = '(' :: x) ∧
      ∀ x : FromItem, True := by
    refine Query.induct ?_ ?_ ?_ (fun _ _ => trivial) (fun _ _ _ => trivial) (fun _ _ => trivial)
      (fun _ _ _ _ _ _ => trivial)
    · intro source c t _
      have hrest := congrArg (fun x => c.headChars ++ sourceChars source ++ x ++ t.chars) (restChars_eq c)
      exact Or.inl ⟨_, (chars_eq _).trans (hrest.trans (selectChars_eq _ _ _ _ _ _ _))⟩
    · intro l r all t hl _
      simp only [Query.chars, List.append_assoc]
      cases l.hasTail with
      | true => exact Or.inr ⟨_, rfl⟩
      | false =>
          rcases hl with ⟨x, hx⟩ | ⟨x, hx⟩
          · have htext : ∀ y, grouped false l.chars ++ y = "SELECT".toList ++ ' ' :: (x ++ y) := by
              intro y
              change l.chars ++ y = _
              rw [hx, List.append_assoc, List.cons_append]
            exact Or.inl ⟨_, htext _⟩
          · have htext : ∀ y, grouped false l.chars ++ y = '(' :: (x ++ y) := by
              intro y
              change l.chars ++ y = _
              rw [hx, List.cons_append]
            exact Or.inr ⟨_, htext _⟩
    · intro q _
      rw [Query.chars]
      exact Or.inr ⟨_, rfl⟩
  exact h.1 q

theorem query_solid (q : Query) : Solid q.chars := by
  rcases query_start q with ⟨x, hx⟩ | ⟨x, hx⟩
  · have hs : Solid "SELECT".toList := solid_of_head rfl
    rw [hx]
    exact hs.append _
  · rw [hx]
    exact solid_of_head rfl

theorem query_all (q : Query) (rest : List Char) : wordNext "ALL" (q.chars ++ rest) = false := by
  have hselect : ∀ x, wordNext "ALL" ("SELECT".toList ++ ' ' :: x ++ rest) = false := fun _ => rfl
  rcases query_start q with ⟨x, hx⟩ | ⟨x, hx⟩
  · rw [hx]
    exact hselect x
  · rw [hx]
    rfl

/-! ## Items -/

theorem ItemReads.links {n : Nat} {x : FromItem} (h : ItemReads n x) : ItemLinks n x := by
  intro rest hr
  obtain ⟨r, hread, hl⟩ := h rest (hr.mono fun _ hw => List.mem_cons_of_mem _ hw)
  exact ⟨_, r, r, hread, .start, hl⟩

theorem ItemLinks.reads {n : Nat} {x : FromItem} (h : ItemLinks n x) {rest : List Char}
    (hr : Fence clauseWords rest) :
    ReadsTo (joinedItem (factor n)) (x.chars ++ rest) x.reread rest := by
  obtain ⟨first, r, t, hf, hj, ht⟩ := h rest (hr.mono fun _ hw => List.mem_append_right _ hw)
  exact ⟨t, joinedItem_ok hf hj (joinKind_refuses hr ht), ht⟩

theorem ItemLinks.join {n : Nat} {l r : FromItem} {k : JoinKind} {on : Option Expr}
    (hl : ItemLinks n l) (hr : ItemReads n r) (hj : r.isJoin = false) (hk : k = .cross → on = none)
    (ho : ∀ e ∈ on, e.Legible) : ItemLinks n (.join k l r on) := by
  intro rest hrest
  have htext : (FromItem.join k l r on).chars ++ rest =
      l.chars ++ (k.words.toList ++ (r.chars ++ (conditionChars " ON " on ++ rest))) := by
    simp [FromItem.chars, hj, grouped]
  obtain ⟨first, u, t, hf, hjoined, ht⟩ := hl _
    ((words_fence k (r.chars ++ (conditionChars " ON " on ++ rest))).mono
      fun _ hw => List.mem_append_left _ hw)
  obtain ⟨v, hv, hvl⟩ := hr _ (conditionChars_fence hrest)
  obtain ⟨w, hw, hwl⟩ := joinCondition_ok hk ho hrest hvl
  have hkind := joinKind_ok k (skip_of_left ht)
  rw [(item_solid r).skip] at hkind
  refine ⟨first, u, w, htext ▸ hf, .join hjoined hkind hv hw ?_, hwl⟩
  have h1 := length_of_left hwl
  have h2 := length_skip_le t
  have h3 : (skip (k.words.toList ++ (r.chars ++ (conditionChars " ON " on ++ rest)))).length >
      rest.length := by
    have hlen : ∀ z : List Char, z.length < (skip (k.words.toList ++ z)).length := by
      intro z
      cases k with
      | inner => exact Nat.lt_of_lt_of_le (Nat.lt_succ_self _) (Nat.le_add_right (z.length + 1) 4)
      | left => exact Nat.lt_of_lt_of_le (Nat.lt_succ_self _) (Nat.le_add_right (z.length + 1) 9)
      | right => exact Nat.lt_of_lt_of_le (Nat.lt_succ_self _) (Nat.le_add_right (z.length + 1) 10)
      | cross => exact Nat.lt_of_lt_of_le (Nat.lt_succ_self _) (Nat.le_add_right (z.length + 1) 10)
    have := hlen (r.chars ++ (conditionChars " ON " on ++ rest))
    simp only [List.length_append] at this ⊢
    omega
  rw [skip_of_left ht] at h2
  omega

theorem paren_refuses_name {α : Type} {p : Parser α} (name : String) (rest : List Char) :
    Refuses (parenthesized p) (nameChars name ++ rest) := by
  obtain ⟨c, r, hn, hg, -, -, -, hp, -⟩ := nameChars_head name
  refine bind_refuses (symbol_refuses ?_)
  rw [hn, List.cons_append, charNext, skip_cons hg]
  simpa using hp

theorem itemReads_table (n : Nat) (name : String) (a : Option String) : ItemReads n (.table name a) := by
  intro rest hr
  have hf := alias_fence a hr
  have hname : spaced identifier (nameChars name ++ (aliasChars a ++ rest)) =
      .ok (name, skip (aliasChars a ++ rest)) :=
    spaced_ok (by rw [(nameChars_solid name).skip, identifier_ok name hf.endsName])
  obtain ⟨r, hread, hl⟩ : ReadsTo tableItem (nameChars name ++ (aliasChars a ++ rest))
      (.table name a) rest :=
    (ReadsTo.behind hname).andThen fun r hl => (alias_ok a hr (by decide) hl).map _
  have hsub : Refuses (subqueryItem (queryAt n)) (nameChars name ++ (aliasChars a ++ rest)) :=
    bind_refuses (paren_refuses_name name _)
  have hparen : Refuses (do return FromItem.paren (← parenthesized (sourceAt n)))
      (nameChars name ++ (aliasChars a ++ rest)) :=
    bind_refuses (paren_refuses_name name _)
  refine ⟨r, ?_, hl⟩
  rw [FromItem.chars, List.append_assoc]
  exact (oneOf_refuses hsub).trans ((oneOf_refuses hparen).trans hread)

theorem itemReads_subquery {n : Nat} {q : Query} (h : QueryReads n q) (a : Option String) :
    ItemReads (n + 1) (.subquery q a) := by
  intro rest hr
  have hinner : queryAt (n + 1) (q.chars ++ ')' :: (aliasChars a ++ rest)) =
      .ok (q.reread, ')' :: (aliasChars a ++ rest)) :=
    (h (')' :: (aliasChars a ++ rest)) ⟨.close _, rfl⟩).ok (skip_cons (by decide) _)
  have hparen : parenthesized (queryAt (n + 1)) ('(' :: (q.chars ++ ')' :: (aliasChars a ++ rest))) =
      .ok (q.reread, skip (aliasChars a ++ rest)) :=
    parenthesized_ok (by rw [(query_solid q).skip, hinner]) (skip_cons (by decide) _)
  obtain ⟨r, hread, hl⟩ : ReadsTo (subqueryItem (queryAt (n + 1)))
      ('(' :: (q.chars ++ ')' :: (aliasChars a ++ rest))) (.subquery q.reread a) rest :=
    (ReadsTo.behind hparen).andThen fun r hl => (alias_ok a hr (by decide) hl).map _
  refine ⟨r, ?_, hl⟩
  rw [FromItem.chars, List.cons_append, List.append_assoc]
  exact oneOf_ok hread

/-- The text of several items, the first one in front. -/
theorem items_cons (x : FromItem) (xs : List FromItem) (rest : List Char) :
    ∃ s, commaList ((x :: xs).map FromItem.chars) ++ ')' :: rest = x.chars ++ s ∧
      ((xs = [] ∧ s = ')' :: rest) ∨ ∃ y, s = ',' :: y) := by
  cases xs with
  | nil => exact ⟨_, rfl, Or.inl ⟨rfl, rfl⟩⟩
  | cons y ys =>
      exact ⟨',' :: ' ' :: (commaList ((y :: ys).map FromItem.chars) ++ ')' :: rest),
        by simp [commaList, joinChars], Or.inr ⟨_, rfl⟩⟩

/-- Items in parentheses are not read as a query in parentheses. -/
theorem items_refuse {n : Nat} {xs : List FromItem} (hne : xs ≠ []) (hlone : loneSubquery xs = false)
    (h : ∀ x ∈ xs, NoQuery n x) (rest : List Char) :
    Refuses (parenthesized (queryAt (n + 1)))
      ('(' :: (commaList (xs.map FromItem.chars) ++ ')' :: rest)) := by
  cases xs with
  | nil => exact absurd rfl hne
  | cons x xs =>
      obtain ⟨s, hs, hf⟩ := items_cons x xs rest
      have hfence : Fence ("AS" :: "ON" :: joinWords) s := by
        rcases hf with ⟨-, rfl⟩ | ⟨y, rfl⟩
        · exact .close _
        · exact .comma _
      have hclose : isNameless x = true → charNext ')' s = false := by
        intro hx
        rcases hf with ⟨rfl, -⟩ | ⟨y, rfl⟩
        · cases x with
          | subquery q a =>
              cases a with
              | none => cases hlone
              | some a => cases hx
          | _ => cases hx
        · rfl
      refine bind_ok_refuses (symbol_here (by decide) _) ?_
      rw [hs, (item_solid x).skip]
      cases hq : queryAt (n + 1) (x.chars ++ s) with
      | error e => exact bind_refuses ⟨e, hq⟩
      | ok p =>
          refine bind_ok_refuses hq (bind_refuses (symbol_refuses ?_))
          exact h x (by simp) s hfence hclose p.1 p.2 hq

theorem itemReads_paren {n : Nat} {xs : List FromItem} (hne : xs ≠ []) (hlone : loneSubquery xs = false)
    (h : ∀ x ∈ xs, ItemLinks n x) (hno : ∀ x ∈ xs, NoQuery n x) : ItemReads (n + 1) (.paren xs) := by
  intro rest hr
  have hlist : sourceAt (n + 1) (commaList (xs.map FromItem.chars) ++ ')' :: rest) =
      .ok (xs.map FromItem.reread, ')' :: rest) :=
    (list_ok hne (fun x _ => item_solid x) (fun x hx s hs => (h x hx).reads hs)
      (⟨.close rest, rfl⟩ : Wall clauseWords _)).ok (skip_cons (by decide) _)
  have hread : parenthesized (sourceAt (n + 1)) ('(' :: (commaList (xs.map FromItem.chars) ++ ')' :: rest)) =
      .ok (xs.map FromItem.reread, skip rest) :=
    parenthesized_ok (by rw [(list_solid hne fun x _ => item_solid x).skip, hlist])
      (skip_cons (by decide) _)
  have hsub : Refuses (subqueryItem (queryAt (n + 1)))
      ('(' :: (commaList (xs.map FromItem.chars) ++ ')' :: rest)) :=
    bind_refuses (items_refuse hne hlone hno rest)
  refine .behind ?_
  rw [FromItem.chars, FromItem.charsList_eq, FromItem.reread, FromItem.rereadList_eq, List.cons_append,
    List.append_assoc]
  exact (oneOf_refuses hsub).trans (oneOf_ok ((bind_ok hread).trans rfl))

/-! ## Items that are no queries -/

theorem selectCore_refuses {source : Parser (List FromItem)} {s : List Char}
    (h : wordNext "SELECT" s = false) : Refuses (selectCore source) s :=
  bind_refuses (keyword_refuses h)

theorem queryWith_refuses {n : Nat} {s : List Char} (h : wordNext "SELECT" s = false)
    (hp : Refuses (parenthesized (queryAt n)) s) : Refuses (queryWith (queryAt n) (sourceAt n)) s := by
  obtain ⟨e, he⟩ : Refuses (do return Query.paren (← parenthesized (queryAt n))) s := bind_refuses hp
  exact bind_refuses ⟨e, (orElse_refuses (selectCore_refuses h)).trans he⟩

theorem noQuery_of_refuses {n : Nat} {x : FromItem}
    (h : ∀ rest, nameEnds rest = true → Refuses (queryWith (queryAt n) (sourceAt n)) (x.chars ++ rest)) :
    NoQuery n x := by
  intro rest hr _ q r hq
  obtain ⟨e, he⟩ := h rest hr.endsName
  rw [he] at hq
  cases hq

theorem noQuery_table (n : Nat) (name : String) (a : Option String) : NoQuery n (.table name a) := by
  refine noQuery_of_refuses fun rest hr => ?_
  have hends : nameEnds (aliasChars a ++ rest) = true := by
    cases a with
    | none => exact hr
    | some a => rfl
  rw [FromItem.chars, List.append_assoc]
  exact queryWith_refuses (wordNext_name (by decide) (by decide) (by decide) name hends)
    (paren_refuses_name name _)

theorem noQuery_paren {n : Nat} {xs : List FromItem} (hne : xs ≠ []) (hlone : loneSubquery xs = false)
    (h : ∀ x ∈ xs, NoQuery n x) : NoQuery (n + 1) (.paren xs) := by
  refine noQuery_of_refuses fun rest _ => ?_
  rw [FromItem.chars, FromItem.charsList_eq, List.cons_append, List.append_assoc]
  exact queryWith_refuses rfl (items_refuse hne hlone h rest)

theorem noQuery_join {n : Nat} {l : FromItem} (h : NoQuery n l) (k : JoinKind) (r : FromItem)
    (on : Option Expr) : NoQuery n (.join k l r on) := by
  intro rest _ _ q t hq
  rw [FromItem.chars, List.append_assoc, List.append_assoc, List.append_assoc] at hq
  refine h _ ((words_fence k _).mono fun w hw => ?_) (fun _ => ?_) q t hq
  · exact List.mem_cons_of_mem _ (List.mem_cons_of_mem _ hw)
  · cases k <;> rfl

/-- A subquery in parentheses is read as a query in parentheses, and its name is left. -/
theorem noQuery_subquery {n : Nat} {q : Query} (h : QueryReads n q) (a : Option String) :
    NoQuery (n + 1) (.subquery q a) := by
  intro rest hr hclose q' r hq
  have hinner : queryAt (n + 1) (q.chars ++ ')' :: (aliasChars a ++ rest)) =
      .ok (q.reread, ')' :: (aliasChars a ++ rest)) :=
    (h (')' :: (aliasChars a ++ rest)) ⟨.close _, rfl⟩).ok (skip_cons (by decide) _)
  have hparen : parenthesized (queryAt (n + 1)) ('(' :: (q.chars ++ ')' :: (aliasChars a ++ rest))) =
      .ok (q.reread, skip (aliasChars a ++ rest)) :=
    parenthesized_ok (by rw [(query_solid q).skip, hinner]) (skip_cons (by decide) _)
  have hterm : term (n + 1) ('(' :: (q.chars ++ ')' :: (aliasChars a ++ rest))) =
      .ok (.paren q.reread, skip (aliasChars a ++ rest)) :=
    (orElse_refuses (selectCore_refuses rfl)).trans ((bind_ok hparen).trans rfl)
  have hfence : Fence ("AS" :: "ON" :: joinWords) (aliasChars a ++ rest) :=
    (alias_fence a hr).mono fun w hw => by
      rcases List.mem_cons.mp hw with rfl | hw
      · exact List.mem_cons_self
      · exact hw
  have hend := queryWith_alone hterm fun v hv => hfence.left (Or.inr rfl)
    ((by decide : ∀ v ∈ openWords, v ∈ fenceWords) v hv)
    ((by decide : ∀ v ∈ openWords, v ∉ "AS" :: "ON" :: joinWords) v hv)
  rw [FromItem.chars, List.cons_append, List.append_assoc] at hq
  have hr' : r = skip (aliasChars a ++ rest) := by
    have heq := hq.symm.trans hend
    simp only [Except.ok.injEq, Prod.mk.injEq] at heq
    exact heq.2
  rw [hr', charNext, skip_skip]
  cases a with
  | none => exact hclose rfl
  | some a => rfl

/-! ## Queries -/

/-- A query that is no union is read by itself. -/
def TermReads (n : Nat) (q : Query) : Prop :=
  ∀ rest, Wall openWords rest → ReadsTo (term n) (bodyChars q ++ rest) (bare q.reread) rest

theorem TermReads.links {n : Nat} {q : Query} (h : TermReads n q) : QueryLinks n q := by
  intro rest hr
  obtain ⟨r, hread, hl⟩ := h rest hr
  exact ⟨_, r, [], r, hread, .nil _, hl, rfl⟩

theorem termReads_select {n : Nat} {source : List FromItem} {c : Clauses} {t : Tail} (hc : c.Legible)
    (h : ∀ x ∈ source, ItemLinks n x) : TermReads n (.select source c t) := by
  intro rest hr
  obtain ⟨r, hread, hl⟩ := selectCore_ok (sourceWith (queryAt n) (sourceAt n)) source hc
    (fun x _ => item_solid x)
    (fun hne s hs => list_ok hne (fun x _ => item_solid x) (fun x hx s hs => (h x hx).reads hs) hs) hr
  refine ⟨r, ?_, hl⟩
  have hbare : bare (Query.select source c t).reread =
      .select (source.map FromItem.reread) c.reread .empty := by
    rw [Query.reread, FromItem.rereadList_eq]
    rfl
  rw [hbare]
  exact orElse_ok hread

theorem termReads_paren {n : Nat} {q : Query} (h : QueryReads n q) : TermReads (n + 1) (.paren q) := by
  intro rest _
  have hinner : queryAt (n + 1) (q.chars ++ ')' :: rest) = .ok (q.reread, ')' :: rest) :=
    (h (')' :: rest) ⟨.close _, rfl⟩).ok (skip_cons (by decide) _)
  have hparen : parenthesized (queryAt (n + 1)) ('(' :: (q.chars ++ ')' :: rest)) =
      .ok (q.reread, skip rest) :=
    parenthesized_ok (by rw [(query_solid q).skip, hinner]) (skip_cons (by decide) _)
  refine .behind ?_
  rw [bodyChars, List.cons_append, List.append_assoc]
  exact (orElse_refuses (selectCore_refuses rfl)).trans ((bind_ok hparen).trans rfl)

theorem bare_of_no_tail {q : Query} (h : q.hasTail = false) :
    q.chars = bodyChars q ∧ bare q.reread = q.reread := by
  have hempty : ∀ {t : Tail}, (!t.isNone) = false → t = .empty := fun ht =>
    tail_eq_empty (by simpa using ht)
  constructor
  · rw [chars_eq]
    cases q with
    | select source c t => rw [hempty h]; exact List.append_nil _
    | union l r all t => rw [hempty h]; exact List.append_nil _
    | paren q => exact List.append_nil _
  · cases q with
    | select source c t => rw [hempty h]; rfl
    | union l r all t => rw [hempty h]; rfl
    | paren q => rfl

/-- A union is read as its left operand and one more. -/
theorem queryLinks_union {n : Nat} {l r : Query} {all : Bool} {t : Tail} (hl : QueryLinks n l)
    (hr : TermReads n r) (tl : l.hasTail = false) (tr : r.hasTail = false) (ur : r.isUnion = false) :
    QueryLinks n (.union l r all t) := by
  intro rest hrest
  obtain ⟨hlc, hlb⟩ := bare_of_no_tail tl
  obtain ⟨hrc, hrb⟩ := bare_of_no_tail tr
  have htext : bodyChars (.union l r all t) ++ rest = bodyChars l ++ (" UNION ".toList ++
      ((if all then "ALL ".toList else []) ++ (r.chars ++ rest))) := by
    simp [bodyChars, tl, tr, ur, grouped, hlc]
  have hunion : Wall openWords (" UNION ".toList ++
      ((if all then "ALL ".toList else []) ++ (r.chars ++ rest))) :=
    .word (w := "UNION") (r := ' ' :: ((if all then "ALL ".toList else []) ++ (r.chars ++ rest)))
      (by decide) (by decide) rfl
  obtain ⟨first, u, us, v, hf, hs, hv, hfold⟩ := hl _ hunion
  have hskip : skip (" UNION ".toList ++ ((if all then "ALL ".toList else []) ++ (r.chars ++ rest))) =
      "UNION".toList ++ ' ' :: ((if all then "ALL ".toList else []) ++ (r.chars ++ rest)) := rfl
  obtain ⟨x, hx, hxl⟩ : ReadsTo (unionStep (term n)) v (all, r.reread) rest := by
    obtain ⟨x, hx, hxl⟩ := hr rest hrest
    rw [← hrc, hrb] at hx
    have hsolid : skip (r.chars ++ rest) = r.chars ++ rest := (query_solid r).skip rest
    have hword : keyword "UNION" v =
        .ok ((), skip ((if all then "ALL ".toList else []) ++ (r.chars ++ rest))) :=
      keyword_space ((skip_of_left hv).trans hskip)
    have hall : present (keyword "ALL") (skip ((if all then "ALL ".toList else []) ++ (r.chars ++ rest))) =
        .ok (all, r.chars ++ rest) := by
      cases all with
      | true =>
          have hword : keyword "ALL" ("ALL ".toList ++ (r.chars ++ rest)) =
              .ok ((), skip (r.chars ++ rest)) := keyword_space rfl
          rw [hsolid] at hword
          exact present_ok hword
      | false =>
          change present (keyword "ALL") (skip (r.chars ++ rest)) = _
          rw [hsolid]
          exact present_refuses (keyword_refuses (query_all r rest))
    exact ⟨x, (bind_ok hword).trans ((bind_ok hall).trans ((bind_ok hx).trans rfl)), hxl⟩
  have hlen : x.length < v.length := by
    have h1 := length_of_left hxl
    have h2 := length_skip_le v
    rw [skip_of_left hv, hskip] at h2
    simp only [List.length_append, List.length_cons] at h2
    omega
  refine ⟨first, u, us ++ [(all, r.reread)], x, htext ▸ hf, hs.append (.single hx hlen), hxl, ?_⟩
  rw [List.foldl_append, hfold, hlb]
  rfl

theorem tail_legible {q : Query} (h : q.Legible) : (tailOf q).Legible := by
  cases q with
  | select source c t => exact h.2.2
  | union l r all t => exact h.2.2
  | paren q => exact fun k hk => absurd hk (by simp [tailOf, Tail.empty])

/-- Every legible query and every legible source item is read back. -/
theorem readBack_all :
    (∀ q : Query, q.Legible → ∀ n, q.chars.length ≤ n →
      QueryLinks n q ∧ (q.isUnion = false → TermReads n q)) ∧
    ∀ x : FromItem, x.Legible → ∀ n, x.chars.length ≤ n →
      ItemLinks n x ∧ (x.isJoin = false → ItemReads n x) ∧ NoQuery n x := by
  have hlist : ∀ {xs : List FromItem} {n : Nat}, (commaList (xs.map FromItem.chars)).length ≤ n →
      ∀ x ∈ xs, x.chars.length ≤ n := by
    intro xs n hn x hx
    have := length_le_commaList (List.mem_map_of_mem (f := FromItem.chars) hx)
    omega
  refine Query.induct ?_ ?_ ?_ ?_ ?_ ?_ ?_
  · rintro source c t ih ⟨hs, hc, -⟩ n hn
    rw [FromItem.legibleList_iff] at hs
    have hlen : (commaList (source.map FromItem.chars)).length ≤ n := by
      cases source with
      | nil => exact Nat.zero_le n
      | cons x xs =>
          rw [Query.chars, FromItem.charsList_eq, if_neg (by simp), clauseChars] at hn
          simp only [List.length_append] at hn
          omega
    have hterm : TermReads n (.select source c t) :=
      termReads_select hc fun x hx => (ih x hx (hs x hx) n (hlist hlen x hx)).1
    exact ⟨hterm.links, fun _ => hterm⟩
  · rintro l r all t ihl ihr ⟨⟨ll, tl⟩, ⟨lr, tr, ur⟩, -⟩ n hn
    have hlen : l.chars.length ≤ n ∧ r.chars.length ≤ n := by
      simp only [Query.chars, tl, tr, ur, grouped, Bool.or_self, Bool.false_eq_true, if_false,
        List.length_append] at hn
      omega
    exact ⟨queryLinks_union (ihl ll n hlen.1).1 ((ihr lr n hlen.2).2 ur) tl tr ur, fun h => by cases h⟩
  · intro q ih hq n hn
    simp only [Query.chars, List.length_cons, List.length_append] at hn
    obtain ⟨m, rfl⟩ : ∃ m, n = m + 1 := ⟨n - 1, by omega⟩
    have hterm : TermReads (m + 1) (.paren q) :=
      termReads_paren ((ih hq m (by omega)).1.reads (tail_legible hq))
    exact ⟨hterm.links, fun _ => hterm⟩
  · intro name a _ n _
    have hread := itemReads_table n name a
    exact ⟨hread.links, fun _ => hread, noQuery_table n name a⟩
  · intro q a ih hq n hn
    simp only [FromItem.chars, List.length_cons, List.length_append] at hn
    obtain ⟨m, rfl⟩ : ∃ m, n = m + 1 := ⟨n - 1, by omega⟩
    have hquery : QueryReads m q := (ih hq m (by omega)).1.reads (tail_legible hq)
    exact ⟨(itemReads_subquery hquery a).links, fun _ => itemReads_subquery hquery a,
      noQuery_subquery hquery a⟩
  · rintro xs ih ⟨hne, hlone, hxs⟩ n hn
    rw [FromItem.legibleList_iff] at hxs
    simp only [FromItem.chars, FromItem.charsList_eq, List.length_cons, List.length_append] at hn
    obtain ⟨m, rfl⟩ : ∃ m, n = m + 1 := ⟨n - 1, by omega⟩
    have hall := fun x hx => ih x hx (hxs x hx) m (hlist (by omega) x hx)
    have hread := itemReads_paren hne hlone (fun x hx => (hall x hx).1) fun x hx => (hall x hx).2.2
    exact ⟨hread.links, fun _ => hread, noQuery_paren hne hlone fun x hx => (hall x hx).2.2⟩
  · rintro k l r on ihl ihr ⟨ll, ⟨lr, jr⟩, hk, ho⟩ n hn
    have hlen : l.chars.length ≤ n ∧ r.chars.length ≤ n := by
      simp only [FromItem.chars, jr, grouped, Bool.false_eq_true, if_false, List.length_append] at hn
      omega
    obtain ⟨hl, -, hno⟩ := ihl ll n hlen.1
    exact ⟨hl.join ((ihr lr n hlen.2).2.1 jr) jr hk ho, fun h => (by cases h), noQuery_join hno k r on⟩

/-- The text of a legible query is read as the query. -/
theorem query_ok {q : Query} (h : q.Legible) {rest : List Char} (hr : Wall [] rest) :
    ReadsTo query (q.chars ++ rest) q.reread rest := by
  obtain ⟨r, hread, hl⟩ :=
    (readBack_all.1 q h (q.chars ++ rest).length (by simp)).1.reads (tail_legible h) rest hr
  refine ⟨r, ?_, hl⟩
  rw [query]
  exact hread

/-! ## Statements -/

theorem closes_query (q : Query) : q.Legible → Closes q.chars := by
  have h : (∀ q : Query, q.Legible → Closes q.chars) ∧ ∀ x : FromItem, True := by
    refine Query.induct ?_ ?_ ?_ (fun _ _ => trivial) (fun _ _ _ => trivial) (fun _ _ => trivial)
      (fun _ _ _ _ _ _ => trivial)
    · rintro source c t _ ⟨hs, hc, ht⟩
      rw [FromItem.legibleList_iff] at hs
      rw [chars_eq]
      exact (closes_select hs hc).maybe (closes_tail ht)
    · rintro l r all t _ ihr ⟨-, ⟨lr, -, -⟩, ht⟩
      rw [Query.chars]
      exact ((closes_grouped (ihr lr) _).append _).maybe (closes_tail ht)
    · intro q _ _
      rw [Query.chars]
      exact closes_paren ('(' :: q.chars)
  exact h.1 q

/-- The beginning of a query. -/
def BeginsQuery (s : List Char) : Prop := (∃ x, s = "SELECT".toList ++ ' ' :: x) ∨ ∃ x, s = '(' :: x

theorem BeginsQuery.head {s : List Char} (h : BeginsQuery s) :
    ∃ c r, s = c :: r ∧ isBlank c = false := by
  rcases h with ⟨x, rfl⟩ | ⟨x, rfl⟩
  · exact ⟨'S', "ELECT".toList ++ ' ' :: x, rfl, by decide⟩
  · exact ⟨'(', x, rfl, by decide⟩

theorem showTables_refuses {s : List Char} (hw : wordNext "SHOW" s = false)
    (hd : ['\\', 'd', 't'].isPrefixOf (skip s) = false) : Refuses showTables s := by
  obtain ⟨e, he⟩ : Refuses (spaced (exactly ['\\', 'd', 't'])) s :=
    spaced_refuses (exactly_refuses hd)
  refine bind_refuses ⟨e, ?_⟩
  exact (orElse_refuses (bind_refuses (keyword_refuses hw))).trans he

/-- The other statements do not begin like a query. -/
theorem statement_query {s : List Char} (hs : BeginsQuery s) :
    statement s = (do return Statement.query (← query) : Parser Statement) s := by
  have hwords : wordNext "SHOW" s = false ∧ wordNext "CREATE" s = false ∧
      wordNext "DROP" s = false ∧ wordNext "INSERT" s = false ∧
      ['\\', 'd', 't'].isPrefixOf (skip s) = false := by
    rcases hs with ⟨x, rfl⟩ | ⟨x, rfl⟩
    · exact ⟨rfl, rfl, rfl, rfl, rfl⟩
    · exact ⟨rfl, rfl, rfl, rfl, rfl⟩
  obtain ⟨hshow, hcreate, hdrop, hinsert, hdt⟩ := hwords
  exact (oneOf_refuses (showTables_refuses hshow hdt)).trans
    ((oneOf_refuses (bind_refuses (bind_refuses (keyword_refuses hcreate)))).trans
      ((oneOf_refuses (bind_refuses (bind_refuses (keyword_refuses hdrop)))).trans
        (oneOf_refuses (bind_refuses (bind_refuses (keyword_refuses hinsert))))))

end Parser

open Rowtime.Sql.Parser

/-- A text that begins with no blank and is read to its end is one statement. -/
theorem parseStatement_of_statement {text : String} {s : Statement}
    (hs : ∃ c r, text.toList = c :: r ∧ isBlank c = false) (hc : Closes text.toList)
    (h : statement text.toList = .ok (s, [])) : parseStatement text = .ok s := by
  rw [parseStatement, trim_closed hs hc, h]
  rfl

/-- A text that is read as a query is a statement. -/
theorem parseStatement_of_query {text : String} {q : Query} (hs : BeginsQuery text.toList)
    (hc : Closes text.toList) (h : query text.toList = .ok (q, [])) :
    parseStatement text = .ok (.query q) := by
  apply parseStatement_of_statement hs.head hc
  rw [statement_query hs]
  exact (bind_ok h).trans rfl

/-- The text of a legible query is one statement, and what is read from it is the query. -/
theorem parseStatement_display {q : Query} (h : q.Legible) :
    parseStatement q.display = .ok (.query q.reread) := by
  obtain ⟨r, hread, hl⟩ := query_ok h ⟨.nil, rfl⟩
  have hr : r = [] := by rcases hl with rfl | rfl <;> rfl
  rw [List.append_nil, hr] at hread
  have htext : q.display.toList = q.chars := String.toList_ofList
  refine parseStatement_of_query ?_ ?_ ?_
  · rw [htext]
    exact query_start q
  · rw [htext]
    exact closes_query q h
  · rw [htext, hread]

end Rowtime.Sql
