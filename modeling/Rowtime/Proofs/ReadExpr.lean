import Rowtime.Proofs.Legible

/-!
# Reading expressions back

The text of a legible expression is read as that expression, `reread`, wherever
the expression may stand: at every layer that does not bind tighter than the
expression does, before every text that does not go on with it.

The layers are numbered like the strengths. Four of them are chains of operands;
an expression of such a strength is read as a first operand and the links behind
it, so that the operand on its left passes its own links on.
-/
namespace Rowtime.Sql

open Text

namespace Parser

/-- The reader of expressions that bind at least as tightly as a strength. -/
def layer (sub : Inner) : Nat → Parser Expr
  | 1 => disjunction sub
  | 2 => conjunction sub
  | 3 => negation sub
  | 4 => predicate sub
  | 5 => sum sub
  | 6 => product sub
  | 7 => signed sub
  | _ => primary sub

/-- The reader of an operator with its right operand. -/
def link (sub : Inner) : Nat → Parser (Expr → Expr)
  | 1 => do keyword "OR"; let r ← conjunction sub; return fun l => .binary .or l r
  | 2 => do keyword "AND"; let r ← negation sub; return fun l => .binary .and l r
  | 5 => operation sumOps (product sub)
  | _ => operation productOps (signed sub)

/-- Whether a layer is a chain. -/
def isChain (k : Nat) : Bool := k == 1 || k == 2 || k == 5 || k == 6

theorem isChain_cases {k : Nat} (h : isChain k = true) : k = 1 ∨ k = 2 ∨ k = 5 ∨ k = 6 := by
  simpa [isChain, or_assoc] using h

theorem layer_chain {k : Nat} (h : isChain k = true) (sub : Inner) :
    layer sub k = chain (layer sub (k + 1)) (link sub k) := by
  rcases isChain_cases h with rfl | rfl | rfl | rfl <;> rfl

/-- A text is read as an expression at a layer. -/
def Reads (sub : Inner) (k : Nat) (x : List Char) (e : Expr) : Prop :=
  ∀ rest, clear k rest = true → ReadsTo (layer sub k) (x ++ rest) e rest

/-- A text is read as a first operand and links that make up an expression. -/
def Links (sub : Inner) (k : Nat) (x : List Char) (e : Expr) : Prop :=
  ∀ rest, clear (k + 1) rest = true → ∃ a r fs t, layer sub (k + 1) (x ++ rest) = .ok (a, r) ∧
    Steps (link sub k) r fs t ∧ (t = rest ∨ t = skip rest) ∧ fs.foldl (fun acc f => f acc) a = e

/-- A text begins as an expression of a strength may. -/
def Opens (k : Nat) (x : List Char) : Prop := ∀ rest, touches rest = false → Starts k (x ++ rest)

theorem Opens.mono {j k : Nat} (h : j ≤ k) {x : List Char} (hx : Opens k x) : Opens j x :=
  fun rest hr => (hx rest hr).mono h

/-! ## From layer to layer -/

theorem opNext_congr {s t : List Char} (h : skip s = skip t) (ops : List (List Char × BinaryOp)) :
    opNext ops s = opNext ops t := by
  rw [opNext, opNext, h]

theorem predicateNext_congr {s t : List Char} (h : skip s = skip t) :
    predicateNext s = predicateNext t := by
  simp only [predicateNext, wordNext_congr h, opNext_congr h]

theorem operation_refuses {ops : List (List Char × BinaryOp)} {operand : Parser Expr}
    {s : List Char} (h : opNext ops s = false) : Refuses (operation ops operand) s := by
  refine bind_refuses (spaced_refuses (refuses_oneOf fun p hp => ?_))
  obtain ⟨o, ho, rfl⟩ := List.mem_map.mp hp
  rw [opNext, List.any_eq_false] at h
  exact bind_refuses (exactly_refuses (Bool.eq_false_iff.mpr (h o ho)))

theorem link_refuses {k : Nat} (hk : isChain k = true) (sub : Inner) {r rest : List Char}
    (hr : skip r = skip rest) (h : clear k rest = true) : Refuses (link sub k) r := by
  rcases isChain_cases hk with rfl | rfl | rfl | rfl
  · exact bind_refuses (keyword_refuses (by rw [wordNext_congr hr]; exact clear_or (by omega) h))
  · exact bind_refuses (keyword_refuses (by rw [wordNext_congr hr]; exact clear_and (by omega) h))
  · exact operation_refuses (by rw [opNext_congr hr]; exact clear_sum (by omega) h)
  · exact operation_refuses (by rw [opNext_congr hr]; exact clear_product (by omega) h)

theorem Reads.links {sub : Inner} {k : Nat} {x : List Char} {e : Expr}
    (h : Reads sub (k + 1) x e) : Links sub k x e := by
  intro rest hr
  obtain ⟨r, he, hl⟩ := h rest hr
  exact ⟨e, r, [], r, he, .nil _, hl, rfl⟩

theorem Links.reads {sub : Inner} {k : Nat} (hk : isChain k = true) {x : List Char} {e : Expr}
    (h : Links sub k x e) : Reads sub k x e := by
  intro rest hr
  obtain ⟨a, r, fs, t, ha, hs, ht, hf⟩ := h rest (clear_mono (by omega) hr)
  refine ⟨t, ?_, ht⟩
  rw [layer_chain hk, chain_of_steps ha hs (link_refuses hk sub (skip_of_left ht) hr), hf]

theorem negatableTest_refuses {sub : Inner} {l : Expr} {s : List Char}
    (h : predicateNext s = false) : Refuses (negatableTest sub l) s := by
  simp only [predicateNext, Bool.or_eq_false_iff] at h
  obtain ⟨⟨⟨⟨⟨-, hn⟩, hb⟩, hi⟩, hl⟩, -⟩ := h
  refine bind_ok_refuses (present_refuses (keyword_refuses hn)) (refuses_oneOf ?_)
  simp only [List.forall_mem_cons]
  exact ⟨bind_refuses (keyword_refuses hb), bind_refuses (keyword_refuses hi),
    bind_refuses (keyword_refuses hl), by simp⟩

/-- A sum that no predicate follows stands alone. -/
theorem predicate_sum {sub : Inner} {s r : List Char} {e : Expr} (h : sum sub s = .ok (e, r))
    (hr : predicateNext r = false) : predicate sub s = .ok (e, r) := by
  have hneg : Refuses (negatableTest sub e) r := negatableTest_refuses hr
  simp only [predicateNext, Bool.or_eq_false_iff] at hr
  have hnull : Refuses (nullTest e) r := bind_refuses (keyword_refuses hr.1.1.1.1.1)
  have hcomp : Refuses (comparison sub e) r := bind_refuses (operation_refuses hr.2)
  rw [predicate, bind_ok h]
  exact (oneOf_refuses hnull).trans ((oneOf_refuses hneg).trans (oneOf_refuses hcomp))

/-- What is read at a layer is read at the one below, if it does not begin with its sign. -/
theorem Reads.down {sub : Inner} {j k : Nat} (hk : 1 ≤ k) (hj : k + 1 ≤ j) (h8 : k + 1 ≤ 8)
    {x : List Char} {e : Expr} (ho : Opens j x) (h : Reads sub (k + 1) x e) : Reads sub k x e := by
  intro rest hr
  obtain ⟨r, hup, hl⟩ := h rest (clear_mono (by omega) hr)
  have hstart := ho rest (clear_touches hr).1
  by_cases hc : isChain k = true
  · exact Links.reads hc h.links rest hr
  · simp only [isChain, Bool.or_eq_true, beq_iff_eq] at hc
    obtain rfl | rfl | rfl : k = 3 ∨ k = 4 ∨ k = 7 := by omega
    · exact ⟨r, (orElse_refuses (bind_refuses (keyword_refuses (hstart.negation hj)))).trans hup, hl⟩
    · refine ⟨r, predicate_sum hup ?_, hl⟩
      rw [predicateNext_congr (skip_of_left hl)]
      exact clear_predicate (by omega) hr
    · have hm : Refuses (symbol '-') (x ++ rest) := symbol_refuses (hstart.sign hj)
      exact ⟨r, ((oneOf_refuses (bind_refuses hm)).trans (oneOf_refuses (bind_refuses hm))).trans hup,
        hl⟩

theorem Reads.downTo {sub : Inner} {j k : Nat} (hk : 1 ≤ k) (hj : k ≤ j) (h8 : j ≤ 8)
    {x : List Char} {e : Expr} (ho : Opens j x) (h : Reads sub j x e) : Reads sub k x e := by
  obtain ⟨d, rfl⟩ := Nat.exists_eq_add_of_le hj
  clear hj
  induction d generalizing k with
  | zero => exact h
  | succ d ih =>
      have hup : Reads sub (k + 1) x e :=
        ih (by omega) (by omega) (by rw [show k + 1 + d = k + (d + 1) by omega]; exact ho)
          (by rw [show k + 1 + d = k + (d + 1) by omega]; exact h)
      exact hup.down hk (by omega) (by omega) ho

/-! ## Operators -/

/-- A keyword before a space. -/
theorem keyword_space {w : String} {s t : List Char} (hs : skip s = w.toList ++ ' ' :: t) :
    keyword w s = .ok ((), skip t) :=
  keyword_at (r := ' ' :: t) hs rfl

theorem operation_ok (op : BinaryOp) {ops : List (List Char × BinaryOp)} {operand : Parser Expr}
    {s t rest : List Char} {r : Expr} (hs : skip s = op.symbol.toList ++ ' ' :: t)
    (h : oneOf (ops.map fun o => do exactly o.1; return o.2) (op.symbol.toList ++ ' ' :: t) =
      .ok (op, ' ' :: t))
    (hr : ReadsTo operand (skip t) r rest) :
    ReadsTo (operation ops operand) s (fun l => .binary op l r) rest := by
  have hspaced : spaced (oneOf (ops.map fun o => do exactly o.1; return o.2)) s = .ok (op, skip t) :=
    spaced_ok (r := ' ' :: t) (by rw [hs, h])
  obtain ⟨u, hu, hl⟩ := hr
  refine ⟨u, ?_, hl⟩
  rw [operation, bind_ok hspaced, bind_ok hu]
  rfl

theorem symbol_solid (op : BinaryOp) : Solid op.symbol.toList := by
  cases op <;> exact solid_of_head rfl

/-- An operator of a chain is read with its right operand. -/
theorem link_ok {sub : Inner} {op : BinaryOp} (hk : isChain op.strength = true)
    {s y rest : List Char} {r : Expr} (hy : Reads sub (op.strength + 1) y r) (hsolid : Solid y)
    (hs : skip s = op.symbol.toList ++ ' ' :: (y ++ rest))
    (hr : clear (op.strength + 1) rest = true) :
    ReadsTo (link sub op.strength) s (fun l => .binary op l r) rest := by
  have hread : ReadsTo (layer sub (op.strength + 1)) (skip (y ++ rest)) r rest := by
    rw [hsolid.skip]
    exact hy rest hr
  obtain ⟨u, hu, hl⟩ := hread
  cases op with
  | or => exact ⟨u, (bind_ok (keyword_space hs)).trans (bind_ok hu), hl⟩
  | and => exact ⟨u, (bind_ok (keyword_space hs)).trans (bind_ok hu), hl⟩
  | plus => exact operation_ok .plus hs rfl ⟨u, hu, hl⟩
  | minus => exact operation_ok .minus hs rfl ⟨u, hu, hl⟩
  | concat => exact operation_ok .concat hs rfl ⟨u, hu, hl⟩
  | times => exact operation_ok .times hs rfl ⟨u, hu, hl⟩
  | divide => exact operation_ok .divide hs rfl ⟨u, hu, hl⟩
  | modulo => exact operation_ok .modulo hs rfl ⟨u, hu, hl⟩
  | _ => exact absurd hk (by decide)

/-- The links of the left operand and one more. -/
theorem Links.append {sub : Inner} {op : BinaryOp} (hk : isChain op.strength = true)
    {x y : List Char} {l r : Expr} (hx : Links sub op.strength x l)
    (hy : Reads sub (op.strength + 1) y r) (hsolid : Solid y) :
    Links sub op.strength (x ++ ' ' :: (op.symbol.toList ++ ' ' :: y)) (.binary op l r) := by
  intro rest hr
  have hclear : clear (op.strength + 1) (' ' :: (op.symbol.toList ++ ' ' :: (y ++ rest))) = true := by
    cases op <;> rfl
  have hskip : skip (' ' :: (op.symbol.toList ++ ' ' :: (y ++ rest))) =
      op.symbol.toList ++ ' ' :: (y ++ rest) :=
    (symbol_solid op).skip _
  obtain ⟨a, t, fs, u, ha, hs, hu, hf⟩ := hx _ hclear
  obtain ⟨v, hv, hl⟩ := link_ok hk hy hsolid ((skip_of_left hu).trans hskip) hr
  have hlen : v.length < u.length := by
    have h1 := length_of_left hl
    have h2 := length_skip_le u
    rw [skip_of_left hu, hskip] at h2
    simp only [List.length_append, List.length_cons] at h2
    omega
  refine ⟨a, t, fs ++ [fun l => .binary op l r], v, ?_, hs.append (.single hv hlen), hl, ?_⟩
  · simpa only [List.append_assoc, List.cons_append] using ha
  · rw [List.foldl_append, hf]
    rfl

/-! ## Predicates -/

section
variable {sub : Inner} {x : List Char} {e : Expr}

/-- What stands behind the operand of a predicate. -/
theorem predicate_ok (hx : Reads sub 5 x e) {s rest : List Char} {f : Expr} (hs : clear 5 s = true)
    (h : ∀ r, skip r = skip s →
      ReadsTo (oneOf [nullTest e, negatableTest sub e, comparison sub e, return e]) r f rest) :
    ReadsTo (predicate sub) (x ++ s) f rest :=
  ReadsTo.bind (hx s hs) h

theorem Reads.isNull (hx : Reads sub 5 x e) (n : Bool) :
    Reads sub 4 (x ++ " IS ".toList ++ notChars n ++ "NULL".toList) (.isNull n e) := by
  intro rest hr
  have hi := (touches_spec (clear_touches hr).1).1
  have hnull : keyword "NULL" ("NULL".toList ++ rest) = .ok ((), skip rest) := keyword_at rfl hi
  have hnot : present (keyword "NOT") (notChars n ++ ("NULL".toList ++ rest)) =
      .ok (n, "NULL".toList ++ rest) := by
    cases n with
    | false => exact present_refuses (keyword_refuses rfl)
    | true =>
        have hword : keyword "NOT" ("NOT ".toList ++ ("NULL".toList ++ rest)) =
            .ok ((), "NULL".toList ++ rest) :=
          keyword_space (t := "NULL".toList ++ rest) rfl
        exact present_ok hword
  have hskip : skip (notChars n ++ ("NULL".toList ++ rest)) = notChars n ++ ("NULL".toList ++ rest) := by
    cases n <;> rfl
  have hclear : clear 5 (" IS ".toList ++ (notChars n ++ ("NULL".toList ++ rest))) = true := by
    cases n <;> rfl
  simp only [List.append_assoc]
  refine predicate_ok hx hclear fun r hs => .behind (oneOf_ok ?_)
  have hword : keyword "IS" r = .ok ((), skip (notChars n ++ ("NULL".toList ++ rest))) :=
    keyword_space hs
  rw [nullTest, bind_ok hword, hskip, bind_ok hnot, bind_ok hnull]
  rfl

/-- A predicate that may be negated is read behind its operand. -/
theorem Reads.negatable (hx : Reads sub 5 x e) (n : Bool) {w : String} {y : List Char} {f : Expr}
    (hw : w = "BETWEEN" ∨ w = "IN" ∨ w = "LIKE")
    (h : ∀ s rest, skip s = w.toList ++ ' ' :: (y ++ rest) → clear 4 rest = true →
      ReadsTo (oneOf [rangeTest sub n e, listTest sub n e, patternTest sub n e]) s f rest) :
    Reads sub 4 (x ++ ' ' :: (notChars n ++ (w.toList ++ ' ' :: y))) f := by
  intro rest hr
  have hsolid : Solid w.toList := by
    rcases hw with rfl | rfl | rfl <;> exact solid_of_head rfl
  have hskip : skip (' ' :: (notChars n ++ (w.toList ++ ' ' :: (y ++ rest)))) =
      notChars n ++ (w.toList ++ ' ' :: (y ++ rest)) := by
    rcases hw with rfl | rfl | rfl <;> cases n <;> rfl
  have hclear : clear 5 (' ' :: (notChars n ++ (w.toList ++ ' ' :: (y ++ rest)))) = true := by
    rcases hw with rfl | rfl | rfl <;> cases n <;> rfl
  have hnull : wordNext "IS" (notChars n ++ (w.toList ++ ' ' :: (y ++ rest))) = false := by
    rcases hw with rfl | rfl | rfl <;> cases n <;> rfl
  simp only [List.append_assoc, List.cons_append]
  refine predicate_ok hx hclear fun r hs => ?_
  rw [hskip] at hs
  have hsame : skip r = skip (notChars n ++ (w.toList ++ ' ' :: (y ++ rest))) := by
    rw [hs, ← hskip, skip_skip]
  have hrefuse : Refuses (nullTest e) r :=
    bind_refuses (keyword_refuses (by rw [wordNext_congr hsame]; exact hnull))
  -- whether NOT is there or not, what is left begins with the word of the predicate
  have hnot : ∃ t, present (keyword "NOT") r = .ok (n, t) ∧
      skip t = w.toList ++ ' ' :: (y ++ rest) := by
    cases n with
    | false =>
        refine ⟨r, present_refuses (keyword_refuses ?_), hs⟩
        rw [wordNext_congr hsame]
        rcases hw with rfl | rfl | rfl <;> rfl
    | true =>
        have hword : keyword "NOT" r = .ok ((), skip (w.toList ++ ' ' :: (y ++ rest))) :=
          keyword_space hs
        rw [hsolid.skip] at hword
        exact ⟨_, present_ok hword, hsolid.skip _⟩
  obtain ⟨t, ht, hst⟩ := hnot
  obtain ⟨u, hu, hl⟩ := h t rest hst hr
  refine ⟨u, ?_, hl⟩
  rw [oneOf_refuses hrefuse]
  refine oneOf_ok ?_
  rw [negatableTest, bind_ok ht, hu]

theorem Reads.between (hx : Reads sub 5 x e) (n : Bool) {y z : List Char} {l h : Expr}
    (hy : Reads sub 5 y l) (hz : Reads sub 5 z h) (ys : Solid y) (zs : Solid z) :
    Reads sub 4 (x ++ ' ' :: (notChars n ++ "BETWEEN ".toList ++ y ++ " AND ".toList ++ z))
      (.between n e l h) := by
  have := hx.negatable n (w := "BETWEEN") (y := y ++ " AND ".toList ++ z) (f := .between n e l h)
    (Or.inl rfl) fun s rest hs hr => by
      simp only [List.append_assoc] at hs
      obtain ⟨u, hu, hl⟩ := hz rest (clear_mono (by omega) hr)
      have hlow : ReadsTo (sum sub) (skip (y ++ (" AND ".toList ++ (z ++ rest)))) l
          (" AND ".toList ++ (z ++ rest)) := by
        rw [ys.skip]
        exact hy _ rfl
      have hrange : ReadsTo (rangeTest sub n e) s (.between n e l h) rest := by
        rw [rangeTest, ReadsTo, bind_ok (keyword_space (w := "BETWEEN") hs)]
        refine hlow.bind fun r hr => ⟨u, ?_, hl⟩
        have hword : keyword "AND" r = .ok ((), skip (z ++ rest)) := keyword_space hr
        rw [zs.skip] at hword
        exact (bind_ok hword).trans (bind_ok hu)
      obtain ⟨v, hv, hl⟩ := hrange
      exact ⟨v, oneOf_ok hv, hl⟩
  simp only [List.append_assoc] at this ⊢
  exact this

theorem Reads.like (hx : Reads sub 5 x e) (n : Bool) {y : List Char} {p : Expr}
    (hy : Reads sub 5 y p) (ys : Solid y) :
    Reads sub 4 (x ++ ' ' :: (notChars n ++ "LIKE ".toList ++ y)) (.like n e p) := by
  have := hx.negatable n (w := "LIKE") (y := y) (f := .like n e p) (Or.inr (Or.inr rfl))
    fun s rest hs hr => by
      obtain ⟨u, hu, hl⟩ := hy rest (clear_mono (by omega) hr)
      have hword : ∀ w, wordNext w ("LIKE".toList ++ ' ' :: (y ++ rest)) = false → wordNext w s = false :=
        fun w hw => (wordNext_congr (by rw [hs]; rfl) w).trans hw
      have hrange : Refuses (rangeTest sub n e) s := bind_refuses (keyword_refuses (hword _ rfl))
      have hlist : Refuses (listTest sub n e) s := bind_refuses (keyword_refuses (hword _ rfl))
      refine ⟨u, ?_, hl⟩
      rw [oneOf_refuses hrange, oneOf_refuses hlist]
      change patternTest sub n e _ = _
      rw [patternTest, bind_ok (keyword_space (w := "LIKE") hs), ys.skip]
      exact bind_ok hu
  simp only [List.append_assoc] at this ⊢
  exact this

theorem Reads.compare (hx : Reads sub 5 x e) {op : BinaryOp} (hop : op.isComparison = true)
    {y : List Char} {r : Expr} (hy : Reads sub 5 y r) (ys : Solid y) :
    Reads sub 4 (x ++ ' ' :: (op.symbol.toList ++ ' ' :: y)) (.binary op e r) := by
  intro rest hr
  have hskip : skip (' ' :: (op.symbol.toList ++ ' ' :: (y ++ rest))) =
      op.symbol.toList ++ ' ' :: (y ++ rest) :=
    (symbol_solid op).skip _
  have hread : ReadsTo (sum sub) (skip (y ++ rest)) r rest := by
    rw [ys.skip]
    exact hy rest (clear_mono (by omega) hr)
  have hclear : clear 5 (' ' :: (op.symbol.toList ++ ' ' :: (y ++ rest))) = true := by
    cases op <;> first | rfl | cases hop
  have hwords : wordNext "IS" (op.symbol.toList ++ ' ' :: (y ++ rest)) = false ∧
      wordNext "NOT" (op.symbol.toList ++ ' ' :: (y ++ rest)) = false ∧
      wordNext "BETWEEN" (op.symbol.toList ++ ' ' :: (y ++ rest)) = false ∧
      wordNext "IN" (op.symbol.toList ++ ' ' :: (y ++ rest)) = false ∧
      wordNext "LIKE" (op.symbol.toList ++ ' ' :: (y ++ rest)) = false := by
    cases op <;> exact ⟨rfl, rfl, rfl, rfl, rfl⟩
  simp only [List.append_assoc, List.cons_append]
  refine predicate_ok hx hclear fun s hs => ?_
  rw [hskip] at hs
  have hsame : skip s = skip (op.symbol.toList ++ ' ' :: (y ++ rest)) := by
    rw [hs, (symbol_solid op).skip]
  simp only [← wordNext_congr hsame] at hwords
  obtain ⟨his, hnot, hbetween, hin, hlike⟩ := hwords
  have hnull : Refuses (nullTest e) s := bind_refuses (keyword_refuses his)
  have hneg : Refuses (negatableTest sub e) s := by
    refine bind_ok_refuses (present_refuses (keyword_refuses hnot)) (refuses_oneOf ?_)
    simp only [List.forall_mem_cons]
    exact ⟨bind_refuses (keyword_refuses hbetween), bind_refuses (keyword_refuses hin),
      bind_refuses (keyword_refuses hlike), by simp⟩
  obtain ⟨u, hu, hl⟩ : ReadsTo (operation comparisonOps (sum sub)) s (fun l => .binary op l r) rest := by
    refine operation_ok op hs ?_ hread
    cases op <;> first | rfl | exact absurd hop (by decide)
  refine ⟨u, ?_, hl⟩
  rw [oneOf_refuses hnull, oneOf_refuses hneg]
  exact oneOf_ok (bind_ok hu)

/-- A text is read as an expression by the reader of inner expressions. -/
def Inside (sub : Inner) (x : List Char) (e : Expr) : Prop :=
  ∀ rest, clear 1 rest = true → ReadsTo (sub .whole) (x ++ rest) e rest

/-- Expressions with commas between them, before a closing parenthesis. -/
theorem separated_inside {α : Type} {es : List α} (hne : es ≠ []) {text : α → List Char} {f : α → Expr}
    (h : ∀ e ∈ es, Solid (text e) ∧ Inside sub (text e) (f e)) (rest : List Char) :
    separated (symbol ',') (sub .whole) (commaList (es.map text) ++ ')' :: rest) =
      .ok (es.map f, ')' :: rest) := by
  have hread : ReadsTo (separated (symbol ',') (sub .whole))
      (commaList (es.map text) ++ ')' :: rest) (es.map f) (')' :: rest) := by
    refine separated_commaList hne (fun e he => (h e he).1) ?_ rfl
    rintro e he r (rfl | ⟨y, rfl⟩)
    · exact (h e he).2 _ rfl
    · exact (h e he).2 _ rfl
  exact hread.ok (skip_cons (by decide) _)

theorem commaList_chars_solid {es : List Expr} (hne : es ≠ []) (h : ∀ e ∈ es, Solid e.chars) :
    Solid (commaList (es.map Expr.chars)) := by
  refine commaList_solid (by simpa using hne) fun c hc => ?_
  obtain ⟨e, he, rfl⟩ := List.mem_map.mp hc
  exact h e he

theorem Reads.inList (hx : Reads sub 5 x e) (n : Bool) {items : List Expr} (hne : items ≠ [])
    {f : Expr → Expr} (h : ∀ i ∈ items, Solid i.chars ∧ Inside sub i.chars (f i)) :
    Reads sub 4 (x ++ ' ' :: (notChars n ++ "IN (".toList ++ commaList (items.map Expr.chars) ++ [')']))
      (.inList n e (items.map f)) := by
  have := hx.negatable n (w := "IN") (y := '(' :: (commaList (items.map Expr.chars) ++ [')']))
    (f := .inList n e (items.map f)) (Or.inr (Or.inl rfl)) fun s rest hs hr => by
      simp only [List.append_assoc, List.cons_append, List.nil_append] at hs
      have hlist : parenthesized (separated (symbol ',') (sub .whole))
          (skip ('(' :: (commaList (items.map Expr.chars) ++ ')' :: rest))) =
            .ok (items.map f, skip rest) := by
        rw [skip_cons (by decide)]
        refine parenthesized_ok (r := ')' :: rest) ?_ (skip_cons (by decide) _)
        rw [(commaList_chars_solid hne fun i hi => (h i hi).1).skip]
        exact separated_inside hne h rest
      have hword : ∀ w, wordNext w ("IN".toList ++ ' ' ::
          '(' :: (commaList (items.map Expr.chars) ++ ')' :: rest)) = false → wordNext w s = false :=
        fun w hw => (wordNext_congr (by rw [hs]; rfl) w).trans hw
      have hrange : Refuses (rangeTest sub n e) s := bind_refuses (keyword_refuses (hword _ rfl))
      have htest : listTest sub n e s = .ok (.inList n e (items.map f), skip rest) := by
        rw [listTest, bind_ok (keyword_space (w := "IN") hs)]
        exact bind_ok hlist
      refine .behind ?_
      rw [oneOf_refuses hrange]
      exact oneOf_ok htest
  simp only [List.append_assoc] at this ⊢
  exact this

/-! ## What stands alone -/

/-- The forms of what stands alone, in the order in which they are tried. -/
def atoms (sub : Inner) : List (Parser Expr) :=
  [do keyword "NULL"; return .literal .null,
   do keyword "TRUE"; return .literal (.boolean true),
   do keyword "FALSE"; return .literal (.boolean false),
   do return .literal (.text (← stringLiteral)),
   do return .literal (← number),
   functionCall sub,
   do return .column (← columnRef),
   parenthesized (sub .whole)]

theorem primary_eq (sub : Inner) : primary sub = spaced (oneOf (atoms sub)) := rfl

theorem oneOf_at {α : Type} {pre post : List (Parser α)} {p : Parser α} {s : List Char}
    {a : α × List Char} (hpre : ∀ q ∈ pre, Refuses q s) (h : p s = .ok a) :
    oneOf (pre ++ p :: post) s = .ok a := by
  induction pre with
  | nil => exact oneOf_ok h
  | cons q pre ih =>
      rw [List.forall_mem_cons] at hpre
      have hstep : oneOf (q :: (pre ++ p :: post)) s = oneOf (pre ++ p :: post) s := by
        cases pre with
        | nil => exact oneOf_refuses hpre.1
        | cons r pre => exact oneOf_refuses hpre.1
      rw [List.cons_append, hstep, ih hpre.2]

theorem primary_at (sub : Inner) (n : Nat) {p : Parser Expr} {s r : List Char}
    (hatoms : atoms sub = (atoms sub).take n ++ p :: (atoms sub).drop (n + 1)) (hs : Solid s)
    (hpre : ∀ q ∈ (atoms sub).take n, Refuses q s) (h : p s = .ok (e, r)) :
    primary sub s = .ok (e, skip r) := by
  have hskip : skip s = s := by simpa using hs.skip []
  rw [primary_eq]
  exact spaced_ok (by rw [hskip, hatoms, oneOf_at hpre h])

/-- The words for literals do not come next. -/
def Wordless (s : List Char) : Prop :=
  wordNext "NULL" s = false ∧ wordNext "TRUE" s = false ∧ wordNext "FALSE" s = false

theorem Wordless.of_head {c : Char} {r : List Char} (hg : isGap c = false)
    (hc : isIdentChar c = false) : Wordless (c :: r) :=
  ⟨wordNext_of_head (by decide) (by decide) hg hc, wordNext_of_head (by decide) (by decide) hg hc,
    wordNext_of_head (by decide) (by decide) hg hc⟩

theorem Wordless.refuses {s : List Char} (h : Wordless s) (sub : Inner) :
    ∀ q ∈ (atoms sub).take 3, Refuses q s := by
  simp only [atoms, List.take_succ_cons, List.take_zero, List.forall_mem_cons, List.not_mem_nil]
  exact ⟨bind_refuses (keyword_refuses h.1), bind_refuses (keyword_refuses h.2.1),
    bind_refuses (keyword_refuses h.2.2), fun _ hx => hx.elim⟩

/-- A text that begins with no word for a literal, no quote and no digit is no literal. -/
theorem Wordless.refuses_literals {c : Char} {r : List Char} (h : Wordless (c :: r)) (hq : c ≠ '\'')
    (hd : Digits.isDigit c = false) (sub : Inner) : ∀ q ∈ (atoms sub).take 5, Refuses q (c :: r) := by
  have hwords := h.refuses sub
  simp only [atoms, List.take_succ_cons, List.take_zero, List.forall_mem_cons, List.not_mem_nil]
    at hwords ⊢
  exact ⟨hwords.1, hwords.2.1, hwords.2.2.1, bind_refuses (quotedText_refuses hq),
    bind_refuses (number_refuses hd), fun _ hx => hx.elim⟩

theorem Reads.null : Reads sub 8 "NULL".toList (.literal .null) := by
  intro rest hr
  have hi := (touches_spec (clear_touches hr).1).1
  have hread : keyword "NULL" ("NULL".toList ++ rest) = .ok ((), skip rest) := keyword_at rfl hi
  have := primary_at (e := .literal .null) sub 0 rfl (solid_of_head rfl) (by simp)
    ((bind_ok hread).trans rfl)
  rw [skip_skip] at this
  exact .behind this

theorem Reads.boolean (b : Bool) :
    Reads sub 8 (Value.literal (.boolean b)).toList (.literal (.boolean b)) := by
  intro rest hr
  have hi := (touches_spec (clear_touches hr).1).1
  cases b with
  | true =>
      have hread : keyword "TRUE" ("TRUE".toList ++ rest) = .ok ((), skip rest) := keyword_at rfl hi
      have := primary_at (e := .literal (.boolean true)) sub 1 rfl
        (solid_of_head rfl) (by simpa [atoms] using bind_refuses (keyword_refuses rfl))
        ((bind_ok hread).trans rfl)
      rw [skip_skip] at this
      exact .behind this
  | false =>
      have hread : keyword "FALSE" ("FALSE".toList ++ rest) = .ok ((), skip rest) := keyword_at rfl hi
      have := primary_at (e := .literal (.boolean false)) sub 2 rfl
        (solid_of_head rfl)
        (by simpa [atoms] using
          ⟨bind_refuses (keyword_refuses rfl), bind_refuses (keyword_refuses rfl)⟩)
        ((bind_ok hread).trans rfl)
      rw [skip_skip] at this
      exact .behind this

theorem Reads.text (t : String) :
    Reads sub 8 (Value.literal (.text t)).toList (.literal (.text t)) := by
  intro rest hr
  have hq := (touches_spec (clear_touches hr).1).2.2.1
  have hread := quotedText_ok '\'' t hq
  have htext : (Value.literal (.text t)).toList = (Doubled.quoted '\'' t).toList := rfl
  have hhead : ∃ r, (Doubled.quoted '\'' t).toList ++ rest = '\'' :: r := by
    rw [Doubled.quoted, String.toList_ofList]
    exact ⟨_, rfl⟩
  obtain ⟨r, hr'⟩ := hhead
  have hwords : Wordless ('\'' :: r) := .of_head (by decide) (by decide)
  rw [htext]
  refine .behind (primary_at sub 3 rfl ?_ ?_ ((bind_ok hread).trans rfl))
  · exact hr' ▸ solid_of_head rfl
  · exact hr' ▸ hwords.refuses sub

theorem Reads.number {v : Value} (hl : LegibleLiteral v) (h : isUnsigned v = true) :
    Reads sub 8 v.literal.toList (.literal v) := by
  intro rest hr
  have hread := number_literal hl h (numberEnds_of_touches (clear_touches hr).1)
  obtain ⟨c, r, hc, hd⟩ := literal_digit h
  obtain ⟨-, hg, -, -, -, hq, -⟩ := isDigit_spec hd
  have hsolid : Solid (v.literal.toList ++ rest) := by
    rw [hc]
    exact ⟨c, r ++ rest, rfl, hg⟩
  have hstart : Wordless (v.literal.toList ++ rest) := by
    rw [hc]
    exact ⟨wordNext_of_digit rfl (by decide) hd, wordNext_of_digit rfl (by decide) hd,
      wordNext_of_digit rfl (by decide) hd⟩
  have hwords := hstart.refuses sub
  refine .behind (primary_at sub 4 rfl hsolid ?_ ((bind_ok hread).trans rfl))
  simp only [atoms, List.take_succ_cons, List.take_zero, List.forall_mem_cons, List.not_mem_nil]
    at hwords ⊢
  refine ⟨hwords.1, hwords.2.1, hwords.2.2.1, bind_refuses ?_, fun _ hx => hx.elim⟩
  rw [hc]
  exact quotedText_refuses hq

/-- Where a name stands, there is no literal. -/
theorem name_refuses (name : String) {rest : List Char} (h : nameEnds rest = true) (sub : Inner) :
    ∀ q ∈ (atoms sub).take 5, Refuses q (nameChars name ++ rest) := by
  have hwords : Wordless (nameChars name ++ rest) :=
    ⟨wordNext_name (by decide) (by decide) (by decide) name h,
      wordNext_name (by decide) (by decide) (by decide) name h,
      wordNext_name (by decide) (by decide) (by decide) name h⟩
  obtain ⟨c, r, hn, -, -, -, hq, -, hd⟩ := nameChars_head name
  rw [hn, List.cons_append] at hwords ⊢
  exact hwords.refuses_literals hq hd sub

theorem columnRef_ok (c : ColumnRef) {rest : List Char} (h : touches rest = false) :
    columnRef (c.chars ++ rest) = .ok (c, rest) := by
  obtain ⟨qualifier, name⟩ := c
  have hname := anyIdentifier_ok name (nameEnds_of_touches h)
  cases qualifier with
  | none =>
      have hpoint : Refuses (do char '.'; anyIdentifier) rest := by
        have hp := (touches_spec h).2.2.2
        refine bind_refuses ?_
        cases rest with
        | nil => exact ⟨_, rfl⟩
        | cons k r => exact ⟨⟨k :: r, .character⟩, by rw [char, if_neg (by simpa using hp)]⟩
      change columnRef (nameChars name ++ rest) = _
      rw [columnRef, bind_ok (identifier_ok name (nameEnds_of_touches h)),
        bind_ok (optional_refuses hpoint)]
      rfl
  | some q =>
      have hpoint : (do char '.'; anyIdentifier : Parser String) ('.' :: (nameChars name ++ rest)) =
          .ok (name, rest) :=
        (bind_ok (rfl : char '.' ('.' :: (nameChars name ++ rest)) = .ok ((), _))).trans hname
      have htext : (ColumnRef.mk (some q) name).chars ++ rest =
          nameChars q ++ '.' :: (nameChars name ++ rest) := by
        simp [ColumnRef.chars]
      rw [htext, columnRef, bind_ok (identifier_ok q rfl), bind_ok (optional_ok hpoint)]
      rfl

theorem Reads.column (c : ColumnRef) : Reads sub 8 c.chars (.column c) := by
  intro rest hr
  obtain ⟨ht, hp⟩ := clear_touches hr
  have hread := columnRef_ok c ht
  obtain ⟨name, s, hs, hends, hparen⟩ : ∃ name s, c.chars ++ rest = nameChars name ++ s ∧
      nameEnds s = true ∧ charNext '(' s = false := by
    obtain ⟨qualifier, name⟩ := c
    cases qualifier with
    | none => exact ⟨name, rest, rfl, nameEnds_of_touches ht, hp⟩
    | some q => exact ⟨q, '.' :: (nameChars name ++ rest), by simp [ColumnRef.chars], rfl, rfl⟩
  have hcall : Refuses (functionCall sub) (c.chars ++ rest) := by
    rw [hs]
    exact bind_ok_refuses (identifier_ok name hends) (bind_refuses (symbol_refuses hparen))
  have hlits := name_refuses name hends sub
  rw [← hs] at hlits
  refine .behind (primary_at sub 6 rfl ?_ ?_ ((bind_ok hread).trans rfl))
  · rw [hs]
    exact (nameChars_solid name).append s
  · simp only [atoms, List.take_succ_cons, List.take_zero, List.forall_mem_cons, List.not_mem_nil]
      at hlits ⊢
    exact ⟨hlits.1, hlits.2.1, hlits.2.2.1, hlits.2.2.2.1, hlits.2.2.2.2.1, hcall,
      fun _ hx => hx.elim⟩

/-- A name and an opening parenthesis begin a call. -/
theorem primary_call (name : String) {s r : List Char}
    (h : functionCall sub (nameChars name ++ '(' :: s) = .ok (e, r)) :
    primary sub (nameChars name ++ '(' :: s) = .ok (e, skip r) :=
  primary_at sub 5 rfl ((nameChars_solid name).append _) (name_refuses name rfl sub) h

theorem close_ok (rest : List Char) : symbol ')' (')' :: rest) = .ok ((), skip rest) :=
  symbol_here (by decide) rest

theorem Reads.call {name : String} (hp : PlainCall name) {α : Type} {args : List α}
    {text : α → List Char} {f : α → Expr} (h : ∀ a ∈ args, Solid (text a) ∧ Inside sub (text a) (f a))
    (hclose : ∀ r, Refuses (sub .whole) (')' :: r)) :
    Reads sub 8 ((asciiUpperText name).toList ++ '(' :: (commaList (args.map text) ++ [')']))
      (.call name (args.map f)) := by
  intro rest hr
  have hargs : callArguments sub name (skip (commaList (args.map text) ++ ')' :: rest)) =
      .ok (.call name (args.map f), skip rest) := by
    by_cases hne : args = []
    · subst hne
      have hnone : separatedOrNone (symbol ',') (sub .whole) (')' :: rest) = .ok ([], ')' :: rest) := by
        have hsep : Refuses (separated (symbol ',') (sub .whole)) (')' :: rest) :=
          bind_refuses (hclose rest)
        rw [separatedOrNone, bind_ok (optional_refuses hsep)]
        rfl
      change callArguments sub name (')' :: rest) = _
      rw [callArguments, bind_ok hnone, bind_ok (close_ok rest), hp.upper]
      rfl
    · have hsolid : Solid (commaList (args.map text)) := by
        refine commaList_solid (by simpa using hne) fun c hc => ?_
        obtain ⟨i, hi, rfl⟩ := List.mem_map.mp hc
        exact (h i hi).1
      have hsome : separatedOrNone (symbol ',') (sub .whole)
          (commaList (args.map text) ++ ')' :: rest) = .ok (args.map f, ')' :: rest) := by
        rw [separatedOrNone, bind_ok (optional_ok (separated_inside hne h rest))]
        rfl
      rw [hsolid.skip, callArguments, bind_ok hsome, bind_ok (close_ok rest), hp.upper]
      rfl
  have hcall : functionCall sub (nameChars name ++ '(' :: (commaList (args.map text) ++ ')' :: rest)) =
      .ok (.call name (args.map f), skip rest) := by
    rw [functionCall, bind_ok (identifier_ok name rfl), bind_ok (symbol_here (by decide) _)]
    simp only [hp.other]
    exact hargs
  have htext : (asciiUpperText name).toList ++ '(' :: (commaList (args.map text) ++ [')']) ++ rest =
      nameChars name ++ '(' :: (commaList (args.map text) ++ ')' :: rest) := by
    simp [hp.upper, nameChars_of_plain hp.plain]
  have := primary_call name hcall
  rw [skip_skip] at this
  rw [htext]
  exact .behind this

theorem ofName?_name (f : Aggregate) : Aggregate.ofName? f.name = some f := by
  cases f <;> decide

/-- The word for distinct values is read where it is written. -/
theorem distinct_ok (d : Bool) {y : List Char} (hs : Solid y) (hn : wordNext "DISTINCT" y = false) :
    skip ((if d then "DISTINCT ".toList else []) ++ y) = (if d then "DISTINCT ".toList else []) ++ y ∧
      present (keyword "DISTINCT") ((if d then "DISTINCT ".toList else []) ++ y) = .ok (d, y) := by
  have hskip : skip y = y := by simpa using hs.skip []
  cases d with
  | false => exact ⟨hskip, present_refuses (keyword_refuses hn)⟩
  | true =>
      have hword : keyword "DISTINCT" ("DISTINCT ".toList ++ y) = .ok ((), skip y) := keyword_space rfl
      rw [hskip] at hword
      exact ⟨rfl, present_ok hword⟩

/-- An aggregate under any of its names. -/
theorem Reads.aggregateNamed {name : String} {f : Aggregate} (hf : Aggregate.ofName? name = some f)
    (d : Bool) (h : Inside sub x e) (ho : Opens 1 x) :
    Reads sub 8 (nameChars name ++ '(' :: ((if d then "DISTINCT ".toList else []) ++ x ++ [')']))
      (.aggregate f d e) := by
  intro rest hr
  have hstart := ho (')' :: rest) rfl
  obtain ⟨hskip, hdistinct⟩ := distinct_ok d hstart.solid hstart.distinct
  have harg : aggregateArgument sub f ((if d then "DISTINCT ".toList else []) ++ (x ++ ')' :: rest)) =
      .ok (.aggregate f d e, skip rest) := by
    have hinner : sub .whole (x ++ ')' :: rest) = .ok (e, ')' :: rest) :=
      (h (')' :: rest) rfl).ok (skip_cons (by decide) _)
    rw [aggregateArgument, bind_ok hdistinct, bind_ok hinner, bind_ok (close_ok rest)]
    rfl
  have hstar : Refuses starArgument ((if d then "DISTINCT ".toList else []) ++ (x ++ ')' :: rest)) := by
    refine bind_refuses (symbol_refuses ?_)
    cases d with
    | false => exact hstart.star
    | true => rfl
  have hcall : functionCall sub
      (nameChars name ++ '(' :: ((if d then "DISTINCT ".toList else []) ++ (x ++ ')' :: rest))) =
      .ok (.aggregate f d e, skip rest) := by
    rw [functionCall, bind_ok (identifier_ok name rfl), bind_ok (symbol_here (by decide) _), hskip]
    simp only [hf]
    split
    · exact (orElse_refuses (bind_refuses hstar)).trans harg
    · exact harg
  have := primary_call name hcall
  rw [skip_skip] at this
  simp only [List.append_assoc, List.cons_append, List.nil_append]
  exact .behind this

theorem Reads.aggregate (f : Aggregate) (d : Bool) (h : Inside sub x e) (ho : Opens 1 x) :
    Reads sub 8 (f.name.toList ++ '(' :: ((if d then "DISTINCT ".toList else []) ++ x ++ [')']))
      (.aggregate f d e) := by
  rw [aggregate_chars]
  exact .aggregateNamed (ofName?_name f) d h ho

theorem Reads.aggregateAll :
    Reads sub 8 (Aggregate.count.name.toList ++ "(*)".toList) (.aggregateAll .count false) := by
  intro rest hr
  have hcall : functionCall sub (nameChars Aggregate.count.name ++ '(' :: ('*' :: ')' :: rest)) =
      .ok (.aggregateAll .count false, skip rest) := by
    have hstar : starArgument ('*' :: ')' :: rest) = .ok ((), skip rest) := by
      rw [starArgument, bind_ok (symbol_here (by decide) _), skip_cons (by decide)]
      exact close_ok rest
    rw [functionCall, bind_ok (identifier_ok _ rfl), bind_ok (symbol_here (by decide) _)]
    simp only [ofName?_name, beq_self_eq_true, if_true]
    exact orElse_ok ((bind_ok hstar).trans rfl)
  have := primary_call Aggregate.count.name hcall
  rw [skip_skip, ← aggregate_chars] at this
  simp only [List.append_assoc]
  exact .behind this

/-- A text in parentheses. -/
theorem Reads.group (hs : Solid x) (h : Inside sub x e) : Reads sub 8 ('(' :: (x ++ [')'])) e := by
  intro rest hr
  have hread : parenthesized (sub .whole) ('(' :: (x ++ ')' :: rest)) = .ok (e, skip rest) := by
    refine parenthesized_ok (r := ')' :: rest) ?_ (skip_cons (by decide) _)
    rw [hs.skip]
    exact (h (')' :: rest) rfl).ok (skip_cons (by decide) _)
  have hwords : Wordless ('(' :: (x ++ ')' :: rest)) := .of_head (by decide) (by decide)
  have hlits := hwords.refuses_literals (by decide) (by decide) sub
  have hid : Refuses identifier ('(' :: (x ++ ')' :: rest)) :=
    identifier_refuses_head (by decide) (by decide)
  have hprimary : primary sub ('(' :: (x ++ ')' :: rest)) = .ok (e, skip rest) := by
    have := primary_at sub 7 rfl (solid_of_head rfl) (s := '(' :: (x ++ ')' :: rest)) ?_ hread
    · rwa [skip_skip] at this
    · simp only [atoms, List.take_succ_cons, List.take_zero, List.forall_mem_cons, List.not_mem_nil]
        at hlits ⊢
      exact ⟨hlits.1, hlits.2.1, hlits.2.2.1, hlits.2.2.2.1, hlits.2.2.2.2.1, bind_refuses hid,
        bind_refuses (bind_refuses hid), fun _ hx => hx.elim⟩
  simp only [List.cons_append, List.append_assoc]
  exact .behind hprimary

end

/-! ## Where no expression begins -/

theorem primary_refuses_close (sub : Inner) (r : List Char) : Refuses (primary sub) (')' :: r) := by
  have hwords : Wordless (')' :: r) := .of_head (by decide) (by decide)
  have hlits := hwords.refuses_literals (by decide) (by decide) sub
  have hid : Refuses identifier (')' :: r) := identifier_refuses_head (by decide) (by decide)
  refine spaced_refuses (refuses_oneOf ?_)
  simp only [atoms, List.take_succ_cons, List.take_zero, List.forall_mem_cons, List.not_mem_nil]
    at hlits ⊢
  exact ⟨hlits.1, hlits.2.1, hlits.2.2.1, hlits.2.2.2.1, hlits.2.2.2.2.1, bind_refuses hid,
    bind_refuses (bind_refuses hid), bind_refuses (symbol_refuses rfl), fun _ hx => hx.elim⟩

/-- No expression begins with a closing parenthesis. -/
theorem exprAt_refuses_close (n : Nat) (r : List Char) : Refuses (exprAt n .whole) (')' :: r) := by
  cases n with
  | zero => exact ⟨_, rfl⟩
  | succ n =>
      have hminus : Refuses (symbol '-') (')' :: r) := symbol_refuses rfl
      have hsigned : Refuses (signed (exprAt n)) (')' :: r) := by
        refine refuses_oneOf ?_
        simp only [List.forall_mem_cons, List.not_mem_nil]
        exact ⟨bind_refuses hminus, bind_refuses hminus, primary_refuses_close _ r, fun _ hx => hx.elim⟩
      have hsum : Refuses (sum (exprAt n)) (')' :: r) := bind_refuses (bind_refuses hsigned)
      have hnegation : Refuses (negation (exprAt n)) (')' :: r) := by
        obtain ⟨e, he⟩ : Refuses (predicate (exprAt n)) (')' :: r) := bind_refuses hsum
        exact ⟨e, (orElse_refuses (bind_refuses (keyword_refuses rfl))).trans he⟩
      exact bind_refuses (bind_refuses hnegation)

/-! ## How expressions begin -/

theorem Opens.append {k : Nat} {x y : List Char} (hx : Opens k x)
    (hy : ∀ rest, touches (y ++ rest) = false) : Opens k (x ++ y) := fun rest _ => by
  rw [List.append_assoc]
  exact hx _ (hy rest)

theorem Opens.grouped {k : Nat} {x : List Char} {g : Bool} (hx : g = false → Opens k x) :
    Opens k (grouped g x) := by
  cases g with
  | false => exact hx rfl
  | true => exact fun rest _ => .of_paren k _

theorem Opens.name (k : Nat) (name : String) (x : List Char) :
    Opens k (nameChars name ++ '(' :: x) := fun rest _ => by
  rw [List.append_assoc]
  exact .of_name k name rfl rfl

theorem opens_column (k : Nat) (c : ColumnRef) : Opens k c.chars := by
  intro rest hr
  obtain ⟨qualifier, name⟩ := c
  cases qualifier with
  | none =>
      refine .of_name k name (nameEnds_of_touches hr) ?_
      have hp := (touches_spec hr).2.2.2
      cases rest with
      | nil => rfl
      | cons c r =>
          have hc : ('.' == c) = false := by
            rw [beq_eq_false_iff_ne]
            rintro rfl
            exact hp rfl
          rw [List.isPrefixOf, hc]
          rfl
  | some q =>
      obtain ⟨c, r, hn, -, hs, -⟩ := nameChars_head name
      have hstar : ('*' == c) = false := by
        rw [beq_eq_false_iff_ne]
        exact hs.symm
      have htext : (ColumnRef.mk (some q) name).chars ++ rest =
          nameChars q ++ '.' :: (c :: (r ++ rest)) := by
        simp [ColumnRef.chars, hn]
      rw [htext]
      refine .of_name k q rfl ?_
      rw [List.isPrefixOf, List.isPrefixOf, hstar]
      rfl

theorem opens_literal {v : Value} (h : LegibleLiteral v) :
    Opens (Expr.literal v).strength v.literal.toList := by
  intro rest hr
  have hi := (touches_spec hr).1
  rcases legibleLiteral_cases h with rfl | ⟨b, rfl⟩ | ⟨t, rfl⟩ | hu | ⟨w, -, -, -, hw⟩
  · exact .of_word (Or.inl rfl) _ hi
  · cases b with
    | true => exact .of_word (Or.inr (Or.inl rfl)) _ hi
    | false => exact .of_word (Or.inr (Or.inr rfl)) _ hi
  · have htext : (Value.literal (.text t)).toList ++ rest =
        '\'' :: (Doubled.encode '\'' t.toList ++ ['\''] ++ rest) := by
      change (Doubled.quoted '\'' t).toList ++ rest = _
      rw [Doubled.quoted, String.toList_ofList]
      rfl
    rw [htext]
    exact .of_head (by decide) (by decide) (by decide) (by decide) fun _ => by decide
  · obtain ⟨c, r, hc, hd⟩ := literal_digit hu
    rw [hc]
    exact .of_digit hd
  · have hs : (Expr.literal v).strength = 7 := by
      rw [Expr.strength, hw]
      rfl
    rw [hs, hw]
    exact .of_head (by decide) (by decide) (by decide) (by decide) fun h8 => absurd h8 (by decide)

/-- The text of a legible expression begins as its strength allows. -/
theorem opens_chars (e : Expr) : e.Legible → Opens e.strength e.chars := by
  have hoperand : ∀ (e : Expr) {k : Nat} {g : Bool} {y : List Char},
      Opens e.strength e.chars → (g = false → k ≤ e.strength) →
      (∀ rest, touches (y ++ rest) = false) → Opens k (grouped g e.chars ++ y) :=
    fun e _ _ _ he hg hy => (Opens.grouped fun h => he.mono (hg h)).append hy
  have hpredicate : ∀ e : Expr, decide (e.strength ≤ 4) = false → 4 ≤ e.strength := by
    intro e he
    have := of_decide_eq_false he
    omega
  induction e using Expr.induct with
  | column c => exact fun _ => opens_column _ c
  | literal v => exact opens_literal
  | unary op e ih =>
      intro _ rest _
      cases op with
      | not =>
          have hwild : Refuses (do let name ← identifier; exactly ['.', '*']; return name)
              ("NOT".toList ++ (' ' :: (grouped (e.strength < 3) e.chars ++ rest))) :=
            bind_refuses (identifier_refuses_word (by decide) rfl (by decide) (by decide) rfl)
          change Starts 3 _
          exact ⟨solid_of_head rfl, rfl, rfl, hwild, fun h => absurd h (by decide),
            fun h => absurd h (by decide)⟩
      | minus =>
          change Starts 7 _
          exact .of_head (by decide) (by decide) (by decide) (by decide) fun h => absurd h (by decide)
  | binary op l r ihl _ =>
      intro h
      refine hoperand l (ihl h.1) (fun hg => ?_) fun _ => rfl
      simp only [groupsLeft, Bool.or_eq_false_iff, decide_eq_false_iff_not] at hg
      change op.strength ≤ l.strength
      omega
  | isNull n e ih =>
      intro h
      simp only [Expr.chars, List.append_assoc]
      exact hoperand e (ih h) (hpredicate e) fun _ => rfl
  | between n e l h ihe _ _ =>
      exact fun hl => hoperand e (ihe hl.1) (hpredicate e) fun _ => rfl
  | inList n e items ihe _ =>
      exact fun hl => hoperand e (ihe hl.1) (hpredicate e) fun _ => rfl
  | like n e p ihe _ =>
      exact fun hl => hoperand e (ihe hl.1) (hpredicate e) fun _ => rfl
  | call name args _ =>
      intro h
      rw [Expr.chars, h.1.upper, ← nameChars_of_plain h.1.plain]
      exact .name _ name _
  | aggregate f d e _ =>
      intro _
      rw [Expr.chars, aggregate_chars]
      exact .name _ f.name _
  | aggregateAll f d =>
      intro _
      rw [Expr.chars, aggregate_chars]
      exact .name _ f.name _

theorem chars_solid {e : Expr} (h : e.Legible) : Solid e.chars := by
  have hs := (opens_chars e h [] rfl).solid
  rwa [List.append_nil] at hs

/-! ## Reading back -/

/-- The text of an expression is read as the expression, given enough nesting. -/
def ReadBack (e : Expr) : Prop := ∀ n, e.chars.length ≤ n →
  Reads (exprAt n) e.strength e.chars e.reread ∧
    (isChain e.strength = true → Links (exprAt n) e.strength e.chars e.reread)

theorem ReadBack.of_reads {e : Expr} (hs : isChain e.strength = false)
    (h : ∀ n, e.chars.length ≤ n → Reads (exprAt n) e.strength e.chars e.reread) : ReadBack e :=
  fun n hn => ⟨h n hn, fun hc => by rw [hs] at hc; cases hc⟩

section
variable {e : Expr} {n k : Nat}

theorem ReadBack.reads (h : ReadBack e) (hl : e.Legible) (hn : e.chars.length ≤ n) (hk : 1 ≤ k)
    (hs : k ≤ e.strength) : Reads (exprAt n) k e.chars e.reread :=
  (h n hn).1.downTo hk hs e.strength_le (opens_chars e hl)

theorem ReadBack.inside (h : ReadBack e) (hl : e.Legible) (hn : e.chars.length < n) :
    Inside (exprAt n) e.chars e.reread := by
  obtain ⟨m, rfl⟩ : ∃ m, n = m + 1 := ⟨n - 1, by omega⟩
  exact fun rest hr => h.reads hl (k := 1) (by omega) (Nat.le_refl 1) e.strength_pos rest hr

theorem length_grouped (x : List Char) : (grouped true x).length = x.length + 2 := by
  simp [grouped]

theorem grouped_solid (hl : e.Legible) (g : Bool) : Solid (grouped g e.chars) := by
  cases g with
  | false => exact chars_solid hl
  | true => exact solid_of_head rfl

/-- An operand is read at a layer when parentheses stand around it where they have to. -/
theorem ReadBack.operand (h : ReadBack e) (hl : e.Legible) {g : Bool}
    (hn : (grouped g e.chars).length ≤ n) (hk : 1 ≤ k) (h8 : k ≤ 8)
    (hg : g = false → k ≤ e.strength) : Reads (exprAt n) k (grouped g e.chars) e.reread := by
  cases g with
  | false => exact h.reads hl hn hk (hg rfl)
  | true =>
      rw [length_grouped] at hn
      exact (Reads.group (chars_solid hl) (h.inside hl (by omega))).downTo hk h8 (Nat.le_refl 8)
        fun rest _ => .of_paren 8 _

theorem signed_number {sub : Inner} {v : Value} (hl : LegibleLiteral v) (h : isUnsigned v = true)
    {rest : List Char} (hr : touches rest = false) :
    signed sub ('-' :: (v.literal.toList ++ rest)) = .ok (.literal (negated v), rest) := by
  obtain ⟨c, r, hc, hd⟩ := literal_digit h
  have hsolid : Solid v.literal.toList := by
    rw [hc]
    exact ⟨c, r, rfl, (isDigit_spec hd).2.1⟩
  have hsign : symbol '-' ('-' :: (v.literal.toList ++ rest)) = .ok ((), v.literal.toList ++ rest) := by
    rw [symbol_here (by decide), hsolid.skip]
  refine oneOf_ok ((bind_ok hsign).trans ?_)
  exact (bind_ok (number_literal hl h (numberEnds_of_touches hr))).trans rfl

theorem readBack_literal {v : Value} (h : LegibleLiteral v) : ReadBack (.literal v) := by
  have halone : ∀ {c r}, v.literal.toList = c :: r → c ≠ '-' →
      (∀ sub, Reads sub 8 v.literal.toList (.literal v)) → ReadBack (.literal v) := by
    intro c r hc hne hread
    have hs := Expr.strength_literal hc hne
    refine .of_reads (by rw [hs]; rfl) fun n _ => ?_
    rw [hs]
    exact hread _
  rcases legibleLiteral_cases h with rfl | ⟨b, rfl⟩ | ⟨t, rfl⟩ | hu | ⟨w, hw, hu, hv, htext⟩
  · exact halone rfl (by decide) fun _ => .null
  · cases b with
    | true => exact halone rfl (by decide) fun _ => .boolean true
    | false => exact halone rfl (by decide) fun _ => .boolean false
  · have htext : (Value.literal (.text t)).toList =
        '\'' :: (Doubled.encode '\'' t.toList ++ ['\'']) := by
      change (Doubled.quoted '\'' t).toList = _
      rw [Doubled.quoted, String.toList_ofList]
    exact halone htext (by decide) fun _ => .text t
  · obtain ⟨c, r, hc, hd⟩ := literal_digit hu
    exact halone hc (isDigit_spec hd).2.2.2.1 fun _ => .number h hu
  · have hs : (Expr.literal v).strength = 7 := by
      rw [Expr.strength, htext]
      rfl
    refine .of_reads (by rw [hs]; rfl) fun n _ rest hr => .here ?_
    rw [hs, Expr.chars, htext, Expr.reread, hv]
    exact signed_number hw hu (clear_touches hr).1

theorem ReadBack.negation (h : ReadBack e) (hl : e.Legible) : ReadBack (.unary .not e) := by
  refine .of_reads rfl fun n hn rest hr => ?_
  rw [Expr.chars, List.length_append] at hn
  obtain ⟨m, rfl⟩ : ∃ m, n = m + 1 := ⟨n - 1, by simp at hn; omega⟩
  have hm : (grouped (decide (e.strength < 3)) e.chars).length ≤ m := by simp at hn; omega
  have hinner := h.operand hl (k := 3) hm (by omega) (by omega) fun hg => by
    have := of_decide_eq_false hg
    omega
  obtain ⟨r, hread, hleft⟩ := hinner rest hr
  have hword : keyword "NOT" ("NOT ".toList ++ (grouped (decide (e.strength < 3)) e.chars ++ rest)) =
      .ok ((), grouped (decide (e.strength < 3)) e.chars ++ rest) := by
    have hsolid := grouped_solid hl (decide (e.strength < 3))
    have := keyword_space (w := "NOT") (t := grouped (decide (e.strength < 3)) e.chars ++ rest)
      (s := "NOT ".toList ++ (grouped (decide (e.strength < 3)) e.chars ++ rest)) rfl
    rwa [hsolid.skip] at this
  have hneg : exprAt (m + 1) .negation (grouped (decide (e.strength < 3)) e.chars ++ rest) =
      .ok (e.reread, r) := hread
  refine ⟨r, orElse_ok ?_, hleft⟩
  rw [Expr.chars, List.append_assoc, bind_ok hword, bind_ok hneg]
  rfl

/-- An expression that stands alone and is no number is not read as a number. -/
theorem number_refuses_chars (hl : e.Legible) (hs : e.strength = 8)
    (hne : ∀ v, e = .literal v → isUnsigned v = false) (rest : List Char) :
    Refuses number (e.chars ++ rest) := by
  have hname : ∀ (name : String) (x : List Char), Refuses number (nameChars name ++ x) := by
    intro name x
    obtain ⟨c, r, hn, -, -, -, -, -, hd⟩ := nameChars_head name
    rw [hn]
    exact number_refuses hd
  cases e with
  | column c =>
      obtain ⟨qualifier, name⟩ := c
      cases qualifier with
      | none => exact hname name _
      | some q =>
          have : (Expr.column ⟨some q, name⟩).chars ++ rest =
              nameChars q ++ ('.' :: nameChars name ++ rest) := by
            simp [Expr.chars, ColumnRef.chars]
          rw [this]
          exact hname q _
  | literal v =>
      rcases legibleLiteral_cases hl with rfl | ⟨b, rfl⟩ | ⟨t, rfl⟩ | hu | ⟨w, -, -, -, htext⟩
      · exact number_refuses (by decide)
      · cases b with
        | true => exact number_refuses (by decide)
        | false => exact number_refuses (by decide)
      · have htext : (Expr.literal (.text t)).chars ++ rest =
            '\'' :: (Doubled.encode '\'' t.toList ++ ['\''] ++ rest) := by
          change (Doubled.quoted '\'' t).toList ++ rest = _
          rw [Doubled.quoted, String.toList_ofList]
          rfl
        rw [htext]
        exact number_refuses (by decide)
      · rw [hne v rfl] at hu
        cases hu
      · rw [Expr.strength, htext] at hs
        cases hs
  | unary op e => cases op <;> cases hs
  | binary op l r => cases op <;> cases hs
  | call name args =>
      rw [Expr.chars, hl.1.upper, ← nameChars_of_plain hl.1.plain, List.append_assoc]
      exact hname name _
  | aggregate f d e =>
      rw [Expr.chars, aggregate_chars, List.append_assoc]
      exact hname f.name _
  | aggregateAll f d =>
      rw [Expr.chars, aggregate_chars, List.append_assoc]
      exact hname f.name _
  | _ => cases hs

theorem ReadBack.minus (h : ReadBack e) (hl : e.Legible) : ReadBack (.unary .minus e) := by
  refine .of_reads rfl fun n hn rest hr => ?_
  by_cases hnum : ∃ v, e = .literal v ∧ isUnsigned v = true
  · obtain ⟨v, rfl, hu⟩ := hnum
    obtain ⟨c, r, hc, hd⟩ := literal_digit hu
    have hs := Expr.strength_literal hc (isDigit_spec hd).2.2.2.1
    refine .here ?_
    rw [Expr.chars, Expr.reread, Expr.minus, if_pos hu, hs]
    exact signed_number hl hu (clear_touches hr).1
  · have hne : ∀ v, e = .literal v → isUnsigned v = false := by
      intro v hv
      cases hu : isUnsigned v with
      | false => rfl
      | true => exact absurd ⟨v, hv, hu⟩ hnum
    rw [Expr.chars, List.length_cons] at hn
    obtain ⟨m, rfl⟩ : ∃ m, n = m + 1 := ⟨n - 1, by omega⟩
    have hinner := h.operand hl (k := 7) (n := m) (g := decide (e.strength ≤ 7)) (by omega) (by omega)
      (by omega) fun hg => by
        have := of_decide_eq_false hg
        omega
    obtain ⟨r, hread, hleft⟩ := hinner rest hr
    have hsigned : exprAt (m + 1) .signed (grouped (decide (e.strength ≤ 7)) e.chars ++ rest) =
        .ok (e.reread, r) := hread
    have hsign : symbol '-' ('-' :: (grouped (decide (e.strength ≤ 7)) e.chars ++ rest)) =
        .ok ((), grouped (decide (e.strength ≤ 7)) e.chars ++ rest) := by
      rw [symbol_here (by decide), (grouped_solid hl _).skip]
    have hno : Refuses number (grouped (decide (e.strength ≤ 7)) e.chars ++ rest) := by
      by_cases hs : e.strength ≤ 7
      · rw [decide_eq_true hs]
        exact number_refuses (by decide)
      · have := e.strength_le
        rw [decide_eq_false hs]
        exact number_refuses_chars hl (by omega) hne rest
    have hminus : Expr.minus e.reread e = .unary .minus e.reread := by
      cases e with
      | literal v => rw [Expr.minus, hne v rfl]; rfl
      | _ => rfl
    have hfirst : Refuses (do symbol '-'; return Expr.literal (negated (← number)))
        ('-' :: (grouped (decide (e.strength ≤ 7)) e.chars ++ rest)) :=
      bind_ok_refuses hsign (bind_refuses hno)
    have hsecond : (do symbol '-'; return Expr.unary .minus (← exprAt (m + 1) .signed) : Parser Expr)
        ('-' :: (grouped (decide (e.strength ≤ 7)) e.chars ++ rest)) = .ok (.unary .minus e.reread, r) :=
      (bind_ok hsign).trans ((bind_ok hsigned).trans rfl)
    refine ⟨r, ?_, hleft⟩
    rw [Expr.chars, Expr.reread, hminus]
    exact (oneOf_refuses hfirst).trans (oneOf_ok hsecond)

theorem ReadBack.binary {op : BinaryOp} {l r : Expr} (hl : ReadBack l) (hr : ReadBack r)
    (ll : l.Legible) (lr : r.Legible) : ReadBack (.binary op l r) := by
  intro n hn
  have hlen : (grouped (groupsLeft op l) l.chars).length ≤ n ∧
      (grouped (decide (r.strength ≤ op.strength)) r.chars).length ≤ n := by
    simp only [Expr.chars, List.length_append, List.length_cons] at hn
    omega
  have h8 : op.strength + 1 ≤ 8 := by cases op <;> exact Nat.le_of_ble_eq_true rfl
  have hright : Reads (exprAt n) (op.strength + 1) (grouped (decide (r.strength ≤ op.strength)) r.chars)
      r.reread :=
    hr.operand lr hlen.2 (by omega) h8 fun hg => by
      have := of_decide_eq_false hg
      omega
  by_cases hk : isChain op.strength = true
  · have hleft : Links (exprAt n) op.strength (grouped (groupsLeft op l) l.chars) l.reread := by
      by_cases hg : groupsLeft op l = false ∧ l.strength = op.strength
      · rw [hg.1, ← hg.2]
        rw [hg.1] at hlen
        exact (hl n hlen.1).2 (by rw [hg.2]; exact hk)
      · refine (hl.operand ll hlen.1 (by omega) h8 fun hf => ?_).links
        have hne : l.strength ≠ op.strength := fun he => hg ⟨hf, he⟩
        simp only [groupsLeft, Bool.or_eq_false_iff, decide_eq_false_iff_not] at hf
        omega
    have hlinks := hleft.append hk hright (grouped_solid lr _)
    exact ⟨hlinks.reads hk, fun _ => hlinks⟩
  · have hop : op.isComparison = true := by
      cases op <;> first | rfl | exact absurd rfl hk
    have hfour : op.strength = 4 := by cases op <;> first | rfl | cases hop
    have hleft : Reads (exprAt n) 5 (grouped (groupsLeft op l) l.chars) l.reread :=
      hl.operand ll hlen.1 (by omega) (by omega) fun hf => by
        simp only [groupsLeft, hop, Bool.true_and, Bool.or_eq_false_iff, decide_eq_false_iff_not,
          beq_eq_false_iff_ne] at hf
        omega
    rw [hfour] at hright
    refine ⟨?_, fun hc => absurd hc hk⟩
    have := hleft.compare hop hright (grouped_solid lr _)
    change Reads (exprAt n) op.strength _ _
    rw [Expr.chars, hfour]
    exact this

end

theorem readBack_predicates {e l h p : Expr} (n : Bool) (he : ReadBack e) (le : e.Legible)
    (hl : ReadBack l) (ll : l.Legible) (hh : ReadBack h) (lh : h.Legible) (hp : ReadBack p)
    (lp : p.Legible) :
    ReadBack (.isNull n e) ∧ ReadBack (.between n e l h) ∧ ReadBack (.like n e p) := by
  have hoperand : ∀ {e : Expr} {m : Nat}, ReadBack e → e.Legible →
      (grouped (decide (e.strength ≤ 4)) e.chars).length ≤ m →
      Reads (exprAt m) 5 (grouped (decide (e.strength ≤ 4)) e.chars) e.reread := by
    intro e m he le hm
    refine he.operand le hm (by omega) (by omega) fun hg => ?_
    have := of_decide_eq_false hg
    omega
  refine ⟨.of_reads rfl fun m hm => ?_, .of_reads rfl fun m hm => ?_, .of_reads rfl fun m hm => ?_⟩
  · simp only [Expr.chars, List.length_append] at hm
    exact (hoperand he le (by omega)).isNull n
  · simp only [Expr.chars, List.length_append, List.length_cons] at hm
    exact (hoperand he le (by omega)).between n (hoperand hl ll (by omega)) (hoperand hh lh (by omega))
      (grouped_solid ll _) (grouped_solid lh _)
  · simp only [Expr.chars, List.length_append, List.length_cons] at hm
    exact (hoperand he le (by omega)).like n (hoperand hp lp (by omega)) (grouped_solid lp _)

/-- Listed expressions are read inside the text that holds their list. -/
theorem inside_of_list {es : List Expr} (h : ∀ e ∈ es, ReadBack e) (hl : ∀ e ∈ es, e.Legible) {n : Nat}
    (hn : (commaList (es.map Expr.chars)).length < n) :
    ∀ e ∈ es, Solid e.chars ∧ Inside (exprAt n) e.chars e.reread := by
  intro e he
  have hlen := length_le_commaList (List.mem_map_of_mem (f := Expr.chars) he)
  exact ⟨chars_solid (hl e he), (h e he).inside (hl e he) (by omega)⟩

/-- Every legible expression is read back. -/
theorem readBack (e : Expr) : e.Legible → ReadBack e := by
  induction e using Expr.induct with
  | column c => exact fun _ => .of_reads rfl fun n _ => .column c
  | literal v => exact readBack_literal
  | unary op e ih =>
      intro h
      cases op with
      | not => exact (ih h).negation h
      | minus => exact (ih h).minus h
  | binary op l r ihl ihr => exact fun h => (ihl h.1).binary (ihr h.2) h.1 h.2
  | isNull n e ih => exact fun h => (readBack_predicates n (ih h) h (ih h) h (ih h) h (ih h) h).1
  | between n e l h ihe ihl ihh =>
      exact fun ⟨he, hl, hh⟩ =>
        (readBack_predicates n (ihe he) he (ihl hl) hl (ihh hh) hh (ihe he) he).2.1
  | like n e p ihe ihp =>
      exact fun ⟨he, hp⟩ =>
        (readBack_predicates n (ihe he) he (ihe he) he (ihe he) he (ihp hp) hp).2.2
  | inList n e items ihe ihs =>
      rintro ⟨he, hne, hs⟩
      rw [Expr.legibleList_iff] at hs
      refine .of_reads rfl fun m hm => ?_
      simp only [Expr.chars_inList, List.length_append, List.length_cons] at hm
      rw [Expr.chars_inList, Expr.reread_inList]
      have hfirst : Reads (exprAt m) 5 (grouped (decide (e.strength ≤ 4)) e.chars) e.reread :=
        (ihe he).operand he (by omega) (by omega) (by omega) fun hg => by
          have := of_decide_eq_false hg
          omega
      refine hfirst.inList n hne (inside_of_list (fun x hx => ihs x hx (hs x hx)) hs ?_)
      simp at hm
      omega
  | call name args ihs =>
      rintro ⟨hp, hs⟩
      rw [Expr.legibleList_iff] at hs
      refine .of_reads rfl fun m hm => ?_
      simp only [Expr.chars_call, List.length_append, List.length_cons] at hm
      rw [Expr.chars_call, Expr.reread_call]
      exact .call hp (inside_of_list (fun x hx => ihs x hx (hs x hx)) hs (by omega))
        (exprAt_refuses_close m)
  | aggregate f d e ih =>
      intro h
      refine .of_reads rfl fun m hm => ?_
      simp only [Expr.chars, List.length_append, List.length_cons] at hm
      exact .aggregate f d ((ih h).inside h (by omega)) ((opens_chars e h).mono e.strength_pos)
  | aggregateAll f d =>
      rintro ⟨rfl, rfl⟩
      exact .of_reads rfl fun n _ => .aggregateAll

/-- The text of a legible expression is read, before anything that does not go on with it. -/
theorem expr_ok {e : Expr} (h : e.Legible) {rest : List Char} (hr : clear 1 rest = true) :
    ReadsTo expr (e.chars ++ rest) e.reread rest := by
  obtain ⟨r, hread, hl⟩ := (readBack e h).reads h (n := (e.chars ++ rest).length) (k := 1) (by simp)
    (Nat.le_refl 1) e.strength_pos rest hr
  refine ⟨r, ?_, hl⟩
  rw [expr]
  exact hread

end Parser

end Rowtime.Sql
