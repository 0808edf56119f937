import Mathlib.Data.List.DropRight
import Rowtime.Proofs.Names
import Rowtime.Sql.Parser.Token

/-!
# How the parsers proceed

What each way of putting parsers together does with a text, given what its parts
do with it. `Refuses` says that a parser stops at once, `Steps` that it reads one
thing after the other. A keyword is read where its letters stand and no letter
follows, and a name is read in the form in which it is written.
-/
namespace Rowtime.Sql.Parser

open Text

variable {α β : Type}

/-- The parser reads nothing at the front of a text. -/
def Refuses (p : Parser α) (s : List Char) : Prop := ∃ e, p s = .error e

/-- The text behind gaps. -/
abbrev skip (s : List Char) : List Char := s.dropWhile isGap

@[simp] theorem skip_skip (s : List Char) : skip (skip s) = skip s :=
  List.dropWhile_idempotent isGap s

theorem skip_cons {c : Char} (h : isGap c = false) (r : List Char) : skip (c :: r) = c :: r := by
  rw [skip, List.dropWhile_cons, if_neg (by simp [h])]

theorem length_skip_le (s : List Char) : (skip s).length ≤ s.length :=
  (List.dropWhile_sublist isGap).length_le

/-! ## Sequences and alternatives -/

theorem bind_ok {p : Parser α} {f : α → Parser β} {s r : List Char} {a : α}
    (h : p s = .ok (a, r)) : (p >>= f) s = f a r := by
  change Parser.bind p f s = f a r
  rw [Parser.bind, h]

theorem bind_refuses {p : Parser α} {f : α → Parser β} {s : List Char} (h : Refuses p s) :
    Refuses (p >>= f) s := by
  obtain ⟨e, he⟩ := h
  exact ⟨e, by change Parser.bind p f s = _; rw [Parser.bind, he]⟩

theorem bind_ok_refuses {p : Parser α} {f : α → Parser β} {s r : List Char} {a : α}
    (h : p s = .ok (a, r)) (k : Refuses (f a) r) : Refuses (p >>= f) s := by
  obtain ⟨e, he⟩ := k
  exact ⟨e, by rw [bind_ok h, he]⟩

theorem orElse_ok {p q : Parser α} {s : List Char} {x : α × List Char} (h : p s = .ok x) :
    orElse p q s = .ok x := by
  rw [orElse, h]

theorem orElse_refuses {p q : Parser α} {s : List Char} (h : Refuses p s) :
    orElse p q s = q s := by
  obtain ⟨e, he⟩ := h
  rw [orElse, he]

theorem oneOf_ok {p : Parser α} {ps : List (Parser α)} {s : List Char} {x : α × List Char}
    (h : p s = .ok x) : oneOf (p :: ps) s = .ok x := by
  cases ps with
  | nil => exact h
  | cons q r => exact orElse_ok h

theorem oneOf_refuses {p q : Parser α} {ps : List (Parser α)} {s : List Char} (h : Refuses p s) :
    oneOf (p :: q :: ps) s = oneOf (q :: ps) s :=
  orElse_refuses h

theorem refuses_oneOf {ps : List (Parser α)} {s : List Char} (h : ∀ p ∈ ps, Refuses p s) :
    Refuses (oneOf ps) s := by
  induction ps with
  | nil => exact ⟨_, rfl⟩
  | cons p ps ih =>
      cases ps with
      | nil => exact h p (by simp)
      | cons q r =>
          obtain ⟨e, he⟩ := ih fun p' hp' => h p' (by simp [hp'])
          exact ⟨e, by rw [oneOf_refuses (h p (by simp)), he]⟩

theorem optional_ok {p : Parser α} {s r : List Char} {a : α} (h : p s = .ok (a, r)) :
    optional p s = .ok (some a, r) := by
  rw [optional, h]

theorem optional_refuses {p : Parser α} {s : List Char} (h : Refuses p s) :
    optional p s = .ok (none, s) := by
  obtain ⟨e, he⟩ := h
  rw [optional, he]

theorem present_ok {p : Parser α} {s r : List Char} {a : α} (h : p s = .ok (a, r)) :
    present p s = .ok (true, r) := by
  rw [present, bind_ok (optional_ok h)]
  rfl

theorem present_refuses {p : Parser α} {s : List Char} (h : Refuses p s) :
    present p s = .ok (false, s) := by
  rw [present, bind_ok (optional_refuses h)]
  rfl

theorem filterMap_ok {f : α → Option β} {p : Parser α} {s r : List Char} {a : α} {b : β}
    (h : p s = .ok (a, r)) (hf : f a = some b) : filterMap f p s = .ok (b, r) := by
  rw [filterMap, h]
  simp only [hf]

theorem filterMap_refuses {f : α → Option β} {p : Parser α} {s : List Char} (h : Refuses p s) :
    Refuses (filterMap f p) s := by
  obtain ⟨e, he⟩ := h
  exact ⟨e, by rw [filterMap, he]⟩

theorem filterMap_none {f : α → Option β} {p : Parser α} {s r : List Char} {a : α}
    (h : p s = .ok (a, r)) (hf : f a = none) : Refuses (filterMap f p) s :=
  ⟨⟨s, .character⟩, by rw [filterMap, h]; simp only [hf]⟩

/-! ## Gaps and characters -/

theorem spaced_ok {p : Parser α} {s r : List Char} {a : α} (h : p (skip s) = .ok (a, r)) :
    spaced p s = .ok (a, skip r) := by
  have hgap : gap s = .ok ((), skip s) := rfl
  rw [spaced, bind_ok hgap, bind_ok h, bind_ok (rfl : gap r = .ok ((), skip r))]
  rfl

theorem spaced_refuses {p : Parser α} {s : List Char} (h : Refuses p (skip s)) :
    Refuses (spaced p) s :=
  bind_ok_refuses (rfl : gap s = .ok ((), skip s)) (bind_refuses h)

/-- Whether a character comes next, behind gaps. -/
def charNext (c : Char) (s : List Char) : Bool := (skip s).head? == some c

theorem symbol_ok {c : Char} {s r : List Char} (h : skip s = c :: r) :
    symbol c s = .ok ((), skip r) := by
  refine spaced_ok ?_
  rw [h, char]
  simp

theorem symbol_refuses {c : Char} {s : List Char} (h : charNext c s = false) :
    Refuses (symbol c) s := by
  refine spaced_refuses ?_
  unfold charNext at h
  cases hs : skip s with
  | nil => exact ⟨_, rfl⟩
  | cons k r =>
      rw [hs] at h
      have hk : (k == c) = false := by simpa using h
      exact ⟨_, by rw [char, hk]; rfl⟩

theorem symbol_here {c : Char} (hc : isGap c = false) (r : List Char) :
    symbol c (c :: r) = .ok ((), skip r) :=
  symbol_ok (skip_cons hc r)

theorem exactly_ok (w r : List Char) : exactly w (w ++ r) = .ok ((), r) := by
  rw [exactly, if_pos (by simp), List.drop_left]

theorem exactly_refuses {w s : List Char} (h : w.isPrefixOf s = false) : Refuses (exactly w) s :=
  ⟨_, by rw [exactly, if_neg (by simp [h])]⟩

theorem parenthesized_ok {p : Parser α} {s r t : List Char} {a : α}
    (h : p (skip s) = .ok (a, r)) (k : skip r = ')' :: t) :
    parenthesized p ('(' :: s) = .ok (a, skip t) := by
  rw [parenthesized, bind_ok (symbol_here (by decide) s), bind_ok h, bind_ok (symbol_ok k)]
  rfl

/-! ## Repetitions -/

/-- The parser reads one thing after the other, each time at least one character. -/
inductive Steps (p : Parser α) : List Char → List α → List Char → Prop where
  | nil (s : List Char) : Steps p s [] s
  | cons {s r t : List Char} {a : α} {as : List α} (h : p s = .ok (a, r)) (hl : r.length < s.length)
      (k : Steps p r as t) : Steps p s (a :: as) t

theorem Steps.append {p : Parser α} {s r t : List Char} {as bs : List α} (h : Steps p s as r)
    (k : Steps p r bs t) : Steps p s (as ++ bs) t := by
  induction h with
  | nil => exact k
  | cons h hl _ ih => exact .cons h hl (ih k)

theorem Steps.single {p : Parser α} {s r : List Char} {a : α} (h : p s = .ok (a, r))
    (hl : r.length < s.length) : Steps p s [a] r :=
  .cons h hl (.nil r)

theorem Steps.length_le {p : Parser α} {s t : List Char} {as : List α} (h : Steps p s as t) :
    as.length + t.length ≤ s.length := by
  induction h with
  | nil => simp
  | cons _ hl _ ih => rw [List.length_cons]; omega

theorem repeated_of_steps {p : Parser α} {s t : List Char} {as : List α} (h : Steps p s as t)
    (k : Refuses p t) (fuel : List Char) (hf : as.length ≤ fuel.length) :
    repeated p fuel s = (as, t) := by
  induction h generalizing fuel with
  | nil s =>
      cases fuel with
      | nil => rfl
      | cons _ fuel =>
          obtain ⟨e, he⟩ := k
          rw [repeated, he]
  | cons h _ _ ih =>
      cases fuel with
      | nil => simp at hf
      | cons _ fuel =>
          rw [repeated, h]
          simp only [ih k fuel (by simpa using hf)]

/-- Repetitions end where the parser refuses. -/
theorem many_of_steps {p : Parser α} {s t : List Char} {as : List α} (h : Steps p s as t)
    (k : Refuses p t) : many p s = .ok (as, t) := by
  have hl := h.length_le
  rw [many, repeated_of_steps h k s (by omega)]

theorem many_refuses {p : Parser α} {s : List Char} (h : Refuses p s) : many p s = .ok ([], s) :=
  many_of_steps (.nil s) h

theorem separated_of_steps {sep : Parser β} {p : Parser α} {s r t : List Char} {a : α} {as : List α}
    (h : p s = .ok (a, r)) (hs : Steps (do let _ ← sep; p) r as t)
    (k : Refuses (do let _ ← sep; p) t) : separated sep p s = .ok (a :: as, t) := by
  rw [separated, bind_ok h, bind_ok (many_of_steps hs k)]
  rfl

theorem chain_of_steps {operand : Parser α} {more : Parser (α → α)} {s r t : List Char} {a : α}
    {fs : List (α → α)} (h : operand s = .ok (a, r)) (hs : Steps more r fs t)
    (k : Refuses more t) :
    chain operand more s = .ok (fs.foldl (fun acc f => f acc) a, t) := by
  rw [chain, bind_ok h, bind_ok (many_of_steps hs k)]
  rfl

/-- A text that does not begin with a gap. -/
def Solid (s : List Char) : Prop := ∃ c r, s = c :: r ∧ isGap c = false

theorem solid_of_head {s : List Char} (h : s.head?.any (fun c => !isGap c) = true) : Solid s := by
  cases s with
  | nil => simp at h
  | cons c r => exact ⟨c, r, rfl, by simpa using h⟩

theorem Solid.skip {s : List Char} (h : Solid s) (r : List Char) : skip (s ++ r) = s ++ r := by
  obtain ⟨c, t, rfl, hc⟩ := h
  exact skip_cons hc _

theorem Solid.append {s : List Char} (h : Solid s) (r : List Char) : Solid (s ++ r) := by
  obtain ⟨c, t, rfl, hc⟩ := h
  exact ⟨c, t ++ r, rfl, hc⟩

/-! ## Up to a text -/

/-- The parser reads something and stops before a text, or behind the gaps in front of it. -/
def ReadsTo (p : Parser α) (s : List Char) (a : α) (rest : List Char) : Prop :=
  ∃ r, p s = .ok (a, r) ∧ (r = rest ∨ r = skip rest)

theorem ReadsTo.here {p : Parser α} {s rest : List Char} {a : α} (h : p s = .ok (a, rest)) :
    ReadsTo p s a rest := ⟨rest, h, Or.inl rfl⟩

theorem ReadsTo.behind {p : Parser α} {s rest : List Char} {a : α} (h : p s = .ok (a, skip rest)) :
    ReadsTo p s a rest := ⟨skip rest, h, Or.inr rfl⟩

theorem skip_of_left {r rest : List Char} (h : r = rest ∨ r = skip rest) : skip r = skip rest := by
  rcases h with rfl | rfl
  · rfl
  · exact skip_skip rest

theorem length_of_left {r rest : List Char} (h : r = rest ∨ r = skip rest) :
    r.length ≤ rest.length := by
  rcases h with rfl | rfl
  · exact Nat.le_refl _
  · exact length_skip_le rest

/-- Before a text without gaps, a parser stops there. -/
theorem ReadsTo.ok {p : Parser α} {s rest : List Char} {a : α} (h : ReadsTo p s a rest)
    (hs : skip rest = rest) : p s = .ok (a, rest) := by
  obtain ⟨r, hr, rfl | rfl⟩ := h
  · exact hr
  · rw [hr, hs]

/-- What follows goes on from where the parser stopped. -/
theorem ReadsTo.andThen {p : Parser α} {f : α → Parser β} {s t rest : List Char} {a : α} {b : β}
    (h : ReadsTo p s a t) (k : ∀ r, (r = t ∨ r = skip t) → ReadsTo (f a) r b rest) :
    ReadsTo (p >>= f) s b rest := by
  obtain ⟨r, hr, ht⟩ := h
  obtain ⟨u, hu, hl⟩ := k r ht
  exact ⟨u, by rw [bind_ok hr, hu], hl⟩

theorem ReadsTo.bind {p : Parser α} {f : α → Parser β} {s t rest : List Char} {a : α} {b : β}
    (h : ReadsTo p s a t) (k : ∀ r, skip r = skip t → ReadsTo (f a) r b rest) :
    ReadsTo (p >>= f) s b rest :=
  h.andThen fun r hr => k r (skip_of_left hr)

theorem ReadsTo.congr {p : Parser α} {s rest : List Char} {a b : α} (h : ReadsTo p s a rest)
    (hab : a = b) : ReadsTo p s b rest := hab ▸ h

theorem ReadsTo.some {p : Parser α} {s rest : List Char} {a : α} (h : ReadsTo p s a rest) :
    ReadsTo (optional p) s (some a) rest := by
  obtain ⟨r, hr, hl⟩ := h
  exact ⟨r, optional_ok hr, hl⟩

/-- Nothing is read where the parser refuses. -/
theorem ReadsTo.none {p : Parser α} {s rest : List Char} (h : Refuses p s)
    (hl : s = rest ∨ s = skip rest) : ReadsTo (optional p) s none rest :=
  ⟨s, optional_refuses h, hl⟩

theorem ReadsTo.map {p : Parser α} {s rest : List Char} {a : α} (h : ReadsTo p s a rest)
    (f : α → β) : ReadsTo (do return f (← p)) s (f a) rest := by
  obtain ⟨r, hr, hl⟩ := h
  exact ⟨r, by rw [bind_ok hr]; rfl, hl⟩

theorem commaList_solid {xs : List (List Char)} (hne : xs ≠ []) (h : ∀ x ∈ xs, Solid x) :
    Solid (commaList xs) := by
  match xs with
  | [] => exact absurd rfl hne
  | [x] => exact h x (by simp)
  | x :: y :: r =>
      rw [commaList, joinChars, List.append_assoc]
      exact (h x (by simp)).append _

theorem length_le_commaList {x : List Char} {xs : List (List Char)} (h : x ∈ xs) :
    x.length ≤ (commaList xs).length := by
  induction xs with
  | nil => simp at h
  | cons y ys ih =>
      cases ys with
      | nil =>
          rw [List.mem_singleton] at h
          rw [h]
          exact Nat.le_refl _
      | cons z zs =>
          simp only [commaList, joinChars, List.length_append] at ih ⊢
          rcases List.mem_cons.mp h with rfl | h
          · omega
          · have := ih h
            omega

/-- A list with commas is read when each of its elements is, before a comma or the end. -/
theorem separated_commaList {γ : Type} {p : Parser β} {xs : List γ} (hne : xs ≠ [])
    {text : γ → List Char} {f : γ → β} {rest : List Char}
    (hsolid : ∀ x ∈ xs, Solid (text x))
    (hread : ∀ x ∈ xs, ∀ r, r = rest ∨ (∃ y, r = ',' :: y) → ReadsTo p (text x ++ r) (f x) r)
    (hend : charNext ',' rest = false) :
    ReadsTo (separated (symbol ',') p) (commaList (xs.map text) ++ rest) (xs.map f) rest := by
  have hsteps : ∀ (x : γ) (ys : List γ), (∀ y ∈ x :: ys, y ∈ xs) →
      ∃ r t, p (commaList ((x :: ys).map text) ++ rest) = .ok (f x, r) ∧
        r.length ≤ (commaList ((x :: ys).map text) ++ rest).length ∧
        Steps (do let _ ← symbol ','; p) r (ys.map f) t ∧ (t = rest ∨ t = skip rest) := by
    intro x ys
    induction ys generalizing x with
    | nil =>
        intro hm
        obtain ⟨t, ht, hl⟩ := hread x (hm x (by simp)) rest (Or.inl rfl)
        refine ⟨t, t, ht, ?_, .nil _, hl⟩
        have := length_of_left hl
        rw [List.length_append]
        omega
    | cons y ys ih =>
        intro hm
        obtain ⟨r, t, hr, hl, hs, ht⟩ := ih y fun z hz => hm z (by simp [List.mem_cons.mp hz])
        have htext : commaList ((x :: y :: ys).map text) ++ rest =
            text x ++ ',' :: ' ' :: (commaList ((y :: ys).map text) ++ rest) := by
          simp [commaList, joinChars]
        have hsol : Solid (commaList ((y :: ys).map text)) := by
          refine commaList_solid (by simp) fun c hc => ?_
          obtain ⟨z, hz, rfl⟩ := List.mem_map.mp hc
          exact hsolid z (hm z (by simp [List.mem_cons.mp hz]))
        have hskip : skip (' ' :: (commaList ((y :: ys).map text) ++ rest)) =
            commaList ((y :: ys).map text) ++ rest :=
          (rfl : skip (' ' :: _) = skip _).trans (hsol.skip rest)
        have hsym : symbol ',' (',' :: ' ' :: (commaList ((y :: ys).map text) ++ rest)) =
            .ok ((), commaList ((y :: ys).map text) ++ rest) := by
          rw [symbol_here (by decide), hskip]
        have hx := (hread x (hm x (by simp)) (',' :: ' ' :: (commaList ((y :: ys).map text) ++ rest))
          (Or.inr ⟨_, rfl⟩)).ok (skip_cons (by decide) _)
        refine ⟨',' :: ' ' :: (commaList ((y :: ys).map text) ++ rest), t, ?_, ?_, ?_, ht⟩
        · rw [htext, hx]
        · rw [htext, List.length_append]
          omega
        · refine .cons (r := r) (by rw [bind_ok hsym, hr]) ?_ hs
          rw [List.length_cons, List.length_cons]
          omega
  cases xs with
  | nil => exact absurd rfl hne
  | cons x ys =>
      obtain ⟨r, t, hr, -, hs, ht⟩ := hsteps x ys fun _ hy => hy
      have hrefuse : Refuses (do let _ ← symbol ','; p) t :=
        bind_refuses (symbol_refuses (by rwa [charNext, skip_of_left ht]))
      exact ⟨t, separated_of_steps hr hs hrefuse, ht⟩

/-! ## Keywords -/

/-- Whether a keyword comes next, behind gaps. -/
def wordNext (w : String) (s : List Char) : Bool :=
  match dropWord? w.toList (skip s) with
  | some r => !identFollows r
  | none => false

theorem keyword_refuses {w : String} {s : List Char} (h : wordNext w s = false) :
    Refuses (keyword w) s := by
  unfold wordNext at h
  refine ⟨⟨s, .character⟩, ?_⟩
  unfold keyword
  split at h
  · rename_i r hr
    rw [hr]
    simp only [Bool.not_eq_false'] at h
    simp [h]
  · rename_i hr
    rw [hr]

theorem keyword_ok {w : String} {s r : List Char} (h : dropWord? w.toList (skip s) = some r)
    (k : identFollows r = false) : keyword w s = .ok ((), skip r) := by
  unfold keyword
  rw [h]
  simp [k]

theorem wordNext_congr {s t : List Char} (h : skip s = skip t) (w : String) :
    wordNext w s = wordNext w t := by
  rw [wordNext, wordNext, h]

theorem dropWord?_self (w r : List Char) : dropWord? w (w ++ r) = some r := by
  induction w with
  | nil => rfl
  | cons c w ih =>
      rw [List.cons_append, dropWord?]
      simp only [beq_self_eq_true, if_true]
      exact ih

/-- A keyword as it is written, behind gaps. -/
theorem keyword_at {w : String} {s r : List Char} (hs : skip s = w.toList ++ r)
    (hr : identFollows r = false) : keyword w s = .ok ((), skip r) :=
  keyword_ok (by rw [hs, dropWord?_self]) hr

theorem isIdentChar_asciiLower (c : Char) : isIdentChar (asciiLower c) = isIdentChar c := by
  by_cases h : 'A' ≤ c ∧ c ≤ 'Z'
  · have hb := capital_bounds h
    have hl := asciiLower_of_capital h
    have hcap : isIdentChar c = true := by
      simp only [isIdentChar, isIdentStart, Bool.or_eq_true, Bool.and_eq_true, decide_eq_true_eq]
      exact Or.inl (Or.inl (Or.inr h))
    have hsmall : 'a' ≤ asciiLower c ∧ asciiLower c ≤ 'z' := by
      constructor
      · change 97 ≤ (asciiLower c).toNat
        omega
      · change (asciiLower c).toNat ≤ 122
        omega
    rw [hcap]
    simp only [isIdentChar, isIdentStart, Bool.or_eq_true, Bool.and_eq_true, decide_eq_true_eq]
    exact Or.inl (Or.inl (Or.inl hsmall))
  · rw [asciiLower_of_not_capital h]

/-- The word at the front of a text is the only one that comes next. -/
theorem sameName_of_wordNext {v : String} {w r : List Char} (hv : v.toList.all isIdentChar = true)
    (hw : w.all isIdentChar = true) (hr : identFollows r = false) {t : List Char}
    (h : dropWord? v.toList (w ++ r) = some t) (ht : identFollows t = false) :
    v.toList.map asciiLower = w.map asciiLower := by
  revert hv h
  generalize v.toList = u
  induction u generalizing w with
  | nil =>
      intro _ h
      rw [dropWord?, Option.some.injEq] at h
      subst h
      cases w with
      | nil => rfl
      | cons c w =>
          rw [List.all_cons, Bool.and_eq_true] at hw
          rw [List.cons_append, identFollows, hw.1] at ht
          simp at ht
  | cons k u ih =>
      intro hu h
      rw [List.all_cons, Bool.and_eq_true] at hu
      cases w with
      | nil =>
          cases r with
          | nil => simp [dropWord?] at h
          | cons c r =>
              rw [List.nil_append, dropWord?] at h
              split at h
              · rename_i hk
                rw [beq_iff_eq] at hk
                rw [identFollows, ← isIdentChar_asciiLower, ← hk, isIdentChar_asciiLower, hu.1] at hr
                simp at hr
              · simp at h
      | cons c w =>
          rw [List.all_cons, Bool.and_eq_true] at hw
          rw [List.cons_append, dropWord?] at h
          split at h
          · rename_i hk
            rw [beq_iff_eq] at hk
            rw [List.map_cons, List.map_cons, hk, ih hw.2 hu.2 h]
          · simp at h

/-- A keyword does not come next where another word stands. -/
theorem wordNext_of_word {v : String} {w r : List Char} (hv : v.toList.all isIdentChar = true)
    (hw : w.all isIdentChar = true) (hs : Solid w) (hr : identFollows r = false)
    (hne : v.toList.map asciiLower ≠ w.map asciiLower) : wordNext v (w ++ r) = false := by
  unfold wordNext
  rw [hs.skip]
  split
  · rename_i t ht
    cases hf : identFollows t with
    | true => rfl
    | false => exact absurd (sameName_of_wordNext hv hw hr ht hf) hne
  · rfl

/-- A keyword does not come next where no letter of it stands. -/
theorem wordNext_of_head {v : String} {c : Char} {r : List Char} (hv : v.toList ≠ [])
    (hl : v.toList.all isIdentChar = true) (hg : isGap c = false) (hc : isIdentChar c = false) :
    wordNext v (c :: r) = false := by
  unfold wordNext
  rw [skip_cons hg]
  cases hu : v.toList with
  | nil => exact absurd hu hv
  | cons k u =>
      rw [hu, List.all_cons, Bool.and_eq_true] at hl
      rw [dropWord?]
      split
      · rename_i t ht
        split at ht
        · rename_i hk
          rw [beq_iff_eq] at hk
          rw [← isIdentChar_asciiLower, ← hk, isIdentChar_asciiLower, hl.1] at hc
          simp at hc
        · simp at ht
      · rfl

/-! ## Names -/

/-- Whether a name can end before a text. -/
def nameEnds (s : List Char) : Bool := !identFollows s && s.head? != some '"'

theorem scan_encode (q : Char) (cs : List Char) {rest : List Char} (h : rest.head? ≠ some q) :
    Doubled.scan q (Doubled.encode q cs ++ q :: rest) = some (cs, rest) := by
  induction cs with
  | nil =>
      cases rest with
      | nil => simp [Doubled.encode, Doubled.scan]
      | cons d r =>
          have hd : (d == q) = false := by simpa using h
          simp [Doubled.encode, Doubled.scan, hd]
  | cons c cs ih =>
      unfold Doubled.encode
      cases hc : c == q with
      | true =>
          rw [beq_iff_eq] at hc
          subst hc
          simp [Doubled.scan, ih]
      | false =>
          have hne : ∃ d r, Doubled.encode q cs ++ q :: rest = d :: r := by
            cases Doubled.encode q cs with
            | nil => exact ⟨q, rest, rfl⟩
            | cons d r => exact ⟨d, r ++ q :: rest, rfl⟩
          obtain ⟨d, r, he⟩ := hne
          simp only [Bool.false_eq_true, if_false, List.cons_append]
          rw [he] at ih ⊢
          simp [Doubled.scan, hc, ih]

/-- A quoted text is read up to its closing quote. -/
theorem quotedText_ok (q : Char) (s : String) {rest : List Char} (h : rest.head? ≠ some q) :
    quotedText q ((Doubled.quoted q s).toList ++ rest) = .ok (s, rest) := by
  rw [Doubled.quoted, String.toList_ofList, List.cons_append, List.append_assoc]
  simp only [quotedText, beq_self_eq_true, if_true, List.cons_append, List.nil_append]
  rw [scan_encode q s.toList h]
  simp

theorem quotedText_refuses {q c : Char} {r : List Char} (h : c ≠ q) :
    Refuses (quotedText q) (c :: r) := by
  have hc : (c == q) = false := by simpa using h
  exact ⟨_, by rw [quotedText, hc]; rfl⟩

theorem takeWhile_word {w rest : List Char} (hw : w.all isIdentChar = true)
    (hr : identFollows rest = false) :
    (w ++ rest).takeWhile isIdentChar = w ∧ (w ++ rest).dropWhile isIdentChar = rest := by
  induction w with
  | nil =>
      cases rest with
      | nil => exact ⟨rfl, rfl⟩
      | cons c r =>
          have hc : isIdentChar c = false := hr
          simp [hc]
  | cons c w ih =>
      rw [List.all_cons, Bool.and_eq_true] at hw
      obtain ⟨ht, hd⟩ := ih hw.2
      constructor
      · rw [List.cons_append, List.takeWhile_cons, if_pos hw.1, ht]
      · rw [List.cons_append, List.dropWhile_cons, if_pos hw.1, hd]

/-- What a plain name is made of. -/
theorem plainName_spec {name : String} (h : isPlainName name = true) :
    ∃ c r, name.toList = c :: r ∧ isIdentStart c = true ∧ r.all isIdentChar = true ∧
      isReserved name = false := by
  unfold isPlainName at h
  split at h
  · simp at h
  · rename_i c r hn
    simp only [Bool.and_eq_true, Bool.not_eq_true'] at h
    exact ⟨c, r, hn, h.1.1, h.1.2, h.2⟩

theorem bareWord_ok {c : Char} {r rest : List Char} (hc : isIdentStart c = true)
    (hr : r.all isIdentChar = true) (h : identFollows rest = false) :
    bareWord (c :: r ++ rest) = .ok (String.ofList (c :: r), rest) := by
  obtain ⟨ht, hd⟩ := takeWhile_word hr h
  rw [List.cons_append, bareWord, if_pos hc, ht, hd]

theorem bareWord_refuses {c : Char} {r : List Char} (hc : isIdentStart c = false) :
    Refuses bareWord (c :: r) := ⟨_, by rw [bareWord, if_neg (by simp [hc])]⟩

theorem isIdentStart_spec {c : Char} (h : isIdentStart c = true) :
    isIdentChar c = true ∧ isGap c = false ∧ c ≠ '"' ∧ c ≠ '\'' ∧ c ≠ '(' ∧ c ≠ '-' ∧ c ≠ '*' ∧
      Digits.isDigit c = false := by
  have hchar : isIdentChar c = true := by simp [isIdentChar, h]
  have hex : ∀ k : Char, isIdentStart k = false → c ≠ k := by
    rintro k hk rfl
    rw [h] at hk
    simp at hk
  refine ⟨hchar, ?_, hex _ (by decide), hex _ (by decide), hex _ (by decide), hex _ (by decide),
    hex _ (by decide), ?_⟩
  · have h1 := hex ' ' (by decide)
    have h2 := hex '\t' (by decide)
    have h3 := hex '\r' (by decide)
    have h4 := hex '\n' (by decide)
    simp [isGap, h1, h2, h3, h4]
  · simp only [isIdentStart, Bool.or_eq_true, Bool.and_eq_true, decide_eq_true_eq, beq_iff_eq] at h
    simp only [Digits.isDigit, Bool.and_eq_false_iff, decide_eq_false_iff_not]
    right
    change ¬c.toNat ≤ 57
    rcases h with (⟨h, -⟩ | ⟨h, -⟩) | rfl
    · have : 97 ≤ c.toNat := h
      omega
    · have : 65 ≤ c.toNat := h
      omega
    · decide

/-- The two forms in which a name is written. -/
theorem nameChars_cases (name : String) :
    (∃ c r, nameChars name = c :: r ∧ name.toList = c :: r ∧ isIdentStart c = true ∧
      r.all isIdentChar = true ∧ isReserved name = false) ∨
    nameChars name = (Doubled.quoted '"' name).toList := by
  unfold nameChars nameText
  split
  · rename_i h
    obtain ⟨c, r, hn, hc, hr, hres⟩ := plainName_spec h
    exact Or.inl ⟨c, r, hn, hn, hc, hr, hres⟩
  · exact Or.inr rfl

theorem nameChars_solid (name : String) : Solid (nameChars name) := by
  rcases nameChars_cases name with ⟨c, r, hn, -, hc, -⟩ | hn
  · exact ⟨c, r, hn, (isIdentStart_spec hc).2.1⟩
  · rw [hn, Doubled.quoted, String.toList_ofList]
    exact ⟨_, _, rfl, by decide⟩

theorem nameEnds_spec {s : List Char} (h : nameEnds s = true) :
    identFollows s = false ∧ s.head? ≠ some '"' := by
  simpa [nameEnds] using h

/-- A name is read from the form in which it is written. -/
theorem identifier_ok (name : String) {rest : List Char} (h : nameEnds rest = true) :
    identifier (nameChars name ++ rest) = .ok (name, rest) := by
  obtain ⟨hi, hq⟩ := nameEnds_spec h
  rcases nameChars_cases name with ⟨c, r, hn, hname, hc, hr, hres⟩ | hn
  · have hof : String.ofList (c :: r) = name := by rw [← hname, String.ofList_toList]
    rw [identifier, orElse_refuses]
    · refine filterMap_ok (a := name) ?_ (by simp [hres])
      rw [hn, bareWord_ok hc hr hi, hof]
    · rw [hn]
      exact quotedText_refuses (isIdentStart_spec hc).2.2.1
  · rw [identifier, hn]
    exact orElse_ok (quotedText_ok '"' name hq)

theorem anyIdentifier_ok (name : String) {rest : List Char} (h : nameEnds rest = true) :
    anyIdentifier (nameChars name ++ rest) = .ok (name, rest) := by
  obtain ⟨hi, hq⟩ := nameEnds_spec h
  rcases nameChars_cases name with ⟨c, r, hn, hname, hc, hr, -⟩ | hn
  · have hof : String.ofList (c :: r) = name := by rw [← hname, String.ofList_toList]
    rw [anyIdentifier, orElse_refuses]
    · rw [hn, bareWord_ok hc hr hi, hof]
    · rw [hn]
      exact quotedText_refuses (isIdentStart_spec hc).2.2.1
  · rw [anyIdentifier, hn]
    exact orElse_ok (quotedText_ok '"' name hq)

/-- No reserved word comes next where a name stands. -/
theorem wordNext_name {v : String} (hv : v.toList.all isIdentChar = true) (hne : v.toList ≠ [])
    (hres : isReserved v = true) (name : String) {rest : List Char} (h : nameEnds rest = true) :
    wordNext v (nameChars name ++ rest) = false := by
  obtain ⟨hi, -⟩ := nameEnds_spec h
  rcases nameChars_cases name with ⟨c, r, hn, hname, hc, hr, hnot⟩ | hn
  · rw [hn]
    have hspec := isIdentStart_spec hc
    refine wordNext_of_word hv ?_ ⟨c, r, rfl, hspec.2.1⟩ hi ?_
    · rw [List.all_cons, hspec.1, hr]
      rfl
    · intro he
      rw [← hname] at he
      have hs : sameName v name = true := sameName_iff.mpr he
      obtain ⟨k, hk, hkv⟩ := List.any_eq_true.mp hres
      have : isReserved name = true := List.any_eq_true.mpr ⟨k, hk, sameName_trans hkv hs⟩
      rw [hnot] at this
      simp at this
  · rw [hn, Doubled.quoted, String.toList_ofList, List.cons_append]
    exact wordNext_of_head hne hv (by decide) (by decide)

/-- A reserved word is no name. -/
theorem identifier_refuses_word {w : String} (hw : isReserved w = true) {c : Char} {r : List Char}
    (hl : w.toList = c :: r) (hc : isIdentStart c = true) (hr : r.all isIdentChar = true)
    {rest : List Char} (h : identFollows rest = false) :
    Refuses identifier (w.toList ++ rest) := by
  have hof : String.ofList (c :: r) = w := by rw [← hl, String.ofList_toList]
  obtain ⟨e, he⟩ : Refuses (filterMap (fun w => if isReserved w then none else some w) bareWord)
      (w.toList ++ rest) := by
    refine filterMap_none (a := w) (r := rest) ?_ (by simp [hw])
    rw [hl, bareWord_ok hc hr h, hof]
  refine ⟨e, ?_⟩
  rw [identifier, orElse_refuses, he]
  rw [hl]
  exact quotedText_refuses (isIdentStart_spec hc).2.2.1

theorem identifier_refuses_head {c : Char} {r : List Char} (hq : c ≠ '"')
    (hc : isIdentStart c = false) : Refuses identifier (c :: r) := by
  obtain ⟨e, he⟩ : Refuses (filterMap (fun w => if isReserved w then none else some w) bareWord)
      (c :: r) := filterMap_refuses (bareWord_refuses hc)
  exact ⟨e, by rw [identifier, orElse_refuses (quotedText_refuses hq), he]⟩

theorem identifier_refuses_nil : Refuses identifier [] := ⟨_, rfl⟩

end Rowtime.Sql.Parser
