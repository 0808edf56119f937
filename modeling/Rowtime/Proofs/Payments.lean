import Rowtime.Proofs.Produced
import Rowtime.Proofs.Weights

/-!
# Parsers that pay for what they read

What is read from a text weighs no more than the text: every name that is written in quotes
was read from quotes, or is a reserved word behind a point or behind AS. A parser pays for its
result with what it takes from the weight of the text. The parsers are followed combinator by
combinator, and what is paid for a part is kept for the whole.
-/
namespace Rowtime.Sql

open Text

/-! ## Trees of a weight -/

/-- What is saved where a call has no plain name. -/
def flaw (plain : Bool) : Nat := if plain then 0 else 1

theorem flaw_and_le (a b : Bool) : flaw (a && b) ≤ flaw a + flaw b := by
  cases a <;> cases b <;> decide

/-- Some weight of a text, and less unless its calls are plain, is at most `n`. -/
def Paid (L : Nat → Prop) (n : Nat) (plain : Bool) : Prop := ∃ m, L m ∧ m + flaw plain ≤ n

section
variable {L K M : Nat → Prop} {n m : Nat} {a b : Bool}

theorem Paid.of (h : L n) : Paid L n true := ⟨n, h, Nat.le_refl n⟩

theorem Paid.mono (h : Paid L n a) (k : n ≤ m) : Paid L m a := by
  obtain ⟨i, hi, hle⟩ := h
  exact ⟨i, hi, by omega⟩

theorem Paid.map (h : Paid L n a) (f : ∀ i, L i → M i) : Paid M n a := by
  obtain ⟨i, hi, hle⟩ := h
  exact ⟨i, f i hi, hle⟩

theorem Paid.pair (h : Paid L n a) (k : Paid K m b) (f : ∀ i j, L i → K j → M (i + j)) :
    Paid M (n + m) (a && b) := by
  obtain ⟨i, hi, hn⟩ := h
  obtain ⟨j, hj, hm⟩ := k
  have hflaw := flaw_and_le a b
  exact ⟨i + j, f i j hi hj, by omega⟩

end

section
variable {n m : Nat} {a b : Bool} {x y : List Char}

/-- A text behind another. -/
theorem Paid.append (h : Paid (Light · x) n a) (k : Paid (LightBehind · y) m b) :
    Paid (Light · (x ++ y)) (n + m) (a && b) :=
  h.pair k fun _ _ hi hj => hi.append hj

/-- A text in which nothing is called, behind another. -/
theorem Paid.beside (h : Paid (Light · x) n a) (k : LightBehind m y) :
    Paid (Light · (x ++ y)) (n + m) a := by
  have htext := h.append (.of k)
  rwa [Bool.and_true] at htext

end

/-- Results of which each is paid with a share. -/
def Shared {α : Type} (Q : Nat → α → Prop) : Nat → List α → Prop
  | n, [] => n = 0
  | n, a :: as => ∃ i j, n = i + j ∧ Q i a ∧ Shared Q j as

/-- What may be missing is paid with `n`, and what is missing with nothing. -/
def Given {α : Type} (Q : Nat → α → Prop) (n : Nat) (o : Option α) : Prop :=
  (o = none → n = 0) ∧ ∀ a ∈ o, Q n a

/-- Texts with commas between them. -/
theorem Shared.commaList {α : Type} {text : α → List Char} {plain : α → Bool} {n : Nat}
    {as : List α} (h : Shared (fun i a => Paid (Light · (text a)) i (plain a)) n as)
    (hne : as ≠ []) :
    Paid (Light · (commaList (as.map text))) n (as.all plain) := by
  induction as generalizing n with
  | nil => exact absurd rfl hne
  | cons a as ih =>
      obtain ⟨i, j, rfl, ha, has⟩ := h
      cases as with
      | nil =>
          obtain rfl : j = 0 := has
          rw [List.all_cons, List.all_nil, Bool.and_true]
          exact ha
      | cons b as =>
          refine ha.pair (ih has (List.cons_ne_nil b as)) fun x y hx hy => ?_
          have hbehind : LightBehind y ([',', ' '] ++ Sql.commaList ((b :: as).map text)) :=
            hy.follow (by decide) (by decide)
          have hchars : Sql.commaList ((a :: b :: as).map text) =
              text a ++ ([',', ' '] ++ Sql.commaList ((b :: as).map text)) := by
            rw [← List.append_assoc]
            rfl
          rw [hchars]
          exact hx.append hbehind

namespace Parser

variable {α β : Type}

/-! ## Parsers that pay for what they read -/

/-- What the parser reads is paid with `n` and with what it takes from the weight of the text. -/
def Pays (n : Nat) (p : Parser α) (Q : Nat → α → Prop) : Prop :=
  ∀ s a r, p s = .ok (a, r) → ∃ m, Q m a ∧ m + weightBehind r ≤ n + weightBehind s

/-- The parser adds nothing to the weight of the text. -/
abbrev Passes (p : Parser α) : Prop := Pays 0 p fun _ _ => True

theorem Passes.of_le {p : Parser α}
    (h : ∀ s a r, p s = .ok (a, r) → weightBehind r ≤ weightBehind s) : Passes p :=
  fun s a r hp => ⟨0, trivial, by have := h s a r hp; omega⟩

section
variable {n : Nat} {p q : Parser α} {Q R : Nat → α → Prop}

theorem Pays.mono (h : Pays n p Q) (k : ∀ m a, Q m a → R m a) : Pays n p R := by
  intro s a r hp
  obtain ⟨m, hm, hle⟩ := h s a r hp
  exact ⟨m, k m a hm, hle⟩

theorem Pays.passes (h : Pays 0 p Q) : Passes p := h.mono fun _ _ _ => trivial

theorem Pays.pure {a : α} (h : Q n a) : Pays n (Pure.pure a : Parser α) Q := by
  intro s b r hp
  obtain ⟨rfl, rfl⟩ := pure_inv hp
  exact ⟨n, h, Nat.le_refl _⟩

/-- What was paid before is kept for what follows. -/
theorem Pays.more {f : α → Parser β} {S : Nat → β → Prop} (h : Pays 0 p Q)
    (k : ∀ m a, Q m a → Pays (n + m) (f a) S) : Pays n (p >>= f) S := by
  intro s b r hp
  obtain ⟨a, t, ha, hb⟩ := bind_inv hp
  obtain ⟨m, hm, hle⟩ := h s a t ha
  obtain ⟨m', hm', hle'⟩ := k m a hm t b r hb
  exact ⟨m', hm', by omega⟩

theorem Pays.bind {f : α → Parser β} {S : Nat → β → Prop} (h : Pays 0 p Q)
    (k : ∀ m a, Q m a → Pays m (f a) S) : Pays 0 (p >>= f) S :=
  h.more fun m a ha => by
    rw [Nat.zero_add]
    exact k m a ha

theorem Pays.behind {f : α → Parser β} {S : Nat → β → Prop} (h : Passes p)
    (k : ∀ a, Pays n (f a) S) : Pays n (p >>= f) S := by
  intro s b r hp
  obtain ⟨a, t, ha, hb⟩ := bind_inv hp
  obtain ⟨m, -, hle⟩ := h s a t ha
  obtain ⟨m', hm', hle'⟩ := k a t b r hb
  exact ⟨m', hm', by omega⟩

theorem Pays.map {f : α → β} {S : Nat → β → Prop} (h : Pays 0 p Q) (k : ∀ m a, Q m a → S m (f a)) :
    Pays 0 (do return f (← p)) S :=
  h.bind fun m a ha => .pure (k m a ha)

theorem Pays.orElse (h : Pays n p Q) (k : Pays n q Q) : Pays n (orElse p q) Q := by
  intro s a r ha
  rcases orElse_inv ha with hp | ⟨-, hq⟩
  · exact h s a r hp
  · exact k s a r hq

theorem Pays.oneOf {ps : List (Parser α)} (h : ∀ p ∈ ps, Pays n p Q) : Pays n (oneOf ps) Q := by
  induction ps with
  | nil => exact fun s a r ha => by cases ha
  | cons p ps ih =>
      cases ps with
      | nil => exact h p (by simp)
      | cons q ps => exact (h p (by simp)).orElse (ih fun p' hp' => h p' (by simp [hp']))

theorem Pays.optional (h : Pays 0 p Q) :
    Pays 0 (optional p) (Given Q) := by
  intro s o r ho
  rw [Parser.optional] at ho
  cases hp : p s with
  | error e =>
      rw [hp] at ho
      simp only [Except.ok.injEq, Prod.mk.injEq] at ho
      obtain ⟨rfl, rfl⟩ := ho
      exact ⟨0, ⟨fun _ => rfl, fun a ha => by cases ha⟩, Nat.le_refl _⟩
  | ok x =>
      rw [hp] at ho
      simp only [Except.ok.injEq, Prod.mk.injEq] at ho
      obtain ⟨rfl, rfl⟩ := ho
      obtain ⟨m, hm, hle⟩ := h s x.1 x.2 hp
      exact ⟨m, ⟨fun hx => (by cases hx), fun a ha => (by cases ha; exact hm)⟩, hle⟩

theorem Pays.many (h : Pays 0 p Q) : Pays 0 (many p) (Shared Q) := by
  have hall : ∀ fuel s, ∃ m, Shared Q m (repeated p fuel s).1 ∧
      m + weightBehind (repeated p fuel s).2 ≤ weightBehind s := by
    intro fuel
    induction fuel with
    | nil => exact fun s => ⟨0, rfl, by rw [repeated, Nat.zero_add]⟩
    | cons c fuel ih =>
        intro s
        rw [repeated]
        cases hp : p s with
        | error e => exact ⟨0, rfl, by rw [Nat.zero_add]⟩
        | ok x =>
            obtain ⟨m, hm, hle⟩ := h s x.1 x.2 hp
            obtain ⟨m', hm', hle'⟩ := ih x.2
            refine ⟨m + m', ⟨m, m', rfl, hm, hm'⟩, ?_⟩
            simp only
            omega
  intro s as r has
  rw [Parser.many, Except.ok.injEq] at has
  obtain ⟨m, hm, hle⟩ := hall s s
  rw [has] at hm hle
  exact ⟨m, hm, by rwa [Nat.zero_add]⟩

theorem Pays.separated {sep : Parser β} (hsep : Passes sep) (h : Pays 0 p Q) :
    Pays 0 (separated sep p) fun m as => as ≠ [] ∧ Shared Q m as :=
  h.bind fun m a ha => (Pays.many (.behind hsep fun _ => h)).more fun m' as has =>
    .pure ⟨List.cons_ne_nil a as, m, m', rfl, ha, has⟩

theorem Pays.separatedOrNone {sep : Parser β} (hsep : Passes sep) (h : Pays 0 p Q) :
    Pays 0 (separatedOrNone sep p) (Shared Q) :=
  (Pays.optional (.separated hsep h)).bind fun m o ho => .pure <| by
    cases o with
    | none => exact ho.1 rfl
    | some as => exact (ho.2 as rfl).2

theorem Pays.chain {more : Parser (α → α)} (h : Pays 0 p Q)
    (k : Pays 0 more fun m f => ∀ i a, Q i a → Q (i + m) (f a)) : Pays 0 (chain p more) Q := by
  have hfold : ∀ (fs : List (α → α)) (m i : Nat) (a : α),
      Shared (fun m f => ∀ i a, Q i a → Q (i + m) (f a)) m fs → Q i a →
      Q (i + m) (fs.foldl (fun acc f => f acc) a) := by
    intro fs
    induction fs with
    | nil =>
        intro m i a hm ha
        obtain rfl : m = 0 := hm
        exact ha
    | cons f fs ih =>
        rintro _ i a ⟨j, m, rfl, hf, hfs⟩ ha
        rw [← Nat.add_assoc]
        exact ih m _ _ hfs (hf i a ha)
  exact h.bind fun i a ha => (Pays.many k).more fun m fs hfs => .pure (hfold fs m i a hfs ha)

theorem Pays.filterMap {f : α → Option β} {S : Nat → β → Prop} (h : Pays n p Q)
    (k : ∀ m a b, Q m a → f a = some b → S m b) : Pays n (filterMap f p) S := by
  intro s b r hb
  rw [Parser.filterMap] at hb
  cases hp : p s with
  | error e =>
      rw [hp] at hb
      cases hb
  | ok x =>
      rw [hp] at hb
      simp only at hb
      cases hf : f x.1 with
      | none =>
          rw [hf] at hb
          cases hb
      | some c =>
          rw [hf] at hb
          simp only [Except.ok.injEq, Prod.mk.injEq] at hb
          obtain ⟨m, hm, hle⟩ := h s x.1 x.2 hp
          rw [hb.2] at hle
          exact ⟨m, hb.1 ▸ k m x.1 c hm hf, hle⟩

end

/-! ## Gaps, signs and words -/

theorem gap_inv {s r : List Char} {u : Unit} (h : gap s = .ok (u, r)) : r = skip s := by
  have he : (Except.ok ((), skip s) : Except Stop (Unit × List Char)) = .ok (u, r) := h
  simp only [Except.ok.injEq, Prod.mk.injEq] at he
  exact he.2.symm

theorem passes_gap : Passes gap := .of_le fun s _ r h => by
  rw [gap_inv h, weightBehind_skip]

theorem Pays.spaced {p : Parser α} {Q : Nat → α → Prop} (h : Pays 0 p Q) : Pays 0 (spaced p) Q :=
  .behind passes_gap fun _ => h.bind fun _ _ ha => .behind passes_gap fun _ => .pure ha

/-- A sign is no part of a word. -/
theorem passes_char {c : Char} (h : isIdentChar c = false) :
    Passes (char c) := .of_le fun s _ r hr => by
  unfold char at hr
  split at hr
  · rename_i k t
    split at hr
    · rename_i hk
      simp only [Except.ok.injEq, Prod.mk.injEq, true_and] at hr
      rw [← hr, eq_of_beq hk]
      exact (weightBehind_le_cons h t).trans (weight_le_behind _)
    · cases hr
  · cases hr

theorem passes_symbol {c : Char} (h : isIdentChar c = false) : Passes (symbol c) :=
  (passes_char h).spaced

theorem passes_exactly {w : List Char} (h : w.all (fun c => !isIdentChar c) = true) :
    Passes (exactly w) := .of_le fun s _ r hr => by
  unfold exactly at hr
  split at hr
  · rename_i hpre
    obtain ⟨t, rfl⟩ := List.isPrefixOf_iff_prefix.mp hpre
    simp only [Except.ok.injEq, Prod.mk.injEq, true_and, List.drop_left] at hr
    subst hr
    clear hpre
    induction w with
    | nil => exact Nat.le_refl _
    | cons c w ih =>
        rw [List.all_cons, Bool.and_eq_true, Bool.not_eq_true'] at h
        exact (ih h.2).trans ((weightBehind_le_cons h.1 _).trans (weight_le_behind _))
  · cases hr

theorem Pays.parenthesized {p : Parser α} {Q : Nat → α → Prop} (h : Pays 0 p Q) :
    Pays 0 (parenthesized p) Q :=
  .behind (passes_symbol (by decide)) fun _ => h.bind fun _ _ ha =>
    .behind (passes_symbol (by decide)) fun _ => .pure ha

theorem Pays.after {p : Parser α} {q : Parser β} {Q : Nat → α → Prop} (hq : Passes q)
    (h : Pays 0 p Q) : Pays 0 (after q p) Q :=
  .behind hq fun _ => h

/-- What is behind a keyword. -/
theorem keyword_inv {w : String} {s r : List Char} {u : Unit} (h : keyword w s = .ok (u, r)) :
    ∃ t, dropWord? w.toList (skip s) = some t ∧ identFollows t = false ∧ r = skip t := by
  unfold keyword at h
  split at h
  · rename_i t ht
    split at h
    · cases h
    · rename_i hends
      simp only [Except.ok.injEq, Prod.mk.injEq, true_and] at h
      exact ⟨t, ht, Bool.eq_false_iff.mpr hends, h.symm⟩
  · cases h

theorem weightBehind_word {w s t : List Char} (h : dropWord? w (skip s) = some t)
    (hends : identFollows t = false) : weightBehind (skip t) ≤ weight (skip s) := by
  obtain ⟨x, hx⟩ := dropWord?_suffix h
  rw [weightBehind_skip, weightBehind_of_ends hends, hx]
  exact weight_append_le x t

theorem passes_keyword (w : String) : Passes (keyword w) := .of_le fun s _ r h => by
  obtain ⟨t, ht, hends, rfl⟩ := keyword_inv h
  rw [← weightBehind_skip s]
  exact (weightBehind_word ht hends).trans (weight_le_behind _)

theorem passes_present {p : Parser α} (h : Passes p) : Passes (present p) :=
  (Pays.optional h).bind fun _ _ _ => .pure trivial

/-! ## Names and literals -/

theorem scan_inv {q : Char} {s x rest : List Char} (h : Doubled.scan q s = some (x, rest)) :
    s = Doubled.encode q x ++ q :: rest := by
  fun_induction Doubled.scan q s generalizing x with
  | case1 => cases h
  | case2 c hc =>
      cases h
      rw [eq_of_beq hc]
      rfl
  | case3 => cases h
  | case4 c d r hc hd ih =>
      obtain ⟨⟨y, more⟩, hy, hx⟩ := Option.map_eq_some_iff.mp h
      cases hx
      rw [ih hy, eq_of_beq hc, eq_of_beq hd]
      simp [Doubled.encode]
  | case5 c d r hc =>
      cases h
      rw [eq_of_beq hc]
      rfl
  | case6 c d r hc ih =>
      obtain ⟨⟨y, more⟩, hy, hx⟩ := Option.map_eq_some_iff.mp h
      cases hx
      rw [ih hy]
      simp [Doubled.encode, hc]

/-- What is read between quotes weighs as much in the text. -/
theorem pays_quotedText {q : Char} (h : Stops q) (hp : q ≠ '.') :
    Pays 0 (quotedText q) fun m a => m = weight (Doubled.quoted q a).toList := by
  intro s a r hr
  unfold quotedText at hr
  split at hr
  · rename_i c t
    split at hr
    · rename_i hc
      split at hr
      · rename_i x rest hx
        simp only [Except.ok.injEq, Prod.mk.injEq] at hr
        obtain ⟨rfl, rfl⟩ := hr
        refine ⟨_, rfl, ?_⟩
        have hsplit : c :: t = q :: Doubled.encode q x ++ q :: rest := by
          rw [eq_of_beq hc, scan_inv hx]
          rfl
        have htext : (Doubled.quoted q (String.ofList x)).toList =
            q :: Doubled.encode q x ++ [q] := by
          rw [Doubled.quoted, String.toList_ofList, String.toList_ofList]
          rfl
        rw [hsplit, htext, weight_append h, weightBehind_append h,
          weight_cons_of_ne h.ident hp rest,
          weightBehind_of_ends (show identFollows (q :: Doubled.encode q x) = false from h.ident)]
        omega
      · cases hr
    · cases hr
  · cases hr

theorem bareWord_inv {s r : List Char} {a : String} (h : bareWord s = .ok (a, r)) :
    ∃ c w, s = c :: w ++ r ∧ a = String.ofList (c :: w) ∧ isIdentStart c = true ∧
      w.all isIdentChar = true ∧ identFollows r = false := by
  unfold bareWord at h
  split at h
  · rename_i c t
    split at h
    · rename_i hc
      simp only [Except.ok.injEq, Prod.mk.injEq] at h
      obtain ⟨rfl, rfl⟩ := h
      refine ⟨c, t.takeWhile isIdentChar, ?_, rfl, hc, List.all_takeWhile, ?_⟩
      · rw [List.cons_append, List.takeWhile_append_dropWhile]
      · cases hd : t.dropWhile isIdentChar with
        | nil => rfl
        | cons k u =>
            have hk := List.head_dropWhile_not isIdentChar (l := t)
              (by rw [hd]; exact List.cons_ne_nil k u)
            simpa [hd, identFollows] using hk
    · cases h
  · cases h

/-- A name that is written with a weight. -/
def Named (n : Nat) (name : String) : Prop := weight (nameChars name) ≤ n

theorem Named.light {n : Nat} {name : String} (h : Named n name) : Light n (nameChars name) :=
  (light_name name).mono h

theorem weight_word_self {w : List Char} (h : w.all isIdentChar = true) : weight w = 0 := by
  have hself := weight_word h []
  rwa [List.append_nil] at hself

theorem ident_all {c : Char} {w : List Char} (hc : isIdentStart c = true)
    (hw : w.all isIdentChar = true) : (c :: w).all isIdentChar = true := by
  rw [List.all_cons, (isIdentStart_spec hc).1, hw]
  rfl

theorem named_of_plain {name : String} (h : isPlainName name = true) (n : Nat) : Named n name := by
  obtain ⟨c, w, hname, hc, hw, -⟩ := plainName_spec h
  rw [Named, nameChars_of_plain h, hname, weight_word_self (ident_all hc hw)]
  exact Nat.zero_le n

theorem named_quoted (name : String) : Named (weight (Doubled.quoted '"' name).toList) name := by
  cases h : isPlainName name with
  | true => exact named_of_plain h _
  | false =>
      rw [Named, nameChars, nameText, h]
      exact Nat.le_refl _

theorem isPlainName_word {c : Char} {w : List Char} (hc : isIdentStart c = true)
    (hw : w.all isIdentChar = true) :
    isPlainName (String.ofList (c :: w)) = !isReserved (String.ofList (c :: w)) := by
  unfold isPlainName
  rw [String.toList_ofList]
  simp only [hc, hw, Bool.true_and]

/-- What a reserved word weighs between quotes. -/
theorem weight_quoted_word {w : List Char} (h : w.all isIdentChar = true) :
    weight (Doubled.quoted '"' (String.ofList w)).toList = 2 := by
  have hencode : Doubled.encode '"' w = w := by
    induction w with
    | nil => rfl
    | cons c w ih =>
        rw [List.all_cons, Bool.and_eq_true] at h
        have hc : (c == '"') = false := by
          rw [beq_eq_false_iff_ne]
          rintro rfl
          exact absurd h.1 (by decide)
        rw [Doubled.encode, hc, if_neg Bool.false_ne_true, ih h.2]
  have hopen : weight ('"' :: w) = 1 := by
    rw [weight_cons_of_ne (by decide) (by decide), weightBehind, aliasWeight_all h,
      weight_word_self h]
    rfl
  have htext : (Doubled.quoted '"' (String.ofList w)).toList = '"' :: w ++ ['"'] := by
    rw [Doubled.quoted, String.toList_ofList, String.toList_ofList, hencode]
    rfl
  rw [htext, weight_append stops_quote, hopen]
  rfl

/-- A bare word weighs as a name what it weighs as a reserved word. -/
theorem named_bare {c : Char} {w : List Char} (hc : isIdentStart c = true)
    (hw : w.all isIdentChar = true) {rest : List Char} (hr : identFollows rest = false) :
    Named (frontWeight (c :: w ++ rest)) (String.ofList (c :: w)) := by
  have hword := ident_all hc hw
  have hplain := isPlainName_word hc hw
  rw [frontWeight_word hword hr]
  cases hres : isReserved (String.ofList (c :: w)) with
  | false =>
      rw [hres] at hplain
      exact named_of_plain hplain _
  | true =>
      have hquoted := named_quoted (String.ofList (c :: w))
      rw [weight_quoted_word hword] at hquoted
      exact hquoted

/-- A bare word takes nothing. -/
theorem pays_bareWord : Pays 0 bareWord fun _ a => ∃ c w, a = String.ofList (c :: w) ∧
    isIdentStart c = true ∧ w.all isIdentChar = true := by
  intro s a r h
  obtain ⟨c, w, rfl, ha, hc, hw, hr⟩ := bareWord_inv h
  refine ⟨0, ⟨c, w, ha, hc, hw⟩, ?_⟩
  rw [Nat.zero_add, Nat.zero_add, weightBehind_of_ends hr]
  exact (weight_append_le _ r).trans (weight_le_behind _)

theorem pays_identifier : Pays 0 identifier Named := by
  refine Pays.orElse ?_ ?_
  · exact (pays_quotedText stops_quote (by decide)).mono fun m a ha => ha ▸ named_quoted a
  · refine pays_bareWord.filterMap fun m a b ha hb => ?_
    obtain ⟨c, w, rfl, hc, hw⟩ := ha
    obtain ⟨hres, hb⟩ := Option.ite_none_left_eq_some.mp hb
    rw [Option.some.injEq] at hb
    refine hb ▸ named_of_plain ?_ m
    rw [isPlainName_word hc hw, Bool.eq_false_iff.mpr hres]
    rfl

/-- A reserved word may be a name where any word is. -/
theorem anyIdentifier_pays {s r : List Char} {a : String} (h : anyIdentifier s = .ok (a, r)) :
    ∃ m, Named m a ∧ m + weightBehind r ≤ frontWeight s + weightBehind s := by
  rcases orElse_inv h with hq | ⟨-, hb⟩
  · obtain ⟨m, rfl, hle⟩ := pays_quotedText stops_quote (by decide) s a r hq
    exact ⟨_, named_quoted a, by omega⟩
  · obtain ⟨c, w, rfl, rfl, hc, hw, hr⟩ := bareWord_inv hb
    refine ⟨_, named_bare hc hw hr, ?_⟩
    rw [weightBehind_of_ends hr]
    exact Nat.add_le_add_left ((weight_append_le _ r).trans (weight_le_behind _)) _

theorem pays_pointed : Pays 0 (do char '.'; anyIdentifier) Named := by
  intro s a r h
  obtain ⟨u, t, hc, ha⟩ := bind_inv h
  unfold char at hc
  split at hc
  · rename_i k v
    split at hc
    · rename_i hk
      simp only [Except.ok.injEq, Prod.mk.injEq, true_and] at hc
      subst hc
      obtain ⟨m, hm, hle⟩ := anyIdentifier_pays ha
      have hpoint : weightBehind (k :: v) = frontWeight v + weightBehind v := by
        rw [eq_of_beq hk, weightBehind_of_ends rfl, weight_point]
      exact ⟨m, hm, by omega⟩
    · cases hc
  · cases hc

theorem pays_columnRef : Pays 0 columnRef fun n c => Light n c.chars := by
  refine pays_identifier.bind fun n first hfirst => (Pays.optional pays_pointed).more
    fun m second hsecond => .pure ?_
  cases second with
  | none =>
      obtain rfl : m = 0 := hsecond.1 rfl
      exact hfirst.light
  | some name =>
      exact hfirst.light.append ((lightBehind_point name).mono (hsecond.2 name rfl))

/-- The name behind AS. -/
theorem pays_asName : Pays 0 (do keyword "AS"; Parser.spaced anyIdentifier) Named := by
  intro s a r h
  obtain ⟨u, t, hk, hs⟩ := bind_inv h
  obtain ⟨v, hv, hends, rfl⟩ := keyword_inv hk
  obtain ⟨u', t', hg, hs⟩ := bind_inv hs
  obtain ⟨b, x, ha, hs⟩ := bind_inv hs
  obtain ⟨u'', r', hg', hs⟩ := bind_inv hs
  obtain ⟨rfl, rfl⟩ := pure_inv hs
  obtain rfl : t' = skip v := (gap_inv hg).trans (skip_skip v)
  obtain rfl : r' = skip x := gap_inv hg'
  obtain ⟨m, hm, hle⟩ := anyIdentifier_pays ha
  -- the text loses the weight of AS, which is that of a reserved word behind it as a name
  have halias : aliasWeight (skip s) = frontWeight (skip v) := aliasWeight_of_word hv hends
  have hword := weightBehind_word hv hends
  refine ⟨m, hm, ?_⟩
  have hbehind : weightBehind s = frontWeight (skip v) + weight (skip s) := by
    rw [← weightBehind_skip s, weightBehind, halias]
  rw [weightBehind_skip]
  omega

theorem digits_inv {s ds r : List Char} (h : digits s = .ok (ds, r)) :
    r = s.dropWhile Digits.isDigit := by
  rw [digits] at h
  split at h
  · cases h
  · rw [Except.ok.injEq] at h
    exact (congrArg Prod.snd h).symm

theorem passes_digits : Passes digits := .of_le fun s ds r h => by
  rw [digits_inv h, weightBehind_digits]

/-- A number that is read weighs nothing. -/
theorem pays_number : Pays 0 number fun n v =>
    Light n v.literal.toList ∧ Light n (negated v).literal.toList := by
  refine Pays.orElse ?_ ?_
  · have hdecimal : Passes decimal := by
      refine Pays.filterMap (Q := fun _ _ => True) ?_ fun _ _ _ _ _ => trivial
      exact .behind passes_digits fun _ => .behind (passes_char (by decide)) fun _ =>
        .behind passes_digits fun _ => .pure trivial
    exact hdecimal.map fun n d _ => ⟨(light_numeric d).mono (Nat.zero_le n),
      (light_numeric d.neg).mono (Nat.zero_le n)⟩
  · have hwhole : Passes wholeNumber := by
      refine Pays.filterMap (Q := fun _ _ => True) (Passes.of_le fun s ds r h => ?_)
        fun _ _ _ _ _ => trivial
      split at h
      · rename_i ds' r' hds
        split at h
        · cases h
        · cases h
          rw [digits_inv hds, weightBehind_digits]
      · cases h
    exact hwhole.map fun n i _ => ⟨(light_integer i).mono (Nat.zero_le n),
      (light_integer (-i)).mono (Nat.zero_le n)⟩

end Parser

end Rowtime.Sql
