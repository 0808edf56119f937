import Rowtime.Proofs.ReadQuery

/-!
# How texts end

Blanks and semicolons at the end of a statement are dropped before it is read. The
text of a legible query ends in a letter, a digit, a quote, a star or a
parenthesis, so nothing of it is lost.
-/
namespace Rowtime.Sql

open Text

namespace Parser

/-- The text ends in a character that no statement loses. -/
def Closes (x : List Char) : Prop := ∃ y c, x = y ++ [c] ∧ isBlank c = false ∧ c ≠ ';'

theorem Closes.append {y : List Char} (h : Closes y) (x : List Char) : Closes (x ++ y) := by
  obtain ⟨z, c, rfl, hc⟩ := h
  exact ⟨x ++ z, c, (List.append_assoc _ _ _).symm, hc⟩

theorem Closes.maybe {x y : List Char} (h : Closes x) (k : y = [] ∨ Closes y) : Closes (x ++ y) := by
  rcases k with rfl | k
  · rwa [List.append_nil]
  · exact k.append x

theorem closes_paren (x : List Char) : Closes (x ++ [')']) := ⟨x, ')', rfl, by decide, by decide⟩

/-- A text that begins with no blank and ends in none loses nothing by trimming. -/
theorem trim_eq_self {s : List Char} (hs : ∃ c r, s = c :: r ∧ isBlank c = false) (hc : Closes s) :
    trim s = s := by
  obtain ⟨y, c, hc, hb, -⟩ := hc
  have hleft : trimLeft isBlank s = s := by
    obtain ⟨k, r, rfl, hk⟩ := hs
    rw [trimLeft, List.dropWhile_cons, if_neg (by simp [hk])]
  rw [trim, hleft, hc, trimRight_eq_self_of_not hb]

/-- A text that begins with no blank and ends in no blank and no semicolon is left as it is. -/
theorem trim_closed {s : List Char} (hs : ∃ c r, s = c :: r ∧ isBlank c = false) (hc : Closes s) :
    trimRight (· == ';') (trim s) = s := by
  rw [trim_eq_self hs hc]
  obtain ⟨y, c, rfl, -, hne⟩ := hc
  exact trimRight_eq_self_of_not (by simpa using hne)

theorem isIdentChar_bounds {c : Char} (h : isIdentChar c = true) : 48 ≤ c.toNat ∧ c.toNat ≤ 122 ∧
    c.toNat ≠ 59 := by
  simp only [isIdentChar, isIdentStart, Bool.or_eq_true, Bool.and_eq_true, decide_eq_true_eq,
    beq_iff_eq] at h
  rcases h with ((⟨h1, h2⟩ | ⟨h1, h2⟩) | rfl) | ⟨h1, h2⟩
  · have h1' : 97 ≤ c.toNat := h1
    have h2' : c.toNat ≤ 122 := h2
    omega
  · have h1' : 65 ≤ c.toNat := h1
    have h2' : c.toNat ≤ 90 := h2
    omega
  · decide
  · have h1' : 48 ≤ c.toNat := h1
    have h2' : c.toNat ≤ 57 := h2
    omega

theorem closes_word {w : List Char} (hne : w ≠ []) (h : w.all isIdentChar = true) : Closes w := by
  have hlast : isIdentChar (w.getLast hne) = true := List.all_eq_true.mp h _ (List.getLast_mem hne)
  refine ⟨w.dropLast, w.getLast hne, (List.dropLast_append_getLast hne).symm, ?_, ?_⟩
  · have hb := isIdentChar_bounds hlast
    simp only [isBlank, Bool.or_eq_false_iff, Bool.and_eq_false_iff, decide_eq_false_iff_not,
      beq_eq_false_iff_ne]
    omega
  · intro hc
    rw [hc] at hlast
    revert hlast
    decide

theorem closes_name (name : String) : Closes (nameChars name) := by
  rcases nameChars_cases name with ⟨c, r, hn, -, hc, hr, -⟩ | hn
  · rw [hn]
    refine closes_word (List.cons_ne_nil c r) ?_
    rw [List.all_cons, (isIdentStart_spec hc).1, hr]
    rfl
  · rw [hn, Doubled.quoted, String.toList_ofList]
    exact ⟨_, '"', (List.cons_append (a := '"')).symm, by decide, by decide⟩

theorem closes_digits {ds : List Char} (hne : ds ≠ []) (h : ds.all Digits.isDigit = true) :
    Closes ds := by
  refine closes_word hne (List.all_eq_true.mpr fun c hc => ?_)
  exact (isDigit_spec (List.all_eq_true.mp h c hc)).1

theorem closes_ofNat (n : Nat) : Closes (Digits.ofNat n) := by
  refine closes_digits ?_ (Digits.ofNat_all n)
  obtain ⟨c, r, hn, -⟩ := Digits.ofNat_cons n
  rw [hn]
  exact List.cons_ne_nil c r

theorem closes_commaList {xs : List (List Char)} (hne : xs ≠ []) (h : ∀ x ∈ xs, Closes x) :
    Closes (commaList xs) := by
  induction xs with
  | nil => exact absurd rfl hne
  | cons x xs ih =>
      cases xs with
      | nil => exact h x (by simp)
      | cons y ys =>
          exact (ih (List.cons_ne_nil y ys) fun z hz => h z (List.mem_cons_of_mem _ hz)).append _

theorem closes_literal {v : Value} (h : LegibleLiteral v) : Closes v.literal.toList := by
  cases v with
  | null => exact closes_word (by decide) (by decide)
  | boolean b => cases b <;> exact closes_word (by decide) (by decide)
  | text t =>
      change Closes (Doubled.quoted '\'' t).toList
      rw [Doubled.quoted, String.toList_ofList]
      exact ⟨_, '\'', (List.cons_append (a := '\'')).symm, by decide, by decide⟩
  | integer i =>
      rw [literal_integer, Digits.ofInt]
      split
      · exact (closes_ofNat _).append ['-']
      · exact closes_ofNat _
  | numeric d =>
      rw [literal_numeric]
      refine Closes.append (Closes.append (Closes.append ?_ ['.']) _) _
      split
      · exact closes_word (by decide) (by decide)
      · rename_i hz
        refine closes_digits (fun hnil => hz ?_) (Digits.lastDigits_all _ _)
        have hlen := Digits.lastDigits_length d.scale d.coeff
        rw [hnil] at hlen
        simp [← hlen]
  | _ => exact absurd h (by simp [LegibleLiteral])

theorem closes_grouped {x : List Char} (h : Closes x) (g : Bool) : Closes (grouped g x) := by
  cases g with
  | false => exact h
  | true => exact closes_paren ('(' :: x)

theorem closes_expr (e : Expr) : e.Legible → Closes e.chars := by
  induction e using Expr.induct with
  | column c =>
      intro _
      obtain ⟨qualifier, name⟩ := c
      cases qualifier with
      | none => exact closes_name name
      | some q => exact ((closes_name name).append ['.']).append _
  | literal v => exact closes_literal
  | unary op e ih =>
      intro h
      cases op with
      | not => exact (closes_grouped (ih h) _).append _
      | minus => exact (closes_grouped (ih h) _).append ['-']
  | binary op l r _ ihr =>
      exact fun h => ((((closes_grouped (ihr h.2) _).append [' ']).append _).append [' ']).append _
  | isNull n e _ => exact fun _ => (closes_word (by decide) (by decide)).append _
  | between n e l h _ _ ihh =>
      exact fun hl => (((closes_grouped (ihh hl.2.2) _).append _).append [' ']).append _
  | inList n e items _ _ => exact fun _ => ((closes_paren _).append [' ']).append _
  | like n e p _ ihp => exact fun h => (((closes_grouped (ihp h.2) _).append _).append [' ']).append _
  | call name args _ => exact fun _ => ((closes_paren _).append ['(']).append _
  | aggregate f d e _ => exact fun _ => ((closes_paren _).append ['(']).append _
  | aggregateAll f d => exact fun _ => Closes.append ⟨['(', '*'], ')', rfl, by decide, by decide⟩ _

theorem closes_alias {x : List Char} (h : Closes x) (a : Option String) : Closes (x ++ aliasChars a) := by
  cases a with
  | none => rwa [aliasChars, List.append_nil]
  | some a => exact ((closes_name a).append _).append _

theorem closes_selectItem {x : SelectItem} (h : x.Legible) : Closes x.chars := by
  cases x with
  | all => exact ⟨[], '*', rfl, by decide, by decide⟩
  | allOf q => exact Closes.append ⟨['.'], '*', rfl, by decide, by decide⟩ _
  | expr e n => exact closes_alias (closes_expr e h) n

theorem closes_condition (word : String) {o : Option Expr} (h : ∀ e ∈ o, e.Legible) :
    conditionChars word o = [] ∨ Closes (conditionChars word o) := by
  cases o with
  | none => exact Or.inl rfl
  | some e => exact Or.inr ((closes_expr e (h e rfl)).append _)

theorem closes_tail {t : Tail} (h : t.Legible) : t.chars = [] ∨ Closes t.chars := by
  have hcount : ∀ (word : String) (o : Option UInt64),
      countChars word o = [] ∨ Closes (countChars word o) := by
    intro word o
    cases o with
    | none => exact Or.inl rfl
    | some n => exact Or.inr ((closes_ofNat _).append _)
  have hkey : ∀ k : SortKey, k.expr.Legible → Closes k.chars := by
    intro k hk
    unfold SortKey.chars
    split
    · exact closes_expr _ hk
    · exact Closes.append ⟨" DES".toList, 'C', rfl, by decide, by decide⟩ _
  have horder : orderChars t.orderBy = [] ∨ Closes (orderChars t.orderBy) := by
    unfold orderChars
    cases ht : t.orderBy with
    | nil => exact Or.inl rfl
    | cons k ks =>
        refine Or.inr (Closes.append (closes_commaList (by simp) fun x hx => ?_) _)
        obtain ⟨y, hy, rfl⟩ := List.mem_map.mp hx
        exact hkey y (h y (by rw [ht]; exact hy))
  rw [tailChars_eq]
  have hcounts : countChars " LIMIT " t.limit ++ countChars " OFFSET " t.offset = [] ∨
      Closes (countChars " LIMIT " t.limit ++ countChars " OFFSET " t.offset) := by
    rcases hcount " LIMIT " t.limit with hl | hl
    · rw [hl]
      exact hcount " OFFSET " t.offset
    · exact Or.inr (hl.maybe (hcount " OFFSET " t.offset))
  rcases horder with ho | ho
  · rw [ho]
    exact hcounts
  · exact Or.inr (ho.maybe hcounts)

/-- The text of a source item ends so. -/
theorem closes_from (x : FromItem) : x.Legible → Closes x.chars := by
  have h : (∀ q : Query, True) ∧ ∀ x : FromItem, x.Legible → Closes x.chars := by
    refine Query.induct (fun _ _ _ _ => trivial) (fun _ _ _ _ _ _ => trivial) (fun _ _ => trivial)
      ?_ ?_ ?_ ?_
    · intro name a _
      rw [FromItem.chars]
      exact closes_alias (closes_name name) a
    · intro q a _ _
      have htext : (FromItem.subquery q a).chars = ('(' :: q.chars ++ [')']) ++ aliasChars a := by
        simp [FromItem.chars]
      rw [htext]
      exact closes_alias (closes_paren _) a
    · intro xs _ _
      rw [FromItem.chars]
      exact closes_paren ('(' :: _)
    · intro k l r on _ hr hl
      rw [FromItem.chars]
      exact ((closes_grouped (hr hl.2.1.1) _).append _).maybe (closes_condition _ hl.2.2.2)
  exact h.2 x

/-- The text of a SELECT without closing clauses ends so. -/
theorem closes_select {xs : List FromItem} {c : Clauses} (hx : ∀ x ∈ xs, x.Legible) (hc : c.Legible) :
    Closes (c.headChars ++ sourceChars xs ++ c.restChars) := by
  have hhead : Closes c.headChars := by
    refine Closes.append (closes_commaList (by simpa using hc.items) fun x h => ?_) _
    obtain ⟨y, hy, rfl⟩ := List.mem_map.mp h
    exact closes_selectItem (hc.projection y hy)
  have hsource : sourceChars xs = [] ∨ Closes (sourceChars xs) := by
    cases xs with
    | nil => exact Or.inl rfl
    | cons x xs =>
        refine Or.inr (Closes.append (closes_commaList (by simp) fun y h => ?_) _)
        obtain ⟨z, hz, rfl⟩ := List.mem_map.mp h
        exact closes_from z (hx z hz)
  have hgroup : groupChars c.groupBy = [] ∨ Closes (groupChars c.groupBy) := by
    unfold groupChars
    cases hg : c.groupBy with
    | nil => exact Or.inl rfl
    | cons e es =>
        refine Or.inr (Closes.append (closes_commaList (by simp) fun y h => ?_) _)
        obtain ⟨z, hz, rfl⟩ := List.mem_map.mp h
        exact closes_expr z (hc.groupBy z (by rw [hg]; exact hz))
  rw [restChars_eq]
  have hstart := (hhead.maybe hsource).maybe (closes_condition " WHERE " hc.condition)
  have := (hstart.maybe hgroup).maybe (closes_condition " HAVING " hc.having)
  simpa only [List.append_assoc] using this

end Parser

end Rowtime.Sql
