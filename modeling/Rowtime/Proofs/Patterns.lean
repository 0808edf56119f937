import Mathlib.Data.List.Forall2
import Rowtime.Relation.Pattern

/-!
# The texts of a pattern

A text has the form of a pattern exactly if it can be cut into consecutive pieces, one for each
character of the pattern, each of which the character admits. The decision can also be made by
going through the pattern and the text with two positions, where a percent sign first takes no
character and then one more while the position in the pattern stays. Every step moves one of the
positions on, so this comes to an end, and from every pair of positions it comes to the same answer.
-/
namespace Rowtime.Pattern

/-! ## The decision -/

theorem anyRemainder_iff {p : List Char → Bool} {t : List Char} :
    anyRemainder p t = true ↔ ∃ piece rest, piece ++ rest = t ∧ p rest = true := by
  induction t with
  | nil => simp [anyRemainder]
  | cons c t ih =>
      rw [anyRemainder, Bool.or_eq_true, ih]
      constructor
      · rintro (h | ⟨piece, rest, rfl, h⟩)
        · exact ⟨[], c :: t, rfl, h⟩
        · exact ⟨c :: piece, rest, rfl, h⟩
      · rintro ⟨_ | ⟨d, piece⟩, rest, ht, h⟩
        · rw [List.nil_append] at ht
          exact .inl (ht ▸ h)
        · obtain ⟨rfl, rfl⟩ := List.cons.inj ht
          exact .inr ⟨piece, rest, rfl, h⟩

/-- A percent sign takes any piece of the text. -/
theorem matchesPattern_percent (ps t : List Char) :
    matchesPattern ('%' :: ps) t = anyRemainder (matchesPattern ps) t := by
  cases t <;> rfl

/-- A character other than a percent sign takes one character. -/
theorem matchesPattern_cons {p : Char} (hp : p ≠ '%') (ps : List Char) (c : Char) (t : List Char) :
    matchesPattern (p :: ps) (c :: t) = ((p == '_' || c == p) && matchesPattern ps t) := by
  rw [matchesPattern, if_neg (by simpa using hp)]

theorem matchesPattern_cons_nil {p : Char} (hp : p ≠ '%') (ps : List Char) :
    matchesPattern (p :: ps) [] = false := by
  rw [matchesPattern, if_neg (by simpa using hp)]

/-- The texts of a pattern are those for which the decision is positive. -/
theorem matchesPattern_iff_fits {ps t : List Char} : matchesPattern ps t = true ↔ Fits ps t := by
  induction ps generalizing t with
  | nil =>
      have hempty : matchesPattern [] t = t.isEmpty := by cases t <;> rfl
      rw [hempty, List.isEmpty_iff]
      constructor
      · rintro rfl
        exact .nil
      · intro h
        cases h
        rfl
  | cons p ps ih =>
      by_cases hp : p = '%'
      · subst hp
        rw [matchesPattern_percent, anyRemainder_iff]
        constructor
        · rintro ⟨piece, rest, rfl, h⟩
          exact .percent piece (ih.mp h)
        · intro h
          cases h with
          | percent piece h => exact ⟨piece, _, rfl, ih.mpr h⟩
          | itself _ hp => exact absurd rfl hp
      · cases t with
        | nil =>
            rw [matchesPattern_cons_nil hp]
            constructor
            · intro h
              cases h
            · generalize ht : ([] : List Char) = t
              intro h
              cases h with
              | percent => exact absurd rfl hp
              | underscore | itself => cases ht
        | cons c t =>
            rw [matchesPattern_cons hp, Bool.and_eq_true, Bool.or_eq_true, beq_iff_eq, beq_iff_eq,
              ih]
            constructor
            · rintro ⟨rfl | rfl, h⟩
              · exact .underscore c h
              · by_cases hu : c = '_'
                · rw [hu]
                  exact .underscore '_' h
                · exact .itself c hp hu h
            · generalize ht : c :: t = s
              intro h
              cases h with
              | percent => exact absurd rfl hp
              | underscore d h =>
                  obtain ⟨-, rfl⟩ := List.cons.inj ht
                  exact ⟨.inl rfl, h⟩
              | itself _ _ hu h =>
                  obtain ⟨rfl, rfl⟩ := List.cons.inj ht
                  exact ⟨.inr rfl, h⟩

/-! ## Pieces -/

/-- The pieces of text that a character of a pattern stands for: any piece, a piece of one
character, or the character itself. -/
def Admits (p : Char) (piece : List Char) : Prop :=
  if p = '%' then True else if p = '_' then piece.length = 1 else piece = [p]

theorem admits_percent (piece : List Char) : Admits '%' piece := by
  rw [Admits, if_pos rfl]
  trivial

theorem admits_underscore {piece : List Char} : Admits '_' piece ↔ ∃ c, piece = [c] := by
  rw [Admits, if_neg (by decide), if_pos rfl, List.length_eq_one_iff]

theorem admits_itself {p : Char} (hp : p ≠ '%') (hu : p ≠ '_') {piece : List Char} :
    Admits p piece ↔ piece = [p] := by
  rw [Admits, if_neg hp, if_neg hu]

/-- A text of a pattern is cut into one admitted piece for each character of the pattern. -/
theorem fits_iff_pieces {ps t : List Char} :
    Fits ps t ↔ ∃ pieces, List.Forall₂ Admits ps pieces ∧ pieces.flatten = t := by
  constructor
  · intro h
    induction h with
    | nil => exact ⟨[], .nil, rfl⟩
    | percent piece _ ih =>
        obtain ⟨pieces, hpieces, rfl⟩ := ih
        exact ⟨piece :: pieces, .cons (admits_percent piece) hpieces, rfl⟩
    | underscore c _ ih =>
        obtain ⟨pieces, hpieces, rfl⟩ := ih
        exact ⟨[c] :: pieces, .cons (admits_underscore.mpr ⟨c, rfl⟩) hpieces, rfl⟩
    | itself c hp hu _ ih =>
        obtain ⟨pieces, hpieces, rfl⟩ := ih
        exact ⟨[c] :: pieces, .cons ((admits_itself hp hu).mpr rfl) hpieces, rfl⟩
  · rintro ⟨pieces, hpieces, rfl⟩
    induction hpieces with
    | nil => exact .nil
    | @cons p piece ps pieces hpiece _ ih =>
        rw [List.flatten_cons]
        by_cases hp : p = '%'
        · rw [hp]
          exact .percent piece ih
        · by_cases hu : p = '_'
          · subst hu
            obtain ⟨c, rfl⟩ := admits_underscore.mp hpiece
            exact .underscore c ih
          · rw [(admits_itself hp hu).mp hpiece]
            exact .itself p hp hu ih

/-! ## Two positions -/

/-- The decision from a position of the pattern and one of the text. A percent sign takes no
character, or one more and stays. -/
def matchesAt (pattern text : List Char) (i j : Nat) : Bool :=
  if hi : i < pattern.length then
    if pattern[i] == '%' then
      matchesAt pattern text (i + 1) j ||
        (if hj : j < text.length then matchesAt pattern text i (j + 1) else false)
    else if hj : j < text.length then
      (pattern[i] == '_' || text[j] == pattern[i]) && matchesAt pattern text (i + 1) (j + 1)
    else false
  else decide (text.length ≤ j)
termination_by (pattern.length - i) + (text.length - j)

theorem matchesPattern_percent_nil (ps : List Char) :
    matchesPattern ('%' :: ps) [] = matchesPattern ps [] := rfl

theorem matchesPattern_percent_cons (ps : List Char) (c : Char) (t : List Char) :
    matchesPattern ('%' :: ps) (c :: t) =
      (matchesPattern ps (c :: t) || matchesPattern ('%' :: ps) t) := rfl

/-- From every pair of positions the decision is that about the remainders. -/
theorem matchesAt_eq (pattern text : List Char) (i j : Nat) :
    matchesAt pattern text i j = matchesPattern (pattern.drop i) (text.drop j) := by
  fun_induction matchesAt pattern text i j with
  | case1 i j hi hp ihNone ihMore =>
      rw [beq_iff_eq] at hp
      rw [List.drop_eq_getElem_cons hi, hp]
      split
      · rename_i hj
        rw [ihNone, ihMore hj, List.drop_eq_getElem_cons hj, matchesPattern_percent_cons,
          List.drop_eq_getElem_cons hi, hp]
      · rename_i hj
        rw [ihNone, List.drop_eq_nil_of_le (Nat.not_lt.mp hj), Bool.or_false,
          matchesPattern_percent_nil]
  | case2 i j hi hp hj ih =>
      rw [List.drop_eq_getElem_cons hi, List.drop_eq_getElem_cons hj,
        matchesPattern_cons (by simpa using hp), ih]
  | case3 i j hi hp hj =>
      rw [List.drop_eq_getElem_cons hi, List.drop_eq_nil_of_le (Nat.not_lt.mp hj),
        matchesPattern_cons_nil (by simpa using hp)]
  | case4 i j hi =>
      rw [List.drop_eq_nil_of_le (Nat.not_lt.mp hi)]
      change _ = (text.drop j).isEmpty
      rw [Bool.eq_iff_iff, decide_eq_true_eq, List.isEmpty_iff, List.drop_eq_nil_iff]

/-- The decision is positive exactly for the texts that can be cut into consecutive pieces, one for
each character of the pattern: any piece for a percent sign, a piece of one character for an
underscore, the character itself for any other. Going through pattern and text with two positions
decides the same from wherever it starts. -/
theorem matches_exactly (pattern text : List Char) :
    (matchesPattern pattern text = true ↔
        ∃ pieces, List.Forall₂ Admits pattern pieces ∧ pieces.flatten = text) ∧
      ∀ i j, matchesAt pattern text i j = matchesPattern (pattern.drop i) (text.drop j) :=
  ⟨matchesPattern_iff_fits.trans fits_iff_pieces, matchesAt_eq pattern text⟩

/-- Percent signs in a row, at the end and behind the end of the text. -/
example : matchesPattern "%a%%_%%".toList "baab".toList = true ∧
    matchesPattern "%a_%".toList "ba".toList = false := by decide

end Rowtime.Pattern
