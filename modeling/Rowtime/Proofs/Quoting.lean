import Rowtime.Proofs.Scanning
import Rowtime.Value.Literal

/-!
# Written forms are read back

A name is written bare or between double quotes, a text between single quotes. Both readers of names
give the name back from its written form and stop at its end, whatever the name holds, as long as
the text behind it can not be taken for a continuation: an identifier character would continue a
bare word, a double quote a quoted one. A text is given back from its literal in the same way.

The bare form is chosen for no more and no fewer names than it can serve: those that are read as
names from their own text.
-/
namespace Rowtime.Sql.Parser

open Text

/-! ## Bare names -/

/-- The content of a quoted text and what follows are shorter than the text behind its opening
quote. -/
theorem scan_length {q : Char} {s x rest : List Char} (h : Doubled.scan q s = some (x, rest)) :
    x.length + rest.length < s.length := by
  fun_induction Doubled.scan q s generalizing x with
  | case1 => cases h
  | case2 c =>
      cases h
      simp
  | case3 => cases h
  | case4 c d r _ _ ih =>
      obtain ⟨⟨y, more⟩, hy, hx⟩ := Option.map_eq_some_iff.mp h
      cases hx
      have hlt : y.length + more.length < r.length := ih hy
      simp only [List.length_cons]
      omega
  | case5 c d r =>
      cases h
      simp
  | case6 c d r _ ih =>
      obtain ⟨⟨y, more⟩, hy, hx⟩ := Option.map_eq_some_iff.mp h
      cases hx
      have hlt : y.length + more.length < (d :: r).length := ih hy
      simp only [List.length_cons] at hlt ⊢
      omega

/-- What is read between quotes is not the whole text, since the quotes are no part of it. -/
theorem quotedText_ne_self (q : Char) (name : String) (rest : List Char) :
    quotedText q name.toList ≠ .ok (name, rest) := by
  intro h
  unfold quotedText at h
  split at h
  · rename_i c r hname
    split at h
    · split at h
      · rename_i x more hscan
        have hshort := scan_length hscan
        have hx : x = c :: r := by
          rw [← hname, ← (Prod.mk.inj (Except.ok.inj h)).1, String.toList_ofList]
        rw [hx, List.length_cons] at hshort
        omega
      · cases h
    · cases h
  · cases h

/-- A name that a bare word begins with and nothing follows is made of identifier characters. -/
theorem bareWord_self {name : String} (h : bareWord name.toList = .ok (name, [])) :
    ∃ c r, name.toList = c :: r ∧ isIdentStart c = true ∧ r.all isIdentChar = true := by
  unfold bareWord at h
  split at h
  · rename_i c r hname
    split at h
    · rename_i hc
      have hrest : r.dropWhile isIdentChar = [] := (Prod.mk.inj (Except.ok.inj h)).2
      refine ⟨c, r, hname, hc, ?_⟩
      rw [List.all_eq_true]
      exact List.dropWhile_eq_nil_iff.mp hrest
    · cases h
  · cases h

/-- A name is written bare exactly if it is read as a name from its own text. -/
theorem isPlainName_iff (name : String) :
    isPlainName name = true ↔ identifier name.toList = .ok (name, []) := by
  constructor
  · intro h
    have hchars : nameChars name = name.toList := by rw [nameChars, nameText, if_pos h]
    have hread := identifier_ok name (show nameEnds [] = true from rfl)
    rwa [List.append_nil, hchars] at hread
  · intro h
    unfold identifier orElse at h
    split at h
    · rename_i x hquoted
      rw [Except.ok.inj h] at hquoted
      exact absurd hquoted (quotedText_ne_self '"' name [])
    · unfold filterMap at h
      split at h
      · cases h
      · rename_i w r hword
        split at h
        · rename_i u hu
          obtain ⟨hres, hwu⟩ := Option.ite_none_left_eq_some.mp hu
          obtain ⟨rfl, rfl⟩ := Prod.mk.inj (Except.ok.inj h)
          obtain rfl := Option.some.inj hwu
          obtain ⟨c, r, hname, hc, hr⟩ := bareWord_self hword
          unfold isPlainName
          rw [hname]
          simp [hc, hr, hres]
        · cases h

/-! ## Names and texts -/

/-- Every name is given back from its written form by both readers of names, and every text from
its literal, with what follows left as it is. -/
theorem written_read_back (s : String) :
    (∀ rest : List Char, (∀ c ∈ rest.head?, isIdentChar c = false ∧ c ≠ '"') →
        identifier (nameChars s ++ rest) = .ok (s, rest) ∧
        anyIdentifier (nameChars s ++ rest) = .ok (s, rest)) ∧
      ∀ rest : List Char, (∀ c ∈ rest.head?, c ≠ '\'') →
        stringLiteral ((Value.text s).literal.toList ++ rest) = .ok (s, rest) := by
  constructor
  · intro rest h
    have hends : nameEnds rest = true := by
      cases rest with
      | nil => rfl
      | cons c r =>
          obtain ⟨hc, hq⟩ := h c rfl
          simp [nameEnds, identFollows, hc, hq]
    exact ⟨identifier_ok s hends, anyIdentifier_ok s hends⟩
  · intro rest h
    exact quotedText_ok '\'' s fun hq => h '\'' hq rfl

/-- A reserved word, a name that ends with a quote and a line break, and a text that is a quote,
each in front of more. -/
theorem written_read_back_quotes :
    identifier "\"Order\" DESC".toList = .ok ("Order", " DESC".toList) ∧
      anyIdentifier "\"a\"\"\n\".b".toList = .ok ("a\"\n", ".b".toList) ∧
      stringLiteral "'''', 1".toList = .ok ("'", ", 1".toList) := by
  have hword : nameChars "Order" ++ " DESC".toList = "\"Order\" DESC".toList := by decide +kernel
  have hname : nameChars "a\"\n" ++ ".b".toList = "\"a\"\"\n\".b".toList := by decide +kernel
  have htext : (Value.text "'").literal.toList ++ ", 1".toList = "'''', 1".toList := by
    decide +kernel
  rw [← hword, ← hname, ← htext]
  refine ⟨((written_read_back "Order").1 _ ?_).1, ((written_read_back "a\"\n").1 _ ?_).2,
    (written_read_back "'").2 _ ?_⟩
  · intro c hc
    obtain rfl : ' ' = c := Option.some.inj hc
    decide
  · intro c hc
    obtain rfl : '.' = c := Option.some.inj hc
    decide
  · intro c hc
    obtain rfl : ',' = c := Option.some.inj hc
    decide

end Rowtime.Sql.Parser
