import Rowtime.Proofs.ReadQuery
import Rowtime.Sql.Parser.Statement

/-!
# Reading declared columns back

A literal in a row or behind DEFAULT, a column type and a declared column are read
from their text. A type is read by the form whose word it begins with. Of a
declared column, what is read has the marks that PRIMARY KEY brings with it
(`ColumnDef.reread`): a key column is unique and takes no NULL, whatever else was
said of it.
-/
namespace Rowtime.Sql

open Text

namespace Parser

/-! ## Words -/

theorem dropWord?_of_same {v w : List Char} (h : v.map asciiLower = w.map asciiLower)
    (r : List Char) : dropWord? v (w ++ r) = some r := by
  induction v generalizing w with
  | nil =>
      have hw : w = [] := List.map_eq_nil_iff.mp h.symm
      rw [hw]
      rfl
  | cons k v ih =>
      cases w with
      | nil => cases h
      | cons c w =>
          rw [List.map_cons, List.map_cons, List.cons.injEq] at h
          rw [List.cons_append, dropWord?, if_pos (beq_iff_eq.mpr h.1)]
          exact ih h.2

/-- Where a name stands, a keyword is refused or it is the whole name. -/
theorem keyword_name {v : String} (hv : v.toList.all isIdentChar = true) (hne : v.toList ≠ [])
    (name : String) {rest : List Char} (h : nameEnds rest = true) :
    Refuses (keyword v) (nameChars name ++ rest) ∨
      keyword v (nameChars name ++ rest) = .ok ((), skip rest) := by
  obtain ⟨hi, -⟩ := nameEnds_spec h
  rcases nameChars_cases name with ⟨c, r, hn, -, hc, hr, -⟩ | hn
  · obtain ⟨hchar, hgap, -⟩ := isIdentStart_spec hc
    have hsolid : Solid (c :: r) := ⟨c, r, rfl, hgap⟩
    have hall : (c :: r).all isIdentChar = true := by
      rw [List.all_cons, hchar, hr]
      rfl
    rw [hn]
    by_cases hsame : v.toList.map asciiLower = (c :: r).map asciiLower
    · right
      refine keyword_ok ?_ hi
      rw [hsolid.skip]
      exact dropWord?_of_same hsame rest
    · exact Or.inl (keyword_refuses (wordNext_of_word hv hall hsolid hi hsame))
  · left
    rw [hn, Doubled.quoted, String.toList_ofList, List.cons_append]
    exact keyword_refuses (wordNext_of_head hne hv (by decide) (by decide))

/-! ## Literals -/

theorem literal_solid {v : Value} (h : LegibleLiteral v) : Solid v.literal.toList := by
  have hs := (opens_literal h [] rfl).solid
  rwa [List.append_nil] at hs

/-- Where no word for a literal stands, the other forms are tried. -/
theorem literal_wordless {s r : List Char} {v : Value} (hs : Solid s) (hw : Wordless s)
    (h : oneOf [do return Value.text (← stringLiteral),
      do char '-'; return negated (← number), number] s = .ok (v, r)) :
    literal s = .ok (v, skip r) := by
  have hskip : skip s = s := by simpa using hs.skip []
  apply spaced_ok
  rw [hskip]
  exact (oneOf_refuses (bind_refuses (keyword_refuses hw.1))).trans
    ((oneOf_refuses (bind_refuses (keyword_refuses hw.2.1))).trans
      ((oneOf_refuses (bind_refuses (keyword_refuses hw.2.2))).trans h))

/-- A literal is read from its text. -/
theorem literal_ok {v : Value} (h : LegibleLiteral v) {rest : List Char}
    (hr : touches rest = false) : literal (v.literal.toList ++ rest) = .ok (v, skip rest) := by
  obtain ⟨hi, -, hq, -⟩ := touches_spec hr
  have hnumber := numberEnds_of_touches hr
  have hsolid := (literal_solid h).append rest
  have hskip : skip (v.literal.toList ++ rest) = v.literal.toList ++ rest :=
    (literal_solid h).skip rest
  rcases legibleLiteral_cases h with rfl | ⟨b, rfl⟩ | ⟨t, rfl⟩ | hu | ⟨w, hw, hu, rfl, htext⟩
  · have hword : keyword "NULL" ("NULL".toList ++ rest) = .ok ((), skip rest) := keyword_at rfl hi
    rw [← skip_skip rest]
    apply spaced_ok
    rw [hskip]
    exact oneOf_ok ((bind_ok hword).trans rfl)
  · rw [← skip_skip rest]
    apply spaced_ok
    rw [hskip]
    cases b with
    | true =>
        have hword : keyword "TRUE" ("TRUE".toList ++ rest) = .ok ((), skip rest) := keyword_at rfl hi
        exact (oneOf_refuses (bind_refuses (keyword_refuses rfl))).trans
          (oneOf_ok ((bind_ok hword).trans rfl))
    | false =>
        have hword : keyword "FALSE" ("FALSE".toList ++ rest) = .ok ((), skip rest) :=
          keyword_at rfl hi
        exact (oneOf_refuses (bind_refuses (keyword_refuses rfl))).trans
          ((oneOf_refuses (bind_refuses (keyword_refuses rfl))).trans
            (oneOf_ok ((bind_ok hword).trans rfl)))
  · have hread : stringLiteral ((Doubled.quoted '\'' t).toList ++ rest) = .ok (t, rest) :=
      quotedText_ok '\'' t hq
    have hwords : Wordless ((Doubled.quoted '\'' t).toList ++ rest) := by
      rw [Doubled.quoted, String.toList_ofList]
      exact .of_head (by decide) (by decide)
    exact literal_wordless hsolid hwords (oneOf_ok ((bind_ok hread).trans rfl))
  · obtain ⟨c, r, hc, hd⟩ := literal_digit hu
    obtain ⟨-, -, -, hm, -, hquote, -⟩ := isDigit_spec hd
    have hread := number_literal h hu hnumber
    rw [hc] at hsolid hread ⊢
    have hwords : Wordless (c :: r ++ rest) :=
      ⟨wordNext_of_digit rfl (by decide) hd, wordNext_of_digit rfl (by decide) hd,
        wordNext_of_digit rfl (by decide) hd⟩
    have hminus : Refuses (char '-') (c :: r ++ rest) :=
      ⟨_, by rw [List.cons_append, char, if_neg (by simpa using hm)]⟩
    exact literal_wordless hsolid hwords
      ((oneOf_refuses (bind_refuses (quotedText_refuses hquote))).trans
        ((oneOf_refuses (bind_refuses hminus)).trans hread))
  · rw [htext] at hsolid ⊢
    have hwords : Wordless ('-' :: (w.literal.toList ++ rest)) := .of_head (by decide) (by decide)
    have hread := number_literal hw hu hnumber
    have hminus : char '-' ('-' :: (w.literal.toList ++ rest)) = .ok ((), w.literal.toList ++ rest) :=
      rfl
    exact literal_wordless hsolid hwords
      ((oneOf_refuses (bind_refuses (quotedText_refuses (by decide)))).trans
        (oneOf_ok ((bind_ok hminus).trans ((bind_ok hread).trans rfl))))

/-! ## Types -/

theorem typeWord_ok {w : String} (t : SqlType) {s rest : List Char} (hs : skip s = w.toList ++ rest)
    (hr : identFollows rest = false) : typeWord w t s = .ok (t, skip rest) :=
  (bind_ok (keyword_at hs hr)).trans rfl

theorem keyword_paren {w : String} (hs : Solid w.toList) (r : List Char) :
    keyword w (w.toList ++ '(' :: r) = .ok ((), '(' :: r) := by
  have h := keyword_at (hs.skip ('(' :: r)) rfl
  rwa [skip_cons (by decide)] at h

/-- The forms of a type in the order in which they are tried, with the words each may begin with. -/
def typeForms : List (List String × Parser SqlType) :=
  [(["NUMERIC", "DECIMAL"], numericType),
   (["SMALLINT"], typeWord "SMALLINT" .smallInt),
   (["BIGINT"], typeWord "BIGINT" .bigInt),
   (["INTEGER"], typeWord "INTEGER" .integer),
   (["INT"], typeWord "INT" .integer),
   (["DOUBLE"], do keyword "DOUBLE"; keyword "PRECISION"; return .real),
   (["REAL"], typeWord "REAL" .real),
   (["FLOAT"], typeWord "FLOAT" .real),
   (["DOUBLE"], typeWord "DOUBLE" .real),
   (["VARCHAR"], do keyword "VARCHAR"; let n ← optional length; return .varchar (n.getD 255)),
   (["CHAR"], do keyword "CHAR"; let n ← optional length; return .char (n.getD 1)),
   (["TEXT"], typeWord "TEXT" .text),
   (["BOOLEAN"], typeWord "BOOLEAN" .boolean),
   (["BOOL"], typeWord "BOOL" .boolean),
   (["TIMESTAMPTZ"], typeWord "TIMESTAMPTZ" .timestampTz),
   (["TIMESTAMP"], typeWord "TIMESTAMP" .timestamp),
   (["DATETIME"], typeWord "DATETIME" .timestamp),
   (["DATE"], typeWord "DATE" .date),
   (["UUID"], typeWord "UUID" .uuid),
   (["JSONB"], typeWord "JSONB" .json),
   (["JSON"], typeWord "JSON" .json),
   (["BYTEA"], typeWord "BYTEA" .bytea),
   (["BLOB"], typeWord "BLOB" .bytea)]

theorem sqlType_eq : sqlType = oneOf (typeForms.map (·.2)) := rfl

theorem numericType_refuses {s : List Char} (hn : wordNext "NUMERIC" s = false)
    (hd : wordNext "DECIMAL" s = false) : Refuses numericType s := by
  obtain ⟨e, he⟩ := keyword_refuses hd
  exact bind_refuses ⟨e, by rw [orElse_refuses (keyword_refuses hn), he]⟩

/-- A form is refused where none of its words comes next. -/
theorem typeForms_refuse {s : List Char} :
    ∀ f ∈ typeForms, (∀ v ∈ f.1, wordNext v s = false) → Refuses f.2 s := by
  simp only [typeForms, typeWord, List.forall_mem_cons, List.not_mem_nil, false_implies,
    implies_true, and_true]
  refine ⟨fun h => numericType_refuses h.1 h.2, ?_⟩
  and_intros
  all_goals exact fun h => bind_refuses (keyword_refuses h)

/-- Whether a word is none that one of the first so many forms may begin with. -/
def leads (n : Nat) (w : String) : Bool :=
  w.toList.head?.any isIdentStart && w.toList.all isIdentChar &&
    (typeForms.take n).all fun f => f.1.all fun v =>
      v.toList.all isIdentChar && v.toList.map asciiLower != w.toList.map asciiLower

theorem leads_spec {n : Nat} {w : String} (h : leads n w = true) :
    Solid w.toList ∧ ∀ rest, identFollows rest = false →
      ∀ f ∈ typeForms.take n, ∀ v ∈ f.1, wordNext v (w.toList ++ rest) = false := by
  simp only [leads, Bool.and_eq_true, List.all_eq_true, bne_iff_ne] at h
  obtain ⟨⟨hstart, hall⟩, hother⟩ := h
  have hsolid : Solid w.toList := by
    cases hw : w.toList with
    | nil =>
        rw [hw] at hstart
        cases hstart
    | cons c r =>
        rw [hw] at hstart
        exact ⟨c, r, rfl, (isIdentStart_spec hstart).2.1⟩
  refine ⟨hsolid, fun rest hr f hf v hv => ?_⟩
  obtain ⟨hchars, hne⟩ := hother f hf v hv
  exact wordNext_of_word (List.all_eq_true.mpr hchars) (List.all_eq_true.mpr hall) hsolid hr hne

/-- A type is read by the first form that begins with its word. -/
theorem sqlType_at (n : Nat) {f : List String × Parser SqlType}
    (hform : typeForms = typeForms.take n ++ f :: typeForms.drop (n + 1)) {w : String}
    (hw : leads n w = true) {rest r : List Char} (hr : identFollows rest = false) {t : SqlType}
    (h : f.2 (w.toList ++ rest) = .ok (t, r)) : sqlType (w.toList ++ rest) = .ok (t, r) := by
  rw [sqlType_eq, hform, List.map_append, List.map_cons]
  refine oneOf_at (fun p hp => ?_) h
  obtain ⟨g, hg, rfl⟩ := List.mem_map.mp hp
  exact typeForms_refuse g (List.mem_of_mem_take hg) ((leads_spec hw).2 rest hr g hg)

theorem sqlType_word (n : Nat) {ws : List String} {w : String} {t : SqlType}
    (hform : typeForms = typeForms.take n ++ (ws, typeWord w t) :: typeForms.drop (n + 1))
    (hw : leads n w = true) {rest : List Char} (hr : identFollows rest = false) :
    sqlType (w.toList ++ rest) = .ok (t, skip rest) :=
  sqlType_at n hform hw hr (typeWord_ok t ((leads_spec hw).1.skip rest) hr)

theorem length_ok (n : UInt64) (rest : List Char) :
    length ('(' :: (Digits.ofNat n.toNat ++ ')' :: rest)) = .ok (n, skip rest) := by
  have hread : spaced (natBelow (2 ^ 64)) (Digits.ofNat n.toNat ++ ')' :: rest) =
      .ok (n.toNat, ')' :: rest) :=
    spaced_natBelow n.toNat_lt rfl
  have hparen : parenthesized (spaced (natBelow (2 ^ 64)))
      ('(' :: (Digits.ofNat n.toNat ++ ')' :: rest)) = .ok (n.toNat, skip rest) :=
    parenthesized_ok (by rw [(digits_solid n.toNat).skip, hread]) (skip_cons (by decide) rest)
  apply (bind_ok hparen).trans
  rw [UInt64.ofNat_toNat]
  rfl

theorem precision_ok (p s : UInt8) (rest : List Char) :
    precision ('(' :: (Digits.ofNat p.toNat ++ ',' :: ' ' :: (Digits.ofNat s.toNat ++ ')' :: rest))) =
      .ok ((p, s), skip rest) := by
  have hfirst : spaced (natBelow 256) (Digits.ofNat p.toNat ++
      ',' :: ' ' :: (Digits.ofNat s.toNat ++ ')' :: rest)) =
        .ok (p.toNat, ',' :: ' ' :: (Digits.ofNat s.toNat ++ ')' :: rest)) :=
    spaced_natBelow p.toNat_lt rfl
  have hsymbol : symbol ',' (',' :: ' ' :: (Digits.ofNat s.toNat ++ ')' :: rest)) =
      .ok ((), Digits.ofNat s.toNat ++ ')' :: rest) := by
    rw [symbol_here (by decide)]
    exact congrArg (fun x => Except.ok ((), x)) ((digits_solid s.toNat).skip _)
  have hsecond : spaced (natBelow 256) (Digits.ofNat s.toNat ++ ')' :: rest) =
      .ok (s.toNat, ')' :: rest) :=
    spaced_natBelow s.toNat_lt rfl
  have hscale : optional (do symbol ','; spaced (natBelow 256))
      (',' :: ' ' :: (Digits.ofNat s.toNat ++ ')' :: rest)) = .ok (some s.toNat, ')' :: rest) :=
    optional_ok ((bind_ok hsymbol).trans hsecond)
  refine parenthesized_ok (r := ')' :: rest) ?_ (skip_cons (by decide) rest)
  rw [(digits_solid p.toNat).skip, bind_ok hfirst, bind_ok hscale, UInt8.ofNat_toNat,
    Option.getD_some, UInt8.ofNat_toNat]
  rfl

/-- A type is read from its text. -/
theorem sqlType_ok (t : SqlType) {rest : List Char} (hr : identFollows rest = false) :
    sqlType (t.display.toList ++ rest) = .ok (t, skip rest) := by
  cases t with
  | smallInt => exact sqlType_word 1 rfl (by decide) hr
  | bigInt => exact sqlType_word 2 rfl (by decide) hr
  | integer => exact sqlType_word 3 rfl (by decide) hr
  | real => exact sqlType_word 6 rfl (by decide) hr
  | text => exact sqlType_word 11 rfl (by decide) hr
  | boolean => exact sqlType_word 12 rfl (by decide) hr
  | timestampTz => exact sqlType_word 14 rfl (by decide) hr
  | timestamp => exact sqlType_word 15 rfl (by decide) hr
  | date => exact sqlType_word 17 rfl (by decide) hr
  | uuid => exact sqlType_word 18 rfl (by decide) hr
  | json => exact sqlType_word 20 rfl (by decide) hr
  | bytea => exact sqlType_word 21 rfl (by decide) hr
  | numeric p s =>
      have htext : (SqlType.numeric p s).display.toList ++ rest = "NUMERIC".toList ++ '(' ::
          (Digits.ofNat p.toNat ++ ',' :: ' ' :: (Digits.ofNat s.toNat ++ ')' :: rest)) := by
        simp [SqlType.display, Digits.text]
      rw [htext]
      refine sqlType_at 0 rfl (by decide) rfl ?_
      exact (bind_ok (orElse_ok (keyword_paren (solid_of_head rfl) _))).trans
        ((bind_ok (optional_ok (precision_ok p s rest))).trans rfl)
  | varchar n =>
      have htext : (SqlType.varchar n).display.toList ++ rest = "VARCHAR".toList ++ '(' ::
          (Digits.ofNat n.toNat ++ ')' :: rest) := by
        simp [SqlType.display, Digits.text]
      rw [htext]
      refine sqlType_at 9 rfl (by decide) rfl ?_
      exact (bind_ok (keyword_paren (solid_of_head rfl) _)).trans
        ((bind_ok (optional_ok (length_ok n rest))).trans rfl)
  | char n =>
      have htext : (SqlType.char n).display.toList ++ rest = "CHAR".toList ++ '(' ::
          (Digits.ofNat n.toNat ++ ')' :: rest) := by
        simp [SqlType.display, Digits.text]
      rw [htext]
      refine sqlType_at 10 rfl (by decide) rfl ?_
      exact (bind_ok (keyword_paren (solid_of_head rfl) _)).trans
        ((bind_ok (optional_ok (length_ok n rest))).trans rfl)

theorem display_solid (t : SqlType) : Solid t.display.toList := by
  cases t with
  | numeric p s => simp [SqlType.display, Solid, Text.isGap]
  | varchar n => simp [SqlType.display, Solid, Text.isGap]
  | char n => simp [SqlType.display, Solid, Text.isGap]
  | _ => exact solid_of_head rfl

end Parser

/-! ## Declared columns -/

namespace ColumnDef

/-- What is read from the text of a declared column: a key is unique and takes no NULL. -/
def reread (c : ColumnDef) : ColumnDef :=
  { c with nullable := c.nullable && !c.primaryKey, unique := c.unique || c.primaryKey }

/-- The column has a text from which it is read. -/
def Legible (c : ColumnDef) : Prop := ∀ v ∈ c.defaultValue, LegibleLiteral v

/-- The options that are written for a column, each with what it makes of a column. -/
def options (c : ColumnDef) : List (List Char × (ColumnDef → ColumnDef)) :=
  (if c.nullable then [] else [("NOT NULL".toList, fun d => { d with nullable := false })]) ++
  (if c.primaryKey then
    [("PRIMARY KEY".toList, fun d => { d with primaryKey := true, nullable := false, unique := true })]
   else []) ++
  (if c.unique then [("UNIQUE".toList, fun d => { d with unique := true })] else []) ++
  (match c.defaultValue with
   | some v => [("DEFAULT ".toList ++ v.literal.toList, fun d => { d with defaultValue := some v })]
   | none => [])

/-- The text of options, each behind a space. -/
def optionsChars (os : List (List Char × (ColumnDef → ColumnDef))) : List Char :=
  os.flatMap fun o => ' ' :: o.1

theorem chars_eq (c : ColumnDef) :
    c.chars = nameChars c.name ++ ' ' :: (c.type.display.toList ++ optionsChars c.options) := by
  obtain ⟨name, type, nullable, primaryKey, unique, defaultValue⟩ := c
  cases nullable <;> cases primaryKey <;> cases unique <;> cases defaultValue <;>
    simp [chars, options, optionsChars, clauseChars]

/-- The options in the order in which they are written make the column that is read. -/
theorem foldl_options (c : ColumnDef) :
    (c.options.map (·.2)).foldl (fun d f => f d) ⟨c.name, c.type, true, false, false, none⟩ =
      c.reread := by
  obtain ⟨name, type, nullable, primaryKey, unique, defaultValue⟩ := c
  cases nullable <;> cases primaryKey <;> cases unique <;> cases defaultValue <;> rfl

end ColumnDef

namespace Parser

/-- An option is read from its text. -/
def ReadsOption (o : List Char × (ColumnDef → ColumnDef)) : Prop :=
  Solid o.1 ∧ ∀ rest, touches rest = false → columnOption (o.1 ++ rest) = .ok (o.2, skip rest)

theorem readsOption_notNull :
    ReadsOption ("NOT NULL".toList, fun d => { d with nullable := false }) := by
  constructor
  · exact solid_of_head rfl
  · intro rest hr
    have hwords : keywords "NOT" "NULL" ("NOT NULL".toList ++ rest) = .ok ((), skip rest) :=
      keywords_at (solid_of_head rfl) rfl (touches_spec hr).1
    exact oneOf_ok ((bind_ok hwords).trans rfl)

theorem readsOption_primaryKey :
    ReadsOption ("PRIMARY KEY".toList,
      fun d => { d with primaryKey := true, nullable := false, unique := true }) := by
  constructor
  · exact solid_of_head rfl
  · intro rest hr
    have hwords : keywords "PRIMARY" "KEY" ("PRIMARY KEY".toList ++ rest) = .ok ((), skip rest) :=
      keywords_at (solid_of_head rfl) rfl (touches_spec hr).1
    exact (oneOf_refuses (bind_refuses (bind_refuses (keyword_refuses rfl)))).trans
      ((oneOf_refuses (bind_refuses (keyword_refuses rfl))).trans (oneOf_ok ((bind_ok hwords).trans rfl)))

theorem readsOption_unique : ReadsOption ("UNIQUE".toList, fun d => { d with unique := true }) := by
  constructor
  · exact solid_of_head rfl
  · intro rest hr
    have hword : keyword "UNIQUE" ("UNIQUE".toList ++ rest) = .ok ((), skip rest) :=
      keyword_at rfl (touches_spec hr).1
    exact (oneOf_refuses (bind_refuses (bind_refuses (keyword_refuses rfl)))).trans
      ((oneOf_refuses (bind_refuses (keyword_refuses rfl))).trans
        ((oneOf_refuses (bind_refuses (bind_refuses (keyword_refuses rfl)))).trans
          (oneOf_ok ((bind_ok hword).trans rfl))))

theorem readsOption_default {v : Value} (h : LegibleLiteral v) :
    ReadsOption ("DEFAULT ".toList ++ v.literal.toList,
      fun d => { d with defaultValue := some v }) := by
  constructor
  · exact solid_of_head rfl
  · intro rest hr
    have hword : keyword "DEFAULT" ("DEFAULT ".toList ++ v.literal.toList ++ rest) =
        .ok ((), v.literal.toList ++ rest) := by
      have hspace : keyword "DEFAULT" ("DEFAULT".toList ++ ' ' :: (v.literal.toList ++ rest)) =
          .ok ((), skip (v.literal.toList ++ rest)) :=
        keyword_space rfl
      rwa [(literal_solid h).skip] at hspace
    exact (oneOf_refuses (bind_refuses (bind_refuses (keyword_refuses rfl)))).trans
      ((oneOf_refuses (bind_refuses (keyword_refuses rfl))).trans
        ((oneOf_refuses (bind_refuses (bind_refuses (keyword_refuses rfl)))).trans
          ((oneOf_refuses (bind_refuses (keyword_refuses rfl))).trans
            ((bind_ok hword).trans ((bind_ok (literal_ok h hr)).trans rfl)))))

theorem readsOption_of_mem {c : ColumnDef} (h : c.Legible) : ∀ o ∈ c.options, ReadsOption o := by
  intro o ho
  simp only [ColumnDef.options, List.mem_append] at ho
  rcases ho with ((ho | ho) | ho) | ho
  · split at ho
    · cases ho
    · rw [List.mem_singleton] at ho
      exact ho ▸ readsOption_notNull
  · split at ho
    · rw [List.mem_singleton] at ho
      exact ho ▸ readsOption_primaryKey
    · cases ho
  · split at ho
    · rw [List.mem_singleton] at ho
      exact ho ▸ readsOption_unique
    · cases ho
  · split at ho
    · rename_i v hv
      rw [List.mem_singleton] at ho
      exact ho ▸ readsOption_default (h v hv)
    · cases ho

theorem touches_options (os : List (List Char × (ColumnDef → ColumnDef))) {rest : List Char}
    (hr : touches rest = false) : touches (ColumnDef.optionsChars os ++ rest) = false := by
  cases os with
  | nil => exact hr
  | cons o os => rfl

/-- Options are read one after the other. -/
theorem options_steps {os : List (List Char × (ColumnDef → ColumnDef))}
    (h : ∀ o ∈ os, ReadsOption o) {rest : List Char} (hr : touches rest = false) :
    Steps columnOption (skip (ColumnDef.optionsChars os ++ rest)) (os.map (·.2)) (skip rest) := by
  induction os with
  | nil => exact .nil _
  | cons o os ih =>
      rw [List.forall_mem_cons] at h
      obtain ⟨⟨hsolid, hread⟩, hos⟩ := h
      have htext : skip (ColumnDef.optionsChars (o :: os) ++ rest) =
          o.1 ++ (ColumnDef.optionsChars os ++ rest) := by
        rw [ColumnDef.optionsChars, List.flatMap_cons, List.append_assoc]
        exact hsolid.skip _
      rw [htext, List.map_cons]
      refine .cons (hread _ (touches_options os hr)) ?_ (ih hos)
      obtain ⟨c, r, hc, -⟩ := hsolid
      have hle := length_skip_le (ColumnDef.optionsChars os ++ rest)
      rw [hc, List.length_append, List.length_cons]
      omega

theorem columnOption_refuses {rest : List Char} (hr : Fence [] rest) :
    Refuses columnOption (skip rest) := by
  have hword : ∀ v : String, v.toList.all isIdentChar = true → v.toList ≠ [] →
      Refuses (keyword v) (skip rest) := by
    intro v hv hne
    apply keyword_refuses
    rw [wordNext_congr (skip_skip rest)]
    exact hr.noOther hv hne fun _ _ hw => absurd hw List.not_mem_nil
  apply refuses_oneOf
  simp only [List.forall_mem_cons, List.not_mem_nil]
  exact ⟨bind_refuses (bind_refuses (hword _ (by decide) (by decide))),
    bind_refuses (hword _ (by decide) (by decide)),
    bind_refuses (bind_refuses (hword _ (by decide) (by decide))),
    bind_refuses (hword _ (by decide) (by decide)), bind_refuses (hword _ (by decide) (by decide)),
    fun _ hx => hx.elim⟩

/-- A declared column is read from its text. -/
theorem columnDef_ok {c : ColumnDef} (h : c.Legible) {rest : List Char} (hr : Fence [] rest) :
    columnDef (c.chars ++ rest) = .ok (c.reread, skip rest) := by
  have htouches := (clear_touches hr.isClear).1
  have htext : c.chars ++ rest = nameChars c.name ++ ' ' :: (c.type.display.toList ++
      (ColumnDef.optionsChars c.options ++ rest)) := by
    simp [c.chars_eq]
  have hname : spaced identifier (nameChars c.name ++ ' ' :: (c.type.display.toList ++
      (ColumnDef.optionsChars c.options ++ rest))) =
        .ok (c.name, c.type.display.toList ++ (ColumnDef.optionsChars c.options ++ rest)) := by
    have hskip : skip (' ' :: (c.type.display.toList ++ (ColumnDef.optionsChars c.options ++ rest))) =
        c.type.display.toList ++ (ColumnDef.optionsChars c.options ++ rest) :=
      (display_solid c.type).skip _
    rw [← hskip]
    exact spaced_ok (by rw [(nameChars_solid c.name).skip, hskip, identifier_ok c.name rfl])
  have htype : spaced sqlType (c.type.display.toList ++ (ColumnDef.optionsChars c.options ++ rest)) =
      .ok (c.type, skip (ColumnDef.optionsChars c.options ++ rest)) := by
    rw [← skip_skip (ColumnDef.optionsChars c.options ++ rest)]
    apply spaced_ok
    rw [(display_solid c.type).skip]
    exact sqlType_ok c.type (touches_spec (touches_options c.options htouches)).1
  have hoptions : many columnOption (skip (ColumnDef.optionsChars c.options ++ rest)) =
      .ok (c.options.map (·.2), skip rest) :=
    many_of_steps (options_steps (readsOption_of_mem h) htouches) (columnOption_refuses hr)
  rw [htext, columnDef, bind_ok hname, bind_ok htype, bind_ok hoptions]
  exact congrArg (fun d => Except.ok (d, skip rest)) c.foldl_options

end Parser

end Rowtime.Sql
