import Rowtime.Proofs.Numerals
import Rowtime.Proofs.World

/-!
# One line for each row

The text of a document has no line break in it: a string escapes its line breaks, and
nothing else can bring one in, be it a name, a number or a document inside a value. So
the line of a row is one line for whoever splits the output at the byte of a line
break, which is no part of the UTF-8 form of any other character.

A sink with a limit takes the pieces of the rows until one goes beyond the limit. If all
go in, it has the lines of all rows. Otherwise it has the lines of the rows before the
one whose piece was refused, and of that row a beginning without a line break, which is
no complete line.
-/
namespace Rowtime

open Text

/-! ## Texts without line breaks -/

theorem Text.Digits.unbroken {ds : List Char} (h : ds.all isDigit = true) : '\n' ∉ ds := by
  intro hm
  have := List.all_eq_true.mp h '\n' hm
  exact absurd this (by decide)

theorem Text.Digits.ofNat_unbroken (n : Nat) : '\n' ∉ ofNat n := unbroken (ofNat_all n)

theorem Text.Hex.lastDigits_unbroken (w n : Nat) : '\n' ∉ lastDigits w n := by
  have hdigit : ∀ d < 16, toChar d ≠ '\n' := by decide
  induction w generalizing n with
  | zero => simp [lastDigits]
  | succ w ih =>
      have hlast : toChar n = toChar (n % 16) := by rw [toChar, toChar, Nat.mod_mod]
      rw [lastDigits, List.mem_append, List.mem_singleton, hlast]
      rintro (h | h)
      · exact ih (n / 16) h
      · exact hdigit (n % 16) (Nat.mod_lt n (by omega)) h.symm

namespace Json

theorem escape?_unbroken {c : Char} {e : List Char} (h : escape? c = some e) : '\n' ∉ e := by
  unfold escape? at h
  split_ifs at h <;> cases h
  any_goals decide
  -- The code of a control character is left.
  simp [Hex.lastDigits_unbroken]

/-- A line break does not stand for itself. -/
theorem escape?_newline : escape? '\n' = some ['\\', 'n'] := by decide

theorem stringPieces_unbroken {run cs : List Char} (hr : '\n' ∉ run) {p : String}
    (h : p ∈ stringPieces run cs) : '\n' ∉ p.toList := by
  induction cs generalizing run with
  | nil =>
      rw [stringPieces] at h
      split at h
      · simp at h
      · rw [List.mem_singleton] at h
        subst h
        simpa using hr
  | cons c cs ih =>
      rw [stringPieces] at h
      split at h
      · rename_i hc
        have hrun : '\n' ∉ c :: run := by
          rw [List.mem_cons]
          rintro (rfl | hm)
          · rw [escape?_newline] at hc
            simp at hc
          · exact hr hm
        exact ih hrun h
      · rename_i e he
        have hescaped : '\n' ∉ (String.ofList e).toList := by
          rw [String.toList_ofList]
          exact escape?_unbroken he
        split at h
        · rcases List.mem_cons.mp h with rfl | h
          · exact hescaped
          · exact ih (by simp) h
        · rcases List.mem_cons.mp h with rfl | h
          · simpa using hr
          · rcases List.mem_cons.mp h with rfl | h
            · exact hescaped
            · exact ih (by simp) h

theorem quotedPieces_unbroken {s p : String} (h : p ∈ quotedPieces s) : '\n' ∉ p.toList := by
  rw [quotedPieces, List.mem_cons, List.mem_append, List.mem_singleton] at h
  rcases h with rfl | h | rfl
  · decide
  · exact stringPieces_unbroken List.not_mem_nil h
  · decide

theorem realChars_unbroken (x : Binary64.DecimalDigits) : '\n' ∉ realChars x := by
  have hdigits := Digits.ofNat_unbroken x.digits
  have htake : ∀ k, '\n' ∉ (Digits.ofNat x.digits).take k :=
    fun k h => hdigits (List.mem_of_mem_take h)
  have hdrop : ∀ k, '\n' ∉ (Digits.ofNat x.digits).drop k :=
    fun k h => hdigits (List.mem_of_mem_drop h)
  unfold realChars
  simp only
  split
  · simp [hdigits]
  split
  · simp [htake, hdrop]
  split
  · simp [hdigits]
  · rw [List.mem_append, List.mem_cons, List.mem_cons]
    rintro (h | h | h | h)
    · split at h
      · rename_i d hd
        exact hdigits (hd ▸ h)
      · rename_i d r _ hd
        rw [hd, List.mem_cons, not_or] at hdigits
        rw [List.mem_cons, List.mem_cons] at h
        rcases h with h | h | h
        · exact hdigits.1 h
        · cases h
        · exact hdigits.2 h
      · simp at h
    · cases h
    · split at h <;> cases h
    · exact Digits.ofNat_unbroken _ h

theorem realText_unbroken (x : Binary64) : '\n' ∉ (realText x).toList := by
  unfold realText
  split
  · rename_i neg m e _
    simp only [String.toList_ofList, List.mem_append, not_or]
    constructor
    · cases neg <;> decide
    · split
      · decide
      · exact realChars_unbroken _
  · decide

theorem numberText_unbroken (n : JsonNumber) : '\n' ∉ (numberText n).toList := by
  cases n with
  | whole i =>
      rw [numberText, Digits.intText, String.toList_ofList, Digits.ofInt]
      split
      · simp [Digits.ofNat_unbroken]
      · exact Digits.ofNat_unbroken _
  | real x => exact realText_unbroken x

mutual

/-- No piece of a document has a line break. -/
theorem pieces_unbroken : (j : Json) → ∀ p ∈ pieces j, '\n' ∉ p.toList
  | .null, p, h => by
      rw [pieces, List.mem_singleton] at h
      subst h
      decide
  | .bool b, p, h => by
      rw [pieces, List.mem_singleton] at h
      subst h
      cases b <;> decide
  | .number n, p, h => by
      rw [pieces, List.mem_singleton] at h
      subst h
      exact numberText_unbroken n
  | .string s, p, h => by
      rw [pieces] at h
      exact quotedPieces_unbroken h
  | .array items, p, h => by
      rw [pieces, List.mem_cons, List.mem_append, List.mem_singleton] at h
      rcases h with rfl | h | rfl
      · decide
      · exact itemPieces_unbroken true items p h
      · decide
  | .object members, p, h => by
      rw [pieces, List.mem_cons, List.mem_append, List.mem_singleton] at h
      rcases h with rfl | h | rfl
      · decide
      · exact memberPieces_unbroken true members p h
      · decide

theorem itemPieces_unbroken (first : Bool) :
    (items : List Json) → ∀ p ∈ itemPieces first items, '\n' ∉ p.toList
  | [], p, h => by simp [itemPieces] at h
  | v :: r, p, h => by
      rw [itemPieces, List.mem_append, List.mem_append] at h
      rcases h with (h | h) | h
      · cases first
        · rw [if_neg Bool.false_ne_true, List.mem_singleton] at h
          subst h
          decide
        · simp at h
      · exact pieces_unbroken v p h
      · exact itemPieces_unbroken false r p h

theorem memberPieces_unbroken (first : Bool) :
    (members : List (String × Json)) → ∀ p ∈ memberPieces first members, '\n' ∉ p.toList
  | [], p, h => by simp [memberPieces] at h
  | (k, v) :: r, p, h => by
      rw [memberPieces, List.mem_append, List.mem_append, List.mem_cons, List.mem_append] at h
      rcases h with (h | h) | rfl | h | h
      · cases first
        · rw [if_neg Bool.false_ne_true, List.mem_singleton] at h
          subst h
          decide
        · simp at h
      · exact quotedPieces_unbroken h
      · decide
      · exact pieces_unbroken v p h
      · exact memberPieces_unbroken false r p h

end

/-- The text of a document is one line. -/
theorem text_unbroken (j : Json) : '\n' ∉ (text j).toList := by
  rw [text, String.toList_join, List.mem_flatMap]
  rintro ⟨p, hp, hm⟩
  exact pieces_unbroken j p hp hm

end Json

namespace Log

theorem newline_of_mem_encodeChar {c : Char} (h : 10 ∈ String.utf8EncodeChar c) : c = '\n' := by
  rw [← Char.toNat_inj]
  change c.toNat = 10
  unfold String.utf8EncodeChar at h
  simp only [Char.toNat_val] at h
  split_ifs at h
  all_goals
    simp only [List.mem_cons, List.not_mem_nil, or_false, ← UInt8.toNat_inj, UInt8.toNat_ofNat',
      UInt8.reduceToNat] at h
    omega

/-- The byte of a line break is in no other character. -/
theorem newline_of_mem_utf8 {s : String} (h : 10 ∈ utf8 s) : '\n' ∈ s.toList := by
  have hbytes : utf8 s = s.toList.flatMap String.utf8EncodeChar := by
    rw [utf8]
    conv_lhs => rw [← String.ofList_toList (s := s), String.toByteArray_ofList, List.utf8Encode]
    simp
  rw [hbytes, List.mem_flatMap] at h
  obtain ⟨c, hc, hbyte⟩ := h
  exact newline_of_mem_encodeChar hbyte ▸ hc

end Log

/-! ## Pieces that go in or are refused -/

namespace Sink

variable {s : Sink} {shape : Shape} {columns : List String}

/-- The sink with a text behind its content. -/
def adding (s : Sink) (text : String) : Sink := { s with content := s.content ++ text }

@[simp] theorem adding_empty (s : Sink) : s.adding "" = s := by
  rw [adding, String.append_empty]

@[simp] theorem adding_adding (s : Sink) (a b : String) :
    (s.adding a).adding b = s.adding (a ++ b) := by
  rw [adding, adding, adding, String.append_assoc]

theorem run_write (s : Sink) (piece : String) :
    (write piece).run s = if s.accepts piece then (.ok (), s.adding piece) else (.error closed, s) :=
  rfl

/-- Two texts fit when the one does and then the other. -/
theorem accepts_append {a b : String} :
    s.accepts (a ++ b) = true ↔ s.accepts a = true ∧ (s.adding a).accepts b = true := by
  obtain ⟨content, limit⟩ := s
  cases limit with
  | none => simp [accepts, adding]
  | some n =>
      simp only [accepts, adding, String.utf8ByteSize_append, decide_eq_true_eq]
      omega

/-- A sink that takes a text has room for the empty text after it. -/
theorem accepts_empty {a : String} (h : s.accepts a = true) : (s.adding a).accepts "" = true := by
  rw [← String.append_empty (s := a)] at h
  exact (accepts_append.mp h).2

/-- Pieces that fit together all go in. -/
theorem writePieces_fitting {ps : List String} (h : s.accepts (String.join ps) = true) :
    (writePieces write ps).run s = (.ok (), s.adding (String.join ps)) := by
  induction ps generalizing s with
  | nil =>
      rw [String.join_nil, adding_empty]
      rfl
  | cons p ps ih =>
      rw [String.join_cons] at h ⊢
      obtain ⟨hp, hps⟩ := accepts_append.mp h
      rw [writePieces, World.run_bind, run_write, if_pos hp]
      simp only [ih hps, adding_adding]

/-- Of pieces that do not fit together those before the first refused one go in. -/
theorem writePieces_beyond {ps : List String} (hs : s.accepts "" = true)
    (h : ¬s.accepts (String.join ps) = true) :
    ∃ taken p rest, ps = taken ++ p :: rest ∧
      (writePieces write ps).run s = (.error closed, s.adding (String.join taken)) := by
  induction ps generalizing s with
  | nil => exact absurd hs h
  | cons p ps ih =>
      by_cases hp : s.accepts p = true
      · have hrest : ¬(s.adding p).accepts (String.join ps) = true := by
          intro hps
          rw [String.join_cons] at h
          exact h (accepts_append.mpr ⟨hp, hps⟩)
        obtain ⟨taken, q, rest, rfl, hrun⟩ := ih (accepts_empty hp) hrest
        refine ⟨p :: taken, q, rest, rfl, ?_⟩
        rw [writePieces, World.run_bind, run_write, if_pos hp]
        simp only [hrun, adding_adding, String.join_cons]
      · refine ⟨[], p, ps, rfl, ?_⟩
        rw [writePieces, World.run_bind, run_write, if_neg hp, String.join_nil, adding_empty]
        rfl

theorem writeLine_fitting {row : Row} (h : s.accepts (shape.line columns row) = true) :
    (writePieces write (shape.linePieces columns row)).run s =
      (.ok (), s.adding (shape.line columns row)) := by
  rw [← World.join_linePieces] at h ⊢
  exact writePieces_fitting h

/-- Rows whose lines fit together are all written. -/
theorem writeRows_fitting {rows : List Row}
    (h : s.accepts (String.join (rows.map (shape.line columns))) = true) :
    (writeRows write shape columns rows).run s =
      ((.ok rows.length, []), s.adding (String.join (rows.map (shape.line columns)))) := by
  induction rows generalizing s with
  | nil =>
      rw [List.map_nil, String.join_nil, adding_empty]
      rfl
  | cons row rows ih =>
      rw [List.map_cons, String.join_cons] at h ⊢
      obtain ⟨hrow, hrows⟩ := accepts_append.mp h
      rw [writeRows, World.run_bind, writeLine_fitting hrow]
      simp only [World.run_bind, ih hrows, adding_adding]
      rfl

/-- A text that goes in before a piece of a line is refused is a part of the record. -/
theorem text_of_taken {row : Row} {taken rest : List String} {p : String}
    (h : shape.linePieces columns row = taken ++ p :: rest) :
    ∃ more, (shape.record columns row).text = String.join taken ++ more := by
  have hlength : taken.length ≤ (shape.record columns row).pieces.length := by
    have := congrArg List.length h
    simp only [Shape.linePieces, List.length_append, List.length_cons, List.length_nil] at this
    omega
  have htaken : (shape.record columns row).pieces.take taken.length = taken := by
    have := congrArg (List.take taken.length) h
    rwa [Shape.linePieces, List.take_append_of_le_length hlength, List.take_left] at this
  have hsplit : (shape.record columns row).pieces =
      taken ++ (shape.record columns row).pieces.drop taken.length := by
    have := List.take_append_drop taken.length (shape.record columns row).pieces
    rw [htaken] at this
    exact this.symm
  refine ⟨String.join ((shape.record columns row).pieces.drop taken.length), ?_⟩
  rw [← String.join_append]
  exact congrArg String.join hsplit

/-- Of rows whose lines do not fit together those before one of them are written, and of this one a
beginning of its record. -/
theorem writeRows_beyond {rows : List Row} (hs : s.accepts "" = true)
    (h : ¬s.accepts (String.join (rows.map (shape.line columns))) = true) :
    ∃ before row after part more, rows = before ++ row :: after ∧
      (shape.record columns row).text = part ++ more ∧
      (writeRows write shape columns rows).run s =
        ((.error closed, after),
          s.adding (String.join (before.map (shape.line columns)) ++ part)) := by
  induction rows generalizing s with
  | nil => exact absurd hs h
  | cons row rows ih =>
      by_cases hrow : s.accepts (shape.line columns row) = true
      · have hrest : ¬(s.adding (shape.line columns row)).accepts
            (String.join (rows.map (shape.line columns))) = true := by
          intro hrows
          rw [List.map_cons, String.join_cons] at h
          exact h (accepts_append.mpr ⟨hrow, hrows⟩)
        obtain ⟨before, failed, after, part, more, rfl, htext, hrun⟩ := ih (accepts_empty hrow) hrest
        refine ⟨row :: before, failed, after, part, more, rfl, htext, ?_⟩
        rw [writeRows, World.run_bind, writeLine_fitting hrow]
        simp only [World.run_bind, hrun, adding_adding]
        rw [List.map_cons, String.join_cons, String.append_assoc]
        rfl
      · rw [← World.join_linePieces] at hrow
        obtain ⟨taken, p, rest, hpieces, hrun⟩ := writePieces_beyond hs hrow
        obtain ⟨more, htext⟩ := text_of_taken hpieces
        refine ⟨[], row, rows, String.join taken, more, rfl, htext, ?_⟩
        rw [writeRows, World.run_bind, hrun, List.map_nil, String.join_nil, String.empty_append]
        rfl

/-! ## Lines that are complete -/

theorem linesFrom_append {cs : List Char} (h : '\n' ∉ cs) (line rest : List Char) :
    linesFrom line (cs ++ rest) = linesFrom (cs.reverse ++ line) rest := by
  induction cs generalizing line with
  | nil => rfl
  | cons c cs ih =>
      rw [List.mem_cons, not_or] at h
      rw [List.cons_append, linesFrom, if_neg (Ne.symm h.1), ih h.2, List.reverse_cons,
        List.append_assoc]
      rfl

/-- A beginning of a line is no complete line. -/
theorem linesFrom_unbroken {cs : List Char} (h : '\n' ∉ cs) (line : List Char) :
    linesFrom line cs = [] := by
  have := linesFrom_append h line []
  rwa [List.append_nil] at this

theorem linesFrom_line (shape : Shape) (columns : List String) (row : Row) (rest : List Char) :
    linesFrom [] ((shape.line columns row).toList ++ rest) =
      (shape.record columns row).text :: linesFrom [] rest := by
  have hline : (shape.line columns row).toList =
      (shape.record columns row).text.toList ++ ['\n'] := String.toList_append
  rw [hline, List.append_assoc, linesFrom_append (Json.text_unbroken _), List.append_nil,
    List.singleton_append, linesFrom, if_pos rfl, List.reverse_reverse, String.ofList_toList]

theorem linesFrom_rows_append (shape : Shape) (columns : List String) (rows : List Row)
    (rest : List Char) :
    linesFrom [] ((String.join (rows.map (shape.line columns))).toList ++ rest) =
      (rows.map fun row => (shape.record columns row).text) ++ linesFrom [] rest := by
  induction rows with
  | nil => rfl
  | cons row rows ih =>
      rw [List.map_cons, String.join_cons, String.toList_append, List.append_assoc, linesFrom_line,
        ih]
      rfl

/-- The complete lines are those of the rows, whatever part of a line is behind them. -/
theorem linesFrom_rows (shape : Shape) (columns : List String) (rows : List Row)
    {part : List Char} (h : '\n' ∉ part) :
    linesFrom [] ((String.join (rows.map (shape.line columns))).toList ++ part) =
      rows.map fun row => (shape.record columns row).text := by
  rw [linesFrom_rows_append, linesFrom_unbroken h, List.append_nil]

/-- One line for each row. A result is written whole exactly if its lines stay within the limit.
Then the answer is the number of its rows, the output has one complete line for each of them, its
compact text, in which no byte is that of a line break; and nothing is left to be written. Otherwise
the complete lines are those of the rows before one of them. -/
theorem one_line_each (shape : Shape) (columns : List String) (rows : List Row)
    (limit : Option Nat) :
    ∃ answer rest sink, (writeRows write shape columns rows).run (empty limit) =
        ((answer, rest), sink) ∧
      (answer = .ok rows.length ↔
        (empty limit).accepts (String.join (rows.map (shape.line columns))) = true) ∧
      (∀ n, answer = .ok n → n = rows.length ∧
        sink.content = String.join (rows.map (shape.line columns)) ∧
        sink.lines = rows.map (fun row => (shape.record columns row).text) ∧
        (∀ line ∈ sink.lines, 10 ∉ Log.utf8 line) ∧
        (writeRows write shape columns rest).run sink = ((.ok 0, []), sink)) ∧
      ∀ why, answer = .error why → ∃ k < rows.length,
        sink.lines = (rows.take k).map fun row => (shape.record columns row).text := by
  have hstart : (empty limit).accepts "" = true := by
    cases limit <;> simp [accepts, empty]
  by_cases hfit : (empty limit).accepts (String.join (rows.map (shape.line columns))) = true
  · have hlines : ((empty limit).adding (String.join (rows.map (shape.line columns)))).lines =
        rows.map fun row => (shape.record columns row).text := by
      have := linesFrom_rows shape columns rows List.not_mem_nil
      rw [List.append_nil] at this
      rw [lines, adding, empty, String.empty_append]
      exact this
    refine ⟨_, _, _, writeRows_fitting hfit, iff_of_true rfl hfit, fun n hn => ?_, by simp⟩
    refine ⟨(Except.ok.inj hn).symm, String.empty_append, hlines, fun line hm hbyte => ?_, rfl⟩
    rw [hlines, List.mem_map] at hm
    obtain ⟨row, -, rfl⟩ := hm
    exact Json.text_unbroken _ (Log.newline_of_mem_utf8 hbyte)
  · obtain ⟨before, row, after, part, more, rfl, htext, hrun⟩ := writeRows_beyond hstart hfit
    have hpart : '\n' ∉ part.toList := by
      have hunbroken := Json.text_unbroken (shape.record columns row)
      rw [htext, String.toList_append, List.mem_append, not_or] at hunbroken
      exact hunbroken.1
    refine ⟨_, _, _, hrun, iff_of_false (by simp) hfit, by simp, fun why _ => ⟨before.length, ?_, ?_⟩⟩
    · simp
    · rw [List.take_left, lines, adding, empty, String.empty_append, String.toList_append]
      exact linesFrom_rows shape columns before hpart

end Sink

end Rowtime
