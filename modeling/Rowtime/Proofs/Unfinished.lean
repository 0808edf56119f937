import Rowtime.Proofs.Tailing

/-!
# Behind an unfinished frame

A writer may stop in the middle of a frame, and other writers append their frames
behind it. A frame says nothing but its length, so the bytes that are missing are taken
from the frames that follow. As long as these are fewer, nothing behind the unfinished
frame is read at all. Once there are enough, what is read in its place is decoded from
bytes of several writers, and reading goes on where these end, which may be inside a
frame again. Only from a frame on at whose start reading arrives are the entries read
as they were written.
-/
namespace Rowtime.Log

/-! ## Frames by their announced lengths -/

/-- The number of bytes that the first frame of a log takes according to its header. -/
def announced (s : Bytes) : Nat := headerSize + natOfBytes (s.take headerSize)

/-- The content of the first frame, if as many bytes are there as it announces. -/
def content (s : Bytes) : Bytes := (s.take (announced s)).drop headerSize

theorem splitBytes?_of_le {n : Nat} {s : Bytes} (h : n ≤ s.length) :
    splitBytes? n s = some (s.take n, s.drop n) := by
  have hsplit := splitBytes?_append (s.take n) (s.drop n)
  rwa [List.length_take, Nat.min_eq_left h, List.take_append_drop] at hsplit

theorem splitBytes?_of_lt {n : Nat} {s : Bytes} (h : s.length < n) : splitBytes? n s = none := by
  cases hsplit : splitBytes? n s with
  | none => rfl
  | some p =>
      have := (splitBytes?_length hsplit).2
      omega

theorem nextFrame?_of_le {s : Bytes} (h : announced s ≤ s.length) :
    nextFrame? s = some (content s, s.drop (announced s)) := by
  have hheader : headerSize ≤ s.length := Nat.le_of_add_right_le h
  have hbody : natOfBytes (s.take headerSize) ≤ (s.drop headerSize).length := by
    rw [announced] at h
    rw [List.length_drop]
    omega
  rw [nextFrame?, splitBytes?_of_le hheader, Option.bind_some, splitBytes?_of_le hbody,
    List.drop_drop, content, announced, List.drop_take, Nat.add_sub_cancel_left]

theorem nextFrame?_of_lt {s : Bytes} (h : s.length < announced s) : nextFrame? s = none := by
  rw [announced] at h
  by_cases hheader : headerSize ≤ s.length
  · have hbody : (s.drop headerSize).length < natOfBytes (s.take headerSize) := by
      rw [List.length_drop]
      omega
    rw [nextFrame?, splitBytes?_of_le hheader, Option.bind_some, splitBytes?_of_lt hbody]
  · rw [nextFrame?, splitBytes?_of_lt (by omega), Option.bind_none]

theorem entries_of_lt {s : Bytes} (h : s.length < announced s) : entries s = [] := by
  rw [entries, frames]
  split
  · rfl
  · rename_i hnext
    rw [nextFrame?_of_lt h] at hnext
    cases hnext

theorem entries_of_le {s : Bytes} (h : announced s ≤ s.length) :
    entries s = (Entry.ofBytes? (content s)).toList ++ entries (s.drop (announced s)) := by
  rw [entries, frames]
  split
  · rename_i hnext
    rw [nextFrame?_of_le h] at hnext
    cases hnext
  · rename_i p r hnext
    rw [nextFrame?_of_le h] at hnext
    cases hnext
    rw [List.filterMap_cons, entries]
    cases Entry.ofBytes? (content s) <;> rfl

/-! ## Reading over an unfinished frame -/

/-- A frame that is not all there. -/
def Unfinished (part : Bytes) : Prop :=
  ∃ p missing, p.length < 2 ^ 32 ∧ frameOf p = part ++ missing ∧ missing ≠ []

/-- Whatever follows, an unfinished frame reaches into it. -/
theorem Unfinished.length_lt {part : Bytes} (h : Unfinished part) (more : Bytes) :
    part.length < announced (part ++ more) := by
  obtain ⟨p, missing, hp, hframe, hmissing⟩ := h
  by_cases hheader : headerSize ≤ part.length
  · have htake : (part ++ more).take headerSize = encodeNat headerSize p.length := by
      have hwhole : (part ++ missing).take headerSize = encodeNat headerSize p.length := by
        rw [← hframe, frameOf, List.take_left' (encodeNat_length _ _)]
      rwa [List.take_append_of_le_length hheader] at hwhole ⊢
    have hlength := congrArg List.length hframe
    rw [frameOf, List.length_append, List.length_append, encodeNat_length] at hlength
    have := List.length_pos_iff.mpr hmissing
    rw [announced, htake, natOfBytes_encodeNat (by simpa [headerSize] using hp)]
    omega
  · rw [announced]
    omega

/-- A part of the frame of an entry is unfinished. -/
theorem Entry.Fits.unfinished {e : Entry} (h : e.Fits) {n : Nat} (hn : n < e.frame.length) :
    Unfinished (e.frame.take n) := by
  refine ⟨e.encode, e.frame.drop n, h.length_lt, (List.take_append_drop n e.frame).symm, ?_⟩
  rw [ne_eq, List.drop_eq_nil_iff]
  omega

theorem whole_of_torn {s : Bytes} (h : torn s = []) : Whole s := by
  have hsettled := settled_append_torn s
  rw [h, List.append_nil] at hsettled
  exact hsettled ▸ settled_whole s

/-- An unfinished frame and the frames of entries that were appended behind it. -/
def followed (part : Bytes) (later : List Entry) : Bytes := part ++ later.flatMap Entry.frame

theorem followed_append (part : Bytes) (lost found : List Entry) :
    followed part (lost ++ found) = followed part lost ++ found.flatMap Entry.frame := by
  rw [followed, followed, List.flatMap_append, List.append_assoc]

/-- What is read of a log of whole frames, an unfinished one and the frames of entries that were
appended behind it. The unfinished frame reaches into those that follow. While fewer bytes are there
than it announces, the entries before it are all that is read. Then what its content has become is
read, if it denotes an entry, and reading goes on behind the bytes that it announces. Wherever
reading arrives at the start of one of the later frames, the entries of this one and of all that
follow are read as they were written but for the sign of a decimal zero. -/
theorem read_behind_unfinished {before part : Bytes} {later : List Entry} (hbefore : Whole before)
    (hpart : Unfinished part) (hlater : ∀ e ∈ later, e.Fits) :
    part.length < announced (followed part later) ∧
      ((followed part later).length < announced (followed part later) →
        entries (before ++ followed part later) = entries before) ∧
      (announced (followed part later) ≤ (followed part later).length →
        entries (before ++ followed part later) =
          entries before ++ (Entry.ofBytes? (content (followed part later))).toList ++
            entries ((followed part later).drop (announced (followed part later)))) ∧
      ∀ lost found, later = lost ++ found → torn (followed part lost) = [] →
        entries (before ++ followed part later) =
          entries before ++ entries (followed part lost) ++ found.map Entry.plain := by
  refine ⟨hpart.length_lt _, fun h => ?_, fun h => ?_, ?_⟩
  · rw [entries_append hbefore, entries_of_lt h, List.append_nil]
  · rw [entries_append hbefore, entries_of_le h, List.append_assoc]
  · rintro lost found rfl hend
    have hfound : ∀ e ∈ found, e.Fits := fun e he => hlater e (List.mem_append_right lost he)
    rw [followed_append, entries_append hbefore, entries_append (whole_of_torn hend),
      entries_flatMap hfound, List.append_assoc]

/-! ## A row that was left unfinished -/

/-- The entry of a table of texts. -/
def notesEntry : Entry :=
  ⟨1, 0, .create "t" ⟨"t", [.rowtime, ⟨"v", .text, true, false, false, none⟩], [], 0, 0⟩⟩

/-- The entry of a row whose writer stopped. -/
def leftEntry : Entry :=
  ⟨2, 0, .insert "t" [.integer 5, .text ("left" ++ String.ofList (List.replicate 66 'x'))]⟩

/-- An entry whose frame has as many bytes as the one before it lacks. -/
def swallowedEntry : Entry := ⟨3, 0, .insert "t" [.integer 6, .text "b"]⟩

/-- The entry after it. -/
def reachedEntry : Entry := ⟨4, 0, .insert "t" [.integer 7, .text "c"]⟩

/-- An entry that nobody has written: the bytes of the next frame complete the text. -/
def mixedEntry : Entry :=
  ⟨2, 0, .insert "t" [.integer 5, .text ("left" ++
    String.ofList (swallowedEntry.frame.map fun b => Char.ofNat b.toNat))]⟩

/-- The log with the table. -/
def notesLog : Bytes := [notesEntry].flatMap Entry.frame

/-- What was written of the row: the frame up to the beginning of the text. -/
def leftPart : Bytes := leftEntry.frame.take 69

set_option maxRecDepth 4000 in
theorem notes_fit : ∀ e ∈ [notesEntry, leftEntry, swallowedEntry, reachedEntry], e.Fits := by
  have hlength : ∀ e ∈ [notesEntry, leftEntry, swallowedEntry, reachedEntry],
      e.encode.length < 2 ^ 32 := by
    decide
  intro e he
  refine ⟨hlength e he, ?_⟩
  simp only [List.mem_cons, List.not_mem_nil, or_false] at he
  rcases he with rfl | rfl | rfl | rfl
  · exact show 0 < 2 ^ 64 by omega
  all_goals trivial

theorem notesLog_whole : Whole notesLog :=
  whole_entries (List.forall_mem_singleton.mpr (notes_fit notesEntry (by simp)).length_lt)

theorem later_fit : ∀ e ∈ [swallowedEntry, reachedEntry], e.Fits := by
  intro e he
  exact notes_fit e (List.mem_cons_of_mem _ (List.mem_cons_of_mem _ he))

set_option maxRecDepth 4000 in
theorem leftEntry_unfinished {n : Nat} (hn : n ≤ 69) : Unfinished (leftEntry.frame.take n) := by
  have hlength : leftEntry.frame.length = 135 := by decide
  exact (notes_fit leftEntry (by simp)).unfinished (by omega)

theorem read_behind_unfinished_text :
    Whole notesLog ∧ Unfinished leftPart ∧ (∀ e ∈ [swallowedEntry, reachedEntry], e.Fits) ∧
      torn (followed leftPart [swallowedEntry]) = [] ∧
      entries (notesLog ++ followed leftPart [swallowedEntry, reachedEntry]) =
        entries notesLog ++ entries (followed leftPart [swallowedEntry]) ++ [reachedEntry] := by
  have hpart : Unfinished leftPart := leftEntry_unfinished (Nat.le_refl 69)
  have hend : torn (followed leftPart [swallowedEntry]) = [] := by decide +kernel
  have hread := (read_behind_unfinished notesLog_whole hpart later_fit).2.2.2
    [swallowedEntry] [reachedEntry] rfl hend
  exact ⟨notesLog_whole, hpart, later_fit, hend, hread⟩

/-- Later writes are hidden by an unfinished frame. One of two entries that were appended behind it
is not read, and an entry is read in its place that nobody has written. If less was left of the frame,
the one entry that follows is still inside it, and nothing new is read. -/
theorem entry_hidden :
    Whole notesLog ∧ (∀ e ∈ [swallowedEntry, reachedEntry], e.Fits) ∧
      (Unfinished leftPart ∧ leftPart ≠ [] ∧
        entries (notesLog ++ followed leftPart [swallowedEntry, reachedEntry]) =
          entries notesLog ++ [mixedEntry, reachedEntry] ∧
        swallowedEntry ∉ entries notesLog ++ [mixedEntry, reachedEntry] ∧
        mixedEntry ∉ entries notesLog ++ [leftEntry, swallowedEntry, reachedEntry]) ∧
      Unfinished (leftEntry.frame.take 40) ∧ leftEntry.frame.take 40 ≠ [] ∧
        entries (notesLog ++ followed (leftEntry.frame.take 40) [swallowedEntry]) =
          entries notesLog := by
  have hread : entries (notesLog ++ followed leftPart [swallowedEntry, reachedEntry]) =
      entries notesLog ++ [mixedEntry, reachedEntry] := by
    decide +kernel
  have hhidden : swallowedEntry ∉ entries notesLog ++ [mixedEntry, reachedEntry] := by
    decide +kernel
  have hmixed : mixedEntry ∉ entries notesLog ++ [leftEntry, swallowedEntry, reachedEntry] := by
    decide +kernel
  have hnothing : entries (notesLog ++ followed (leftEntry.frame.take 40) [swallowedEntry]) =
      entries notesLog := by
    decide +kernel
  have hleft : leftPart ≠ [] ∧ leftEntry.frame.take 40 ≠ [] := by decide +kernel
  exact ⟨notesLog_whole, later_fit,
    ⟨leftEntry_unfinished (Nat.le_refl 69), hleft.1, hread, hhidden, hmixed⟩,
    leftEntry_unfinished (by omega), hleft.2, hnothing⟩

end Rowtime.Log
