import Rowtime.Log.Codec

/-!
# Frames

A log is a sequence of frames: the length of an entry in four bytes, then the
entry. A frame is read when all of it is there; the last one of a log may still
be growing and is left for later. A whole frame that holds no entry is passed
over.

A `Cursor` is the place up to which a log has been read, together with the
highest number of an entry seen or written. It reads what has been added since,
and it gives the next entry its number.
-/
namespace Rowtime.Log

/-- The count of bytes in front of each entry. -/
def headerSize : Nat := 4

/-- Bytes behind their length. -/
def frameOf (payload : Bytes) : Bytes := encodeNat headerSize payload.length ++ payload

/-- An entry behind its length. -/
def Entry.frame (e : Entry) : Bytes := frameOf e.encode

/-- The content of the first frame and what follows it, if the frame is all there. -/
def nextFrame? (s : Bytes) : Option (Bytes × Bytes) :=
  (splitBytes? headerSize s).bind fun h => splitBytes? (natOfBytes h.1) h.2

/-- Splitting leaves less by what it takes. -/
theorem splitBytes?_length {n : Nat} {s a r : Bytes} (h : splitBytes? n s = some (a, r)) :
    a.length = n ∧ s.length = n + r.length := by
  induction n generalizing s a with
  | zero => simp_all [splitBytes?]
  | succ n ih =>
    cases s with
    | nil => simp [splitBytes?] at h
    | cons b s =>
      simp only [splitBytes?, Option.map_eq_some_iff] at h
      obtain ⟨⟨a', r'⟩, hp, he⟩ := h
      simp only [Prod.mk.injEq] at he
      obtain ⟨rfl, rfl⟩ := he
      have := ih hp
      simp only [List.length_cons]
      omega

/-- A frame takes its header and its content. -/
theorem nextFrame?_length {s p r : Bytes} (h : nextFrame? s = some (p, r)) :
    s.length = headerSize + p.length + r.length := by
  simp only [nextFrame?, Option.bind_eq_some_iff] at h
  obtain ⟨⟨a, t⟩, h₁, h₂⟩ := h
  have a_len := splitBytes?_length h₁
  have p_len := splitBytes?_length h₂
  simp only at p_len
  omega

/-- The contents of the whole frames at the front of a log. -/
def frames (s : Bytes) : List Bytes :=
  match _h : nextFrame? s with
  | none => []
  | some (p, r) => p :: frames r
termination_by s.length
decreasing_by
  have := nextFrame?_length ‹_›
  simp only [headerSize] at this
  omega

/-- The count of bytes of frames with the given contents. -/
def framesSize (ps : List Bytes) : Nat := ps.foldr (fun p n => headerSize + p.length + n) 0

/-- The entries of the whole frames at the front of a log. -/
def entries (s : Bytes) : List Entry := (frames s).filterMap Entry.ofBytes?

/-- How far a log has been read, and the highest number seen or given. -/
structure Cursor where
  offset : Nat
  sequence : UInt64
deriving DecidableEq, Inhabited

namespace Cursor

/-- The start of a log. -/
def start : Cursor := ⟨0, 0⟩

/-- What has been added to a log since it was read. -/
def unread (c : Cursor) (log : Bytes) : Bytes := log.drop c.offset

/-- The entries that have been added since, and the place behind them. -/
def read (c : Cursor) (log : Bytes) : List Entry × Cursor :=
  let ps := frames (c.unread log)
  let es := ps.filterMap Entry.ofBytes?
  (es, ⟨c.offset + framesSize ps, es.foldl (fun n e => max n e.sequence) c.sequence⟩)

/-- The next entry to be written at a time in seconds. -/
def nextEntry (c : Cursor) (seconds : UInt64) (op : Operation) : Entry :=
  ⟨c.sequence + 1, seconds, op⟩

/-- The log with an operation added, and the cursor that has given its number. An entry whose
length does not fit into four bytes is refused, and its number is lost. -/
def append (c : Cursor) (seconds : UInt64) (op : Operation) (log : Bytes) :
    Except Fault Bytes × Cursor :=
  let e := c.nextEntry seconds op
  let c' : Cursor := ⟨c.offset, e.sequence⟩
  if e.encode.length < Nat.pow 2 32 then (.ok (log ++ e.frame), c') else (.error .entryTooLarge, c')

end Cursor

end Rowtime.Log
