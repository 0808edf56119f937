import Rowtime.Proofs.Codec
import Rowtime.Proofs.Torn

/-!
# Following a log while it is written

The bytes of a log become visible piece by piece, and a piece may end anywhere: in
the length of a frame or in its content. A follower calls for new entries whenever
it likes. Whatever the pieces and the moments of the calls are, what the calls have
returned is, put together, what the whole frames hold that were visible at the last
call, and the follower stands behind them; this is so for bytes of any kind. In a
log that consists of the frames of entries these are the entries themselves.
-/
namespace Rowtime.Log

/-- A reader of a growing log: the bytes that are visible, those that were at the last call, where
the reader stands, and what each call has returned. -/
structure Follower where
  visible : Bytes
  seen : Bytes
  cursor : Cursor
  returned : List (List Entry)

namespace Follower

/-- More of the log becomes visible, or new entries are called for. -/
inductive Step where
  | shown (piece : Bytes)
  | called

/-- A follower that has called for nothing, and of a log nothing of which is visible. -/
def start : Follower := ⟨[], [], .start, []⟩

/-- The follower after a step. -/
def after (f : Follower) : Step → Follower
  | .shown piece => { f with visible := f.visible ++ piece }
  | .called =>
    let r := f.cursor.read f.visible
    ⟨f.visible, f.visible, r.2, f.returned ++ [r.1]⟩

/-- The follower after a list of steps. -/
def run (steps : List Step) : Follower := steps.foldl after start

/-- What holds of a follower at every moment. -/
structure Exact (f : Follower) : Prop where
  seen : f.seen <+: f.visible
  offset : f.cursor.offset = (settled f.seen).length
  returned : f.returned.flatten = entries f.seen

theorem settled_append (log more : Bytes) :
    settled (log ++ more) = settled log ++ settled (torn log ++ more) := by
  rw [settled, frames_extended, List.flatMap_append]
  rfl

/-- A call reads on where the whole frames ended that the calls before had seen. -/
theorem Exact.called {f : Follower} (h : f.Exact) : (f.after .called).Exact := by
  obtain ⟨more, hmore⟩ := h.seen
  have hunread : f.cursor.unread f.visible = torn f.seen ++ more := by
    have hlog : f.visible = settled f.seen ++ (torn f.seen ++ more) := by
      rw [← List.append_assoc, settled_append_torn, hmore]
    rw [Cursor.unread, h.offset, hlog, List.drop_left]
  constructor
  · exact List.prefix_refl f.visible
  · change f.cursor.offset + framesSize (frames (f.cursor.unread f.visible)) =
      (settled f.visible).length
    rw [hunread, h.offset, framesSize_eq, ← hmore, settled_append, List.length_append]
    rfl
  · change (f.returned ++ [(frames (f.cursor.unread f.visible)).filterMap Entry.ofBytes?]).flatten =
      entries f.visible
    rw [hunread, List.flatten_append, h.returned, List.flatten_singleton, ← hmore, entries, entries,
      frames_extended f.seen more, List.filterMap_append]

theorem Exact.after {f : Follower} (h : f.Exact) (step : Step) : (f.after step).Exact := by
  cases step with
  | shown piece =>
      obtain ⟨more, hmore⟩ := h.seen
      refine ⟨⟨more ++ piece, ?_⟩, h.offset, h.returned⟩
      change f.seen ++ (more ++ piece) = f.visible ++ piece
      rw [← hmore, List.append_assoc]
  | called => exact h.called

end Follower

/-! ## Logs of entries -/

/-- The entries at the front of a list whose frames lie within a number of bytes. -/
def shownWithin : Nat → List Entry → List Entry
  | _, [] => []
  | n, e :: es => if e.frame.length ≤ n then e :: shownWithin (n - e.frame.length) es else []

theorem mem_of_mem_shownWithin {n : Nat} {es : List Entry} {e : Entry} (h : e ∈ shownWithin n es) :
    e ∈ es := by
  induction es generalizing n with
  | nil => simp [shownWithin] at h
  | cons d es ih =>
      unfold shownWithin at h
      split at h
      · rcases List.mem_cons.mp h with rfl | h
        · exact List.mem_cons_self
        · exact List.mem_cons_of_mem _ (ih h)
      · simp at h

/-- A part of a frame is not read. -/
theorem frames_of_part {p s t : Bytes} (hp : p.length < 2 ^ 32) (h : frameOf p = s ++ t)
    (ht : t ≠ []) : frames s = [] := by
  rw [frames]
  split
  · rfl
  · rename_i q r hnext
    -- What is read from the part is read from the whole frame, with nothing behind it.
    obtain ⟨hs, hq⟩ := nextFrame?_eq hnext
    have hwhole := nextFrame?_frameOf hp []
    rw [List.append_nil, h, hs, List.append_assoc, nextFrame?_frameOf hq, Option.some.injEq,
      Prod.mk.injEq, List.append_eq_nil_iff] at hwhole
    exact absurd hwhole.2.2 ht

/-- The whole frames in a part of a log of entries are those that lie within its length. -/
theorem frames_shown {es : List Entry} (hes : ∀ e ∈ es, e.encode.length < 2 ^ 32) {s : Bytes}
    (hs : s <+: es.flatMap Entry.frame) :
    frames s = (shownWithin s.length es).map Entry.encode := by
  induction es generalizing s with
  | nil =>
      rw [List.flatMap_nil, List.prefix_nil] at hs
      rw [hs]
      exact frames_nil
  | cons e es ih =>
      have hlt := hes e List.mem_cons_self
      obtain ⟨t, ht⟩ := hs
      rw [List.flatMap_cons] at ht
      unfold shownWithin
      split
      · rename_i hle
        have hprefix : e.frame <+: s :=
          List.prefix_of_prefix_length_le (List.prefix_append _ _) ⟨t, ht⟩ hle
        obtain ⟨s', rfl⟩ := hprefix
        rw [List.append_assoc, List.append_cancel_left_eq] at ht
        have hrest := ih (fun d hd => hes d (List.mem_cons_of_mem _ hd)) ⟨t, ht⟩
        rw [List.length_append, Nat.add_sub_cancel_left, List.map_cons, ← hrest]
        exact frames_frameOf hlt s'
      · rename_i hlong
        obtain ⟨u, hu⟩ : s <+: e.frame :=
          List.prefix_of_prefix_length_le ⟨t, ht⟩ (List.prefix_append _ _) (by omega)
        refine frames_of_part hlt hu.symm ?_
        rintro rfl
        rw [List.append_nil] at hu
        rw [hu] at hlong
        exact hlong (Nat.le_refl _)

end Rowtime.Log
