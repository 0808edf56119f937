import Rowtime.Proofs.Framing

/-!
# Logs with anything in them

A log need not be what engines have written. It may end in a part of a frame, and a
frame may hold bytes that denote no entry. Reading takes the whole frames at the
front and stops at the torn part, and whatever is appended to a log leaves the
frames that were whole before as they are. So the entries of a log are the first
entries of every longer log, and a table that none of the further entries drops is
found again with its rows in front: the new ones follow with row times that grow
from one to the next, all of them above the greatest that there was before.
-/
namespace Rowtime

namespace Log

/-! ## Reading inverts writing -/

theorem splitBytes?_eq {n : Nat} {s a r : Bytes} (h : splitBytes? n s = some (a, r)) :
    s = a ++ r := by
  induction n generalizing s a with
  | zero =>
      rw [splitBytes?, Option.some.injEq, Prod.mk.injEq] at h
      rw [← h.1, ← h.2]
      rfl
  | succ n ih =>
      cases s with
      | nil => simp [splitBytes?] at h
      | cons b s =>
          rw [splitBytes?, Option.map_eq_some_iff] at h
          obtain ⟨⟨a', r'⟩, hp, he⟩ := h
          rw [Prod.mk.injEq] at he
          obtain ⟨rfl, rfl⟩ := he
          rw [ih hp]
          rfl

theorem natOfBytes_lt (bs : Bytes) : natOfBytes bs < 256 ^ bs.length := by
  induction bs with
  | nil => rw [natOfBytes, List.length_nil, Nat.pow_zero]; exact Nat.one_pos
  | cons b bs ih =>
      have hb : b.toNat < 256 := b.toNat_lt
      rw [natOfBytes, List.length_cons, Nat.pow_succ]
      omega

theorem encodeNat_natOfBytes (bs : Bytes) : encodeNat bs.length (natOfBytes bs) = bs := by
  induction bs with
  | nil => rfl
  | cons b bs ih =>
      have hb : b.toNat < 256 := b.toNat_lt
      have hlow : UInt8.ofNat (b.toNat + 256 * natOfBytes bs) = b := by
        apply UInt8.toNat_inj.mp
        rw [UInt8.toNat_ofNat']
        omega
      have hhigh : (b.toNat + 256 * natOfBytes bs) / 256 = natOfBytes bs := by omega
      rw [natOfBytes, List.length_cons, encodeNat, hlow, hhigh, ih]

/-- A frame that is taken from a log is the frame of its content. -/
theorem nextFrame?_eq {s p r : Bytes} (h : nextFrame? s = some (p, r)) :
    s = frameOf p ++ r ∧ p.length < 2 ^ 32 := by
  rw [nextFrame?, Option.bind_eq_some_iff] at h
  obtain ⟨⟨a, t⟩, hhead, hbody⟩ := h
  have hal : a.length = headerSize := (splitBytes?_length hhead).1
  have hpl : p.length = natOfBytes a := (splitBytes?_length hbody).1
  constructor
  · have hheader : encodeNat headerSize p.length = a := by
      rw [hpl, ← hal, encodeNat_natOfBytes]
    have htail : t = p ++ r := splitBytes?_eq hbody
    rw [splitBytes?_eq hhead, htail, frameOf, hheader, List.append_assoc]
  · have hlt := natOfBytes_lt a
    rw [hal] at hlt
    rw [hpl]
    exact hlt

/-! ## The whole frames of a log, and the rest -/

/-- The bytes of the whole frames at the front of a log. -/
def settled (log : Bytes) : Bytes := (frames log).flatMap frameOf

/-- What stands behind the whole frames. -/
def torn (log : Bytes) : Bytes := log.drop (settled log).length

theorem frames_spec (log : Bytes) :
    (∀ p ∈ frames log, p.length < 2 ^ 32) ∧ log = settled log ++ torn log ∧
      nextFrame? (torn log) = none := by
  induction log using frames.induct with
  | case1 log hn =>
      have hf : frames log = [] := by
        rw [frames]
        split
        · rfl
        · rename_i hs
          rw [hn] at hs
          simp at hs
      have hs : settled log = [] := by rw [settled, hf]; rfl
      rw [torn, hs, hf]
      exact ⟨by simp, rfl, hn⟩
  | case2 log p r hp ih =>
      obtain ⟨hlen, heq, hend⟩ := ih
      obtain ⟨hlog, hpl⟩ := nextFrame?_eq hp
      have hf : frames log = p :: frames r := by rw [hlog, frames_frameOf hpl]
      have hs : settled log = frameOf p ++ settled r := by rw [settled, hf, List.flatMap_cons]; rfl
      have ht : torn log = torn r := by
        rw [torn, hs, hlog, List.length_append, ← List.drop_drop, List.drop_left]
        rfl
      rw [ht, hs, hf]
      refine ⟨?_, ?_, hend⟩
      · exact List.forall_mem_cons.mpr ⟨hpl, hlen⟩
      · rw [List.append_assoc, ← heq, hlog]

theorem settled_append_torn (log : Bytes) : settled log ++ torn log = log :=
  (frames_spec log).2.1.symm

theorem settled_whole (log : Bytes) : Whole (settled log) :=
  ⟨frames log, (frames_spec log).1, rfl⟩

theorem frames_settled (log : Bytes) : frames (settled log) = frames log :=
  frames_flatMap (frames_spec log).1

theorem database_settled (log : Bytes) : database (settled log) = database log := by
  rw [database, database, operations, operations, entries, entries, frames_settled]

/-- Whatever is appended, the whole frames stay what they were. -/
theorem frames_extended (log more : Bytes) :
    frames (log ++ more) = frames log ++ frames (torn log ++ more) := by
  conv_lhs => rw [← settled_append_torn log, List.append_assoc]
  exact frames_append (frames_spec log).1 _

/-- The operations that a log has beyond those of a part of it at its front. -/
def furtherOperations (log more : Bytes) : List Operation :=
  (operations (log ++ more)).drop (operations log).length

theorem operations_extended (log more : Bytes) :
    operations (log ++ more) = operations log ++ furtherOperations log more := by
  have h : operations (log ++ more) = operations log ++ operations (torn log ++ more) := by
    rw [operations, operations, operations, entries, entries, entries, frames_extended,
      List.filterMap_append, List.map_append]
  rw [furtherOperations, h, List.drop_left]

theorem database_extended (log more : Bytes) :
    database (log ++ more) = replay (database log) (furtherOperations log more) := by
  rw [database, operations_extended, replay_append]
  rfl

/-- No row arrives late. Whatever is appended to a log, a table that is not dropped by it keeps its
columns and its rows, and the new rows follow with row times that grow from row to row and are all
above the greatest there was. -/
theorem arrivals_above {log more : Bytes}
    (hcreated : ∀ n u, .create n u ∈ operations (log ++ more) →
      ∃ name columns, Table.create name columns = .ok u)
    {name : String} {t : Table} (ht : (database log).get? name = some t)
    (hd : ∀ op ∈ furtherOperations log more, ¬op.Drops (Catalog.key name)) :
    ∃ t' added, (database (log ++ more)).get? name = some t' ∧ t.Extends added t' ∧
      t.Valid ∧ t'.Valid := by
  have hnew : ∀ n u, .create n u ∈ operations (log ++ more) → u.Valid := by
    intro n u hm
    obtain ⟨_, _, hc⟩ := hcreated n u hm
    exact (Table.create_spec hc).1
  have hlog : (database log).Valid := by
    apply replay_valid Catalog.empty_valid
    intro n u hm
    apply hnew n u
    rw [operations_extended]
    exact List.mem_append_left _ hm
  have hlonger : (database (log ++ more)).Valid := replay_valid Catalog.empty_valid hnew
  obtain ⟨t', added, ht', hext⟩ := replay_extends hd ht
  rw [← database_extended] at ht'
  exact ⟨t', added, ht', hext, (hlog.get? ht).1, (hlonger.get? ht').1⟩

/-! ## A torn frame is completed -/

/-- A table with one declared column. -/
def samples : Table := ⟨"t", [.rowtime, ⟨"v", .integer, true, false, false, none⟩], [], 0, 0⟩

/-- A log with one row, and a part of a frame behind it. -/
def tornLog : Bytes :=
  (Entry.mk 1 0 (.create "t" samples)).frame ++
    (Entry.mk 2 0 (.insert "t" [.integer 5, .integer 10])).frame ++ [1, 0]

/-- The missing part of the frame, which denotes no entry; the table once more under another name; a
row that comes too late, and one that does not; and a part of a frame again. -/
def laterBytes : Bytes :=
  [0, 0, 7] ++ (Entry.mk 3 0 (.create "T" samples)).frame ++
    (Entry.mk 3 0 (.insert "t" [.integer 5, .integer 20])).frame ++
    (Entry.mk 4 0 (.insert "T" [.integer 8, .integer 30])).frame ++ [9]

theorem samples_created :
    Table.create "t" [⟨"v", .integer, true, false, false, none⟩] = .ok samples := by decide +kernel

theorem arrivals_above_torn :
    operations (tornLog ++ laterBytes) =
        [.create "t" samples, .insert "t" [.integer 5, .integer 10], .create "T" samples,
          .insert "t" [.integer 5, .integer 20], .insert "T" [.integer 8, .integer 30]] ∧
      ∃ t t' added, (database tornLog).get? "t" = some t ∧
        (database (tornLog ++ laterBytes)).get? "t" = some t' ∧ t.Extends added t' ∧
        t.Valid ∧ t'.Valid := by
  have hops : operations (tornLog ++ laterBytes) =
      [.create "t" samples, .insert "t" [.integer 5, .integer 10], .create "T" samples,
        .insert "t" [.integer 5, .integer 20], .insert "T" [.integer 8, .integer 30]] := by
    decide +kernel
  have hcreated : ∀ n u, .create n u ∈ operations (tornLog ++ laterBytes) →
      ∃ name columns, Table.create name columns = .ok u := by
    intro n u hm
    rw [hops] at hm
    simp only [List.mem_cons, Operation.create.injEq, reduceCtorEq, List.not_mem_nil, or_false,
      false_or] at hm
    obtain rfl : u = samples := by rcases hm with h | h <;> exact h.2
    exact ⟨_, _, samples_created⟩
  have ht : (database tornLog).get? "t" =
      some { samples with rows := [[.integer 5, .integer 10]], maxRowtime := 5 } := by
    decide +kernel
  have hd : ∀ op ∈ furtherOperations tornLog laterBytes, ¬op.Drops (Catalog.key "t") := by
    have hlen : (operations tornLog).length = 2 := by decide +kernel
    intro op hm
    rw [furtherOperations, hops, hlen] at hm
    simp only [List.drop_succ_cons, List.drop_zero, List.mem_cons, List.not_mem_nil,
      or_false] at hm
    rcases hm with rfl | rfl | rfl <;> exact id
  exact ⟨hops, _, _, _, ht, (arrivals_above hcreated ht hd).choose_spec.choose_spec⟩

end Log

end Rowtime
