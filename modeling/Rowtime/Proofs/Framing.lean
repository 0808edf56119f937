import Mathlib.Algebra.Group.Nat.Defs
import Mathlib.Data.List.Forall2
import Rowtime.Log.Frame
import Rowtime.Proofs.Databases

/-!
# What is read from what was written

A decoder is exact on the bytes of a thing when it takes these bytes and no more,
whatever is behind them, and gives the thing back. Numbers, truth values, texts and
counts are read exactly. So is a frame, as its length says where it ends, and a log
of whole frames is read frame by frame.
-/
namespace Rowtime

open Text

namespace Log

variable {α β : Type}

/-- The decoder takes exactly the bytes and gives the value. -/
def Decoder.Exact (d : Decoder α) (bs : Bytes) (a : α) : Prop :=
  ∀ rest, d.run (bs ++ rest) = some (a, rest)

namespace Decoder

theorem exact_pure (a : α) : Exact (pure a : Decoder α) [] a := fun _ => rfl

theorem Exact.bind {d : Decoder α} {f : α → Decoder β} {u v : Bytes} {a : α} {b : β}
    (h : Exact d u a) (k : Exact (f a) v b) : Exact (d >>= f) (u ++ v) b := by
  intro rest
  rw [List.append_assoc, StateT.run_bind, h]
  exact k rest

theorem Exact.map {d : Decoder α} {f : α → β} {bs : Bytes} {a : α} (h : Exact d bs a) :
    Exact (d >>= fun a => Pure.pure (f a)) bs (f a) := by
  intro rest
  rw [StateT.run_bind, h]
  rfl

end Decoder

open Decoder

/-! ## Numbers and texts -/

@[simp] theorem encodeNat_length (w n : Nat) : (encodeNat w n).length = w := by
  induction w generalizing n with
  | zero => rfl
  | succ w ih => rw [encodeNat, List.length_cons, ih]

theorem natOfBytes_encodeNat {w n : Nat} (h : n < 256 ^ w) : natOfBytes (encodeNat w n) = n := by
  induction w generalizing n with
  | zero =>
      rw [Nat.pow_zero] at h
      rw [encodeNat, natOfBytes]
      omega
  | succ w ih =>
      rw [Nat.pow_succ] at h
      have hd : n / 256 < 256 ^ w := Nat.div_lt_of_lt_mul (by omega)
      rw [encodeNat, natOfBytes, ih hd, UInt8.toNat_ofNat']
      omega

theorem splitBytes?_append (bs rest : Bytes) :
    splitBytes? bs.length (bs ++ rest) = some (bs, rest) := by
  induction bs with
  | nil => rfl
  | cons b bs ih => rw [List.length_cons, List.cons_append, splitBytes?, ih]; rfl

theorem exact_take (bs : Bytes) : Exact (take bs.length) bs bs := splitBytes?_append bs

theorem exact_nat {w n : Nat} (h : n < 256 ^ w) : Exact (nat w) (encodeNat w n) n := by
  have ht := exact_take (encodeNat w n)
  rw [encodeNat_length] at ht
  have hm := ht.map (f := natOfBytes)
  rwa [natOfBytes_encodeNat h] at hm

theorem exact_count {n : Nat} (h : n < 2 ^ 64) : Exact count (encodeCount n) n :=
  exact_nat (by simpa using h)

theorem exact_choice {n : Nat} (h : n < 2 ^ 32) : Exact choice (encodeChoice n) n :=
  exact_nat (by simpa using h)

theorem exact_word (n : UInt64) : Exact word (encodeWord n) n := by
  have hm := (exact_nat (w := 8) (n := n.toNat) (by simpa using n.toNat_lt)).map (f := UInt64.ofNat)
  rwa [UInt64.ofNat_toNat] at hm

theorem exact_int64 (i : Int64) : Exact int64 (encodeInt64 i) i := by
  have hm := (exact_nat (w := 8) (n := i.toUInt64.toNat) (by simpa using i.toUInt64.toNat_lt)).map
    (f := fun n => (UInt64.ofNat n).toInt64)
  rwa [UInt64.ofNat_toNat] at hm

theorem exact_int16 (i : Int16) : Exact int16 (encodeInt16 i) i := by
  have hm := (exact_nat (w := 2) (n := i.toUInt16.toNat) (by simpa using i.toUInt16.toNat_lt)).map
    (f := fun n => (UInt16.ofNat n).toInt16)
  rwa [UInt16.ofNat_toNat] at hm

theorem exact_bool (b : Bool) : Exact bool (encodeBool b) b := by
  cases b <;> exact fun _ => rfl

theorem exact_bytes {bs : Bytes} (h : bs.length < 2 ^ 64) : Exact bytes (encodeBytes bs) bs :=
  (exact_count h).bind (exact_take bs)

theorem fromUTF8?_utf8 (s : String) : String.fromUTF8? ⟨(utf8 s).toArray⟩ = some s := by
  have hs : (⟨(utf8 s).toArray⟩ : ByteArray) = s.toByteArray := rfl
  rw [hs, String.fromUTF8?, dif_pos s.isValidUTF8]
  rfl

theorem exact_text {s : String} (h : (utf8 s).length < 2 ^ 64) : Exact text (encodeText s) s := by
  intro rest
  change (bytes >>= fun bs => ofOption (String.fromUTF8? ⟨bs.toArray⟩)).run _ = _
  rw [StateT.run_bind, encodeText, exact_bytes h]
  change (ofOption (String.fromUTF8? ⟨(utf8 s).toArray⟩)).run rest = _
  rw [fromUTF8?_utf8]
  rfl

/-! ## Lengths of lists -/

theorem length_le_flatMap {f : α → Bytes} (hf : ∀ a, 0 < (f a).length) (xs : List α) :
    xs.length ≤ (xs.flatMap f).length := by
  induction xs with
  | nil => simp
  | cons x xs ih =>
      have := hf x
      rw [List.flatMap_cons, List.length_append, List.length_cons]
      omega

theorem length_le_of_mem {f : α → Bytes} {xs : List α} {x : α} (h : x ∈ xs) :
    (f x).length ≤ (xs.flatMap f).length := by
  obtain ⟨as, bs, rfl⟩ := List.append_of_mem h
  simp only [List.flatMap_append, List.flatMap_cons, List.length_append]
  omega

/-! ## Frames -/

/-- A list of frames, each with a length that its header can hold. -/
def Whole (log : Bytes) : Prop :=
  ∃ ps : List Bytes, (∀ p ∈ ps, p.length < 2 ^ 32) ∧ log = ps.flatMap frameOf

theorem nextFrame?_frameOf {p : Bytes} (h : p.length < 2 ^ 32) (rest : Bytes) :
    nextFrame? (frameOf p ++ rest) = some (p, rest) := by
  have hheader : splitBytes? headerSize (encodeNat headerSize p.length ++ (p ++ rest)) =
      some (encodeNat headerSize p.length, p ++ rest) := by
    have := splitBytes?_append (encodeNat headerSize p.length) (p ++ rest)
    rwa [encodeNat_length] at this
  rw [nextFrame?, frameOf, List.append_assoc, hheader, Option.bind_some,
    natOfBytes_encodeNat (by simpa [headerSize] using h)]
  exact splitBytes?_append p rest

theorem frames_nil : frames [] = [] := by
  rw [frames]
  rfl

theorem frames_frameOf {p : Bytes} (h : p.length < 2 ^ 32) (rest : Bytes) :
    frames (frameOf p ++ rest) = p :: frames rest := by
  rw [frames]
  split
  · rename_i hn
    rw [nextFrame?_frameOf h] at hn
    simp at hn
  · rename_i q r hq
    rw [nextFrame?_frameOf h, Option.some.injEq, Prod.mk.injEq] at hq
    rw [hq.1, hq.2]

theorem frames_append {ps : List Bytes} (h : ∀ p ∈ ps, p.length < 2 ^ 32) (rest : Bytes) :
    frames (ps.flatMap frameOf ++ rest) = ps ++ frames rest := by
  induction ps with
  | nil => rfl
  | cons p ps ih =>
      rw [List.flatMap_cons, List.append_assoc, frames_frameOf (h p (by simp)),
        ih fun q hq => h q (by simp [hq])]
      rfl

theorem frames_flatMap {ps : List Bytes} (h : ∀ p ∈ ps, p.length < 2 ^ 32) :
    frames (ps.flatMap frameOf) = ps := by
  have hf := frames_append h []
  rwa [List.append_nil, frames_nil, List.append_nil] at hf

theorem framesSize_eq (ps : List Bytes) : framesSize ps = (ps.flatMap frameOf).length := by
  induction ps with
  | nil => rfl
  | cons p ps ih =>
      rw [List.flatMap_cons, List.length_append, ← ih]
      simp [framesSize, frameOf]

theorem Whole.nil : Whole [] := ⟨[], by simp, rfl⟩

theorem Whole.append {log more : Bytes} (h : Whole log) (k : Whole more) : Whole (log ++ more) := by
  obtain ⟨ps, hp, rfl⟩ := h
  obtain ⟨qs, hq, rfl⟩ := k
  refine ⟨ps ++ qs, fun p hm => ?_, by rw [List.flatMap_append]⟩
  rcases List.mem_append.mp hm with hm | hm
  · exact hp p hm
  · exact hq p hm

/-- The operations of the entries of a log. -/
def operations (log : Bytes) : List Operation := (entries log).map (·.operation)

/-- The database that a log denotes. -/
def database (log : Bytes) : Catalog := replay .empty (operations log)

theorem operations_nil : operations [] = [] := by
  rw [operations, entries, frames_nil]
  rfl

theorem entries_append {log : Bytes} (h : Whole log) (more : Bytes) :
    entries (log ++ more) = entries log ++ entries more := by
  obtain ⟨ps, hp, rfl⟩ := h
  rw [entries, entries, entries, frames_append hp, frames_flatMap hp, List.filterMap_append]

theorem operations_append {log : Bytes} (h : Whole log) (more : Bytes) :
    operations (log ++ more) = operations log ++ operations more := by
  rw [operations, operations, operations, entries_append h, List.map_append]

theorem database_append {log : Bytes} (h : Whole log) (more : Bytes) :
    database (log ++ more) = replay (database log) (operations more) := by
  rw [database, operations_append h, replay_append]
  rfl

end Log

end Rowtime
