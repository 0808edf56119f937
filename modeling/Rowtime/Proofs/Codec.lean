import Rowtime.Proofs.Calendar
import Rowtime.Proofs.Framing

/-!
# Entries are read as they were written

Every decoder takes from the front of a text exactly the bytes of what was encoded,
and gives back the same thing: values of all kinds, types, columns, rows, tables,
operations and entries. One thing is not kept. A decimal is written as text, and a
zero is read without a sign; `plain` is the value, and what contains it, after that.
The two decimals are equal in every comparison, so a plain row fits into a table
where the row itself does.
-/
namespace Rowtime

open Text Log Decoder

/-! ## Plain values -/

/-- The value that is read when this one was written: a decimal zero has no sign. -/
def Value.plain : Value → Value
  | .numeric d => .numeric d.plain
  | v => v

/-- The row of the plain values. -/
def plainRow (row : Row) : Row := row.map Value.plain

/-- The column with a plain default. -/
def Column.plain (c : Column) : Column := { c with defaultValue := c.defaultValue.map Value.plain }

/-- The table with plain rows and defaults. -/
def Table.plain (t : Table) : Table :=
  { t with columns := t.columns.map Column.plain, rows := t.rows.map plainRow }

theorem Decimal.sameValue_plain_left (a b : Decimal) : a.plain.sameValue b = a.sameValue b := by
  simp only [sameValue, compare, atScale_plain]
  rfl

theorem Decimal.sameValue_plain_right (a b : Decimal) : a.sameValue b.plain = a.sameValue b := by
  simp only [sameValue, compare, atScale_plain]
  rfl

/-- A plain value is equal to whatever the value itself is. -/
theorem Value.same_plain_left (v w : Value) : same v.plain w = same v w := by
  cases v with
  | numeric d =>
      cases w with
      | numeric e => exact d.sameValue_plain_left e
      | _ => simp [same, plain]
  | _ => rfl

theorem Value.same_plain_right (v w : Value) : same v w.plain = same v w := by
  cases w with
  | numeric e =>
      cases v with
      | numeric d => exact d.sameValue_plain_right e
      | _ => simp [same, plain]
  | _ => rfl

theorem Decimal.plain_plain (d : Decimal) : d.plain.plain = d.plain := by
  simp [plain]

theorem plainRow_plainRow (row : Row) : plainRow (plainRow row) = plainRow row := by
  have hvalue : Value.plain ∘ Value.plain = Value.plain := by
    funext v
    cases v with
    | numeric d => exact congrArg Value.numeric d.plain_plain
    | _ => rfl
  rw [plainRow, plainRow, List.map_map, hvalue]

theorem Value.isNull_plain (v : Value) : v.plain.isNull = v.isNull := by
  cases v <;> rfl

/-- A new table is valid with plain defaults too. -/
theorem Table.Valid.plain {t : Table} (h : t.Valid) (hr : t.rows = []) : t.plain.Valid := by
  have hrows : t.plain.rows = [] := by rw [Table.plain, hr, List.map_nil]
  constructor
  · exact List.pairwise_map.mpr h.names
  · obtain ⟨c, hc, hrow⟩ := h.rowtime
    refine ⟨c.plain, ?_, hrow⟩
    rw [Table.plain, List.getElem?_map, hc]
    rfl
  · intro c' hc' hk
    obtain ⟨c, hc, rfl⟩ := List.mem_map.mp hc'
    exact h.onlyKey c hc hk
  · simp [hrows]
  · simp [hrows]
  · simp [hrows]
  · rw [hrows]
    change t.maxRowtime = 0
    rw [h.greatest, hr]
    rfl
  · intro i c _
    exact ⟨by simp [hrows], by simp [hrows]⟩

namespace Log

/-- The operation with plain values. -/
def Operation.plain : Operation → Operation
  | .create name t => .create name t.plain
  | .drop name => .drop name
  | .insert name row => .insert name (plainRow row)

theorem Operation.drops_plain {op : Operation} {k : String} : op.plain.Drops k ↔ op.Drops k := by
  cases op <;> exact Iff.rfl

/-- The entry with plain values. -/
def Entry.plain (e : Entry) : Entry := { e with operation := e.operation.plain }

variable {α β : Type}

theorem exact_ofOption {o : Option α} {a : α} (h : o = some a) : Exact (ofOption o) [] a := by
  intro rest
  rw [h]
  rfl

theorem exact_readText {read : List Char → Option α} {cs : List Char} {a : α}
    (h : read cs = some a) (hl : (Value.encodeChars cs).length < 2 ^ 64) :
    Exact (readText read) (Value.encodeChars cs) a := by
  rw [Value.encodeChars, encodeText, encodeBytes, List.length_append] at hl
  have htext : Exact text (Value.encodeChars cs) (String.ofList cs) := exact_text (by omega)
  have hread : Exact (ofOption (read (String.ofList cs).toList)) [] a :=
    exact_ofOption (by rw [String.toList_ofList, h])
  have hb := Exact.bind (f := fun s => ofOption (read s.toList)) htext hread
  rwa [List.append_nil] at hb

theorem exact_times {d : Decoder β} {f : α → Bytes} {g : α → β} {xs : List α}
    (h : ∀ x ∈ xs, Exact d (f x) (g x)) : Exact (times d xs.length) (xs.flatMap f) (xs.map g) := by
  induction xs with
  | nil => exact exact_pure []
  | cons x xs ih =>
      have hrest := ih fun y hy => h y (List.mem_cons_of_mem _ hy)
      rw [List.flatMap_cons]
      exact (h x List.mem_cons_self).bind hrest.map

theorem exact_list {d : Decoder β} {f : α → Bytes} {g : α → β} {xs : List α}
    (hl : xs.length < 2 ^ 64) (h : ∀ x ∈ xs, Exact d (f x) (g x)) :
    Exact (list d) (encodeList f xs) (xs.map g) :=
  (exact_count hl).bind (exact_times h)

theorem exact_option {d : Decoder β} {f : α → Bytes} {g : α → β} {o : Option α}
    (h : ∀ a, o = some a → Exact d (f a) (g a)) :
    Exact (option d) (encodeOption f o) (o.map g) := by
  cases o with
  | none => exact Exact.bind (u := [0]) (v := []) (exact_bool false) (exact_pure _)
  | some a => exact Exact.bind (u := [1]) (exact_bool true) (h a rfl).map

end Log

theorem Uuid.ofBytes?_toBytes (u : Uuid) : ofBytes? u.toBytes = some u := by
  have hnat : natOfBytes (encodeNat 16 u.number) = u.number := natOfBytes_encodeNat u.number_lt
  rw [ofBytes?, toBytes, List.length_reverse, encodeNat_length, if_pos (by rfl),
    List.reverse_reverse, hnat, ofNat?, dif_pos u.number_lt]

/-! ## Values, columns and tables -/

/-- What stands behind the position of an alternative. -/
def Value.body : Value → Bytes
  | .null => []
  | .smallInt i => encodeInt16 i
  | .integer i => encodeInt64 i
  | .real x => encodeWord x.bits
  | .numeric d => encodeChars d.chars
  | .text s | .char s | .json s => encodeText s
  | .boolean b => encodeBool b
  | .date d => encodeChars d.chars
  | .timestamp t => encodeChars (t.chars 'T')
  | .timestampTz t => encodeChars (t.chars 'T' ++ ['Z'])
  | .uuid u => encodeBytes u.toBytes
  | .bytea bs => encodeBytes bs

/-- Takes what stands behind the position of an alternative. -/
def Value.decodeBody : Nat → Decoder Value
  | 0 => return .null
  | 1 => return .smallInt (← Decoder.int16)
  | 2 => return .integer (← Decoder.int64)
  | 3 => return .real ⟨← Decoder.word⟩
  | 4 => return .numeric (← Decoder.readText Decimal.read?)
  | 5 => return .text (← Decoder.text)
  | 6 => return .char (← Decoder.text)
  | 7 => return .boolean (← Decoder.bool)
  | 8 => return .date (← Decoder.readText Date.read?)
  | 9 => return .timestamp (← Decoder.readText (Timestamp.readWith? (Date.mark? 'T')))
  | 10 => return .timestampTz (← Decoder.readText (Timestamp.readZoned? Date.scan?))
  | 11 => do
    let bs ← Decoder.bytes
    return .uuid (← Decoder.ofOption (Uuid.ofBytes? bs))
  | 12 => return .json (← Decoder.text)
  | 13 => return .bytea (← Decoder.bytes)
  | _ => Decoder.fail

theorem Value.decode_eq : Value.decode = Decoder.choice >>= Value.decodeBody := rfl

/-- The position of a value among the alternatives. -/
def Value.position : Value → Nat
  | .null => 0
  | .smallInt _ => 1
  | .integer _ => 2
  | .real _ => 3
  | .numeric _ => 4
  | .text _ => 5
  | .char _ => 6
  | .boolean _ => 7
  | .date _ => 8
  | .timestamp _ => 9
  | .timestampTz _ => 10
  | .uuid _ => 11
  | .json _ => 12
  | .bytea _ => 13

theorem Value.encode_eq (v : Value) : v.encode = encodeChoice v.position ++ v.body := by
  cases v <;> rfl

theorem Value.encode_pos (v : Value) : 0 < v.encode.length := by
  rw [encode_eq, List.length_append, encodeChoice, encodeNat_length]
  omega

namespace Value

theorem exact_body {v : Value} (h : v.body.length < 2 ^ 64) :
    Exact (decodeBody v.position) v.body v.plain := by
  have htext : ∀ {s : String}, (encodeText s).length < 2 ^ 64 →
      Exact Decoder.text (encodeText s) s := by
    intro s hs
    rw [encodeText, encodeBytes, List.length_append] at hs
    exact exact_text (by omega)
  have hbytes : ∀ {bs : Bytes}, (encodeBytes bs).length < 2 ^ 64 →
      Exact bytes (encodeBytes bs) bs := by
    intro bs hs
    rw [encodeBytes, List.length_append] at hs
    exact exact_bytes (by omega)
  cases v with
  | null => exact exact_pure _
  | smallInt i => exact (exact_int16 i).map
  | integer i => exact (exact_int64 i).map
  | real x => exact (exact_word x.bits).map
  | numeric d => exact (exact_readText d.read?_chars h).map
  | text s => exact (htext h).map
  | char s => exact (htext h).map
  | boolean b => exact (exact_bool b).map
  | date d => exact (exact_readText d.read?_chars h).map
  | timestamp t => exact (exact_readText t.readWith?_chars h).map
  | timestampTz t => exact (exact_readText t.readZoned?_chars h).map
  | uuid u =>
      have hread := (exact_ofOption u.ofBytes?_toBytes).map (f := Value.uuid)
      have hb := Exact.bind
        (f := fun bs => ofOption (Uuid.ofBytes? bs) >>= fun u => pure (Value.uuid u))
        (hbytes h) hread
      rwa [List.append_nil] at hb
  | json s => exact (htext h).map
  | bytea bs => exact (hbytes h).map

theorem position_lt (v : Value) : v.position < 2 ^ 32 := by
  cases v <;> simp [position]

theorem exact_decode {v : Value} (h : v.encode.length < 2 ^ 64) :
    Exact Value.decode v.encode v.plain := by
  rw [encode_eq, List.length_append] at h
  rw [encode_eq, decode_eq]
  exact (exact_choice v.position_lt).bind (exact_body (by omega))

end Value

theorem exact_row {row : Row} (h : (encodeRow row).length < 2 ^ 64) :
    Exact decodeRow (encodeRow row) (plainRow row) := by
  rw [encodeRow, encodeList, List.length_append] at h
  have hl := length_le_flatMap Value.encode_pos row
  refine exact_list (by omega) fun v hv => ?_
  have := length_le_of_mem (f := Value.encode) hv
  exact Value.exact_decode (by omega)

theorem encodeRow_pos (row : Row) : 0 < (encodeRow row).length := by
  rw [encodeRow, encodeList, List.length_append, encodeCount, encodeNat_length]
  omega

theorem SqlType.exact_decode (t : SqlType) : Exact SqlType.decode t.encode t := by
  cases t with
  | numeric p s =>
      have hp : p.toNat < 256 ^ 1 := by simpa using p.toNat_lt
      have hs : s.toNat < 256 ^ 1 := by simpa using s.toNat_lt
      rw [SqlType.encode, List.append_assoc]
      refine (exact_choice (n := 4) (by decide)).bind ?_
      refine (exact_nat hp).bind ?_
      have hps := (exact_nat hs).map
        (f := fun n => SqlType.numeric (UInt8.ofNat p.toNat) (UInt8.ofNat n))
      simpa only [UInt8.ofNat_toNat] using hps
  | varchar n => exact (exact_choice (n := 6) (by decide)).bind (exact_word n).map
  | char n => exact (exact_choice (n := 7) (by decide)).bind (exact_word n).map
  | smallInt | integer | bigInt | real | text | boolean | date | timestamp | timestampTz | uuid
    | json | bytea =>
      exact Exact.bind (v := []) (exact_choice (by decide)) (exact_pure _)

theorem Column.encode_pos (c : Column) : 0 < c.encode.length := by
  have hname : 0 < (encodeText c.name).length := by
    rw [encodeText, encodeBytes, List.length_append, encodeCount, encodeNat_length]
    omega
  rw [Column.encode]
  simp only [List.length_append]
  omega

theorem Column.exact_decode {c : Column} (h : c.encode.length < 2 ^ 64) :
    Exact Column.decode c.encode c.plain := by
  simp only [Column.encode, encodeText, encodeBytes, List.length_append] at h
  have hdefault : ∀ v, c.defaultValue = some v → Exact Value.decode v.encode v.plain := by
    intro v hv
    rw [hv, encodeOption, List.length_cons] at h
    exact Value.exact_decode (by omega)
  simp only [Column.encode, List.append_assoc]
  refine (exact_text (by omega)).bind ?_
  refine (SqlType.exact_decode c.type).bind ?_
  refine (exact_bool c.nullable).bind ?_
  refine (exact_bool c.primaryKey).bind ?_
  refine (exact_bool c.unique).bind ?_
  exact (exact_option hdefault).map

/-- A table is read with its rows. -/
theorem Table.exact_decode {t : Table} (hidx : t.rowtimeIndex < 2 ^ 64)
    (h : t.encode.length < 2 ^ 64) : Exact Table.decode t.encode t.plain := by
  simp only [Table.encode, encodeText, encodeBytes, encodeList, List.length_append] at h
  have hcolumns := length_le_flatMap Column.encode_pos t.columns
  have hrows := length_le_flatMap encodeRow_pos t.rows
  simp only [Table.encode, List.append_assoc]
  refine (exact_text (by omega)).bind ?_
  refine Exact.bind (a := t.columns.map Column.plain) (exact_list (by omega) fun c hc => ?_) ?_
  · have := length_le_of_mem (f := Column.encode) hc
    exact Column.exact_decode (by omega)
  refine Exact.bind (a := t.rows.map plainRow) (exact_list (by omega) fun r hr => ?_) ?_
  · have := length_le_of_mem (f := encodeRow) hr
    exact exact_row (by omega)
  refine (exact_count hidx).bind ?_
  exact (exact_int64 t.maxRowtime).map

/-! ## Operations and entries -/

namespace Log

/-- The position in a created table fits into a count. -/
def Operation.Indexed : Operation → Prop
  | .create _ t => t.rowtimeIndex < 2 ^ 64
  | _ => True

/-- An entry that can be written: its length fits into four bytes, and so does what it counts into
eight. -/
structure Entry.Fits (e : Entry) : Prop where
  length_lt : e.encode.length < 2 ^ 32
  indexed : e.operation.Indexed

theorem Operation.exact_decode {op : Operation} (hidx : op.Indexed)
    (h : op.encode.length < 2 ^ 64) : Exact Operation.decode op.encode op.plain := by
  cases op with
  | create name t =>
      simp only [Operation.encode, encodeText, encodeBytes, List.length_append] at h
      simp only [Operation.encode, List.append_assoc]
      refine (exact_choice (n := 0) (by decide)).bind ?_
      refine (exact_text (by omega)).bind ?_
      exact (Table.exact_decode hidx (by omega)).map
  | drop name =>
      simp only [Operation.encode, encodeText, encodeBytes, List.length_append] at h
      refine (exact_choice (n := 1) (by decide)).bind ?_
      exact (exact_text (by omega)).map
  | insert name row =>
      simp only [Operation.encode, encodeText, encodeBytes, List.length_append] at h
      simp only [Operation.encode, List.append_assoc]
      refine (exact_choice (n := 2) (by decide)).bind ?_
      refine (exact_text (by omega)).bind ?_
      exact (exact_row (by omega)).map

/-- An entry is read from its bytes. -/
theorem Entry.Fits.ofBytes? {e : Entry} (h : e.Fits) : Entry.ofBytes? e.encode = some e.plain := by
  have hl := h.length_lt
  rw [Entry.encode, List.length_append] at hl
  have hread : Exact Entry.decode e.encode e.plain := by
    simp only [Entry.encode, List.append_assoc]
    refine (exact_word e.sequence).bind ?_
    refine (exact_word e.timestamp).bind ?_
    exact (Operation.exact_decode h.indexed (by omega)).map
  have hrun := hread []
  rw [List.append_nil] at hrun
  rw [Entry.ofBytes?, hrun]
  rfl

/-! ## Logs of entries -/

theorem flatMap_frame (es : List Entry) :
    es.flatMap Entry.frame = (es.map Entry.encode).flatMap frameOf := by
  rw [List.flatMap_map]
  rfl

theorem whole_entries {es : List Entry} (hes : ∀ e ∈ es, e.encode.length < 2 ^ 32) :
    Whole (es.flatMap Entry.frame) :=
  ⟨es.map Entry.encode, List.forall_mem_map.mpr hes, flatMap_frame es⟩

/-- The entries that are read are the plain ones of those that were written. -/
theorem filterMap_encode {es : List Entry} (hes : ∀ e ∈ es, e.Fits) :
    (es.map Entry.encode).filterMap Entry.ofBytes? = es.map Entry.plain := by
  induction es with
  | nil => rfl
  | cons e es ih =>
      have hrest := ih fun d hd => hes d (List.mem_cons_of_mem _ hd)
      rw [List.map_cons, List.map_cons,
        List.filterMap_cons_some (hes e List.mem_cons_self).ofBytes?, hrest]

theorem entries_flatMap {es : List Entry} (hes : ∀ e ∈ es, e.Fits) :
    entries (es.flatMap Entry.frame) = es.map Entry.plain := by
  have hlength : ∀ p ∈ es.map Entry.encode, p.length < 2 ^ 32 :=
    List.forall_mem_map.mpr fun e he => (hes e he).length_lt
  rw [entries, flatMap_frame, frames_flatMap hlength, filterMap_encode hes]

theorem operations_entries {es : List Entry} (hes : ∀ e ∈ es, e.Fits) :
    operations (es.flatMap Entry.frame) = es.map fun e => e.operation.plain := by
  rw [operations, entries_flatMap hes, List.map_map]
  rfl

end Log

end Rowtime
