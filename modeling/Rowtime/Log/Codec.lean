import Rowtime.Log.Bytes
import Rowtime.Log.Operation

/-!
# Entries as bytes

The binary form of an entry of the log and of everything in it. Fields follow
one another in the order of their declaration. Decimals, dates and timestamps
are kept as text, a timestamp with a `T` before its time and one in universal
time with a `Z` at the end; identifiers and byte strings are kept as bytes.

Each `encode` function stands beside the decoder of what it writes.
-/
namespace Rowtime

open Text Log

namespace Uuid

/-- The sixteen bytes of an identifier, most significant first. -/
def toBytes (u : Uuid) : Bytes := (encodeNat 16 u.number).reverse

/-- The identifier of sixteen bytes. -/
def ofBytes? (bs : Bytes) : Option Uuid :=
  if bs.length == 16 then ofNat? (natOfBytes bs.reverse) else none

end Uuid

namespace Value

/-- Characters as a text. -/
def encodeChars (cs : List Char) : Bytes := encodeText (String.ofList cs)

/-- The bytes of a value. -/
def encode : Value → Bytes
  | .null => encodeChoice 0
  | .smallInt i => encodeChoice 1 ++ encodeInt16 i
  | .integer i => encodeChoice 2 ++ encodeInt64 i
  | .real x => encodeChoice 3 ++ encodeWord x.bits
  | .numeric d => encodeChoice 4 ++ encodeChars d.chars
  | .text s => encodeChoice 5 ++ encodeText s
  | .char s => encodeChoice 6 ++ encodeText s
  | .boolean b => encodeChoice 7 ++ encodeBool b
  | .date d => encodeChoice 8 ++ encodeChars d.chars
  | .timestamp t => encodeChoice 9 ++ encodeChars (t.chars 'T')
  | .timestampTz t => encodeChoice 10 ++ encodeChars (t.chars 'T' ++ ['Z'])
  | .uuid u => encodeChoice 11 ++ encodeBytes u.toBytes
  | .json s => encodeChoice 12 ++ encodeText s
  | .bytea bs => encodeChoice 13 ++ encodeBytes bs

/-- Takes a value. -/
def decode : Decoder Value := do
  match ← Decoder.choice with
  | 0 => return .null
  | 1 => return .smallInt (← Decoder.int16)
  | 2 => return .integer (← Decoder.int64)
  | 3 => return .real ⟨← Decoder.word⟩
  | 4 => return .numeric (← Decoder.readText Decimal.read?)
  | 5 => return .text (← Decoder.text)
  | 6 => return .char (← Decoder.text)
  | 7 => return .boolean (← Decoder.bool)
  | 8 => return .date (← Decoder.readText Date.read?)
  | 9 => return .timestamp (← Decoder.readText (Timestamp.readWith? (Date.mark? 'T')))
  | 10 => return .timestampTz (← Decoder.readText (Timestamp.readZoned? Date.scan?))
  | 11 => do
    let bs ← Decoder.bytes
    return .uuid (← Decoder.ofOption (Uuid.ofBytes? bs))
  | 12 => return .json (← Decoder.text)
  | 13 => return .bytea (← Decoder.bytes)
  | _ => Decoder.fail

end Value

namespace SqlType

/-- The bytes of a type. -/
def encode : SqlType → Bytes
  | .smallInt => encodeChoice 0
  | .integer => encodeChoice 1
  | .bigInt => encodeChoice 2
  | .real => encodeChoice 3
  | .numeric p s => encodeChoice 4 ++ encodeNat 1 p.toNat ++ encodeNat 1 s.toNat
  | .text => encodeChoice 5
  | .varchar n => encodeChoice 6 ++ encodeWord n
  | .char n => encodeChoice 7 ++ encodeWord n
  | .boolean => encodeChoice 8
  | .date => encodeChoice 9
  | .timestamp => encodeChoice 10
  | .timestampTz => encodeChoice 11
  | .uuid => encodeChoice 12
  | .json => encodeChoice 13
  | .bytea => encodeChoice 14

/-- Takes a type. -/
def decode : Decoder SqlType := do
  match ← Decoder.choice with
  | 0 => return .smallInt
  | 1 => return .integer
  | 2 => return .bigInt
  | 3 => return .real
  | 4 => do
    let p ← Decoder.nat 1
    let s ← Decoder.nat 1
    return .numeric (UInt8.ofNat p) (UInt8.ofNat s)
  | 5 => return .text
  | 6 => return .varchar (← Decoder.word)
  | 7 => return .char (← Decoder.word)
  | 8 => return .boolean
  | 9 => return .date
  | 10 => return .timestamp
  | 11 => return .timestampTz
  | 12 => return .uuid
  | 13 => return .json
  | 14 => return .bytea
  | _ => Decoder.fail

end SqlType

namespace Column

/-- The bytes of a column. -/
def encode (c : Column) : Bytes :=
  encodeText c.name ++ c.type.encode ++ encodeBool c.nullable ++ encodeBool c.primaryKey ++
    encodeBool c.unique ++ encodeOption Value.encode c.defaultValue

/-- Takes a column. -/
def decode : Decoder Column := do
  let name ← Decoder.text
  let type ← SqlType.decode
  let nullable ← Decoder.bool
  let primaryKey ← Decoder.bool
  let unique ← Decoder.bool
  let defaultValue ← Decoder.option Value.decode
  return ⟨name, type, nullable, primaryKey, unique, defaultValue⟩

end Column

/-- The bytes of a row. -/
def encodeRow (row : Row) : Bytes := encodeList Value.encode row

/-- Takes a row. -/
def decodeRow : Decoder Row := Decoder.list Value.decode

namespace Table

/-- The bytes of a table. -/
def encode (t : Table) : Bytes :=
  encodeText t.name ++ encodeList Column.encode t.columns ++ encodeList encodeRow t.rows ++
    encodeCount t.rowtimeIndex ++ encodeInt64 t.maxRowtime

/-- Takes a table. -/
def decode : Decoder Table := do
  let name ← Decoder.text
  let columns ← Decoder.list Column.decode
  let rows ← Decoder.list decodeRow
  let rowtimeIndex ← Decoder.count
  let maxRowtime ← Decoder.int64
  return ⟨name, columns, rows, rowtimeIndex, maxRowtime⟩

end Table

namespace Log

/-- The bytes of an operation. -/
def Operation.encode : Operation → Bytes
  | .create name t => encodeChoice 0 ++ encodeText name ++ t.encode
  | .drop name => encodeChoice 1 ++ encodeText name
  | .insert name row => encodeChoice 2 ++ encodeText name ++ encodeRow row

/-- Takes an operation. -/
def Operation.decode : Decoder Operation := do
  match ← Decoder.choice with
  | 0 => do
    let name ← Decoder.text
    let t ← Table.decode
    return .create name t
  | 1 => return .drop (← Decoder.text)
  | 2 => do
    let name ← Decoder.text
    let row ← decodeRow
    return .insert name row
  | _ => Decoder.fail

/-- The bytes of an entry. -/
def Entry.encode (e : Entry) : Bytes :=
  encodeWord e.sequence ++ encodeWord e.timestamp ++ e.operation.encode

/-- Takes an entry. -/
def Entry.decode : Decoder Entry := do
  let sequence ← Decoder.word
  let timestamp ← Decoder.word
  let operation ← Operation.decode
  return ⟨sequence, timestamp, operation⟩

/-- The entry at the front of a list of bytes; what follows it does not matter. -/
def Entry.ofBytes? (s : Bytes) : Option Entry := (Entry.decode.run s).map (·.1)

end Log

end Rowtime
