/-!
# Bytes

Numbers are written with a fixed count of bytes, least significant first. Texts
and lists are written behind the number of their bytes or elements, a choice
behind its position among the alternatives. A `Decoder` takes a value from the
front of a list of bytes and leaves the rest; it fails when bytes are missing or
do not denote a value.
-/
namespace Rowtime.Log

/-- The content of a log, or of a part of it. -/
abbrev Bytes := List UInt8

/-- A reader that takes a value from the front and leaves the rest. -/
abbrev Decoder := StateT Bytes Option

/-- The `width` lowest bytes of a number, least significant first. -/
def encodeNat : Nat → Nat → Bytes
  | 0, _ => []
  | w + 1, n => UInt8.ofNat n :: encodeNat w (n / 256)

/-- The number that bytes denote, the least significant first. -/
def natOfBytes : Bytes → Nat
  | [] => 0
  | b :: r => b.toNat + 256 * natOfBytes r

/-- The first `n` bytes and the rest, if there are so many. -/
def splitBytes? : Nat → Bytes → Option (Bytes × Bytes)
  | 0, s => some ([], s)
  | _ + 1, [] => none
  | n + 1, b :: r => (splitBytes? n r).map fun p => (b :: p.1, p.2)

/-- A byte for a truth value. -/
def encodeBool (b : Bool) : Bytes := [if b then 1 else 0]

/-- A 16-bit integer in two's complement. -/
def encodeInt16 (i : Int16) : Bytes := encodeNat 2 i.toUInt16.toNat

/-- A 64-bit integer in two's complement. -/
def encodeInt64 (i : Int64) : Bytes := encodeNat 8 i.toUInt64.toNat

/-- A number of 64 bits. -/
def encodeWord (n : UInt64) : Bytes := encodeNat 8 n.toNat

/-- The number of a thing that follows: the count of its bytes or elements. -/
def encodeCount (n : Nat) : Bytes := encodeNat 8 n

/-- The position of an alternative. -/
def encodeChoice (n : Nat) : Bytes := encodeNat 4 n

/-- Bytes behind their count. -/
def encodeBytes (bs : Bytes) : Bytes := encodeCount bs.length ++ bs

/-- The UTF-8 form of a text. -/
def utf8 (s : String) : Bytes := s.toByteArray.data.toList

/-- A text in UTF-8 behind the count of its bytes. -/
def encodeText (s : String) : Bytes := encodeBytes (utf8 s)

/-- The elements of a list behind their count. -/
def encodeList (f : α → Bytes) (xs : List α) : Bytes := encodeCount xs.length ++ xs.flatMap f

/-- A byte that tells whether a value follows, and the value. -/
def encodeOption (f : α → Bytes) : Option α → Bytes
  | none => [0]
  | some a => 1 :: f a

namespace Decoder

/-- Gives up. -/
def fail : Decoder α := fun _ => none

/-- The value of an option, or failure. -/
def ofOption : Option α → Decoder α
  | some a => pure a
  | none => fail

/-- Takes the next `n` bytes. -/
def take (n : Nat) : Decoder Bytes := fun s => splitBytes? n s

/-- Takes a number of `width` bytes. -/
def nat (width : Nat) : Decoder Nat := do
  let bs ← take width
  return natOfBytes bs

/-- Takes a truth value; only the bytes zero and one denote one. -/
def bool : Decoder Bool := do
  match ← nat 1 with
  | 0 => return false
  | 1 => return true
  | _ => fail

/-- Takes a 16-bit integer. -/
def int16 : Decoder Int16 := do
  let n ← nat 2
  return (UInt16.ofNat n).toInt16

/-- Takes a 64-bit integer. -/
def int64 : Decoder Int64 := do
  let n ← nat 8
  return (UInt64.ofNat n).toInt64

/-- Takes a number of 64 bits. -/
def word : Decoder UInt64 := do
  let n ← nat 8
  return UInt64.ofNat n

/-- Takes a count. -/
def count : Decoder Nat := nat 8

/-- Takes the position of an alternative. -/
def choice : Decoder Nat := nat 4

/-- Takes bytes behind their count. -/
def bytes : Decoder Bytes := do
  let n ← count
  take n

/-- Takes a text; its bytes have to be valid UTF-8. -/
def text : Decoder String := do
  let bs ← bytes
  ofOption (String.fromUTF8? ⟨bs.toArray⟩)

/-- Takes the given number of elements. -/
def times (d : Decoder α) : Nat → Decoder (List α)
  | 0 => pure []
  | n + 1 => do
    let a ← d
    let r ← times d n
    return a :: r

/-- Takes a list behind the count of its elements. -/
def list (d : Decoder α) : Decoder (List α) := do
  let n ← count
  times d n

/-- Takes a value if a byte says that there is one. -/
def option (d : Decoder α) : Decoder (Option α) := do
  if ← bool then
    let a ← d
    return some a
  else return none

/-- Takes a text that `read` understands. -/
def readText (read : List Char → Option α) : Decoder α := do
  let s ← text
  ofOption (read s.toList)

end Decoder

end Rowtime.Log
