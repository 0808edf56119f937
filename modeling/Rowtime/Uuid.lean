import Rowtime.Text.Hex

/-!
# Universally unique identifiers

A 128-bit number, written as groups of 8, 4, 4, 4 and 12 hexadecimal digits. It
is read with its hyphens, bare, in braces, or behind `urn:uuid:`; with hyphens
only braces or the scheme may stand around it.
-/
namespace Rowtime

/-- A 128-bit identifier. -/
structure Uuid where
  number : Nat
  number_lt : number < Nat.pow 2 128
deriving DecidableEq

namespace Uuid

open Text

/-- The identifier with the given number, if it fits. -/
def ofNat? (n : Nat) : Option Uuid :=
  if h : n < Nat.pow 2 128 then some ⟨n, h⟩ else none

/-- The order of the numbers. -/
def compare (a b : Uuid) : Ordering := Ord.compare a.number b.number

/-- The text of an identifier. -/
def chars (u : Uuid) : List Char :=
  let ds := Hex.lastDigits 32 u.number
  ds.take 8 ++ '-' :: ((ds.drop 8).take 4 ++ '-' :: ((ds.drop 12).take 4 ++
    '-' :: ((ds.drop 16).take 4 ++ '-' :: ds.drop 20)))

/-- The text of an identifier as a string. -/
def display (u : Uuid) : String := String.ofList u.chars

/-- Reads 32 digits without hyphens. -/
def simple? (s : List Char) : Option Uuid :=
  if s.length == 32 then (Hex.value? s).bind ofNat? else none

/-- Reads 36 characters with hyphens in their four places. -/
def hyphenated? (s : List Char) : Option Uuid :=
  if s.length == 36 && s[8]? == some '-' && s[13]? == some '-' && s[18]? == some '-' &&
      s[23]? == some '-' then
    simple? (s.take 8 ++ (s.drop 9).take 4 ++ (s.drop 14).take 4 ++ (s.drop 19).take 4 ++ s.drop 24)
  else none

/-- Reads an identifier in any of its forms. -/
def read? (s : List Char) : Option Uuid :=
  if s.length == 32 then simple? s
  else if s.length == 36 then hyphenated? s
  else if s.length == 38 && s.head? == some '\x7b' && s.getLast? == some '\x7d' then
    hyphenated? ((s.drop 1).dropLast)
  else if s.length == 45 && s.take 9 == "urn:uuid:".toList then hyphenated? (s.drop 9)
  else none

end Uuid

end Rowtime
