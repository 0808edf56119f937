/-!
# Hexadecimal text of bytes

Two lower-case digits per byte when written; either case is read. Reading
refuses an odd number of digits and any other character.
-/
namespace Rowtime.Text.Hex

/-- The value of one hexadecimal digit of either case. -/
def digit? (c : Char) : Option Nat :=
  if '0' ≤ c && c ≤ '9' then some (c.toNat - 48)
  else if 'a' ≤ c && c ≤ 'f' then some (c.toNat - 87)
  else if 'A' ≤ c && c ≤ 'F' then some (c.toNat - 55)
  else none

/-- The lower-case digit with the given value, taken modulo sixteen. -/
def toChar (n : Nat) : Char :=
  let d := n % 16
  if d < 10 then Char.ofNat (48 + d) else Char.ofNat (87 + d)

/-- The last `width` hexadecimal digits of a number, most significant first. -/
def lastDigits : Nat → Nat → List Char
  | 0, _ => []
  | w + 1, n => lastDigits w (n / 16) ++ [toChar n]

/-- How many hexadecimal digits a number has; zero has one. -/
def count (n : Nat) : Nat :=
  if _h : n < 16 then 1 else count (n / 16) + 1
termination_by n

/-- The hexadecimal digits of a number without leading zeros. -/
def ofNat (n : Nat) : List Char :=
  lastDigits (count n) n

/-- Two digits for each byte. -/
def encode : List UInt8 → List Char
  | [] => []
  | b :: r => toChar (b.toNat / 16) :: toChar b.toNat :: encode r

/-- Reads pairs of digits; nothing else is accepted. -/
def decode? : List Char → Option (List UInt8)
  | [] => some []
  | [_] => none
  | h :: l :: r =>
    match digit? h, digit? l, decode? r with
    | some a, some b, some bs => some (UInt8.ofNat (a * 16 + b) :: bs)
    | _, _, _ => none

/-- Reads a whole text of hexadecimal digits as one number. -/
def value? (s : List Char) : Option Nat :=
  s.foldl (fun acc c => acc.bind fun n => (digit? c).map (n * 16 + ·)) (some 0)

end Rowtime.Text.Hex
