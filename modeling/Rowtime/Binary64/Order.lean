import Rowtime.Binary64.Basic

/-!
# Order of binary64 numbers

Words that are not a number are unordered; both zeros are equal; all other words
are ordered as their values, which is the order of the magnitudes with the sign
applied.
-/
namespace Rowtime.Binary64

/-- An integer that is ordered as the values are. -/
def orderKey (x : Binary64) : Int :=
  if x.negative then -(x.magnitude : Int) else x.magnitude

/-- Compares two values; there is no answer when one is not a number. -/
def compare? (a b : Binary64) : Option Ordering :=
  if a.isNaN || b.isNaN then none else some (compare a.orderKey b.orderKey)

/-- Equality of values: both zeros are equal, and what is not a number differs from all. -/
def sameValue (a b : Binary64) : Bool :=
  a.compare? b == some .eq

end Rowtime.Binary64
