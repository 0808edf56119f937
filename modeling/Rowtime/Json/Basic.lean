import Rowtime.Binary64.Order

/-!
# JSON documents

A `Json` is a document; the members of an object are kept sorted by name, and a
member that occurs again replaces the earlier one. Numbers are whole numbers
that fit 64 bits with or without sign, or double-precision numbers.
-/
namespace Rowtime

/-- A number of a document. -/
inductive JsonNumber where
  | whole (n : Int)
  | real (x : Binary64)
deriving DecidableEq

/-- A document. -/
inductive Json where
  | null
  | bool (b : Bool)
  | number (n : JsonNumber)
  | string (s : String)
  | array (items : List Json)
  | object (members : List (String × Json))

instance : Inhabited Json := ⟨.null⟩

namespace Json

/-- The members with one more, sorted by name; an equal name is replaced. -/
def insertMember (k : String) (v : Json) : List (String × Json) → List (String × Json)
  | [] => [(k, v)]
  | (k', v') :: r =>
    if k < k' then (k, v) :: (k', v') :: r
    else if k == k' then (k, v) :: r
    else (k', v') :: insertMember k v r

/-- The object with the given members, the later of two equal names winning. -/
def ofMembers (ms : List (String × Json)) : Json :=
  .object (ms.foldl (fun acc m => insertMember m.1 m.2 acc) [])

end Json

end Rowtime
