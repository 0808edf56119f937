import Rowtime.Sql.Parser.Expr
import Rowtime.Sql.Query

/-!
# Parsing queries

Queries and sources contain each other in parentheses. As with expressions, the
layers take readers of what is inside, and a count of the nesting ties the knot.
A closing clause behind a single query in parentheses has nowhere to go and is
refused.
-/
namespace Rowtime.Sql.Parser

/-- A name given to an item or a projected expression. -/
def aliasName : Parser String :=
  orElse (do keyword "AS"; spaced anyIdentifier) (spaced identifier)

/-- An item of a projection. -/
def selectItem : Parser SelectItem :=
  oneOf [
    do symbol '*'; return .all,
    do
      let q ← spaced (do
        let name ← identifier
        exactly ['.', '*']
        return name)
      return .allOf q,
    do
      let e ← expr
      let name ← optional aliasName
      return .expr e name]

/-- The words of a join. -/
def joinKind : Parser JoinKind :=
  oneOf [
    do keyword "JOIN"; return .inner,
    do keyword "INNER"; keyword "JOIN"; return .inner,
    do keyword "LEFT"; let _ ← optional (keyword "OUTER"); keyword "JOIN"; return .left,
    do keyword "RIGHT"; let _ ← optional (keyword "OUTER"); keyword "JOIN"; return .right,
    do keyword "CROSS"; keyword "JOIN"; return .cross]

/-- Two keywords in a row. -/
def keywords (a b : String) : Parser Unit := do
  keyword a
  keyword b

/-- A sort key, ascending by default. -/
def sortKey : Parser SortKey := do
  let e ← expr
  let o ← optional (oneOf [
    do keyword "ASC"; return SortOrder.asc,
    do keyword "DESC"; return SortOrder.desc])
  return ⟨e, o.getD .asc⟩

/-- A count of rows. -/
def rowCount : Parser UInt64 := do
  let n ← spaced (natBelow (Nat.pow 2 64))
  return UInt64.ofNat n

/-- The closing clauses, each of which may be missing. -/
def tail : Parser Tail := do
  let keys ← optional (after (keywords "ORDER" "BY") (separated (symbol ',') sortKey))
  let limit ← optional (after (keyword "LIMIT") rowCount)
  let offset ← optional (after (keyword "OFFSET") rowCount)
  return ⟨keys.getD [], limit, offset⟩

/-- A subquery in parentheses with its name. -/
def subqueryItem (inner : Parser Query) : Parser FromItem := do
  let q ← parenthesized inner
  let name ← optional aliasName
  return .subquery q name

/-- A table with its name in the query. -/
def tableItem : Parser FromItem := do
  let t ← spaced identifier
  let name ← optional aliasName
  return .table t name

/-- An item of a source, without joins. -/
def sourceFactor (inner : Parser Query) (items : Parser (List FromItem)) : Parser FromItem :=
  oneOf [
    subqueryItem inner,
    do return .paren (← parenthesized items),
    tableItem]

/-- The condition of a join; a cross join has none. -/
def joinCondition (k : JoinKind) : Parser (Option Expr) :=
  if k == .cross then return none else optional (after (keyword "ON") expr)

/-- The joins behind an item, grouped to the left, at most as many as the first list is long. Once
the words of a join are read, its right side must follow. -/
def joinsFrom (factor : Parser FromItem) : List Char → FromItem → Parser FromItem
  | [], l => return l
  | _ :: fuel, l => fun s =>
    match joinKind s with
    | .error _ => .ok (l, s)
    | .ok (k, rest) =>
      (do
        let r ← factor
        let on ← joinCondition k
        joinsFrom factor fuel (.join k l r on) : Parser FromItem) rest

/-- An item of a source with its joins. -/
def joinedItem (factor : Parser FromItem) : Parser FromItem := do
  let first ← factor
  fun s => joinsFrom factor s first s

/-- The items of a source. -/
def sourceWith (inner : Parser Query) (items : Parser (List FromItem)) : Parser (List FromItem) :=
  separated (symbol ',') (joinedItem (sourceFactor inner items))

/-- A SELECT without closing clauses. -/
def selectCore (source : Parser (List FromItem)) : Parser Query := do
  keyword "SELECT"
  let distinct ← present (keyword "DISTINCT")
  let projection ← separated (symbol ',') selectItem
  let from_ ← optional (after (keyword "FROM") source)
  let condition ← optional (after (keyword "WHERE") expr)
  let groupBy ← optional (after (keywords "GROUP" "BY") (separated (symbol ',') expr))
  let having ← optional (after (keyword "HAVING") expr)
  return .select (from_.getD []) ⟨distinct, projection, condition, groupBy.getD [], having⟩ .empty

/-- A SELECT or a query in parentheses. -/
def queryTerm (inner : Parser Query) (source : Parser (List FromItem)) : Parser Query :=
  orElse (selectCore source) (do return .paren (← parenthesized inner))

/-- The word of a union with its right side. -/
def unionStep (term : Parser Query) : Parser (Bool × Query) := do
  keyword "UNION"
  let all ← present (keyword "ALL")
  let q ← term
  return (all, q)

/-- The query with closing clauses; a query in parentheses takes none. -/
def withTail? (t : Tail) : Query → Option Query
  | .select f c _ => some (.select f c t)
  | .union l r all _ => some (.union l r all t)
  | .paren _ => none

/-- A query, given readers of what is inside. -/
def queryWith (inner : Parser Query) (items : Parser (List FromItem)) : Parser Query := do
  let term := queryTerm inner (sourceWith inner items)
  let first ← term
  let more ← many (unionStep term)
  let q := more.foldl (fun l x => Query.union l x.2 x.1 .empty) first
  fun s =>
    match tail s with
    | .error e => .error e
    | .ok (t, rest) =>
      if t.isNone then .ok (q, s)
      else
        match withTail? t q with
        | some q' => .ok (q', rest)
        | none => .error ⟨s, .verify⟩

mutual

/-- A query nested at most so many times. -/
def queryAt : Nat → Parser Query
  | 0 => stop .character
  | n + 1 => fun s => queryWith (queryAt n) (sourceAt n) s

/-- A source nested at most so many times. -/
def sourceAt : Nat → Parser (List FromItem)
  | 0 => stop .character
  | n + 1 => fun s => sourceWith (queryAt n) (sourceAt n) s

end

/-- A query. Each nesting takes a character, so the length of the text bounds it. -/
def query : Parser Query := fun s => queryAt (s.length + 1) s

end Rowtime.Sql.Parser
