import Rowtime.Sql.Identifier
import Rowtime.Sql.Statement
import Rowtime.Value.Literal

/-!
# Text of statements

Parentheses are written only where reading the text would otherwise group it
differently. Each form of expression has a binding strength, from 1 for OR to 8
for what stands alone; an operand that binds no tighter than its place asks for is
put in parentheses.
-/
namespace Rowtime.Sql

open Text

/-- The texts with a separator between them. -/
def joinChars (sep : List Char) : List (List Char) → List Char
  | [] => []
  | [x] => x
  | x :: y :: r => x ++ sep ++ joinChars sep (y :: r)

/-- The texts with a comma and a space between them. -/
def commaList (xs : List (List Char)) : List Char := joinChars [',', ' '] xs

/-- The text in parentheses if asked for. -/
def grouped (group : Bool) (x : List Char) : List Char :=
  if group then '(' :: (x ++ [')']) else x

/-- The word that negates a predicate. -/
def notChars (negated : Bool) : List Char := if negated then "NOT ".toList else []

/-- The text of a column reference. -/
def ColumnRef.chars (c : ColumnRef) : List Char :=
  match c.qualifier with
  | some q => nameChars q ++ '.' :: nameChars c.name
  | none => nameChars c.name

/-- How tightly an operator binds. -/
def BinaryOp.strength : BinaryOp → Nat
  | .or => 1
  | .and => 2
  | .eq | .ne | .lt | .le | .gt | .ge => 4
  | .plus | .minus | .concat => 5
  | .times | .divide | .modulo => 6

/-- How tightly an expression binds. A literal that starts with a minus sign binds like a
negation. -/
def Expr.strength : Expr → Nat
  | .binary op _ _ => op.strength
  | .unary .not _ => 3
  | .unary .minus _ => 7
  | .isNull .. | .between .. | .inList .. | .like .. => 4
  | .literal v => if v.literal.toList.head? == some '-' then 7 else 8
  | _ => 8

/-- Whether the left operand of an operator needs parentheses. Comparisons do not chain. -/
def groupsLeft (op : BinaryOp) (l : Expr) : Bool :=
  l.strength < op.strength || (op.isComparison && l.strength == op.strength)

mutual

/-- The text of an expression. -/
def Expr.chars : Expr → List Char
  | .column c => c.chars
  | .literal v => v.literal.toList
  | .unary .not e => "NOT ".toList ++ grouped (e.strength < 3) e.chars
  | .unary .minus e => '-' :: grouped (e.strength ≤ 7) e.chars
  | .binary op l r =>
    grouped (groupsLeft op l) l.chars ++ ' ' :: (op.symbol.toList ++
      ' ' :: grouped (r.strength ≤ op.strength) r.chars)
  | .isNull n e => grouped (e.strength ≤ 4) e.chars ++ " IS ".toList ++ notChars n ++ "NULL".toList
  | .between n e l h =>
    grouped (e.strength ≤ 4) e.chars ++ ' ' :: (notChars n ++ "BETWEEN ".toList ++
      grouped (l.strength ≤ 4) l.chars ++ " AND ".toList ++ grouped (h.strength ≤ 4) h.chars)
  | .inList n e items =>
    grouped (e.strength ≤ 4) e.chars ++ ' ' :: (notChars n ++ "IN (".toList ++
      commaList (Expr.charsList items) ++ [')'])
  | .like n e p =>
    grouped (e.strength ≤ 4) e.chars ++ ' ' :: (notChars n ++ "LIKE ".toList ++
      grouped (p.strength ≤ 4) p.chars)
  | .call name args =>
    (asciiUpperText name).toList ++ '(' :: (commaList (Expr.charsList args) ++ [')'])
  | .aggregate f d e =>
    f.name.toList ++ '(' :: ((if d then "DISTINCT ".toList else []) ++ e.chars ++ [')'])
  | .aggregateAll f _ => f.name.toList ++ "(*)".toList

/-- The texts of expressions. -/
def Expr.charsList : List Expr → List (List Char)
  | [] => []
  | e :: r => e.chars :: Expr.charsList r

end

/-- The text of an optional name behind its word. -/
def aliasChars : Option String → List Char
  | some a => " AS ".toList ++ nameChars a
  | none => []

/-- The text of a projection item. -/
def SelectItem.chars : SelectItem → List Char
  | .all => ['*']
  | .allOf q => nameChars q ++ ['.', '*']
  | .expr e n => e.chars ++ aliasChars n

/-- The text of a sort key. -/
def SortKey.chars (k : SortKey) : List Char :=
  match k.order with
  | .asc => k.expr.chars
  | .desc => k.expr.chars ++ " DESC".toList

/-- A clause that is written only when it has content. -/
def clauseChars (word : String) (x : List Char) : List Char := word.toList ++ x

/-- The text of a tail. -/
def Tail.chars (t : Tail) : List Char :=
  (if t.orderBy.isEmpty then []
   else clauseChars " ORDER BY " (commaList (t.orderBy.map SortKey.chars))) ++
  (match t.limit with
   | some n => clauseChars " LIMIT " (Digits.ofNat n.toNat)
   | none => []) ++
  (match t.offset with
   | some n => clauseChars " OFFSET " (Digits.ofNat n.toNat)
   | none => [])

/-- The text of an optional condition behind its word. -/
def conditionChars (word : String) : Option Expr → List Char
  | some e => clauseChars word e.chars
  | none => []

/-- The text of a select list, up to the source. -/
def Clauses.headChars (c : Clauses) : List Char :=
  "SELECT ".toList ++ (if c.distinct then "DISTINCT ".toList else []) ++
    commaList (c.projection.map SelectItem.chars)

/-- The text of the clauses behind the source. -/
def Clauses.restChars (c : Clauses) : List Char :=
  conditionChars " WHERE " c.condition ++
  (if c.groupBy.isEmpty then []
   else clauseChars " GROUP BY " (commaList (c.groupBy.map Expr.chars))) ++
  conditionChars " HAVING " c.having

/-- The words of a join. -/
def JoinKind.words : JoinKind → String
  | .inner => " JOIN "
  | .left => " LEFT JOIN "
  | .right => " RIGHT JOIN "
  | .cross => " CROSS JOIN "

/-- Whether a query has closing clauses of its own, outside any parentheses. -/
def Query.hasTail : Query → Bool
  | .select _ _ t => !t.isNone
  | .union _ _ _ t => !t.isNone
  | .paren _ => false

/-- Whether a query is a union. -/
def Query.isUnion : Query → Bool
  | .union .. => true
  | _ => false

/-- Whether an item is a join. -/
def FromItem.isJoin : FromItem → Bool
  | .join .. => true
  | _ => false

mutual

/-- The text of a query. -/
def Query.chars : Query → List Char
  | .select source c t =>
    c.headChars ++
    (if source.isEmpty then []
     else clauseChars " FROM " (commaList (FromItem.charsList source))) ++
    c.restChars ++ t.chars
  | .union l r all t =>
    grouped l.hasTail l.chars ++ " UNION ".toList ++ (if all then "ALL ".toList else []) ++
      grouped (r.hasTail || r.isUnion) r.chars ++ t.chars
  | .paren q => '(' :: (q.chars ++ [')'])

/-- The text of a source item. -/
def FromItem.chars : FromItem → List Char
  | .table name a => nameChars name ++ aliasChars a
  | .subquery q a => '(' :: (q.chars ++ ')' :: aliasChars a)
  | .paren items => '(' :: (commaList (FromItem.charsList items) ++ [')'])
  | .join k l r on =>
    l.chars ++ k.words.toList ++ grouped r.isJoin r.chars ++ conditionChars " ON " on

/-- The texts of source items. -/
def FromItem.charsList : List FromItem → List (List Char)
  | [] => []
  | x :: r => x.chars :: FromItem.charsList r

end

/-- The text of a declared column. -/
def ColumnDef.chars (c : ColumnDef) : List Char :=
  nameChars c.name ++ ' ' :: c.type.display.toList ++
  (if c.nullable then [] else " NOT NULL".toList) ++
  (if c.primaryKey then " PRIMARY KEY".toList else []) ++
  (if c.unique then " UNIQUE".toList else []) ++
  (match c.defaultValue with
   | some v => clauseChars " DEFAULT " v.literal.toList
   | none => [])

/-- The text of a row of literals. -/
def rowChars (r : Row) : List Char :=
  '(' :: (commaList (r.map fun v => v.literal.toList) ++ [')'])

/-- The text of a statement. -/
def Statement.chars : Statement → List Char
  | .createTable name cols b =>
    "CREATE TABLE ".toList ++ (if b then "IF NOT EXISTS ".toList else []) ++ nameChars name ++
      " (".toList ++ commaList (cols.map ColumnDef.chars) ++ [')']
  | .dropTable name b =>
    "DROP TABLE ".toList ++ (if b then "IF EXISTS ".toList else []) ++ nameChars name
  | .insert name cols rows =>
    "INSERT INTO ".toList ++ nameChars name ++
      (match cols with
       | some cs => " (".toList ++ commaList (cs.map nameChars) ++ [')']
       | none => []) ++
      " VALUES ".toList ++ commaList (rows.map rowChars)
  | .showTables => "SHOW TABLES".toList
  | .query q => q.chars

/-- The text of an expression as a string. -/
def Expr.display (e : Expr) : String := String.ofList e.chars

/-- The text of a column reference as a string. -/
def ColumnRef.display (c : ColumnRef) : String := String.ofList c.chars

/-- The text of a query as a string. -/
def Query.display (q : Query) : String := String.ofList q.chars

/-- The text of a statement as a string. -/
def Statement.display (s : Statement) : String := String.ofList s.chars

end Rowtime.Sql
