import Rowtime.Sql.Expr
import Rowtime.Sql.Parser.Token

/-!
# Parsing expressions

From the loosest binding to the tightest: OR, AND, NOT, one predicate or
comparison, sums and concatenation, products, a minus sign, and what stands
alone. The layers are ordinary functions of one parameter, `sub`, which reads an
expression inside the current one; `exprAt` ties the knot with a count of the
nesting, and each use of `sub` comes behind at least one character.
-/
namespace Rowtime.Sql.Parser

/-- The three places at which an expression is read again inside another one. -/
inductive Level where
  | whole
  | negation
  | signed
deriving DecidableEq

/-- A reader of inner expressions. -/
abbrev Inner := Level → Parser Expr

/-- A column, with or without qualifier. -/
def columnRef : Parser ColumnRef := do
  let first ← identifier
  let second ← optional (do char '.'; anyIdentifier)
  return match second with
    | some name => ⟨some first, name⟩
    | none => ⟨none, first⟩

/-- The star and the closing parenthesis of a count of rows. -/
def starArgument : Parser Unit := do
  symbol '*'
  symbol ')'

/-- The argument of an aggregate and the closing parenthesis. -/
def aggregateArgument (sub : Inner) (f : Aggregate) : Parser Expr := do
  let distinct ← present (keyword "DISTINCT")
  let e ← sub .whole
  symbol ')'
  return .aggregate f distinct e

/-- The arguments of a call and the closing parenthesis. -/
def callArguments (sub : Inner) (name : String) : Parser Expr := do
  let args ← separatedOrNone (symbol ',') (sub .whole)
  symbol ')'
  return .call (Text.asciiUpperText name) args

/-- A call of an aggregate or another function. -/
def functionCall (sub : Inner) : Parser Expr := do
  let name ← identifier
  symbol '('
  match Aggregate.ofName? name with
  | some f =>
    let all : Parser Expr := do starArgument; return .aggregateAll f false
    if f == .count then orElse all (aggregateArgument sub f) else aggregateArgument sub f
  | none => callArguments sub name

/-- What stands alone. -/
def primary (sub : Inner) : Parser Expr :=
  spaced (oneOf [
    do keyword "NULL"; return .literal .null,
    do keyword "TRUE"; return .literal (.boolean true),
    do keyword "FALSE"; return .literal (.boolean false),
    do return .literal (.text (← stringLiteral)),
    do return .literal (← number),
    functionCall sub,
    do return .column (← columnRef),
    parenthesized (sub .whole)])

/-- An operand with its minus signs. A minus sign and a number are one literal. -/
def signed (sub : Inner) : Parser Expr :=
  oneOf [
    do symbol '-'; return .literal (negated (← number)),
    do symbol '-'; return .unary .minus (← sub .signed),
    primary sub]

/-- An operator with its right operand. -/
def operation (ops : List (List Char × BinaryOp)) (operand : Parser Expr) :
    Parser (Expr → Expr) := do
  let op ← spaced (oneOf (ops.map fun o => do exactly o.1; return o.2))
  let r ← operand
  return fun l => .binary op l r

/-- The operators of products. -/
def productOps : List (List Char × BinaryOp) :=
  [(['*'], .times), (['/'], .divide), (['%'], .modulo)]

/-- The operators of sums. -/
def sumOps : List (List Char × BinaryOp) :=
  [(['|', '|'], .concat), (['+'], .plus), (['-'], .minus)]

/-- The operators of comparisons, longer ones first. -/
def comparisonOps : List (List Char × BinaryOp) :=
  [(['<', '>'], .ne), (['!', '='], .ne), (['<', '='], .le), (['>', '='], .ge), (['<'], .lt),
   (['>'], .gt), (['='], .eq)]

/-- Products. -/
def product (sub : Inner) : Parser Expr :=
  chain (signed sub) (operation productOps (signed sub))

/-- Sums and concatenations. -/
def sum (sub : Inner) : Parser Expr :=
  chain (product sub) (operation sumOps (product sub))

/-- A test for NULL behind its operand. -/
def nullTest (l : Expr) : Parser Expr := do
  keyword "IS"
  let n ← present (keyword "NOT")
  keyword "NULL"
  return .isNull n l

/-- A range behind its operand. -/
def rangeTest (sub : Inner) (n : Bool) (l : Expr) : Parser Expr := do
  keyword "BETWEEN"
  let low ← sum sub
  keyword "AND"
  let high ← sum sub
  return .between n l low high

/-- A list of alternatives behind its operand. -/
def listTest (sub : Inner) (n : Bool) (l : Expr) : Parser Expr := do
  keyword "IN"
  let items ← parenthesized (separated (symbol ',') (sub .whole))
  return .inList n l items

/-- A pattern behind its operand. -/
def patternTest (sub : Inner) (n : Bool) (l : Expr) : Parser Expr := do
  keyword "LIKE"
  let p ← sum sub
  return .like n l p

/-- A comparison behind its left operand. -/
def comparison (sub : Inner) (l : Expr) : Parser Expr := do
  let f ← operation comparisonOps (sum sub)
  return f l

/-- The predicates that may be negated, behind their operand. -/
def negatableTest (sub : Inner) (l : Expr) : Parser Expr := do
  let n ← present (keyword "NOT")
  oneOf [rangeTest sub n l, listTest sub n l, patternTest sub n l]

/-- One predicate or comparison, or a sum alone. -/
def predicate (sub : Inner) : Parser Expr := do
  let l ← sum sub
  oneOf [nullTest l, negatableTest sub l, comparison sub l, return l]

/-- A predicate with the words NOT in front. -/
def negation (sub : Inner) : Parser Expr :=
  orElse (do keyword "NOT"; return .unary .not (← sub .negation)) (predicate sub)

/-- Conjunctions. -/
def conjunction (sub : Inner) : Parser Expr :=
  chain (negation sub) (do keyword "AND"; let r ← negation sub; return fun l => .binary .and l r)

/-- Disjunctions. -/
def disjunction (sub : Inner) : Parser Expr :=
  chain (conjunction sub)
    (do keyword "OR"; let r ← conjunction sub; return fun l => .binary .or l r)

/-- An expression at a level, given a reader of inner expressions. -/
def exprStep (sub : Inner) : Level → Parser Expr
  | .whole => disjunction sub
  | .negation => negation sub
  | .signed => signed sub

/-- An expression nested at most so many times. -/
def exprAt : Nat → Inner
  | 0 => fun _ => stop .character
  | n + 1 => fun level s => exprStep (exprAt n) level s

/-- An expression. Each nesting takes a character, so the length of the text bounds it. -/
def expr : Parser Expr := fun s => exprAt (s.length + 1) .whole s

end Rowtime.Sql.Parser

namespace Rowtime.Sql

/-- Why a text is no expression: something follows it, or reading stopped. -/
inductive ExprFault where
  | trailing (rest : String)
  | stopped (at_ : Stop)
deriving DecidableEq

/-- The wording of a text that is no expression. -/
def ExprFault.message : ExprFault → String
  | .trailing rest => "Unexpected input after expression: " ++ rest
  | .stopped s => "Parse error: " ++ s.message

/-- Reads a text that is one expression. -/
def parseExpr (text : String) : Except ExprFault Expr :=
  match Parser.expr text.toList with
  | .error e => .error (.stopped e)
  | .ok (e, r) =>
    match r.dropWhile Text.isGap with
    | [] => .ok e
    | rest => .error (.trailing (String.ofList rest))

end Rowtime.Sql
