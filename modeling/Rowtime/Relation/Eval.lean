import Rowtime.Relation.Aggregate

/-!
# Evaluating expressions

An expression is evaluated in a context: the visible columns, one row, and the
rows of its group when aggregates are allowed. Operands are evaluated from left
to right; AND, OR, IN and COALESCE look no further once the result is certain.
-/
namespace Rowtime

open Sql

/-- What an expression can see. -/
structure Context where
  columns : List Binding
  row : Row
  group : Option (List Row)

/-- The context of a single row. -/
def Context.ofRow (columns : List Binding) (row : Row) : Context := ⟨columns, row, none⟩

/-- The rows of a group, if an aggregate may stand here. -/
def Context.members (ctx : Context) (f : Aggregate) : Except Fault (List Row) :=
  match ctx.group with
  | some rows => .ok rows
  | none => .error (.unsupported (.aggregateHere f.name))

/-- The results for the members of a list, up to the first fault. -/
def collect (f : α → Except Fault β) : List α → Except Fault (List β)
  | [] => .ok []
  | a :: r => do
    let b ← f a
    let bs ← collect f r
    return b :: bs

namespace Sql.Expr

mutual

/-- The value of an expression. -/
def eval : Expr → Context → Except Fault Value
  | .literal v, _ => .ok v
  | .column c, ctx => do
    let i ← resolve ctx.columns c
    return ctx.row[i]?.getD .null
  | .unary .not e, ctx => do
    let t ← (← eval e ctx).truth
    return Value.ofTruth (Value.notTruth t)
  | .unary .minus e, ctx => do
    let v ← eval e ctx
    v.negate
  | .binary op l r, ctx =>
    match op with
    | .and => do
      let a ← (← eval l ctx).truth
      if a == some false then return .boolean false
      let b ← (← eval r ctx).truth
      return Value.ofTruth (Value.andTruth a b)
    | .or => do
      let a ← (← eval l ctx).truth
      if a == some true then return .boolean true
      let b ← (← eval r ctx).truth
      return Value.ofTruth (Value.orTruth a b)
    | op => do
      let a ← eval l ctx
      let b ← eval r ctx
      Value.operate op a b
  | .isNull n e, ctx => do
    let v ← eval e ctx
    return .boolean (v.isNull != n)
  | .between n e low high, ctx => do
    let v ← eval e ctx
    let l ← eval low ctx
    let h ← eval high ctx
    let above ← (← Value.operate .ge v l).truth
    let below ← (← Value.operate .le v h).truth
    let inside := Value.andTruth above below
    return Value.ofTruth (if n then Value.notTruth inside else inside)
  | .inList n e items, ctx => do
    let v ← eval e ctx
    if v.isNull then return .null
    evalIn v n false items ctx
  | .like n e p, ctx => do
    let v ← eval e ctx
    let q ← eval p ctx
    if v.isNull || q.isNull then return .null
    return .boolean (Value.like v q != n)
  | .call name args, ctx =>
    let upperName := Text.asciiUpperText name
    if upperName == "COALESCE" then evalFirst args ctx
    else
      match Value.function? upperName with
      | none => .error (.unsupported (.function upperName))
      | some f => evalOnly f name args ctx
  | .aggregateAll f _, ctx => do
    let rows ← ctx.members f
    return .integer (Int64.ofNat rows.length)
  | .aggregate f d e, ctx => do
    let rows ← ctx.members f
    let vs ← collect (fun row => eval e (Context.ofRow ctx.columns row)) rows
    let vs := vs.filter fun v => !v.isNull
    Value.aggregate f (if d then Value.distinct vs else vs)

/-- Whether a value other than NULL equals one of the items; `unknown` says that a comparison
before had no answer. -/
def evalIn (v : Value) (negated unknown : Bool) : List Expr → Context → Except Fault Value
  | [], _ => .ok (if unknown then .null else .boolean negated)
  | e :: r, ctx => do
    let w ← eval e ctx
    match ← v.compare? w with
    | some .eq => return .boolean (!negated)
    | none => evalIn v negated true r ctx
    | some _ => evalIn v negated unknown r ctx

/-- The first value that is not NULL. -/
def evalFirst : List Expr → Context → Except Fault Value
  | [], _ => .ok .null
  | e :: r, ctx => do
    let v ← eval e ctx
    if v.isNull then evalFirst r ctx else return v

/-- A function of one argument; any other number of arguments is a fault. -/
def evalOnly (f : Value.Function) (name : String) : List Expr → Context → Except Fault Value
  | [e], ctx => do
    let v ← eval e ctx
    Value.applyFunction f v
  | args, _ => .error (.typeMismatch (.arity name 1 args.length))

end

/-- Whether a condition holds: only TRUE counts. -/
def holds (e : Expr) (ctx : Context) : Except Fault Bool := do
  let t ← (← eval e ctx).truth
  return t == some true

end Sql.Expr

end Rowtime
