import Rowtime.Text.Escaped
import Rowtime.Value.SqlType

/-!
# Faults

What can go wrong when a statement is read or run. Each constructor is a cause
with the data that the message shows; the wording is in the `message` functions
and nowhere else. `Fault.kind` forgets the data.
-/
namespace Rowtime

open Text

/-- Why a value or an operation does not fit the types. -/
inductive Mismatch where
  | store (kind shown : String) (type : SqlType)
  | tooLong (type : SqlType) (shown : String)
  | compare (left right : String)
  | divisionByZero
  | integerOverflow (a : Int) (op : Char) (b : Int)
  | numericOverflow
  | negate (kind : String)
  | notBoolean (kind : String)
  | operands (op : Char) (left right : String)
  | arity (name : String) (expected actual : Nat)
  | argument (name kind : String)
  | watermark (shown : String)
deriving DecidableEq

/-- Why a row time column or a row time is refused. -/
inductive RowtimeFault where
  | notBigInt (type : SqlType)
  | nullable
  | hasDefault
  | otherPrimaryKey (name : String)
  | notPositive (shown : String)
  | notAbove (rowtime max : Int)
deriving DecidableEq

/-- What is understood but not provided. -/
inductive Unsupported where
  | aggregateHere (name : String)
  | operator (symbol : String)
  | function (name : String)
deriving DecidableEq

/-- What a reader stopped at. -/
inductive StopKind where
  | character
  | verify
deriving DecidableEq

/-- Where a reader stopped: the rest of its input, and the kind of thing it stopped at. -/
structure Stop where
  rest : List Char
  kind : StopKind
deriving DecidableEq

/-- Why a text is no statement. -/
inductive SyntaxFault where
  | trailing (rest : String)
  | stopped (at_ : Stop)
  | repeatedColumn (name : String)
deriving DecidableEq

/-- A cause of failure. -/
inductive Fault where
  | tableNotFound (name : String)
  | tableExists (name : String)
  | columnNotFound (name : String)
  | positionNotFound (n : Int)
  | ambiguousColumn (name : String)
  | columnCount (expected actual : Nat)
  | typeMismatch (why : Mismatch)
  | notNull (column : String)
  | unique (column shown : String)
  | invalidRowtime (why : RowtimeFault)
  | unsupported (what : Unsupported)
  | invalidJson
  | entryTooLarge
  | badSyntax (why : SyntaxFault)
deriving DecidableEq

/-- The kinds of fault, without their data. -/
inductive FaultKind where
  | tableNotFound
  | tableExists
  | columnNotFound
  | ambiguousColumn
  | columnCount
  | typeMismatch
  | notNull
  | unique
  | invalidRowtime
  | unsupported
  | invalidJson
  | entryTooLarge
  | badSyntax
deriving DecidableEq

/-- The wording of a mismatch. -/
def Mismatch.message : Mismatch → String
  | .store kind shown type => "cannot store " ++ kind ++ " '" ++ shown ++ "' as " ++ type.display
  | .tooLong type shown => "value too long for " ++ type.display ++ ": '" ++ shown ++ "'"
  | .compare l r => "cannot compare " ++ l ++ " with " ++ r
  | .divisionByZero => "division by zero"
  | .integerOverflow a op b =>
    "integer overflow in " ++ Digits.intText a ++ " " ++ op.toString ++ " " ++ Digits.intText b
  | .numericOverflow => "numeric overflow"
  | .negate kind => "cannot negate " ++ kind
  | .notBoolean kind => kind ++ " is not a boolean"
  | .operands op l r => "operator " ++ op.toString ++ " is not defined for " ++ l ++ " and " ++ r
  | .arity name n m =>
    name ++ " expects " ++ Digits.text n ++ " argument(s), got " ++ Digits.text m
  | .argument name kind => name ++ " is not defined for " ++ kind
  | .watermark shown => "watermark '" ++ shown ++ "' is not a 64-bit integer"

/-- The wording of a refused row time. -/
def RowtimeFault.message : RowtimeFault → String
  | .notBigInt type => "rowtime must be BIGINT, got " ++ type.display
  | .nullable => "rowtime may not be nullable"
  | .hasDefault => "rowtime may not declare a default"
  | .otherPrimaryKey name => "rowtime is the primary key, '" ++ name ++ "' cannot be one"
  | .notPositive shown => "rowtime must be a positive integer, got " ++ shown
  | .notAbove t max =>
    "rowtime " ++ Digits.intText t ++ " is not above the current maximum " ++ Digits.intText max

/-- The wording of what is not provided. -/
def Unsupported.message : Unsupported → String
  | .aggregateHere name => "aggregate function " ++ name ++ " is not allowed here"
  | .operator symbol => "operator " ++ symbol
  | .function name => "function " ++ name

/-- The word for the kind of a stop. -/
def StopKind.word : StopKind → String
  | .character => "Char"
  | .verify => "Verify"

/-- The wording of a stop: the rest of the input, escaped, and the kind. -/
def Stop.message (s : Stop) : String :=
  "Error(Error \x7b input: " ++ Escaped.encode s.rest ++ ", code: " ++ s.kind.word ++ " \x7d)"

/-- The wording of a text that is no statement. -/
def SyntaxFault.message : SyntaxFault → String
  | .trailing rest => "Unexpected input after statement: " ++ rest
  | .stopped s => s.message
  | .repeatedColumn name => "column '" ++ name ++ "' specified more than once"

/-- The wording of a fault. -/
def Fault.message : Fault → String
  | .tableNotFound name => "Table '" ++ name ++ "' not found"
  | .tableExists name => "Table '" ++ name ++ "' already exists"
  | .columnNotFound name => "Column '" ++ name ++ "' not found"
  | .positionNotFound n => "Column 'ORDER BY position " ++ Digits.intText n ++ "' not found"
  | .ambiguousColumn name => "Column reference '" ++ name ++ "' is ambiguous"
  | .columnCount n m =>
    "Column count mismatch: expected " ++ Digits.text n ++ ", got " ++ Digits.text m
  | .typeMismatch why => "Type mismatch: " ++ why.message
  | .notNull column => "Column '" ++ column ++ "' may not be NULL"
  | .unique column shown => "Duplicate value for unique column '" ++ column ++ "': " ++ shown
  | .invalidRowtime why => "Invalid rowtime column: " ++ why.message
  | .unsupported what => "Unsupported: " ++ what.message
  | .invalidJson => "JSON Serialization error"
  | .entryTooLarge => "Binary Serialization error: WAL entry too large"
  | .badSyntax why => "Parse error: " ++ why.message

/-- The kind of a fault. -/
def Fault.kind : Fault → FaultKind
  | .tableNotFound _ => .tableNotFound
  | .tableExists _ => .tableExists
  | .columnNotFound _ | .positionNotFound _ => .columnNotFound
  | .ambiguousColumn _ => .ambiguousColumn
  | .columnCount .. => .columnCount
  | .typeMismatch _ => .typeMismatch
  | .notNull _ => .notNull
  | .unique .. => .unique
  | .invalidRowtime _ => .invalidRowtime
  | .unsupported _ => .unsupported
  | .invalidJson => .invalidJson
  | .entryTooLarge => .entryTooLarge
  | .badSyntax _ => .badSyntax

end Rowtime
