import WorkflowCondition.Binary64.Basic
import WorkflowCondition.Root

/-!
# Expressions

The syntax tree of a condition: one literal, or two literals with an operator between them. Literals
keep their source text where evaluation depends on it: strings with their quotes, accessors with
their delimiters.
-/

namespace WorkflowCondition

/-- The operators of two operands. There is no operator of one. -/
inductive Operator where
  | eq
  | ne
  | lt
  | le
  | gt
  | ge
  | and
  | or
deriving DecidableEq, Repr

namespace Operator

/-- Every operator, in the order in which a symbol is looked up. -/
def all : List Operator :=
  [.eq, .ne, .lt, .le, .gt, .ge, .and, .or]

/-- The operator as it is written in a condition. -/
def symbol : Operator → String
  | .eq => "=="
  | .ne => "!="
  | .lt => "<"
  | .le => "<="
  | .gt => ">"
  | .ge => ">="
  | .and => "&&"
  | .or => "||"

/-- The name of the operator in a printed syntax tree. -/
def name : Operator → String
  | .eq => "Eq"
  | .ne => "NotEq"
  | .lt => "Lt"
  | .le => "Lte"
  | .gt => "Gt"
  | .ge => "Gte"
  | .and => "And"
  | .or => "Or"

/-- The operator that is written so. -/
def ofSymbol? (text : String) : Option Operator :=
  all.find? fun op => op.symbol == text

theorem ofSymbol?_symbol (op : Operator) : ofSymbol? op.symbol = some op := by
  cases op <;> decide

theorem symbol_of_ofSymbol? {text : String} {op : Operator} (h : ofSymbol? text = some op) :
    op.symbol = text := by
  have := List.find?_some h
  simpa using this

/-- The operator that holds of two operands when this one holds of them in the other order. -/
def swap : Operator → Operator
  | .lt => .gt
  | .le => .ge
  | .gt => .lt
  | .ge => .le
  | op => op

end Operator

/-- An operand. Calls are nested; an operator stands in none of them. -/
inductive Literal where
  | null
  /-- A string with its quotes, and with the quotes inside it still doubled. -/
  | string (raw : String)
  | int (n : Int64)
  | float (x : Binary64)
  | bool (b : Bool)
  | call (name : String) (args : List Literal)
  /-- A reference into the context; the accessors are `.key` or `['key']` as written. -/
  | reference (head : String) (accessors : List String)
deriving Inhabited

namespace Literal

/-- Whether the operand is `true` itself, not something with this value. -/
def isTrue : Literal → Bool
  | .bool b => b
  | _ => false

end Literal

/-- The key of an accessor: what stands behind `.` or between `['` and `']`, and the whole text if
neither delimiter is there. -/
def accessorKey (accessor : String) : String :=
  match accessor.toList with
  | '.' :: key => .ofList key
  | '[' :: '\'' :: rest =>
    if ['\'', ']'].isSuffixOf rest then .ofList (rest.take (rest.length - 2)) else accessor
  | _ => accessor

/-- A condition. An operator and its right operand are there together or not at all. -/
structure Expression where
  lhs : Literal
  rhs : Option (Operator × Literal)
deriving Inhabited

end WorkflowCondition
