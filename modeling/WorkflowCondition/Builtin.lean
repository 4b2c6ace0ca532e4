import WorkflowCondition.Error
import WorkflowCondition.Value.Basic

/-!
# Functions

The functions that a condition can call. Each is a test of two texts; a value that is no string
counts as the empty text, and single quotes are left out of both texts before they are compared.
-/

namespace WorkflowCondition

/-- The functions by their names. -/
inductive Builtin where
  | startsWith
  | endsWith
  | contains
deriving DecidableEq, Repr

namespace Builtin

/-- Every function, in the order in which a name is looked up. -/
def all : List Builtin :=
  [.startsWith, .endsWith, .contains]

/-- The name as it is written in a call. Upper and lower case differ. -/
def name : Builtin → String
  | .startsWith => "startsWith"
  | .endsWith => "endsWith"
  | .contains => "contains"

/-- The function of that name. -/
def ofName? (text : String) : Option Builtin :=
  all.find? fun f => f.name == text

/-- How many arguments every function takes. -/
def arity : Nat :=
  2

/-- The characters of a value that take part in a comparison. -/
def comparedChars (v : Value) : List Char :=
  v.asText.toList.filter (· != '\'')

/-- Whether `part` stands somewhere in the text. -/
def hasPart (part : List Char) : List Char → Bool
  | [] => part.isEmpty
  | c :: rest => part.isPrefixOf (c :: rest) || hasPart part rest

/-- What a function says of two texts. -/
def test (f : Builtin) (text part : List Char) : Bool :=
  match f with
  | .startsWith => part.isPrefixOf text
  | .endsWith => part.isSuffixOf text
  | .contains => hasPart part text

/-- The value of a call. -/
def call (f : Builtin) : List Value → Except Error Value
  | [x, y] => .ok (.bool (f.test (comparedChars x) (comparedChars y)))
  | args => .error (.arityMismatch f.name arity args.length)

end Builtin

end WorkflowCondition
