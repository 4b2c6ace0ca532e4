import WorkflowCondition.Token.Basic

/-!
# Errors

All that can go wrong between the text of a condition and its value. An error is a cause;
`Error.message` words it and `Error.position?` says where in the source it lies.
-/

namespace WorkflowCondition

/-- What a parser was looking for when it met another token. -/
inductive Expected where
  | literal
  | endOfInput
  | operator
  | float
  | integer
  | openParen
  | closeParen
  /-- A call that is nested less deeply than this number of calls allows. -/
  | nesting (limit : Nat)
deriving DecidableEq, Repr

/-- How an error message calls what was expected. -/
def Expected.text : Expected → String
  | .literal => "a literal"
  | .endOfInput => "end of input"
  | .operator => "an operator"
  | .float => "a float"
  | .integer => "an integer in the 64-bit range"
  | .openParen => "'('"
  | .closeParen => "')'"
  | .nesting limit => "nesting depth <= " ++ toString limit

/-- Why a condition has no value. -/
inductive Error where
  /-- No token starts with the character. -/
  | unexpectedCharacter (found : Char) (position : Nat)
  /-- The tokens do not follow the grammar. -/
  | unexpectedToken (expected : Expected) (found : Token)
  /-- A token that is known but has no meaning in a condition. -/
  | unsupported (found : Token)
  /-- The context has no such root, or there is no such root at all. -/
  | unknownContext (name : String)
  /-- A key applied to a value that holds no keys. -/
  | malformedContext (key : String)
  | unknownFunction (name : String)
  | arityMismatch (name : String) (expected actual : Nat)
deriving DecidableEq, Repr

namespace Error

/-- The wording of an error. -/
def message : Error → String
  | .unexpectedCharacter found position =>
    "Unexpected character '" ++ found.toString ++ "' at offset " ++ toString position
  | .unexpectedToken expected found =>
    "Parse error at offset " ++ toString found.position ++ ": expected " ++ expected.text ++
      ", found " ++ found.describe
  | .unsupported found =>
    "Operator '" ++ found.text ++ "' at offset " ++ toString found.position ++ " is not supported"
  | .unknownContext name => "No root context named " ++ name
  | .malformedContext key =>
    "Context not structured as expected: cannot access '" ++ key ++ "' on a non-object value"
  | .unknownFunction name => "Unknown function: " ++ name
  | .arityMismatch name expected actual =>
    name ++ " needs " ++ toString expected ++ " arguments but has " ++ toString actual

/-- Where in the source the error lies, if it was found before evaluation. -/
def position? : Error → Option Nat
  | .unexpectedCharacter _ position => some position
  | .unexpectedToken _ found => some found.position
  | .unsupported found => some found.position
  | _ => none

end Error

end WorkflowCondition
