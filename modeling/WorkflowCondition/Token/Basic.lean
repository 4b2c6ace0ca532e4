/-!
# Tokens

The tokens of a condition: a kind, the text as written, and the position of its first character. All
positions count the bytes of the text in UTF-8.
-/

namespace WorkflowCondition

/-- The kinds of tokens. All but the last are classes of texts, in the order in which they are
tried. -/
inductive Token.Kind where
  | null
  | bool
  | float
  | integer
  | string
  | whitespace
  | root
  | accessor
  | operator
  | not
  | identifier
  | endOfInput
deriving DecidableEq, Repr

/-- The name of a kind in messages and listings. -/
def Token.Kind.name : Token.Kind → String
  | .null => "Null"
  | .bool => "Bool"
  | .float => "Float"
  | .integer => "Integer"
  | .string => "String"
  | .whitespace => "Whitespace"
  | .root => "ContextName"
  | .accessor => "ContextAccessor"
  | .operator => "Operator"
  | .not => "Not"
  | .identifier => "Identifier"
  | .endOfInput => "EndOfInput"

/-- A piece of a source. Its position is the number of bytes in front of it. -/
structure Token where
  kind : Token.Kind
  text : String
  position : Nat
deriving DecidableEq, Repr

namespace Token

/-- The token behind a source that ends at `position`. -/
def endOfInput (position : Nat) : Token :=
  ⟨.endOfInput, "", position⟩

/-- An identifier token with exactly this text. -/
def isPunct (t : Token) (text : String) : Bool :=
  t.kind == .identifier && t.text == text

/-- Punctuation is an identifier with this text. -/
theorem isPunct_iff {t : Token} {text : String} :
    t.isPunct text ↔ t.kind = .identifier ∧ t.text = text := by
  simp [isPunct]

/-- How a message names the token. -/
def describe (t : Token) : String :=
  match t.kind with
  | .endOfInput => "end of input"
  | kind => kind.name ++ " '" ++ t.text ++ "'"

end Token

end WorkflowCondition
