import WorkflowCondition.Expression.Basic
import WorkflowCondition.Numeral.Shortest
import WorkflowCondition.Text.Printable

/-!
# Expressions in outline

A syntax tree is shown with one part a line, each level indented by four blanks more. `Outline` is
the shape of such a text, whatever it shows; `Expression.outline` shows an expression.
-/

namespace WorkflowCondition

/-- A text in lines: a leaf, or labelled parts between two delimiters. -/
inductive Outline where
  | leaf (text : String)
  | group (opening closing : String) (parts : List (String × Outline))

namespace Outline

/-- The margin of a line. -/
def blanks (n : Nat) : String :=
  .ofList (List.replicate n ' ')

mutual

/-- The text, where lines other than the first are indented by `margin` blanks. -/
def render (margin : Nat) : Outline → String
  | .leaf text => text
  | .group opening closing [] => opening ++ closing
  | .group opening closing (part :: parts) =>
    opening ++ "\n" ++ renderParts (margin + 4) (part :: parts) ++ blanks margin ++ closing

/-- A line or more for each part, and a comma behind each. -/
def renderParts (margin : Nat) : List (String × Outline) → String
  | [] => ""
  | (label, part) :: rest =>
    blanks margin ++ label ++ part.render margin ++ ",\n" ++ renderParts margin rest

end

/-- Named parts in braces. -/
def record (name : String) (fields : List (String × Outline)) : Outline :=
  .group (name ++ " \x7b") "\x7d" (fields.map fun field => (field.1 ++ ": ", field.2))

/-- Parts without names in parentheses. -/
def tuple (name : String) (parts : List Outline) : Outline :=
  .group (name ++ "(") ")" (parts.map fun part => ("", part))

/-- Parts without names, in brackets. -/
def list (parts : List Outline) : Outline :=
  .group "[" "]" (parts.map fun part => ("", part))

/-- A character between double quotes. What is not printable is shown by its code point. -/
def shownChar (c : Char) : List Char :=
  if c = '"' then ['\\', '"']
  else if c = '\\' then ['\\', '\\']
  else if c = '\n' then ['\\', 'n']
  else if c = '\r' then ['\\', 'r']
  else if c = '\t' then ['\\', 't']
  else if c = '\x00' then ['\\', '0']
  else if isPrintable c then [c]
  else ['\\', 'u', '{'] ++ Nat.toDigits 16 c.toNat ++ ['}']

/-- A text in double quotes. -/
def text (s : String) : Outline :=
  .leaf (.ofList ('"' :: s.toList.flatMap shownChar ++ ['"']))

/-- Floats are positional from four zeros before the first digit up to sixteen digits before the
point, a positive exponent has no sign, and of two equally short decimals the greater one is
written. -/
def floatFormat : FloatFormat where
  lowest := -4
  highest := 15
  plus := false
  tie := .up

/-- A float as it is printed in a tree; infinities and NaN are words. -/
def float : Binary64 → Outline
  | .finite x => .leaf (floatFormat.render x)
  | .infinite negative => .leaf (if negative then "-inf" else "inf")
  | .nan => .leaf "NaN"

end Outline

mutual

/-- The tree under a literal: its kind, and what it is made of. -/
def Literal.outline : Literal → Outline
  | .null => .leaf "Nil"
  | .string raw => .tuple "Str" [.text raw]
  | .int n => .tuple "Int" [.leaf (toString n.toInt)]
  | .float x => .tuple "Float" [.float x]
  | .bool b => .tuple "Bool" [.leaf (if b then "true" else "false")]
  | .call name args =>
    .tuple "Function" [.record "Function"
      [("name", .text name), ("args", .list (argOutlines args))]]
  | .reference head accessors =>
    .tuple "Object" [.record "Object"
      [("head", .text head), ("accessors", .list (accessors.map .text))]]

/-- The trees of arguments. -/
def argOutlines : List Literal → List Outline
  | [] => []
  | arg :: args => arg.outline :: argOutlines args

end

namespace Expression

/-- The tree of an expression: both operands, and the operator with the second. -/
def outline (e : Expression) : Outline :=
  let rhs : Outline := match e.rhs with
    | none => .leaf "None"
    | some (op, rhs) => .tuple "Some" [.tuple "" [.leaf op.name, rhs.outline]]
  .record "Expression" [("lhs", e.lhs.outline), ("rhs", rhs)]

end Expression

end WorkflowCondition
