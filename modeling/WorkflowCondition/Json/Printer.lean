import WorkflowCondition.Numeral.Shortest
import WorkflowCondition.Value.Basic

/-!
# Values as JSON text

The compact JSON text of a value: no blanks, fields in the order that they are kept in, and only
those characters of a string escaped that have to be.
-/

namespace WorkflowCondition

namespace Json

/-- Floats are positional from five zeros behind the point up to sixteen digits before it, a
positive exponent has a plus sign, and of two equally short decimals the even one is written. -/
def floatFormat : FloatFormat where
  lowest := -5
  highest := 15
  plus := true
  tie := .even

/-- The last four hexadecimal digits of a number, in lower case. -/
def hexDigits (n : Nat) : List Char :=
  [n / 4096 % 16, n / 256 % 16, n / 16 % 16, n % 16].map Nat.digitChar

/-- A character of a string. Quotes, backslashes and the characters below the blank are escaped. -/
def escape (c : Char) : List Char :=
  if c = '"' then ['\\', '"']
  else if c = '\\' then ['\\', '\\']
  else if c = '\x08' then ['\\', 'b']
  else if c = '\x0c' then ['\\', 'f']
  else if c = '\n' then ['\\', 'n']
  else if c = '\r' then ['\\', 'r']
  else if c = '\t' then ['\\', 't']
  else if c.toNat < 0x20 then '\\' :: 'u' :: hexDigits c.toNat
  else [c]

/-- A string in double quotes. -/
def stringChars (s : String) : List Char :=
  '"' :: s.toList.flatMap escape ++ ['"']

/-- An integer with all its digits, a float with as few as read back. -/
def numberChars : Number → List Char
  | .int n _ => (if n < 0 then ['-'] else []) ++ Nat.toDigits 10 n.natAbs
  | .float x => (floatFormat.render x).toList

mutual

/-- The characters of a value's text. -/
def chars : Value → List Char
  | .null => ['n', 'u', 'l', 'l']
  | .bool true => ['t', 'r', 'u', 'e']
  | .bool false => ['f', 'a', 'l', 's', 'e']
  | .number n => numberChars n
  | .string s => stringChars s
  | .array [] => ['[', ']']
  | .array (v :: vs) => '[' :: chars v ++ elementsChars vs
  | .object [] => ['{', '}']
  | .object ((key, v) :: rest) => '{' :: stringChars key ++ ':' :: chars v ++ fieldsChars rest

/-- The elements of an array behind the first one, and its end. -/
def elementsChars : List Value → List Char
  | [] => [']']
  | v :: vs => ',' :: chars v ++ elementsChars vs

/-- The fields of an object behind the first one, and its end. -/
def fieldsChars : List (String × Value) → List Char
  | [] => ['}']
  | (key, v) :: rest => ',' :: stringChars key ++ ':' :: chars v ++ fieldsChars rest

end

end Json

/-- The compact JSON text of a value. -/
def Value.toJson (v : Value) : String :=
  .ofList (Json.chars v)

end WorkflowCondition
