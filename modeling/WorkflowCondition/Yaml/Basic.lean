import WorkflowCondition.Numeral.Reading
import WorkflowCondition.Value.Basic

/-!
# YAML nodes

The tree of a YAML document and the value that it stands for. Whether a scalar is a string depends
on how it is written: a plain scalar may be null, a truth value or a number, any other scalar is a
string.
-/

namespace WorkflowCondition

namespace Yaml

/-- A tree of scalars. The keys of a mapping are texts. -/
inductive Node where
  /-- A scalar without quotes, as written. -/
  | plain (text : String)
  /-- A scalar in quotes or a block of text. -/
  | text (text : String)
  | sequence (items : List Node)
  | mapping (entries : List (String × Node))
deriving Inhabited

/-! ## Plain scalars -/

/-- The spellings of null. Nothing at all is one of them. -/
def isNullWord (s : String) : Bool :=
  ["", "~", "null", "Null", "NULL"].contains s

/-- The truth value of a word. Each has three spellings. -/
def truth? (s : String) : Option Bool :=
  if ["true", "True", "TRUE"].contains s then some true
  else if ["false", "False", "FALSE"].contains s then some false
  else none

/-- The value of one digit in a base of at most sixteen. -/
def digit? (base : Nat) (c : Char) : Option Nat :=
  let value :=
    if c.isDigit then some (c.toNat - '0'.toNat)
    else if 'a' ≤ c ∧ c ≤ 'f' then some (c.toNat - 'a'.toNat + 10)
    else if 'A' ≤ c ∧ c ≤ 'F' then some (c.toNat - 'A'.toNat + 10)
    else none
  value.filter (· < base)

/-- The value of digits in a base, if there are any. -/
def natural? (base : Nat) (cs : List Char) : Option Nat :=
  if cs.isEmpty then none
  else (cs.mapM (digit? base)).map (List.foldl (fun n d => base * n + d) 0)

/-- Zeros in front of decimal digits make a text, not a number. -/
def hasLeadingZero : List Char → Bool
  | '0' :: rest => isDigits rest
  | _ => false

/-- An integer without sign. A base other than ten is announced by `0x`, `0o` or `0b`. -/
def unsigned? : List Char → Option Nat
  | '0' :: 'x' :: digits => natural? 16 digits
  | '0' :: 'o' :: digits => natural? 8 digits
  | '0' :: 'b' :: digits => natural? 2 digits
  | digits => if hasLeadingZero digits then none else natural? 10 digits

/-- An integer with a sign or without. -/
def integer? (cs : List Char) : Option Int :=
  let (negative, rest) := splitSign cs
  (unsigned? rest).map fun n => if negative then -(n : Int) else n

/-- A finite float, unless zeros in front of its digits make it a text. -/
def float? (cs : List Char) : Option Binary64 :=
  if hasLeadingZero (splitSign cs).2 then none
  else
    match readBinary64? (.ofList cs) with
    | some (.finite x) => some (.finite x)
    | _ => none

/-- The floats that are written as words. They have no value. -/
def isSpecialFloat (s : String) : Bool :=
  [".inf", ".Inf", ".INF", "+.inf", "+.Inf", "+.INF", "-.inf", "-.Inf", "-.INF", ".nan", ".NaN",
    ".NAN"].contains s

/-- The integers of 128 bits, signed or not. -/
def isWide (n : Int) : Bool :=
  -0x80000000000000000000000000000000 ≤ n && n < 0x100000000000000000000000000000000

/-- The value of a plain scalar. Integers beyond the range of numbers are refused up to 128 bits;
the greater ones are floats. -/
def plainValue? (s : String) : Option Value :=
  if isNullWord s then some .null
  else
    match truth? s with
    | some b => some (.bool b)
    | none =>
      let asFloat : Value :=
        match float? s.toList with
        | some (.finite x) => .number (.float x)
        | _ => if isSpecialFloat s then .null else .string s
      match integer? s.toList with
      | none => some asFloat
      | some n =>
        if h : IsNumberInt n then some (.number (.int n h))
        else if isWide n then none
        else some asFloat

/-! ## Values of nodes -/

mutual

/-- The value of a node. A number that is out of range has none, and then no node around it has
one. -/
def Node.value? : Node → Option Value
  | .plain s => plainValue? s
  | .text s => some (.string s)
  | .sequence items => (itemValues? items).map .array
  | .mapping entries => (entryValues? entries).map fun fields => .object (Fields.ofList fields)

/-- The values of items, if all of them have one. -/
def itemValues? : List Node → Option (List Value)
  | [] => some []
  | item :: rest => do
    let v ← item.value?
    let vs ← itemValues? rest
    return v :: vs

/-- The values under the keys, if all of them have one. -/
def entryValues? : List (String × Node) → Option (List (String × Value))
  | [] => some []
  | (key, item) :: rest => do
    let v ← item.value?
    let vs ← entryValues? rest
    return (key, v) :: vs

end

end Yaml

end WorkflowCondition
