import WorkflowCondition.Value.Fields
import WorkflowCondition.Value.Number

/-!
# Values

The values that a condition works on. Equality is weak in that no kind is ever converted into
another: values of different kinds are unequal, and only two numbers or two strings have an order.
-/

namespace WorkflowCondition

/-- What a condition works on and what it gives: the values of JSON. -/
inductive Value where
  | null
  | bool (b : Bool)
  | number (n : Number)
  | string (s : String)
  | array (elements : List Value)
  | object (fields : List (String × Value))
deriving Inhabited

namespace Value

mutual

/-- Same kind and same value, at every level. -/
def equal : Value → Value → Bool
  | .null, .null => true
  | .bool a, .bool b => a == b
  | .number a, .number b => a.equal b
  | .string a, .string b => a == b
  | .array as, .array bs => equalElements as bs
  | .object as, .object bs => equalFields as bs
  | _, _ => false

/-- As many elements, and equal ones in the same places. -/
def equalElements : List Value → List Value → Bool
  | [], [] => true
  | a :: as, b :: bs => a.equal b && equalElements as bs
  | _, _ => false

/-- The same names in the same order, with equal values. -/
def equalFields : List (String × Value) → List (String × Value) → Bool
  | [], [] => true
  | (ka, a) :: as, (kb, b) :: bs => ka == kb && a.equal b && equalFields as bs
  | _, _ => false

end

/-- The order of two numbers or of two strings; strings are ordered by their code points. -/
def compare? : Value → Value → Option Ordering
  | .number a, .number b => some (a.compare b)
  | .string a, .string b => some (Ord.compare a b)
  | _, _ => none

/-- All values but `null`, `false`, the zeros and the empty string count as true. -/
def isTruthy : Value → Bool
  | .null => false
  | .bool b => b
  | .number n => !n.isZero
  | .string s => !s.isEmpty
  | .array _ => true
  | .object _ => true

/-- The text of a string; any other value counts as the empty text. -/
def asText : Value → String
  | .string s => s
  | _ => ""

mutual

/-- Every object in the value has its names in increasing order. -/
def Sorted : Value → Prop
  | .array elements => SortedElements elements
  | .object fields => Fields.Sorted fields ∧ SortedFields fields
  | _ => True

/-- Every object in the elements has its names in order. -/
def SortedElements : List Value → Prop
  | [] => True
  | v :: vs => v.Sorted ∧ SortedElements vs

/-- Every object under one of the names has its names in order. -/
def SortedFields : List (String × Value) → Prop
  | [] => True
  | (_, v) :: rest => v.Sorted ∧ SortedFields rest

end

end Value

end WorkflowCondition
