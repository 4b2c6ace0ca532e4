import WorkflowCondition.Value.Basic

/-!
# Identity of values

Whether two values are one and the same can be decided. This is finer than the equality of
conditions, `Value.equal`, for which the zeros of both signs are equal.
-/

namespace WorkflowCondition

namespace Value

mutual

/-- The same tree, with the same sign for a zero. -/
def isSame : Value → Value → Bool
  | .null, .null => true
  | .bool a, .bool b => a == b
  | .number a, .number b => a == b
  | .string a, .string b => a == b
  | .array as, .array bs => areSameElements as bs
  | .object as, .object bs => areSameFields as bs
  | _, _ => false

/-- The same trees in the same places. -/
def areSameElements : List Value → List Value → Bool
  | [], [] => true
  | a :: as, b :: bs => a.isSame b && areSameElements as bs
  | _, _ => false

/-- The same names with the same trees, in the same order. -/
def areSameFields : List (String × Value) → List (String × Value) → Bool
  | [], [] => true
  | (ka, a) :: as, (kb, b) :: bs => ka == kb && a.isSame b && areSameFields as bs
  | _, _ => false

end

mutual

theorem isSame_iff : ∀ a b : Value, a.isSame b ↔ a = b
  | .null, b => by cases b <;> simp [isSame]
  | .bool _, b => by cases b <;> simp [isSame]
  | .number _, b => by cases b <;> simp [isSame]
  | .string _, b => by cases b <;> simp [isSame]
  | .array as, b => by cases b <;> simp [isSame, areSameElements_iff as]
  | .object as, b => by cases b <;> simp [isSame, areSameFields_iff as]

theorem areSameElements_iff : ∀ as bs : List Value, areSameElements as bs ↔ as = bs
  | [], bs => by cases bs <;> simp [areSameElements]
  | a :: as, bs => by cases bs <;> simp [areSameElements, isSame_iff a, areSameElements_iff as]

theorem areSameFields_iff : ∀ as bs : List (String × Value), areSameFields as bs ↔ as = bs
  | [], bs => by cases bs <;> simp [areSameFields]
  | (ka, a) :: as, bs => by
    cases bs <;> simp [areSameFields, isSame_iff a, areSameFields_iff as, Prod.ext_iff]

end

instance : DecidableEq Value := fun a b =>
  decidable_of_iff _ (isSame_iff a b)

end Value

end WorkflowCondition
