import WorkflowCondition.Binary64.Rounding

/-!
# Numbers

A number is an integer of at most 64 bits, signed or unsigned, or a finite binary64 number. The two
kinds are never equal, yet they are ordered with each other: two integers that fit in 64 signed bits
by their values, all other pairs by the values of their nearest binary64 numbers.
-/

namespace WorkflowCondition

/-- The integers that are numbers: from `-2 ^ 63` to `2 ^ 64 - 1`. -/
def IsNumberInt (n : Int) : Prop :=
  -0x8000000000000000 ≤ n ∧ n < 0x10000000000000000

instance (n : Int) : Decidable (IsNumberInt n) :=
  inferInstanceAs (Decidable (_ ∧ _))

/-- An integer of limited size or a finite float. NaN and the infinities are no numbers. -/
inductive Number where
  | int (n : Int) (inRange : IsNumberInt n)
  | float (x : Binary64.Finite)
deriving DecidableEq, Repr

namespace Number

/-- The number of a signed 64-bit integer. -/
def ofInt64 (n : Int64) : Number :=
  .int n.toInt (by
    have := n.le_toInt
    have := n.toInt_lt
    unfold IsNumberInt
    omega)

/-- Same kind and same value; the zeros of both signs are equal. -/
def equal : Number → Number → Bool
  | .int m _, .int n _ => m == n
  | .float x, .float y => x.units == y.units
  | _, _ => false

/-- The integer, if it fits in 64 signed bits. -/
def small? : Number → Option Int
  | .int n _ => if n < 0x8000000000000000 then some n else none
  | .float _ => none

/-- The value of the nearest binary64 number, in its units. -/
def nearestUnits : Number → Int
  | .int n _ => Binary64.nearestUnits n
  | .float x => x.units

/-- The order of two numbers: exact for two integers that fit, else after rounding both. -/
def compare (a b : Number) : Ordering :=
  match a.small?, b.small? with
  | some m, some n => Ord.compare m n
  | _, _ => Ord.compare a.nearestUnits b.nearestUnits

/-- Whether the value is zero; the sign does not count. -/
def isZero : Number → Bool
  | .int n _ => n == 0
  | .float x => x.units == 0

end Number

end WorkflowCondition
