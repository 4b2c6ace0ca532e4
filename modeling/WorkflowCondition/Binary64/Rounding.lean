import WorkflowCondition.Binary64.Basic

/-!
# Rounding to binary64

Every operation on binary64 numbers here is exact arithmetic followed by one rounding to the nearest
number of the format, a half going to the neighbour with the even code. `nearestCode` rounds a
quotient of natural numbers; reading of decimals, products and quotients are instances of it.
-/

namespace WorkflowCondition

/-- The integer nearest to `n / d`, the even one of two that are equally near. -/
def roundQuotient (n d : Nat) : Nat :=
  let q := n / d
  let r := n % d
  if 2 * r < d then q else if d < 2 * r then q + 1 else q + q % 2

/-- The result of rounding is at most half a unit off. -/
theorem roundQuotient_near (n d : Nat) (h : 0 < d) :
    2 * n ≤ 2 * (roundQuotient n d * d) + d ∧ 2 * (roundQuotient n d * d) ≤ 2 * n + d := by
  have hn : d * (n / d) + n % d = n := Nat.div_add_mod n d
  have hr : n % d < d := Nat.mod_lt n h
  have hc : n / d * d = d * (n / d) := Nat.mul_comm _ _
  have hs : (n / d + 1) * d = n / d * d + d := Nat.succ_mul _ _
  unfold roundQuotient
  dsimp only
  split
  · omega
  · split
    · omega
    · rcases Nat.mod_two_eq_zero_or_one (n / d) with hq | hq <;> rw [hq]
      · rw [Nat.add_zero]; omega
      · omega

/-- Of two integers that are equally near the result is the even one. -/
theorem roundQuotient_even {n d : Nat} (h : 2 * (n % d) = d) : roundQuotient n d % 2 = 0 := by
  unfold roundQuotient
  dsimp only
  rw [if_neg (by omega), if_neg (by omega)]
  omega

namespace Binary64

/-- The code of the magnitude nearest to `n / d` units. The quotient is brought to 53 significant
bits and rounded there; a carry moves on to the next block of codes by itself. From `infinityCode`
on the quotient is out of range. -/
def nearestCode (n d : Nat) : Nat :=
  let shift := Nat.log2 (n / d) - 52
  shift * blockSize + roundQuotient n (d <<< shift)

/-- How many units make one. -/
def one : Nat :=
  1 <<< 1074

/-- The code nearest to a natural number. -/
def nearestNat (n : Nat) : Nat :=
  nearestCode (n * one) 1

/-- The value of the number nearest to an integer, in units. -/
def nearestUnits (n : Int) : Int :=
  n.sign * magnitude (nearestNat n.natAbs)

/-- The code nearest to the product of two magnitudes. -/
def product (a b : Nat) : Nat :=
  nearestCode (magnitude a * magnitude b) one

/-- The code nearest to the quotient of two magnitudes. -/
def quotient (a b : Nat) : Nat :=
  nearestCode (magnitude a * one) (magnitude b)

end Binary64

end WorkflowCondition
