/-!
# Binary64 numbers

A finite number of the binary64 format is a sign and a magnitude. Magnitudes are numbered in
increasing order from `0` up to `infinityCode`, exclusive; the number of a magnitude is also its bit
pattern below the sign bit. `Binary64.magnitude` gives the exact value in units of `2 ^ -1074`, the
least positive number of the format, and `magnitude_strictMono` says that it keeps the order.
-/

namespace WorkflowCondition

namespace Binary64

/-- How many magnitudes in a row have the same distance to the next: `2 ^ 52`. -/
abbrev blockSize : Nat :=
  0x10000000000000

/-- The number that the least magnitude out of range would have; the bit pattern of infinity. -/
def infinityCode : Nat :=
  2047 * blockSize

/-- The value of the magnitude numbered `code`, in units of `2 ^ -1074`. The numbers of the first
block count single units; from there on each block doubles the step between neighbours. -/
def magnitude (code : Nat) : Nat :=
  if code < blockSize then code
  else (blockSize + code % blockSize) <<< (code / blockSize - 1)

/-- A finite number; `-0` is not `0`. -/
structure Finite where
  negative : Bool
  code : Nat
  code_lt : code < infinityCode
deriving DecidableEq, Repr

end Binary64

/-- A number of the binary64 format. All its NaNs are one. -/
inductive Binary64 where
  | finite (x : Binary64.Finite)
  | infinite (negative : Bool)
  | nan
deriving DecidableEq, Repr

namespace Binary64

/-- The exact value in units of `2 ^ -1074`; both zeros have the value zero. -/
def Finite.units (x : Finite) : Int :=
  if x.negative then -(magnitude x.code : Int) else magnitude x.code

/-- The number of a sign and a magnitude, infinite from `infinityCode` on. -/
def ofCode (negative : Bool) (code : Nat) : Binary64 :=
  if h : code < infinityCode then .finite ⟨negative, code, h⟩ else .infinite negative

/-- The last magnitude of a block is less than the first of the next, too. -/
theorem magnitude_lt_succ (code : Nat) : magnitude code < magnitude (code + 1) := by
  unfold magnitude
  by_cases h : code + 1 < blockSize
  · rw [if_pos h, if_pos (by omega)]; omega
  by_cases h' : code < blockSize
  · have hc : code = blockSize - 1 := by omega
    subst hc
    decide
  · rw [if_neg h, if_neg h', Nat.shiftLeft_eq, Nat.shiftLeft_eq]
    by_cases hm : code % blockSize + 1 = blockSize
    · have hd : (code + 1) / blockSize - 1 = code / blockSize - 1 + 1 := by
        unfold blockSize at *; omega
      have hr : (code + 1) % blockSize = 0 := by unfold blockSize at *; omega
      rw [hd, hr, @Nat.pow_succ' 2 (code / blockSize - 1), ← Nat.mul_assoc]
      exact Nat.mul_lt_mul_of_pos_right (by omega) (Nat.two_pow_pos _)
    · have hd : (code + 1) / blockSize = code / blockSize := by unfold blockSize at *; omega
      have hr : (code + 1) % blockSize = code % blockSize + 1 := by unfold blockSize at *; omega
      rw [hd, hr]
      exact Nat.mul_lt_mul_of_pos_right (by omega) (Nat.two_pow_pos _)

/-- A greater number belongs to a greater magnitude. -/
theorem magnitude_strictMono {a b : Nat} (h : a < b) : magnitude a < magnitude b := by
  induction b with
  | zero => omega
  | succ b ih =>
    rcases Nat.lt_succ_iff_lt_or_eq.mp h with h | rfl
    · exact Nat.lt_trans (ih h) (magnitude_lt_succ b)
    · exact magnitude_lt_succ a

end Binary64

end WorkflowCondition
