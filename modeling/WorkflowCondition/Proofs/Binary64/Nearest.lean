import Mathlib.Data.Int.Order.Basic
import WorkflowCondition.Binary64.Rounding

/-!
# The nearest binary64 number

`Binary64.Finite.IsNearest x v`: of all finite numbers `x` is nearest to the value `v`, and of two
that are equally near it is the one with the even code. Between `2 ^ 52` and `2 ^ 53` times a power
of two all numbers are multiples of that power, and below there are no farther ones to consider
(`magnitude_grid`), so that rounding a quotient to the nearest integer finds the nearest number
(`nearestCode_nearest`). Every integer of 64 bits has one: `isNearest_nearestFinite`. Nearest
numbers keep the order of the values (`IsNearest.units_le`); there is only one, since between two
that are equally near and even lies another number (`Finite.exists_between`).
-/

namespace WorkflowCondition

/-! ## Rounding a quotient -/

section

variable {n d : Nat} (hd : 0 < d)
include hd

/-- An integer that is not greater than the quotient stays so. -/
theorem le_roundQuotient {a : Nat} (h : a * d ≤ n) : a ≤ roundQuotient n d := by
  have hnear := (roundQuotient_near n d hd).1
  by_contra hlt
  have hmul : (roundQuotient n d + 1) * d ≤ a * d := Nat.mul_le_mul_right d (by omega)
  rw [Nat.succ_mul] at hmul
  omega

/-- An integer that is not less than the quotient stays so. -/
theorem roundQuotient_le {b : Nat} (h : n ≤ b * d) : roundQuotient n d ≤ b := by
  have hnear := (roundQuotient_near n d hd).2
  by_contra hlt
  have hmul : (b + 1) * d ≤ roundQuotient n d * d := Nat.mul_le_mul_right d (by omega)
  rw [Nat.succ_mul] at hmul
  omega

/-- No multiple of the divisor is nearer than the one that rounding gives. -/
theorem roundQuotient_nearest (k : Nat) :
    ((n : Int) - (roundQuotient n d * d : Nat)).natAbs ≤ ((n : Int) - (k * d : Nat)).natAbs := by
  obtain ⟨hlow, hhigh⟩ := roundQuotient_near n d hd
  rcases Nat.lt_trichotomy k (roundQuotient n d) with hlt | rfl | hgt
  · have hmul : (k + 1) * d ≤ roundQuotient n d * d := Nat.mul_le_mul_right d hlt
    rw [Nat.succ_mul] at hmul
    omega
  · exact Nat.le_refl _
  · have hmul : (roundQuotient n d + 1) * d ≤ k * d := Nat.mul_le_mul_right d hgt
    rw [Nat.succ_mul] at hmul
    omega

theorem two_mul_mod_of_half {a : Nat} (h : 2 * n = 2 * (a * d) + d) : 2 * (n % d) = d := by
  have hsplit : n = (n - a * d) + a * d := by omega
  have hlt : n - a * d < d := by omega
  rw [hsplit, Nat.add_mul_mod_self_right, Nat.mod_eq_of_lt hlt]
  omega

/-- Where another multiple of the divisor is equally near, rounding gives an even one. -/
theorem roundQuotient_tie {k : Nat} (hk : k * d ≠ roundQuotient n d * d)
    (h : ((n : Int) - (k * d : Nat)).natAbs = ((n : Int) - (roundQuotient n d * d : Nat)).natAbs) :
    roundQuotient n d % 2 = 0 := by
  obtain ⟨hlow, hhigh⟩ := roundQuotient_near n d hd
  rcases Nat.lt_trichotomy k (roundQuotient n d) with hlt | rfl | hgt
  · have hmul : (k + 1) * d ≤ roundQuotient n d * d := Nat.mul_le_mul_right d hlt
    rw [Nat.succ_mul] at hmul
    have hhalf : 2 * n = 2 * (k * d) + d := by omega
    exact roundQuotient_even (two_mul_mod_of_half hd hhalf)
  · exact absurd rfl hk
  · have hmul : (roundQuotient n d + 1) * d ≤ k * d := Nat.mul_le_mul_right d hgt
    rw [Nat.succ_mul] at hmul
    have hhalf : 2 * n = 2 * (roundQuotient n d * d) + d := by omega
    exact roundQuotient_even (two_mul_mod_of_half hd hhalf)

theorem roundQuotient_of_dvd (h : d ∣ n) : roundQuotient n d * d = n := by
  obtain ⟨q, rfl⟩ := h
  have hle : q ≤ roundQuotient (d * q) d := le_roundQuotient hd (Nat.le_of_eq (Nat.mul_comm q d))
  have hge : roundQuotient (d * q) d ≤ q := roundQuotient_le hd (Nat.le_of_eq (Nat.mul_comm d q))
  rw [Nat.le_antisymm hge hle, Nat.mul_comm]

end

namespace Binary64

/-! ## The grid of magnitudes -/

theorem mul_one_shiftLeft (n k : Nat) : n * (1 <<< k) = n <<< k := by
  rw [Nat.shiftLeft_eq n, Nat.one_shiftLeft]

/-- The distance of neighbouring magnitudes in front of `n`. -/
def spacing (n : Nat) : Nat :=
  1 <<< (Nat.log2 n - 52)

theorem mul_spacing (q n : Nat) : q * spacing n = q <<< (Nat.log2 n - 52) :=
  mul_one_shiftLeft q _

theorem spacing_pos (n : Nat) : 0 < spacing n := by
  rw [spacing, Nat.one_shiftLeft]
  exact Nat.two_pow_pos _

/-- A number has at most 53 digits to the base 2 in units of the spacing. -/
theorem lt_mul_spacing (n : Nat) : n < 2 * blockSize * spacing n := by
  rw [mul_spacing, Nat.shiftLeft_eq]
  calc
    n < 2 ^ (Nat.log2 n + 1) := Nat.lt_log2_self
    _ ≤ 2 ^ (53 + (Nat.log2 n - 52)) := Nat.pow_le_pow_right (by decide) (by omega)
    _ = 2 * blockSize * 2 ^ (Nat.log2 n - 52) := Nat.pow_add 2 53 _

/-- Neighbours are a unit apart, or there are `2 ^ 52` steps of the same size below `n`. -/
theorem spacing_eq_one_or (n : Nat) : spacing n = 1 ∨ blockSize * spacing n ≤ n := by
  by_cases hs : Nat.log2 n ≤ 52
  · left
    rw [spacing, Nat.sub_eq_zero_of_le hs, Nat.shiftLeft_zero]
  · right
    have hn : n ≠ 0 := by
      rintro rfl
      exact hs (by decide)
    have hlog : 52 + (Nat.log2 n - 52) = Nat.log2 n := by omega
    rw [mul_spacing, Nat.shiftLeft_eq]
    calc
      blockSize * 2 ^ (Nat.log2 n - 52) = 2 ^ (52 + (Nat.log2 n - 52)) := (Nat.pow_add 2 52 _).symm
      _ = 2 ^ Nat.log2 n := by rw [hlog]
      _ ≤ n := Nat.log2_self_le hn

/-- The magnitudes of one block of codes, both ends included. -/
theorem magnitude_block {s q : Nat} (hl : s = 0 ∨ blockSize ≤ q) (hu : q ≤ 2 * blockSize) :
    magnitude (s * blockSize + q) = q <<< s := by
  unfold magnitude
  by_cases hq : q < blockSize
  · obtain rfl : s = 0 := hl.resolve_right (by omega)
    rw [if_pos (by omega), Nat.shiftLeft_zero]
    omega
  · rw [if_neg (by omega), Nat.shiftLeft_eq, Nat.shiftLeft_eq]
    by_cases hq' : q < 2 * blockSize
    · have hdiv : (s * blockSize + q) / blockSize = s + 1 := by unfold blockSize at *; omega
      have hmod : (s * blockSize + q) % blockSize = q - blockSize := by unfold blockSize at *; omega
      rw [hdiv, hmod, Nat.add_sub_cancel, Nat.add_sub_cancel' (by omega)]
    · -- The last magnitude of a block is the first of the next.
      obtain rfl : q = 2 * blockSize := by omega
      have hdiv : (s * blockSize + 2 * blockSize) / blockSize = s + 1 + 1 := by
        unfold blockSize at *; omega
      have hmod : (s * blockSize + 2 * blockSize) % blockSize = 0 := by
        unfold blockSize at *; omega
      rw [hdiv, hmod, Nat.add_sub_cancel, Nat.add_zero, Nat.pow_succ]
      rw [Nat.mul_comm (2 ^ s) 2, ← Nat.mul_assoc, Nat.mul_comm blockSize 2]

/-- A magnitude lies below a block or is a multiple of the step of the block. -/
theorem magnitude_grid (code s : Nat) :
    magnitude code < blockSize <<< s ∨ ∃ k, magnitude code = k <<< s := by
  unfold magnitude
  split
  · rename_i hc
    rw [Nat.shiftLeft_eq]
    exact .inl (Nat.lt_of_lt_of_le hc (Nat.le_mul_of_pos_right _ (Nat.two_pow_pos s)))
  · have hmod : code % blockSize < blockSize := Nat.mod_lt _ (by decide)
    generalize code / blockSize - 1 = j
    by_cases hj : j < s
    · left
      rw [Nat.shiftLeft_eq, Nat.shiftLeft_eq]
      have hlt : (blockSize + code % blockSize) * 2 ^ j < 2 * blockSize * 2 ^ j :=
        Nat.mul_lt_mul_of_pos_right (by omega) (Nat.two_pow_pos j)
      have hle : blockSize * 2 ^ (j + 1) ≤ blockSize * 2 ^ s :=
        Nat.mul_le_mul_left _ (Nat.pow_le_pow_right (by decide) hj)
      rw [Nat.pow_succ, Nat.mul_comm (2 ^ j) 2, ← Nat.mul_assoc, Nat.mul_comm blockSize 2] at hle
      exact Nat.lt_of_lt_of_le hlt hle
    · right
      refine ⟨(blockSize + code % blockSize) <<< (j - s), ?_⟩
      rw [← Nat.shiftLeft_add, Nat.sub_add_cancel (by omega)]

/-! ## The nearest magnitude -/

theorem nearestCode_eq (n : Nat) :
    nearestCode n 1 = (Nat.log2 n - 52) * blockSize + roundQuotient n (spacing n) := by
  rw [nearestCode, Nat.div_one, spacing]

theorem roundQuotient_spacing_le (n : Nat) : roundQuotient n (spacing n) ≤ 2 * blockSize :=
  roundQuotient_le (spacing_pos n) (Nat.le_of_lt (lt_mul_spacing n))

/-- The magnitude of the code is the number, rounded to its spacing. -/
theorem magnitude_nearestCode (n : Nat) :
    magnitude (nearestCode n 1) = roundQuotient n (spacing n) * spacing n := by
  rw [nearestCode_eq, mul_spacing]
  refine magnitude_block ?_ (roundQuotient_spacing_le n)
  by_cases hs : Nat.log2 n - 52 = 0
  · exact .inl hs
  · right
    refine le_roundQuotient (spacing_pos n) ((spacing_eq_one_or n).resolve_left fun hone => hs ?_)
    rw [spacing, Nat.one_shiftLeft] at hone
    exact (Nat.pow_eq_one.mp hone).resolve_left (by decide)

/-- Next to a magnitude that is no multiple of the step there is a nearer one that is. -/
theorem exists_multiple_or_far (n code : Nat) :
    (∃ k, magnitude code = k * spacing n) ∨
      ((n : Int) - (magnitude (nearestCode n 1) : Nat)).natAbs <
        ((n : Int) - (magnitude code : Nat)).natAbs := by
  rcases magnitude_grid code (Nat.log2 n - 52) with hlt | hk
  · rcases spacing_eq_one_or n with hone | hle
    · exact .inl ⟨magnitude code, by rw [hone, Nat.mul_one]⟩
    · right
      rw [← mul_spacing] at hlt
      have hnear := roundQuotient_nearest (n := n) (spacing_pos n) blockSize
      rw [magnitude_nearestCode]
      omega
  · obtain ⟨k, hk⟩ := hk
    exact .inl ⟨k, hk.trans (mul_spacing k n).symm⟩

/-- No magnitude is nearer than that of the nearest code. -/
theorem nearestCode_nearest (n code : Nat) :
    ((n : Int) - (magnitude (nearestCode n 1) : Nat)).natAbs ≤
      ((n : Int) - (magnitude code : Nat)).natAbs := by
  rcases exists_multiple_or_far n code with ⟨k, hk⟩ | hfar
  · rw [hk, magnitude_nearestCode]
    exact roundQuotient_nearest (spacing_pos n) k
  · exact Nat.le_of_lt hfar

/-- Where another magnitude is equally near, the nearest code is even. -/
theorem nearestCode_tie {n code : Nat} (hne : magnitude code ≠ magnitude (nearestCode n 1))
    (h : ((n : Int) - (magnitude code : Nat)).natAbs =
      ((n : Int) - (magnitude (nearestCode n 1) : Nat)).natAbs) : nearestCode n 1 % 2 = 0 := by
  rcases exists_multiple_or_far n code with ⟨k, hk⟩ | hfar
  · rw [hk, magnitude_nearestCode] at hne h
    have heven := roundQuotient_tie (spacing_pos n) hne h
    rw [nearestCode_eq]
    unfold blockSize
    omega
  · omega

/-! ## Numbers with a sign -/

/-- `x` is nearest to the value `v`, and even if another number is equally near. -/
structure Finite.IsNearest (x : Finite) (v : Int) : Prop where
  nearest : ∀ y : Finite, (v - x.units).natAbs ≤ (v - y.units).natAbs
  even : ∀ y : Finite, y.units ≠ x.units → (v - y.units).natAbs = (v - x.units).natAbs →
    x.code % 2 = 0

theorem Finite.isNearest_units (x : Finite) : x.IsNearest x.units := by
  refine ⟨fun y => ?_, fun y hne h => ?_⟩ <;> omega

/-- A value that is a number has no other number nearest to it. -/
theorem Finite.IsNearest.units_eq {x y : Finite} (hx : x.IsNearest y.units) :
    x.units = y.units := by
  have := hx.nearest y
  omega

theorem magnitude_zero : magnitude 0 = 0 := by
  decide

theorem magnitude_one : magnitude 1 = 1 := by
  decide

theorem lt_of_magnitude_lt {a b : Nat} (h : magnitude a < magnitude b) : a < b := by
  rcases Nat.lt_trichotomy a b with hlt | rfl | hgt
  · exact hlt
  · exact absurd h (Nat.lt_irrefl _)
  · exact absurd h (Nat.lt_asymm (magnitude_strictMono hgt))

/-- Numbers with even codes are no neighbours. -/
theorem Finite.exists_between {x y : Finite} (hx : x.code % 2 = 0) (hy : y.code % 2 = 0)
    (h : x.units < y.units) : ∃ z : Finite, x.units < z.units ∧ z.units < y.units := by
  obtain ⟨xneg, a, ha⟩ := x
  obtain ⟨yneg, b, hb⟩ := y
  dsimp only at hx hy
  cases xneg <;> cases yneg <;> simp only [units, Bool.false_eq_true, if_false, if_true] at h ⊢
  · have hab : a < b := lt_of_magnitude_lt (by omega)
    have hlow : magnitude a < magnitude (a + 1) := magnitude_lt_succ a
    have hhigh : magnitude (a + 1) < magnitude b := magnitude_strictMono (by omega)
    exact ⟨⟨false, a + 1, by omega⟩, by simpa using hlow, by simpa using hhigh⟩
  · omega
  · -- Between a negative and a positive number lies the least number of one of the signs.
    by_cases hzero : a = 0
    · subst hzero
      rw [magnitude_zero] at h
      have hb0 : 0 < b := lt_of_magnitude_lt (by rw [magnitude_zero]; omega)
      have hhigh : magnitude 1 < magnitude b := magnitude_strictMono (by omega)
      exact ⟨⟨false, 1, by decide⟩, by simp [magnitude_zero, magnitude_one], by simpa using hhigh⟩
    · have hlow : magnitude 1 < magnitude a := magnitude_strictMono (by omega)
      refine ⟨⟨true, 1, by decide⟩, by simpa using hlow, ?_⟩
      simp only [if_true, magnitude_one]
      omega
  · have hab : b < a := lt_of_magnitude_lt (by omega)
    have hlow : magnitude b < magnitude (b + 1) := magnitude_lt_succ b
    have hhigh : magnitude (b + 1) < magnitude a := magnitude_strictMono (by omega)
    exact ⟨⟨true, b + 1, by omega⟩, by simpa using hhigh, by simpa using hlow⟩

/-- Nearest numbers are in the order of the values. -/
theorem Finite.IsNearest.units_le {x y : Finite} {v w : Int} (hx : x.IsNearest v)
    (hy : y.IsNearest w) (h : v ≤ w) : x.units ≤ y.units := by
  have hv := hx.nearest y
  have hw := hy.nearest x
  by_contra hlt
  -- The value is half way between the two, and there is a number that is nearer.
  have hxeven := hx.even y (by omega) (by omega)
  have hyeven := hy.even x (by omega) (by omega)
  obtain ⟨z, hyz, hzx⟩ := exists_between hyeven hxeven (by omega)
  have hz := hx.nearest z
  omega

theorem Finite.exists_magnitude (x : Finite) :
    x.units = magnitude x.code ∨ x.units = -(magnitude x.code : Int) := by
  cases h : x.negative <;> simp [units, h]

/-- A number of the other sign is not nearer than zero. -/
theorem nearest_of_signed (n : Nat) {code : Nat} {u : Int}
    (hu : u = magnitude code ∨ u = -(magnitude code : Int)) :
    ((n : Int) - (magnitude (nearestCode n 1) : Nat)).natAbs ≤ ((n : Int) - u).natAbs ∧
      (u ≠ magnitude (nearestCode n 1) →
        ((n : Int) - u).natAbs = ((n : Int) - (magnitude (nearestCode n 1) : Nat)).natAbs →
        nearestCode n 1 % 2 = 0) := by
  have hnear := nearestCode_nearest n code
  have hzero := nearestCode_nearest n 0
  rw [magnitude_zero] at hzero
  rcases hu with rfl | rfl
  · exact ⟨hnear, fun hne h => nearestCode_tie (by omega) h⟩
  · refine ⟨by omega, fun hne h => ?_⟩
    have hcode : magnitude code = 0 := by omega
    have hne' : magnitude code ≠ magnitude (nearestCode n 1) := by omega
    exact nearestCode_tie hne' (by omega)

section

variable {x : Finite} {n : Nat}

/-- For a positive number it is enough to look at magnitudes. -/
theorem Finite.IsNearest.of_pos (hpos : x.negative = false) (hcode : x.code = nearestCode n 1) :
    x.IsNearest n := by
  have hunits : x.units = magnitude (nearestCode n 1) := by simp [Finite.units, hpos, hcode]
  refine ⟨fun y => ?_, fun y => ?_⟩ <;> rw [hunits]
  · exact (nearest_of_signed n y.exists_magnitude).1
  · rw [hcode]
    exact (nearest_of_signed n y.exists_magnitude).2

/-- The distances are those of the opposite numbers from the opposite value. -/
theorem Finite.IsNearest.of_neg (hneg : x.negative = true) (hcode : x.code = nearestCode n 1) :
    x.IsNearest (-n) := by
  have hunits : x.units = -(magnitude (nearestCode n 1) : Int) := by
    simp [Finite.units, hneg, hcode]
  have hnear (y : Finite) := by
    have hsign : -y.units = magnitude y.code ∨ -y.units = -(magnitude y.code : Int) := by
      have := y.exists_magnitude
      omega
    exact nearest_of_signed n hsign
  refine ⟨fun y => ?_, fun y hne heq => ?_⟩
  · have := (hnear y).1
    omega
  · rw [hcode]
    exact (hnear y).2 (by omega) (by omega)

end

theorem log2_shiftLeft_lt {n j : Nat} (hj : 0 < j) (h : n < 1 <<< j) (k : Nat) :
    Nat.log2 (n <<< k) < j + k := by
  by_cases hn : n <<< k = 0
  · rw [hn, Nat.log2_zero]
    omega
  · rw [Nat.log2_lt hn, Nat.shiftLeft_eq, Nat.pow_add]
    rw [Nat.one_shiftLeft] at h
    exact Nat.mul_lt_mul_of_pos_right h (Nat.two_pow_pos k)

/-- An integer of 64 bits is far below infinity. -/
theorem nearestNat_lt {n : Nat} (h : n < 0x10000000000000000) : nearestNat n < infinityCode := by
  have hlog : Nat.log2 (n * one) < 64 + 1074 := by
    rw [one, mul_one_shiftLeft]
    exact log2_shiftLeft_lt (by decide) h 1074
  have hq := roundQuotient_spacing_le (n * one)
  rw [nearestNat, nearestCode_eq]
  unfold infinityCode blockSize at *
  omega

/-- The number nearest to an integer of 64 bits. -/
def nearestFinite (n : Int) (h : n.natAbs < 0x10000000000000000) : Finite :=
  ⟨decide (n < 0), nearestNat n.natAbs, nearestNat_lt h⟩

/-- A natural number with at most 53 significant bits is not rounded. -/
theorem magnitude_nearestNat {m : Nat} (hm : m < 2 * blockSize) (k : Nat) :
    magnitude (nearestNat (m <<< k)) = (m <<< k) * one := by
  rw [nearestNat, magnitude_nearestCode]
  apply roundQuotient_of_dvd (spacing_pos _)
  rw [one, mul_one_shiftLeft, ← Nat.shiftLeft_add]
  have hlog := log2_shiftLeft_lt (show 0 < 53 by decide) hm (k + 1074)
  rw [spacing, Nat.one_shiftLeft]
  rw [Nat.shiftLeft_eq m] at hlog ⊢
  exact Nat.dvd_mul_left_of_dvd (Nat.pow_dvd_pow 2 (by omega)) m

section

variable {n : Int} (h : n.natAbs < 0x10000000000000000)

theorem units_nearestFinite_of_neg (hn : n < 0) :
    (nearestFinite n h).units = -(magnitude (nearestNat n.natAbs) : Int) := by
  simp [Finite.units, nearestFinite, hn]

theorem units_nearestFinite_of_nonneg (hn : ¬ n < 0) :
    (nearestFinite n h).units = magnitude (nearestNat n.natAbs) := by
  simp [Finite.units, nearestFinite, hn]

theorem units_nearestFinite : (nearestFinite n h).units = nearestUnits n := by
  rw [nearestUnits]
  rcases Int.lt_trichotomy n 0 with hn | rfl | hn
  · rw [units_nearestFinite_of_neg h hn, Int.sign_eq_neg_one_of_neg hn, Int.neg_one_mul]
  · have hzero : magnitude (nearestNat 0) = 0 := by
      simpa using magnitude_nearestNat (show 0 < 2 * blockSize by decide) 0
    rw [units_nearestFinite_of_nonneg h (Int.lt_irrefl 0), Int.natAbs_zero, hzero]
    decide
  · rw [units_nearestFinite_of_nonneg h (by omega), Int.sign_eq_one_of_pos hn, Int.one_mul]

theorem isNearest_nearestFinite : (nearestFinite n h).IsNearest (n * one) := by
  have habs : ((n.natAbs * one : Nat) : Int) = n.natAbs * (one : Int) := Int.natCast_mul _ _
  by_cases hn : n < 0
  · have hvalue : n * (one : Int) = -((n.natAbs * one : Nat) : Int) := by
      rw [habs, Int.ofNat_natAbs_of_nonpos (Int.le_of_lt hn), Int.neg_mul, Int.neg_neg]
    rw [hvalue]
    exact .of_neg (decide_eq_true hn) rfl
  · have hvalue : n * (one : Int) = ((n.natAbs * one : Nat) : Int) := by
      rw [habs, Int.natAbs_of_nonneg (by omega)]
    rw [hvalue]
    exact .of_pos (decide_eq_false hn) rfl

end

end Binary64

end WorkflowCondition
