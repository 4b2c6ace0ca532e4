import WorkflowCondition.Evaluation
import WorkflowCondition.Proofs.Binary64.Nearest

/-!
# The order of numbers

Two integers of 64 signed bits are ordered by their values, all other pairs by their nearest
binary64 numbers. Rounding keeps the order (`nearestUnits_le`), so that a comparison may find two
numbers equal that are not, but never reverses them (`compare_eq_or`); and it is the order of the
values where nothing is rounded (`compare_of_comparesExactly`). Of the laws of a total preorder one
is lost: `≤` is not transitive between two integers that are compared by their values, with a
number in between that is compared with them by its nearest one (`compare_rounded`). The others
hold, and `<` is transitive everywhere (`compare_numbers`).
-/

namespace WorkflowCondition

open Binary64 (Finite)

namespace Number

/-- The exact value, in units of `2 ^ -1074`. -/
def units : Number → Int
  | .int n _ => n * Binary64.one
  | .float x => x.units

/-- The number is an integer of 64 signed bits. -/
def IsInt64 : Number → Prop
  | .int n _ => n < 0x8000000000000000
  | .float _ => False

instance (a : Number) : Decidable a.IsInt64 :=
  match a with
  | .int _ _ => inferInstanceAs (Decidable (_ < _))
  | .float _ => inferInstanceAs (Decidable False)

/-- The number is a float, whatever its value. -/
def IsFloat : Number → Prop
  | .int _ _ => False
  | .float _ => True

theorem IsFloat.not_isInt64 {a : Number} (h : a.IsFloat) : ¬ a.IsInt64 := by
  cases a with
  | int n hn => exact h.elim
  | float x => exact id

/-- Some binary64 number has the same value. -/
def IsBinary64 (a : Number) : Prop :=
  ∃ x : Finite, x.units = a.units

/-- Nothing is rounded when the two are compared. -/
def ComparesExactly (a b : Number) : Prop :=
  a.IsInt64 ∧ b.IsInt64 ∨ a.IsBinary64 ∧ b.IsBinary64

/-! ## The nearest binary64 number -/

theorem natAbs_lt {n : Int} (h : IsNumberInt n) : n.natAbs < 0x10000000000000000 := by
  unfold IsNumberInt at h
  omega

/-- The binary64 number that stands for the number in comparisons. -/
def nearest : Number → Finite
  | .int n h => Binary64.nearestFinite n (natAbs_lt h)
  | .float x => x

theorem units_nearest (a : Number) : a.nearest.units = a.nearestUnits := by
  cases a with
  | int n h => exact Binary64.units_nearestFinite (natAbs_lt h)
  | float x => rfl

/-- No finite float is nearer to the number, and of two at the same distance it is the even one. -/
theorem isNearest_nearest (a : Number) : a.nearest.IsNearest a.units := by
  cases a with
  | int n h => exact Binary64.isNearest_nearestFinite (natAbs_lt h)
  | float x => exact x.isNearest_units

/-- Rounding keeps the order, but not the difference. -/
theorem nearestUnits_le {a b : Number} (h : a.units ≤ b.units) :
    a.nearestUnits ≤ b.nearestUnits := by
  rw [← units_nearest, ← units_nearest]
  exact a.isNearest_nearest.units_le b.isNearest_nearest h

/-- A number of the format is not changed by rounding. -/
theorem IsBinary64.nearestUnits_eq {a : Number} (h : a.IsBinary64) : a.nearestUnits = a.units := by
  obtain ⟨x, hx⟩ := h
  have hnear := a.isNearest_nearest
  rw [← hx] at hnear ⊢
  rw [← units_nearest]
  exact hnear.units_eq

theorem isBinary64_float (x : Finite) : (Number.float x).IsBinary64 :=
  ⟨x, rfl⟩

/-- An integer of at most 53 significant bits. -/
theorem isBinary64_int {n : Int} (h : IsNumberInt n) {m k : Nat} (hm : m < 0x20000000000000)
    (hn : n.natAbs = m <<< k) : (Number.int n h).IsBinary64 := by
  refine ⟨nearest (.int n h), ?_⟩
  rw [units_nearest, nearestUnits, Binary64.nearestUnits, hn, Binary64.magnitude_nearestNat hm k,
    ← hn, Int.natCast_mul, ← Int.mul_assoc, Int.sign_mul_natAbs, units]

/-- Up to `2 ^ 53` every integer is a number of the format. -/
theorem isBinary64_of_natAbs_le {n : Int} (h : IsNumberInt n) (hn : n.natAbs ≤ 0x20000000000000) :
    (Number.int n h).IsBinary64 := by
  rcases Nat.lt_or_eq_of_le hn with hlt | heq
  · exact isBinary64_int h (k := 0) hlt rfl
  · exact isBinary64_int h (m := 1) (k := 53) (by decide) heq

/-! ## Comparison -/

theorem compare_mul_one (m n : Int) :
    Ord.compare (m * Binary64.one) (n * Binary64.one) = Ord.compare m n := by
  have hone : 0 < (Binary64.one : Int) := by decide
  rcases Int.lt_trichotomy m n with hlt | rfl | hgt
  · rw [Int.compare_eq_lt.mpr hlt, Int.compare_eq_lt.mpr (Int.mul_lt_mul_of_pos_right hlt hone)]
  · rw [Int.compare_eq_eq.mpr rfl, Int.compare_eq_eq.mpr rfl]
  · rw [Int.compare_eq_gt.mpr hgt, Int.compare_eq_gt.mpr (Int.mul_lt_mul_of_pos_right hgt hone)]

instance : Std.OrientedCmp compare where
  eq_swap {a b} := by
    unfold compare
    cases a.small? <;> cases b.small? <;> exact Std.OrientedOrd.eq_swap

section

variable {a b c : Number}

theorem small?_of_isInt64 (ha : a.IsInt64) :
    ∃ n, a.small? = some n ∧ a.units = n * Binary64.one := by
  cases a with
  | int n h => exact ⟨n, if_pos ha, rfl⟩
  | float x => exact ha.elim

theorem small?_of_not_isInt64 (ha : ¬ a.IsInt64) : a.small? = none := by
  cases a with
  | int n h => exact if_neg ha
  | float x => rfl

theorem compare_of_isInt64 (ha : a.IsInt64) (hb : b.IsInt64) :
    a.compare b = Ord.compare a.units b.units := by
  obtain ⟨m, hm, hunits⟩ := small?_of_isInt64 ha
  obtain ⟨n, hn, hunits'⟩ := small?_of_isInt64 hb
  rw [compare, hm, hn, hunits, hunits', compare_mul_one]

theorem compare_of_not_isInt64 (h : ¬ (a.IsInt64 ∧ b.IsInt64)) :
    a.compare b = Ord.compare a.nearestUnits b.nearestUnits := by
  unfold compare
  by_cases ha : a.IsInt64
  · rw [small?_of_not_isInt64 fun hb => h ⟨ha, hb⟩]
    cases a.small? <;> rfl
  · rw [small?_of_not_isInt64 ha]

/-- Comparison does not reverse two numbers, but it may find them equal. -/
theorem compare_eq_or (a b : Number) :
    a.compare b = .eq ∨ a.compare b = Ord.compare a.units b.units := by
  by_cases h : a.IsInt64 ∧ b.IsInt64
  · exact .inr (compare_of_isInt64 h.1 h.2)
  · rw [compare_of_not_isInt64 h]
    rcases Int.lt_trichotomy a.units b.units with hlt | heq | hgt
    · rw [Int.compare_eq_lt.mpr hlt]
      have hle := nearestUnits_le (Int.le_of_lt hlt)
      rcases Int.lt_or_eq_of_le hle with h | h
      · exact .inr (Int.compare_eq_lt.mpr h)
      · exact .inl (Int.compare_eq_eq.mpr h)
    · have hle := nearestUnits_le (Int.le_of_eq heq)
      have hge := nearestUnits_le (Int.le_of_eq heq.symm)
      exact .inl (Int.compare_eq_eq.mpr (Int.le_antisymm hle hge))
    · rw [Int.compare_eq_gt.mpr hgt]
      have hge := nearestUnits_le (Int.le_of_lt hgt)
      rcases Int.lt_or_eq_of_le hge with h | h
      · exact .inr (Int.compare_eq_gt.mpr h)
      · exact .inl (Int.compare_eq_eq.mpr h.symm)

/-- The cases in which rounding does no harm. -/
theorem compare_of_comparesExactly (h : ComparesExactly a b) :
    a.compare b = Ord.compare a.units b.units := by
  by_cases hint : a.IsInt64 ∧ b.IsInt64
  · exact compare_of_isInt64 hint.1 hint.2
  · obtain ⟨ha, hb⟩ := h.resolve_left hint
    rw [compare_of_not_isInt64 hint, ha.nearestUnits_eq, hb.nearestUnits_eq]

/-- An order that is found is the true one. -/
theorem units_lt_of_compare (h : a.compare b = .lt) : a.units < b.units := by
  rcases compare_eq_or a b with heq | hunits
  · rw [heq] at h
    contradiction
  · exact Int.compare_eq_lt.mp (hunits ▸ h)

theorem nearestUnits_le_of_compare (h : a.compare b ≠ .gt) : a.nearestUnits ≤ b.nearestUnits := by
  by_cases hint : a.IsInt64 ∧ b.IsInt64
  · rw [compare_of_isInt64 hint.1 hint.2] at h
    exact nearestUnits_le (Int.not_lt.mp fun hlt => h (Int.compare_eq_gt.mpr hlt))
  · rw [compare_of_not_isInt64 hint] at h
    exact Int.not_lt.mp fun hlt => h (Int.compare_eq_gt.mpr hlt)

/-- `<` is transitive: of three numbers two that are not both integers of 64 bits have nearest
numbers in that order. -/
theorem compare_lt_trans (hab : a.compare b = .lt) (hbc : b.compare c = .lt) :
    a.compare c = .lt := by
  have hunits : a.units < c.units :=
    Int.lt_trans (units_lt_of_compare hab) (units_lt_of_compare hbc)
  by_cases hac : a.IsInt64 ∧ c.IsInt64
  · rw [compare_of_isInt64 hac.1 hac.2]
    exact Int.compare_eq_lt.mpr hunits
  · have hle := nearestUnits_le_of_compare (by rw [hab]; decide)
    have hle' := nearestUnits_le_of_compare (by rw [hbc]; decide)
    rw [compare_of_not_isInt64 hac]
    apply Int.compare_eq_lt.mpr
    by_cases hint : a.IsInt64 ∧ b.IsInt64
    · rw [compare_of_not_isInt64 fun h => hac ⟨hint.1, h.2⟩] at hbc
      exact Int.lt_of_le_of_lt hle (Int.compare_eq_lt.mp hbc)
    · rw [compare_of_not_isInt64 hint] at hab
      exact Int.lt_of_lt_of_le (Int.compare_eq_lt.mp hab) hle'

/-- `≤` is transitive where the ends are ordered by their nearest numbers. -/
theorem compare_le_trans (hac : ¬ (a.IsInt64 ∧ c.IsInt64)) (hab : a.compare b ≠ .gt)
    (hbc : b.compare c ≠ .gt) : a.compare c ≠ .gt := by
  rw [compare_of_not_isInt64 hac]
  intro hgt
  have hle := nearestUnits_le_of_compare hab
  have hle' := nearestUnits_le_of_compare hbc
  exact Int.not_lt.mpr (Int.le_trans hle hle') (Int.compare_eq_gt.mp hgt)

theorem compare_le_trans_of_comparesExactly (hab : ComparesExactly a b) (hbc : ComparesExactly b c)
    (hac : ComparesExactly a c) (h : a.compare b ≠ .gt) (h' : b.compare c ≠ .gt) :
    a.compare c ≠ .gt := by
  rw [compare_of_comparesExactly hab] at h
  rw [compare_of_comparesExactly hbc] at h'
  rw [compare_of_comparesExactly hac]
  simp only [ne_eq, Int.compare_eq_gt] at *
  omega

theorem equal_iff (hkind : a.IsFloat ↔ b.IsFloat) : a.equal b = true ↔ a.units = b.units := by
  have hone : (Binary64.one : Int) ≠ 0 := by decide
  cases a <;> cases b <;> simp only [equal, units, IsFloat, beq_iff_eq] at hkind ⊢
  · exact (Int.mul_eq_mul_right_iff hone).symm
  · exact (hkind.mpr trivial).elim
  · exact (hkind.mp trivial).elim

theorem isFloat_iff_of_equal (h : a.equal b = true) : a.IsFloat ↔ b.IsFloat := by
  cases a <;> cases b <;> simp_all [equal, IsFloat]

theorem compare_of_equal (h : a.equal b = true) : a.compare b = .eq := by
  have hunits := (equal_iff (isFloat_iff_of_equal h)).mp h
  rcases compare_eq_or a b with heq | heq
  · exact heq
  · exact heq.trans (Int.compare_eq_eq.mpr hunits)

end

/-! ## Operators -/

/-- What is sure of the order `o` that is found of two numbers. -/
structure Ordered (a b : Number) (o : Ordering) : Prop where
  not_reversed : o = .eq ∨ o = Ord.compare a.units b.units
  of_comparesExactly : ComparesExactly a b → o = Ord.compare a.units b.units
  of_isFloat : a.IsFloat ∨ b.IsFloat → ∃ x y : Finite,
    x.IsNearest a.units ∧ y.IsNearest b.units ∧ o = Ord.compare x.units y.units
  of_equal : (Value.number a).equal (.number b) = true → o = .eq
  equal_of_eq : ComparesExactly a b → (a.IsFloat ↔ b.IsFloat) → o = .eq →
    (Value.number a).equal (.number b) = true

theorem ordered_compare (a b : Number) : Ordered a b (a.compare b) where
  not_reversed := compare_eq_or a b
  of_comparesExactly := compare_of_comparesExactly
  of_isFloat h := by
    have hint : ¬ (a.IsInt64 ∧ b.IsInt64) := fun hint =>
      h.elim (·.not_isInt64 hint.1) (·.not_isInt64 hint.2)
    refine ⟨a.nearest, b.nearest, a.isNearest_nearest, b.isNearest_nearest, ?_⟩
    rw [units_nearest, units_nearest, compare_of_not_isInt64 hint]
  of_equal h := compare_of_equal h
  equal_of_eq hexact hkind h := by
    rw [compare_of_comparesExactly hexact] at h
    exact (equal_iff hkind).mpr (Int.compare_eq_eq.mp h)

end Number

/-- The operator holds of two numbers. -/
def Operator.Relates (op : Operator) (a b : Number) : Prop :=
  op.holds (.number a) (.number b) = true

instance (op : Operator) (a b : Number) : Decidable (op.Relates a b) :=
  inferInstanceAs (Decidable (_ = true))

namespace Operator

variable {a b : Number}

theorem lt_relates : lt.Relates a b ↔ a.compare b = .lt := by
  simp [Relates, holds, Value.compare?]

theorem le_relates : le.Relates a b ↔ a.compare b ≠ .gt := by
  cases h : a.compare b <;> simp [Relates, holds, Value.compare?, h]

theorem gt_relates : gt.Relates a b ↔ a.compare b = .gt := by
  simp [Relates, holds, Value.compare?]

theorem ge_relates : ge.Relates a b ↔ a.compare b ≠ .lt := by
  cases h : a.compare b <;> simp [Relates, holds, Value.compare?, h]

theorem lt_relates_iff : lt.Relates a b ↔ ¬ le.Relates b a := by
  have hswap : b.compare a = (a.compare b).swap := Std.OrientedCmp.eq_swap
  rw [lt_relates, le_relates, hswap]
  cases a.compare b <;> decide

theorem le_relates_or (a b : Number) : le.Relates a b ∨ le.Relates b a := by
  by_cases h : le.Relates b a
  · exact .inr h
  · have hlt := lt_relates.mp (lt_relates_iff.mpr h)
    exact .inl (le_relates.mpr (by rw [hlt]; decide))

end Operator

/-- Any two numbers have an order, of which the operators are read off. It makes `<` a strict order
and `≤` a total relation, transitive unless integers are compared by their values at the ends and by
their nearest binary64 numbers in between. -/
theorem compare_numbers (a b c : Number) :
    (∃ o, (Value.number a).compare? (.number b) = some o ∧ a.Ordered b o ∧
      (Operator.lt.Relates a b ↔ o = .lt) ∧ (Operator.le.Relates a b ↔ o ≠ .gt) ∧
      (Operator.gt.Relates a b ↔ o = .gt) ∧ (Operator.ge.Relates a b ↔ o ≠ .lt)) ∧
    (Operator.lt.Relates a b ↔ ¬ Operator.le.Relates b a) ∧
    (Operator.le.Relates a b ∨ Operator.le.Relates b a) ∧
    (Operator.lt.Relates a b → Operator.lt.Relates b c → Operator.lt.Relates a c) ∧
    (a.IsFloat ∨ c.IsFloat ∨ a.ComparesExactly b ∧ b.ComparesExactly c ∧ a.ComparesExactly c →
      Operator.le.Relates a b → Operator.le.Relates b c → Operator.le.Relates a c) ∧
    (∀ x, (Number.float x).IsBinary64) ∧
    ∀ n (h : IsNumberInt n), n.natAbs ≤ 0x20000000000000 → (Number.int n h).IsBinary64 := by
  refine ⟨⟨a.compare b, rfl, a.ordered_compare b, Operator.lt_relates, Operator.le_relates,
    Operator.gt_relates, Operator.ge_relates⟩, Operator.lt_relates_iff,
    Operator.le_relates_or a b, ?_, ?_, Number.isBinary64_float,
    fun n h hn => Number.isBinary64_of_natAbs_le h hn⟩
  · simp only [Operator.lt_relates]
    exact Number.compare_lt_trans
  · simp only [Operator.le_relates]
    rintro (ha | hc | ⟨hab, hbc, hac⟩)
    · exact Number.compare_le_trans fun h => ha.not_isInt64 h.1
    · exact Number.compare_le_trans fun h => hc.not_isInt64 h.2
    · exact Number.compare_le_trans_of_comparesExactly hab hbc hac

/-- The integer `2 ^ 53 + 1` rounds to `2 ^ 53`; they are equal to the float in between, but not to
each other. The two greatest integers are not equal, although their order says so. -/
theorem compare_rounded :
    let low : Number := .int 0x20000000000000 (by decide)
    let high : Number := .int 0x20000000000001 (by decide)
    let float : Number := .float ⟨false, 1076 * Binary64.blockSize, by decide⟩
    let greatest : Number := .int 0xFFFFFFFFFFFFFFFF (by decide)
    let next : Number := .int 0xFFFFFFFFFFFFFFFE (by decide)
    ((Value.number high).compare? (.number float) = some .eq ∧
      Ord.compare high.units float.units = .gt) ∧
    (Operator.le.Relates high float ∧ Operator.le.Relates float low ∧
      ¬ Operator.le.Relates high low) ∧
    (Value.number greatest).compare? (.number next) = some .eq ∧
      (Value.number greatest).equal (.number next) = false := by
  decide +kernel

end WorkflowCondition
