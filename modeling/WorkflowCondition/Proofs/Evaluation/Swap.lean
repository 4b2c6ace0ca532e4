import WorkflowCondition.Proofs.Value.NumberOrder

/-!
# Operands in the other order

Equality of values is symmetric at every level (`Value.equal_comm`), and two values that have an
order have the opposite one the other way round (`Value.compare?_swap`). So an operator holds of two
values if `Operator.swap` of it holds of them in the other order (`Operator.swap_holds`), and a
condition whose operands are exchanged has the same value whenever it has one
(`Expression.evaluate_swap`); where both operands fail, it is the other error that comes first.
-/

namespace WorkflowCondition

namespace Number

theorem equal_comm (a b : Number) : a.equal b = b.equal a := by
  cases a with
  | int m hm =>
    cases b with
    | int n hn => exact Bool.beq_comm
    | float y => rfl
  | float x =>
    cases b with
    | int n hn => rfl
    | float y => exact Bool.beq_comm

end Number

namespace Value

mutual

/-- Deep equality is symmetric; the recursion is that of the values on the left. -/
theorem equal_comm : ∀ a b : Value, a.equal b = b.equal a
  | .null, b => by cases b <;> rfl
  | .bool x, b => by
    cases b with
    | bool y => exact Bool.beq_comm
    | _ => rfl
  | .number x, b => by
    cases b with
    | number y => exact x.equal_comm y
    | _ => rfl
  | .string x, b => by
    cases b with
    | string y => exact Bool.beq_comm
    | _ => rfl
  | .array xs, b => by
    cases b with
    | array ys => exact equalElements_comm xs ys
    | _ => rfl
  | .object xs, b => by
    cases b with
    | object ys => exact equalFields_comm xs ys
    | _ => rfl

theorem equalElements_comm : ∀ as bs : List Value, equalElements as bs = equalElements bs as
  | [], [] | [], _ :: _ | _ :: _, [] => rfl
  | a :: as, b :: bs => by
    rw [equalElements, equalElements, equal_comm a b, equalElements_comm as bs]

theorem equalFields_comm : ∀ as bs : List (String × Value), equalFields as bs = equalFields bs as
  | [], [] | [], _ :: _ | _ :: _, [] => rfl
  | (ka, a) :: as, (kb, b) :: bs => by
    have hkey : (ka == kb) = (kb == ka) := Bool.beq_comm
    rw [equalFields, equalFields, hkey, equal_comm a b, equalFields_comm as bs]

end

/-- The values that have an order: two numbers or two strings. -/
def IsOrdered (a b : Value) : Prop :=
  (∃ m n, a = .number m ∧ b = .number n) ∨ ∃ s t, a = .string s ∧ b = .string t

theorem exists_compare? {a b : Value} (h : IsOrdered a b) : ∃ o, a.compare? b = some o := by
  obtain ⟨m, n, rfl, rfl⟩ | ⟨s, t, rfl, rfl⟩ := h
  · exact ⟨_, rfl⟩
  · exact ⟨_, rfl⟩

theorem compare?_of_not_isOrdered {a b : Value} (h : ¬ IsOrdered a b) : a.compare? b = none := by
  cases a with
  | number m =>
    cases b with
    | number n => exact absurd (.inl ⟨m, n, rfl, rfl⟩) h
    | _ => rfl
  | string s =>
    cases b with
    | string t => exact absurd (.inr ⟨s, t, rfl, rfl⟩) h
    | _ => rfl
  | _ => rfl

theorem compare?_swap (a b : Value) : b.compare? a = (a.compare? b).map Ordering.swap := by
  by_cases h : IsOrdered a b
  · obtain ⟨m, n, rfl, rfl⟩ | ⟨s, t, rfl, rfl⟩ := h
    · have hswap : n.compare m = (m.compare n).swap := Std.OrientedCmp.eq_swap
      exact congrArg some hswap
    · have hswap : Ord.compare t s = (Ord.compare s t).swap := Std.OrientedCmp.eq_swap
      exact congrArg some hswap
  · have h' : ¬ IsOrdered b a := fun h' => h <| by
      obtain ⟨m, n, hb, ha⟩ | ⟨s, t, hb, ha⟩ := h'
      · exact .inl ⟨n, m, ha, hb⟩
      · exact .inr ⟨t, s, ha, hb⟩
    rw [compare?_of_not_isOrdered h, compare?_of_not_isOrdered h']
    rfl

/-- Equal numbers and equal strings have no order but equality. -/
theorem compare?_of_equal {a b : Value} (h : IsOrdered a b) (he : a.equal b = true) :
    a.compare? b = some .eq := by
  obtain ⟨m, n, rfl, rfl⟩ | ⟨s, t, rfl, rfl⟩ := h
  · exact congrArg some (Number.compare_of_equal he)
  · obtain rfl : s = t := beq_iff_eq.mp he
    exact congrArg some Std.ReflCmp.compare_self

end Value

namespace Operator

/-- An operator can be read from the right. -/
theorem swap_holds (op : Operator) (a b : Value) : op.swap.holds b a = op.holds a b := by
  have hcompare := a.compare?_swap b
  cases op with
  | eq => exact b.equal_comm a
  | ne => exact congrArg not (b.equal_comm a)
  | and => exact Bool.and_comm _ _
  | or => exact Bool.or_comm _ _
  | lt | le | gt | ge =>
    simp only [swap, holds, hcompare]
    cases a.compare? b with
    | none => rfl
    | some o => cases o <;> rfl

/-- Of two values that have an order one of three things holds, and no two of them. -/
theorem count_holds {a b : Value} (h : Value.IsOrdered a b) :
    [lt.holds a b, gt.holds a b, le.holds a b && ge.holds a b].count true = 1 := by
  obtain ⟨o, ho⟩ := Value.exists_compare? h
  simp only [holds, ho]
  cases o <;> rfl

theorem le_holds {a b : Value} (h : Value.IsOrdered a b) : le.holds a b = !gt.holds a b := by
  obtain ⟨o, ho⟩ := Value.exists_compare? h
  simp only [holds, ho]
  cases o <;> rfl

theorem ge_holds {a b : Value} (h : Value.IsOrdered a b) : ge.holds a b = !lt.holds a b := by
  obtain ⟨o, ho⟩ := Value.exists_compare? h
  simp only [holds, ho]
  cases o <;> rfl

/-- Where there is no order, none of the four holds. -/
theorem not_holds {a b : Value} (h : ¬ Value.IsOrdered a b) :
    ∀ op ∈ [lt, le, gt, ge], op.holds a b = false := by
  simp [holds, Value.compare?_of_not_isOrdered h]

end Operator

namespace Expression

/-- A condition with an operator has a value if both of its operands have one. -/
theorem evaluate_binary_eq_ok_iff {l r : Literal} {op : Operator} {c : Context} {v : Value} :
    (Expression.mk l (some (op, r))).evaluate c = .ok v ↔
      ∃ a b, l.evaluate c = .ok a ∧ r.evaluate c = .ok b ∧ v = .bool (op.holds a b) := by
  simp only [evaluate]
  cases l.evaluate c with
  | error e => simp
  | ok a =>
    cases r.evaluate c with
    | error e => simp
    | ok b => simp [eq_comm]

/-- An expression has a value if the one with its operands exchanged and its operator turned round
has this value, and it is a truth value. No order holds of values without one. Of two numbers or two
strings exactly one is true: that the first is less, that it is greater, or that it is neither; what
is not greater is less or equal, and equal values are both less or equal and greater or equal. -/
theorem evaluate_swap (l r : Literal) (op : Operator) (c : Context) (a b : Value) :
    (∀ v, (Expression.mk l (some (op, r))).evaluate c = .ok v ↔
        (Expression.mk r (some (op.swap, l))).evaluate c = .ok v) ∧
      (∀ v, (Expression.mk l (some (op, r))).evaluate c = .ok v → ∃ t, v = .bool t) ∧
      (¬ Value.IsOrdered a b → ∀ op ∈ [Operator.lt, .le, .gt, .ge], op.holds a b = false) ∧
      (Value.IsOrdered a b →
        [Operator.lt.holds a b, Operator.gt.holds a b,
          Operator.le.holds a b && Operator.ge.holds a b].count true = 1 ∧
        Operator.le.holds a b = !Operator.gt.holds a b ∧
        Operator.ge.holds a b = !Operator.lt.holds a b ∧
        (a.equal b = true → Operator.le.holds a b = true ∧ Operator.ge.holds a b = true)) := by
  refine ⟨fun v => ?_, fun v h => ?_, Operator.not_holds,
    fun h => ⟨Operator.count_holds h, Operator.le_holds h, Operator.ge_holds h, fun he => ?_⟩⟩
  · rw [evaluate_binary_eq_ok_iff, evaluate_binary_eq_ok_iff]
    constructor
    · rintro ⟨a, b, ha, hb, rfl⟩
      exact ⟨b, a, hb, ha, by rw [op.swap_holds]⟩
    · rintro ⟨b, a, hb, ha, rfl⟩
      exact ⟨a, b, ha, hb, by rw [op.swap_holds]⟩
  · obtain ⟨x, y, -, -, rfl⟩ := evaluate_binary_eq_ok_iff.mp h
    exact ⟨_, rfl⟩
  · simp [Operator.holds, Value.compare?_of_equal h he]

end Expression

end WorkflowCondition
