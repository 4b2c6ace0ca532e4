import WorkflowCondition.Proofs.Evaluation.Swap

/-!
# Equal values

Equality of values is an equivalence (`Value.equal_self`, `Value.equal_comm`, `Value.equal_trans`,
by recursion on the values), but coarser than identity: the zeros of both signs are equal at
every level. Nothing that looks at a value tells equal values apart, for what it looks at is a kind,
a number's value, or a text (`Value.eq_or_of_equal`). `Value.equal_congruence` says so of all
operators and all functions.
-/

namespace WorkflowCondition

namespace Number

variable {a b c : Number}

/-- Same kind and same value. -/
theorem equal_iff_units :
    a.equal b = true ↔ (a.IsFloat ↔ b.IsFloat) ∧ a.units = b.units :=
  ⟨fun h => ⟨isFloat_iff_of_equal h, (equal_iff (isFloat_iff_of_equal h)).mp h⟩,
    fun h => (equal_iff h.1).mpr h.2⟩

theorem equal_self (a : Number) : a.equal a = true :=
  equal_iff_units.mpr ⟨Iff.rfl, rfl⟩

theorem equal_trans (h : a.equal b = true) (h' : b.equal c = true) : a.equal c = true := by
  obtain ⟨hkind, hunits⟩ := equal_iff_units.mp h
  obtain ⟨hkind', hunits'⟩ := equal_iff_units.mp h'
  exact equal_iff_units.mpr ⟨hkind.trans hkind', hunits.trans hunits'⟩

/-- Equal numbers that are not the same are floats. -/
theorem eq_or_of_equal (h : a.equal b = true) :
    a = b ∨ ∃ x y, a = .float x ∧ b = .float y ∧ x.units = y.units := by
  cases a with
  | int m hm =>
    cases b with
    | int n hn =>
      obtain rfl : m = n := beq_iff_eq.mp h
      exact .inl rfl
    | float y => cases h
  | float x =>
    cases b with
    | int n hn => cases h
    | float y => exact .inr ⟨x, y, rfl, rfl, beq_iff_eq.mp h⟩

end Number

namespace Value

/-- The kinds of values; integers and floats are two. -/
inductive Kind where
  | null
  | bool
  | integer
  | float
  | string
  | array
  | object
deriving DecidableEq, Repr

/-- The kind of a value. Integers and floats are two kinds. -/
def kind : Value → Kind
  | .null => .null
  | .bool _ => .bool
  | .number (.int _ _) => .integer
  | .number (.float _) => .float
  | .string _ => .string
  | .array _ => .array
  | .object _ => .object

/-! ## An equivalence -/

mutual

/-- Every value is equal to itself: there is no NaN. -/
theorem equal_self : ∀ a : Value, a.equal a = true
  | .null => rfl
  | .bool b => beq_self_eq_true b
  | .number n => n.equal_self
  | .string s => beq_self_eq_true s
  | .array as => equalElements_self as
  | .object as => equalFields_self as

theorem equalElements_self : ∀ as : List Value, equalElements as as = true
  | [] => rfl
  | a :: as => by rw [equalElements, equal_self a, equalElements_self as, Bool.and_self]

theorem equalFields_self : ∀ as : List (String × Value), equalFields as as = true
  | [] => rfl
  | (k, a) :: as => by
    rw [equalFields, beq_self_eq_true, equal_self a, equalFields_self as, Bool.and_self,
      Bool.and_self]

end

mutual

/-- The recursion is that of the values on the left. -/
theorem equal_trans : ∀ {a b c : Value}, a.equal b = true → b.equal c = true → a.equal c = true
  | .null, b, c, h, h' => by
    cases b with
    | null => exact h'
    | _ => cases h
  | .bool x, b, c, h, h' => by
    cases b with
    | bool y =>
      obtain rfl : x = y := beq_iff_eq.mp h
      exact h'
    | _ => cases h
  | .number x, b, c, h, h' => by
    cases b with
    | number y =>
      cases c with
      | number z => exact Number.equal_trans (b := y) h h'
      | _ => cases h'
    | _ => cases h
  | .string x, b, c, h, h' => by
    cases b with
    | string y =>
      obtain rfl : x = y := beq_iff_eq.mp h
      exact h'
    | _ => cases h
  | .array xs, b, c, h, h' => by
    cases b with
    | array ys =>
      cases c with
      | array zs =>
        have helements : equalElements xs ys = true := h
        exact equalElements_trans helements h'
      | _ => cases h'
    | _ => cases h
  | .object xs, b, c, h, h' => by
    cases b with
    | object ys =>
      cases c with
      | object zs =>
        have hfields : equalFields xs ys = true := h
        exact equalFields_trans hfields h'
      | _ => cases h'
    | _ => cases h

theorem equalElements_trans : ∀ {as bs cs : List Value}, equalElements as bs = true →
    equalElements bs cs = true → equalElements as cs = true
  | [], [], _, _, h' => h'
  | a :: as, b :: bs, c :: cs, h, h' => by
    simp only [equalElements, Bool.and_eq_true] at h h' ⊢
    exact ⟨equal_trans h.1 h'.1, equalElements_trans h.2 h'.2⟩

theorem equalFields_trans : ∀ {as bs cs : List (String × Value)}, equalFields as bs = true →
    equalFields bs cs = true → equalFields as cs = true
  | [], [], _, _, h' => h'
  | (ka, a) :: as, (kb, b) :: bs, (kc, c) :: cs, h, h' => by
    simp only [equalFields, Bool.and_eq_true, beq_iff_eq] at h h' ⊢
    obtain ⟨⟨rfl, ha⟩, has⟩ := h
    obtain ⟨⟨rfl, hb⟩, hbs⟩ := h'
    exact ⟨⟨rfl, equal_trans ha hb⟩, equalFields_trans has hbs⟩

end

/-! ## A congruence -/

/-- Equal values that are not the same are floats with the same value, or both are lists or both are
objects. -/
theorem eq_or_of_equal {a b : Value} (h : a.equal b = true) :
    a = b ∨ (∃ x y, a = .number (.float x) ∧ b = .number (.float y) ∧ x.units = y.units) ∨
      (∃ as bs, a = .array as ∧ b = .array bs) ∨ ∃ as bs, a = .object as ∧ b = .object bs := by
  cases a with
  | null =>
    cases b with
    | null => exact .inl rfl
    | _ => cases h
  | bool x =>
    cases b with
    | bool y => exact .inl (congrArg bool (beq_iff_eq.mp h))
    | _ => cases h
  | number m =>
    cases b with
    | number n =>
      obtain rfl | ⟨x, y, rfl, rfl, hunits⟩ := Number.eq_or_of_equal (a := m) (b := n) h
      · exact .inl rfl
      · exact .inr (.inl ⟨x, y, rfl, rfl, hunits⟩)
    | _ => cases h
  | string s =>
    cases b with
    | string t => exact .inl (congrArg string (beq_iff_eq.mp h))
    | _ => cases h
  | array as =>
    cases b with
    | array bs => exact .inr (.inr (.inl ⟨as, bs, rfl, rfl⟩))
    | _ => cases h
  | object as =>
    cases b with
    | object bs => exact .inr (.inr (.inr ⟨as, bs, rfl, rfl⟩))
    | _ => cases h

section

variable {a a' : Value} (h : a.equal a' = true)

include h

theorem kind_eq_of_equal : a.kind = a'.kind := by
  obtain rfl | ⟨x, y, rfl, rfl, -⟩ | ⟨_, _, rfl, rfl⟩ | ⟨_, _, rfl, rfl⟩ := eq_or_of_equal h
  all_goals rfl

theorem equal_congr (b : Value) : a.equal b = a'.equal b := by
  rw [Bool.eq_iff_iff]
  exact ⟨fun hb => equal_trans ((a'.equal_comm a).trans h) hb, fun hb => equal_trans h hb⟩

/-- Equal values have the same order to any other value. -/
theorem compare?_congr (b : Value) : a.compare? b = a'.compare? b := by
  obtain rfl | ⟨x, y, rfl, rfl, hunits⟩ | ⟨_, _, rfl, rfl⟩ | ⟨_, _, rfl, rfl⟩ := eq_or_of_equal h
  · rfl
  · cases b with
    | number n =>
      have hcompare : ∀ z : Binary64.Finite,
          (Number.float z).compare n = Ord.compare z.units n.nearestUnits := fun z =>
        Number.compare_of_not_isInt64 fun hint => hint.1
      exact congrArg some (by rw [hcompare x, hcompare y, hunits])
    | _ => rfl
  · rfl
  · rfl

theorem isTruthy_congr : a.isTruthy = a'.isTruthy := by
  obtain rfl | ⟨x, y, rfl, rfl, hunits⟩ | ⟨_, _, rfl, rfl⟩ | ⟨_, _, rfl, rfl⟩ := eq_or_of_equal h
  · rfl
  · exact congrArg (fun n : Int => !n == 0) hunits
  · rfl
  · rfl

theorem asText_congr : a.asText = a'.asText := by
  obtain rfl | ⟨_, _, rfl, rfl, -⟩ | ⟨_, _, rfl, rfl⟩ | ⟨_, _, rfl, rfl⟩ := eq_or_of_equal h
  all_goals rfl

theorem holds_congr (op : Operator) (b : Value) : op.holds a b = op.holds a' b := by
  cases op with
  | eq => exact equal_congr h b
  | ne => exact congrArg not (equal_congr h b)
  | lt | le | gt | ge => simp only [Operator.holds, compare?_congr h b]
  | and | or => simp only [Operator.holds, isTruthy_congr h]

/-- The right operand can be replaced by an equal one, as an operator can be read from the right. -/
theorem holds_congr_right (op : Operator) (b : Value) : op.holds b a = op.holds b a' := by
  rw [← op.swap_holds, ← op.swap_holds b a']
  exact holds_congr h op.swap b

theorem comparedChars_congr : Builtin.comparedChars a = Builtin.comparedChars a' := by
  rw [Builtin.comparedChars, Builtin.comparedChars, asText_congr h]

theorem call_congr (f : Builtin) (b : Value) : f.call [a, b] = f.call [a', b] := by
  rw [Builtin.call, Builtin.call, comparedChars_congr h]

theorem call_congr_right (f : Builtin) (b : Value) : f.call [b, a] = f.call [b, a'] := by
  rw [Builtin.call, Builtin.call, comparedChars_congr h]

end

/-- Equality is an equivalence, of values of the same kind only, and neither an operator nor a
function gives another result for an equal value, on either side. -/
theorem equal_congruence :
    Equivalence (fun a b : Value => a.equal b = true) ∧
    (∀ a b : Value, a.equal b = true → a.kind = b.kind) ∧
    ∀ a a' : Value, a.equal a' = true → a.isTruthy = a'.isTruthy ∧ ∀ b,
      (∀ op : Operator, op.holds a b = op.holds a' b ∧ op.holds b a = op.holds b a') ∧
      ∀ f : Builtin, f.call [a, b] = f.call [a', b] ∧ f.call [b, a] = f.call [b, a'] := by
  refine ⟨⟨equal_self, fun {a b} h => (b.equal_comm a).trans h, equal_trans⟩,
    fun _ _ => kind_eq_of_equal,
    fun a a' h => ⟨isTruthy_congr h, fun b => ⟨fun op => ?_, fun f => ?_⟩⟩⟩
  · exact ⟨holds_congr h op b, holds_congr_right h op b⟩
  · exact ⟨call_congr h f b, call_congr_right h f b⟩

/-- The zeros of both signs are not the same, but equal in a list. -/
theorem equal_congruence_zeros :
    let zero : Value := .number (.float ⟨false, 0, by decide⟩)
    let negative : Value := .number (.float ⟨true, 0, by decide⟩)
    zero ≠ negative ∧ (Value.array [.null, zero]).equal (.array [.null, negative]) = true ∧
      Operator.le.holds zero (.number (.int 0 (by decide))) =
        Operator.le.holds negative (.number (.int 0 (by decide))) := by
  intro zero negative
  have hne : zero ≠ negative := by
    intro h
    injection h with h
    injection h with h
    injection h with h
    cases h
  obtain ⟨-, -, hcongr⟩ := equal_congruence
  exact ⟨hne, rfl, ((hcongr zero negative rfl).2 _).1 .le |>.1⟩

end Value

end WorkflowCondition
