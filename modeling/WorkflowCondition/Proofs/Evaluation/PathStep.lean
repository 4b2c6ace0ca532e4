import WorkflowCondition.Proofs.Evaluation.Path

/-!
# Paths, one key after another

`Value.follow` takes the first key off a path. Read from the other end, a path with one more key is
one more step (`Value.child`) from where the path leads (`Value.follow_concat`), and so it is for a
reference with one more accessor, also for the first accessor behind a bare root
(`Literal.evaluate_reference_concat`). `Literal.evaluate_reference_step` says what the step is and,
by induction on the accessors behind it, what becomes of an error, of null, and of a value without
keys.
-/

namespace WorkflowCondition

namespace Value

/-- The value under one key. -/
def child (v : Value) (key : String) : Except Error Value :=
  match v with
  | .object fields => .ok ((Fields.get? fields key).getD .null)
  | .null => .ok .null
  | _ => .error (.malformedContext key)

theorem follow_singleton (v : Value) (key : String) : v.follow [key] = v.child key := by
  cases v <;> rfl

section

variable {fields : Fields Value} {key : String}

theorem child_object_of_some {v : Value} (h : Fields.get? fields key = some v) :
    (object fields).child key = .ok v := by
  show Except.ok ((Fields.get? fields key).getD .null) = _
  rw [h]
  rfl

theorem child_object_of_none (h : Fields.get? fields key = none) :
    (object fields).child key = .ok .null := by
  show Except.ok ((Fields.get? fields key).getD .null) = _
  rw [h]
  rfl

theorem child_of_ne {v : Value} (ho : ∀ fields, v ≠ .object fields) (hn : v ≠ .null) :
    v.child key = .error (.malformedContext key) := by
  cases v with
  | object fields => exact absurd rfl (ho fields)
  | null => exact absurd rfl hn
  | _ => rfl

/-- No key changes null or an error. -/
theorem bind_child_eq_self {r : Except Error Value} (h : r = .ok .null ∨ ∃ e, r = .error e) :
    (r.bind fun u => u.child key) = r := by
  obtain rfl | ⟨e, rfl⟩ := h
  · rfl
  · rfl

end

/-- The last key is one step from where the others lead, by induction on the others. -/
theorem follow_concat (v : Value) (keys : List String) (key : String) :
    v.follow (keys ++ [key]) = (v.follow keys).bind fun u => u.child key := by
  induction keys generalizing v with
  | nil => exact follow_singleton v key
  | cons first keys ih =>
    cases v with
    | object fields =>
      show ((Fields.get? fields first).getD .null).follow (keys ++ [key]) = _
      exact ih _
    | null =>
      show Value.null.follow (keys ++ [key]) = _
      exact ih _
    | _ => rfl

end Value

theorem Context.resolve_concat (c : Context) (head : String) (keys : List String) (key : String) :
    c.resolve head (keys ++ [key]) = (c.resolve head keys).bind fun u => u.child key := by
  simp only [resolve]
  cases Root.ofName? head with
  | none => rfl
  | some root =>
    simp only
    cases c.get? root.name with
    | none => rfl
    | some fields => exact Value.follow_concat _ keys key

namespace Literal

variable {c : Context} {head : String} {accessors : List String}

theorem evaluate_reference_concat (accessor : String) :
    (reference head (accessors ++ [accessor])).evaluate c =
      ((reference head accessors).evaluate c).bind fun u => u.child (accessorKey accessor) := by
  simp only [evaluate, List.map_append, List.map_cons, List.map_nil]
  exact c.resolve_concat head (accessors.map accessorKey) (accessorKey accessor)

/-- Null and an error stay what they are behind any number of further accessors. -/
theorem evaluate_reference_append {r : Except Error Value}
    (hr : r = .ok .null ∨ ∃ e, r = .error e) (h : (reference head accessors).evaluate c = r)
    (more : List String) : (reference head (accessors ++ more)).evaluate c = r := by
  induction more generalizing accessors with
  | nil => rw [List.append_nil, h]
  | cons accessor more ih =>
    have hstep : (reference head (accessors ++ [accessor])).evaluate c = r := by
      rw [evaluate_reference_concat, h, Value.bind_child_eq_self hr]
    rw [List.append_cons]
    exact ih hstep

theorem evaluate_bare_root {fields : Fields Value} (hm : head ∈ Root.all.map Root.name)
    (h : c.get? head = some fields) : (reference head []).evaluate c = .ok (.object fields) := by
  rw [evaluate, List.map_nil, Context.resolve_of_get?_eq_some hm h, Value.follow]

theorem evaluate_bare_unknown (h : head ∉ Root.all.map Root.name ∨ c.get? head = none) :
    (reference head []).evaluate c = .error (.unknownContext head) := by
  rw [evaluate]
  obtain hm | h := h
  · exact Context.resolve_of_not_mem hm _
  · exact Context.resolve_of_get?_eq_none h _

/-- One more accessor on a reference: an error stays, an object gives what is under the key, null
stays null, and any other value fails at this key. A bare root gives its whole mapping. Behind a
missing key and behind null all further accessors give null, and behind a failure they change
nothing. -/
theorem evaluate_reference_step (c : Context) (head : String) (accessors : List String)
    (accessor : String) :
    let key := accessorKey accessor
    let r := (reference head accessors).evaluate c
    let r' := (reference head (accessors ++ [accessor])).evaluate c
    (∀ e, r = .error e → r' = .error e) ∧
      (∀ fields v, r = .ok (.object fields) → Fields.get? fields key = some v → r' = .ok v) ∧
      (∀ fields, r = .ok (.object fields) → Fields.get? fields key = none → r' = .ok .null) ∧
      (r = .ok .null → r' = .ok .null) ∧
      (∀ v, r = .ok v → (∀ fields, v ≠ .object fields) → v ≠ .null →
        r' = .error (.malformedContext key)) ∧
      (∀ fields, head ∈ ["github", "env", "job", "steps", "runner", "secrets", "strategy",
          "matrix", "needs"] → c.get? head = some fields →
        (reference head []).evaluate c = .ok (.object fields)) ∧
      (head ∉ ["github", "env", "job", "steps", "runner", "secrets", "strategy", "matrix",
          "needs"] ∨ c.get? head = none →
        (reference head []).evaluate c = .error (.unknownContext head)) ∧
      ∀ more, (r' = .ok .null ∨ ∃ e, r' = .error e) →
        (reference head (accessors ++ accessor :: more)).evaluate c = r' := by
  have hstep : (reference head (accessors ++ [accessor])).evaluate c =
      ((reference head accessors).evaluate c).bind fun u => u.child (accessorKey accessor) :=
    evaluate_reference_concat accessor
  refine ⟨fun e h => ?_, fun fields v h hv => ?_, fun fields h hv => ?_, fun h => ?_,
    fun v h ho hn => ?_, fun fields hm h => evaluate_bare_root hm h,
    fun h => evaluate_bare_unknown h, fun more h => ?_⟩
  · rw [hstep, h]
    rfl
  · rw [hstep, h]
    exact Value.child_object_of_some hv
  · rw [hstep, h]
    exact Value.child_object_of_none hv
  · rw [hstep, h]
    rfl
  · rw [hstep, h]
    exact Value.child_of_ne ho hn
  · rw [List.append_cons]
    exact evaluate_reference_append h rfl more

end Literal

end WorkflowCondition
