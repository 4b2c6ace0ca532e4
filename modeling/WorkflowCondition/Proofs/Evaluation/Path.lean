import WorkflowCondition.Evaluation

/-!
# Paths of keys

`Value.Reaches v keys u`: the keys lead from the value `v` to the value `u`. A path leads somewhere
or it meets a value that no key can be applied to: `Value.follow_of_reaches` and
`Value.follow_eq_error_iff`. A reference follows its keys from a root that the context has.
-/

namespace WorkflowCondition

namespace Value

/-- The keys lead from one value to the other. What is missing is null, and so is all of null. -/
inductive Reaches : Value → List String → Value → Prop
  | here {v : Value} : Reaches v [] v
  | field {fields : List (String × Value)} {key : String} {v u : Value} {keys : List String}
      (h : Fields.get? fields key = some v) (hr : Reaches v keys u) :
      Reaches (.object fields) (key :: keys) u
  | missing {fields : List (String × Value)} {key : String} {u : Value} {keys : List String}
      (h : Fields.get? fields key = none) (hr : Reaches .null keys u) :
      Reaches (.object fields) (key :: keys) u
  | null {key : String} {u : Value} {keys : List String} (hr : Reaches .null keys u) :
      Reaches .null (key :: keys) u

/-- The values that a key can be applied to: objects, and null, where every key is missing. -/
def takesKeys : Value → Bool
  | .object _ | .null => true
  | _ => false

/-- What lies behind some of the keys does not depend on the way there. -/
theorem follow_append {v u : Value} {before : List String} (hr : Reaches v before u)
    (after : List String) : v.follow (before ++ after) = u.follow after := by
  induction hr with
  | here => rfl
  | field h hr ih => rw [List.cons_append, follow, h]; exact ih
  | missing h hr ih => rw [List.cons_append, follow, h]; exact ih
  | null hr ih => rw [List.cons_append, follow]; exact ih

/-- The error names the key, not the value that it was applied to. -/
theorem follow_cons_of_not_takesKeys {v : Value} (hv : ¬ v.takesKeys) (key : String)
    (keys : List String) : v.follow (key :: keys) = .error (.malformedContext key) := by
  cases v with
  | object | null => exact absurd rfl hv
  | _ => rfl

/-- A path leads somewhere, or a part of it leads to a value that does not take the next key. -/
theorem reaches_or_stuck (v : Value) (keys : List String) :
    (∃ u, Reaches v keys u) ∨ ∃ before key after u, keys = before ++ key :: after ∧
      Reaches v before u ∧ ¬ u.takesKeys := by
  induction keys generalizing v with
  | nil => exact .inl ⟨v, .here⟩
  | cons key keys ih =>
    by_cases hv : v.takesKeys
    · obtain ⟨w, hw⟩ : ∃ w, ∀ {keys : List String} {u : Value}, Reaches w keys u →
          Reaches v (key :: keys) u := by
        cases v with
        | null => exact ⟨.null, .null⟩
        | object fields =>
          cases h : Fields.get? fields key with
          | none => exact ⟨.null, .missing h⟩
          | some w => exact ⟨w, .field h⟩
        | _ => cases hv
      rcases ih w with ⟨u, hu⟩ | ⟨before, stuck, after, u, rfl, hu, hn⟩
      · exact .inl ⟨u, hw hu⟩
      · exact .inr ⟨key :: before, stuck, after, u, rfl, hw hu, hn⟩
    · exact .inr ⟨[], key, keys, v, rfl, .here, hv⟩

theorem follow_of_reaches {v u : Value} {keys : List String} (hr : Reaches v keys u) :
    v.follow keys = .ok u := by
  have h := follow_append hr []
  rwa [List.append_nil, follow] at h

theorem follow_of_stuck {v u : Value} {before : List String} (hr : Reaches v before u)
    (hu : ¬ u.takesKeys) (key : String) (after : List String) :
    v.follow (before ++ key :: after) = .error (.malformedContext key) := by
  rw [follow_append hr]
  exact follow_cons_of_not_takesKeys hu key after

/-- The only error of a path, and the key that it names. -/
theorem follow_eq_error_iff {v : Value} {keys : List String} {e : Error} :
    v.follow keys = .error e ↔ ∃ before key after u, keys = before ++ key :: after ∧
      Reaches v before u ∧ ¬ u.takesKeys ∧ e = .malformedContext key := by
  constructor
  · intro h
    rcases reaches_or_stuck v keys with ⟨u, hr⟩ | ⟨before, key, after, u, rfl, hr, hu⟩
    · rw [follow_of_reaches hr] at h
      cases h
    · rw [follow_of_stuck hr hu] at h
      cases h
      exact ⟨before, key, after, u, rfl, hr, hu, rfl⟩
  · rintro ⟨before, key, after, u, rfl, hr, hu, rfl⟩
    exact follow_of_stuck hr hu key after

end Value

namespace Context

/-! ## References -/

variable {c : Context} {head : String}

/-- No mapping under another name is ever looked at. -/
theorem resolve_of_not_mem (h : head ∉ Root.all.map Root.name) (keys : List String) :
    c.resolve head keys = .error (.unknownContext head) := by
  cases hroot : Root.ofName? head with
  | none => rw [resolve, hroot]
  | some root =>
    obtain rfl := Root.name_of_ofName? hroot
    exact absurd (List.mem_map_of_mem root.mem_all) h

/-- A root that is missing is no different from a name that is no root. -/
theorem resolve_of_get?_eq_none (h : c.get? head = none) (keys : List String) :
    c.resolve head keys = .error (.unknownContext head) := by
  cases hroot : Root.ofName? head with
  | none => rw [resolve, hroot]
  | some root =>
    obtain rfl := Root.name_of_ofName? hroot
    simp only [resolve, hroot, h]

theorem resolve_of_get?_eq_some {fields : Fields Value} (hm : head ∈ Root.all.map Root.name)
    (h : c.get? head = some fields) (keys : List String) :
    c.resolve head keys = (Value.object fields).follow keys := by
  obtain ⟨root, -, rfl⟩ := List.mem_map.mp hm
  simp only [resolve, Root.ofName?_name, h]

end Context

end WorkflowCondition
