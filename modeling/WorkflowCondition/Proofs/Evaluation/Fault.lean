import WorkflowCondition.Proofs.Evaluation.Path

/-!
# Faults of evaluation

Whether a call or a reference is faulty can be said without evaluating anything around it:
`Literal.Faulty`. An expression has a value if none of its calls and references is faulty; otherwise
its error is that of the first faulty one, in the order in which they are written, with a call
before its arguments (`Expression.evaluate_first_fault`).
-/

namespace WorkflowCondition

namespace Literal

mutual

/-- The calls and references in a literal, a call before those in its arguments. -/
def nodes : Literal → List Literal
  | .call name args => .call name args :: nodesAll args
  | .reference head accessors => [.reference head accessors]
  | _ => []

/-- The calls and references in the arguments, from left to right. -/
def nodesAll : List Literal → List Literal
  | [] => []
  | arg :: args => nodes arg ++ nodesAll args

end

/-- What is wrong with a call or a reference by itself. -/
inductive Faulty (c : Context) : Literal → Error → Prop
  /-- There are three functions. -/
  | unknownFunction {name : String} {args : List Literal}
      (h : name ∉ ["startsWith", "endsWith", "contains"]) :
      Faulty c (.call name args) (.unknownFunction name)
  /-- Each of them takes two arguments. -/
  | arityMismatch {name : String} {args : List Literal}
      (h : name ∈ ["startsWith", "endsWith", "contains"]) (hl : args.length ≠ 2) :
      Faulty c (.call name args) (.arityMismatch name 2 args.length)
  /-- There are nine roots, and the context need not have all of them. -/
  | unknownContext {head : String} {accessors : List String}
      (h : head ∉ ["github", "env", "job", "steps", "runner", "secrets", "strategy", "matrix",
        "needs"] ∨ c.get? head = none) :
      Faulty c (.reference head accessors) (.unknownContext head)
  /-- The keys lead from the root to a value that does not take the next one. -/
  | malformedContext {head accessor : String} {before after : List String} {fields : Fields Value}
      {v : Value} (h : head ∈ ["github", "env", "job", "steps", "runner", "secrets", "strategy",
        "matrix", "needs"]) (hg : c.get? head = some fields)
      (hr : (Value.object fields).Reaches (before.map accessorKey) v) (hv : ¬ v.takesKeys) :
      Faulty c (.reference head (before ++ accessor :: after))
        (.malformedContext (accessorKey accessor))

end Literal

/-- The calls and references in an expression, in the order in which they are evaluated. -/
def Expression.nodes (e : Expression) : List Literal :=
  match e.rhs with
  | none => e.lhs.nodes
  | some (_, rhs) => e.lhs.nodes ++ rhs.nodes

/-- The error of a computation, if it fails. -/
def failure {α : Type} : Except Error α → Option Error
  | .error e => some e
  | .ok _ => none

theorem failure_eq_some_iff {α : Type} {r : Except Error α} {e : Error} :
    failure r = some e ↔ r = .error e := by
  cases r <;> simp [failure]

theorem failure_eq_none_iff {α : Type} {r : Except Error α} :
    failure r = none ↔ ∃ a, r = .ok a := by
  cases r <;> simp [failure]

/-- No other names are known. Upper and lower case differ. -/
theorem Builtin.ofName?_eq_none_iff {name : String} :
    ofName? name = none ↔ name ∉ ["startsWith", "endsWith", "contains"] := by
  show ofName? name = none ↔ name ∉ all.map Builtin.name
  rw [ofName?, List.find?_eq_none, List.mem_map]
  constructor
  · rintro h ⟨f, hm, rfl⟩
    exact h f hm (beq_self_eq_true _)
  · intro h f hm heq
    exact h ⟨f, hm, eq_of_beq heq⟩

theorem Builtin.mem_names_of_ofName? {name : String} {f : Builtin} (h : ofName? name = some f) :
    name ∈ ["startsWith", "endsWith", "contains"] := by
  have hname : f.name = name := by simpa using List.find?_some h
  rw [← hname]
  cases f <;> decide

namespace Literal

/-! ## Single nodes -/

/-- The fault of a call or a reference, as it is found out. -/
def fault? (c : Context) : Literal → Option Error
  | .call name args =>
    match Builtin.ofName? name with
    | none => some (.unknownFunction name)
    | some _ =>
      if args.length = Builtin.arity then none
      else some (.arityMismatch name Builtin.arity args.length)
  | .reference head accessors => failure (c.resolve head (accessors.map accessorKey))
  | _ => none

/-- A call is checked for its name first, and then for its arguments. -/
theorem fault?_call_eq_some_iff {c : Context} {name : String} {args : List Literal} {e : Error} :
    fault? c (.call name args) = some e ↔ Faulty c (.call name args) e := by
  cases hf : Builtin.ofName? name with
  | none =>
    have hn := Builtin.ofName?_eq_none_iff.mp hf
    simp only [fault?, hf]
    constructor
    · rintro ⟨⟩
      exact .unknownFunction hn
    · rintro (_ | ⟨hm, -⟩)
      · rfl
      · exact absurd hm hn
  | some f =>
    have hm := Builtin.mem_names_of_ofName? hf
    simp only [fault?, hf]
    split
    · rename_i hl
      constructor
      · rintro ⟨⟩
      · rintro (hn | ⟨-, hne⟩)
        · exact absurd hm hn
        · exact absurd hl hne
    · rename_i hl
      constructor
      · rintro ⟨⟩
        exact .arityMismatch hm hl
      · rintro (hn | _)
        · exact absurd hm hn
        · rfl

/-- A reference is checked for its root first, and then for its keys. -/
theorem fault?_reference_eq_some_iff {c : Context} {head : String} {accessors : List String}
    {e : Error} :
    fault? c (.reference head accessors) = some e ↔ Faulty c (.reference head accessors) e := by
  rw [fault?, failure_eq_some_iff]
  constructor
  · intro h
    by_cases hm : head ∈ ["github", "env", "job", "steps", "runner", "secrets", "strategy",
        "matrix", "needs"]
    · cases hg : c.get? head with
      | none =>
        rw [Context.resolve_of_get?_eq_none hg] at h
        cases h
        exact .unknownContext (.inr hg)
      | some fields =>
        rw [Context.resolve_of_get?_eq_some hm hg, Value.follow_eq_error_iff] at h
        obtain ⟨before, key, after, v, hkeys, hr, hv, rfl⟩ := h
        obtain ⟨before', accessors', rfl, rfl, hrest⟩ := List.map_eq_append_iff.mp hkeys
        obtain ⟨accessor, after', rfl, rfl, -⟩ := List.map_eq_cons_iff.mp hrest
        exact .malformedContext hm hg hr hv
    · rw [Context.resolve_of_not_mem hm] at h
      cases h
      exact .unknownContext (.inl hm)
  · rintro (_ | _ | hn | ⟨hm, hg, hr, hv⟩)
    · rcases hn with hn | hg
      · exact Context.resolve_of_not_mem hn _
      · exact Context.resolve_of_get?_eq_none hg _
    · rw [Context.resolve_of_get?_eq_some hm hg, List.map_append, List.map_cons]
      exact Value.follow_of_stuck hr hv _ _

theorem fault?_eq_some_iff {c : Context} {node : Literal} {e : Error} :
    node.fault? c = some e ↔ node.Faulty c e := by
  cases node with
  | call => exact fault?_call_eq_some_iff
  | reference => exact fault?_reference_eq_some_iff
  | _ => exact ⟨fun h => (by cases h), fun h => (by cases h)⟩

/-! ## Evaluation -/

theorem length_of_evaluateAll {c : Context} {args : List Literal} {values : List Value}
    (h : evaluateAll c args = .ok values) : values.length = args.length := by
  induction args generalizing values with
  | nil => cases h; rfl
  | cons arg args ih =>
    simp only [evaluateAll] at h
    split at h
    · cases h
    · split at h
      · cases h
      · rename_i hvs
        cases h
        rw [List.length_cons, List.length_cons, ih hvs]

/-- A function that gets as many arguments as it takes has a value. -/
theorem exists_call (f : Builtin) {values : List Value} (h : values.length = Builtin.arity) :
    ∃ v, f.call values = .ok v := by
  match values, h with
  | [x, y], _ => exact ⟨_, rfl⟩

mutual

/-- By induction on the literal: a call comes before its arguments, and these from left to right. -/
theorem failure_evaluate (c : Context) (l : Literal) :
    failure (l.evaluate c) = l.nodes.findSome? (fault? c) := by
  match l with
  | .null | .string _ | .int _ | .float _ | .bool _ => rfl
  | .reference head accessors =>
    rw [nodes, List.findSome?_singleton]
    rfl
  | .call name args =>
    have ih := failure_evaluateAll c args
    rw [nodes, List.findSome?_cons, evaluate, fault?]
    cases hf : Builtin.ofName? name with
    | none => rfl
    | some f =>
      by_cases hl : args.length = Builtin.arity
      · simp only [if_pos hl, ← ih]
        cases hall : evaluateAll c args with
        | error e => rfl
        | ok values =>
          exact failure_eq_none_iff.mpr (exists_call f ((length_of_evaluateAll hall).trans hl))
      · simp only [if_neg hl]
        rfl

theorem failure_evaluateAll (c : Context) (args : List Literal) :
    failure (evaluateAll c args) = (nodesAll args).findSome? (fault? c) := by
  match args with
  | [] => rfl
  | arg :: args =>
    have harg := failure_evaluate c arg
    have hargs := failure_evaluateAll c args
    rw [nodesAll, List.findSome?_append, ← harg, ← hargs, evaluateAll]
    cases arg.evaluate c with
    | error e => rfl
    | ok v => cases evaluateAll c args <;> rfl

end

end Literal

namespace Expression

/-- The error of an expression is that of its first faulty node. -/
theorem failure_evaluate (e : Expression) (c : Context) :
    failure (e.evaluate c) = e.nodes.findSome? (Literal.fault? c) := by
  have hlhs := e.lhs.failure_evaluate c
  rw [evaluate, nodes]
  cases e.rhs with
  | none =>
    rw [← hlhs]
    cases e.lhs.evaluate c <;> rfl
  | some operation =>
    obtain ⟨op, rhs⟩ := operation
    simp only [List.findSome?_append]
    rw [← hlhs, ← rhs.failure_evaluate c]
    cases e.lhs.evaluate c with
    | error => rfl
    | ok => cases rhs.evaluate c <;> rfl

/-- An expression has a value if and only if no call and no reference in it is faulty, and its error
is that of the first faulty one. Nothing is skipped. -/
theorem evaluate_first_fault (e : Expression) (c : Context) :
    ((∃ v, e.evaluate c = .ok v) ↔ ∀ node ∈ e.nodes, ∀ err, ¬ node.Faulty c err) ∧
      ∀ err, e.evaluate c = .error err ↔ ∃ before node after,
        e.nodes = before ++ node :: after ∧ node.Faulty c err ∧
          ∀ node' ∈ before, ∀ err', ¬ node'.Faulty c err' := by
  have hnone : ∀ node : Literal, node.fault? c = none ↔ ∀ err, ¬ node.Faulty c err := by
    intro node
    rw [Option.eq_none_iff_forall_ne_some]
    exact forall_congr' fun err => not_congr Literal.fault?_eq_some_iff
  refine ⟨?_, fun err => ?_⟩
  · rw [← failure_eq_none_iff, failure_evaluate, List.findSome?_eq_none_iff]
    exact forall₂_congr fun node _ => hnone node
  · rw [← failure_eq_some_iff, failure_evaluate, List.findSome?_eq_some_iff]
    simp only [Literal.fault?_eq_some_iff, hnone]

end Expression

end WorkflowCondition
