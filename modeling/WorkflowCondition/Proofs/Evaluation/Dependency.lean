import WorkflowCondition.Proofs.Evaluation.Path
import WorkflowCondition.Proofs.Expression.Parts

/-!
# What evaluation reads

A condition reads of its context what its references name: one field of a root, or the whole root
where a reference has no accessor. `Literal.evaluate_congr` shows that contexts that agree there
give the same result, by induction on the expression; nothing but a reference looks at the context.
The roots themselves are written in the source as tokens of their own (`exists_root_of_parse`), not
as identifiers and not inside of other tokens. `evaluate_reads_named` says both of a source.
-/

namespace WorkflowCondition

open Grammar Token

/-- Two contexts have the same for a reference to read. -/
inductive AgreeOn (c₁ c₂ : Context) (head : String) : List String → Prop
  /-- Neither context has the root. -/
  | absent {accessors : List String} (h₁ : c₁.get? head = none) (h₂ : c₂.get? head = none) :
      AgreeOn c₁ c₂ head accessors
  /-- A reference without accessors reads the whole root. -/
  | root {fields : Fields Value} (h₁ : c₁.get? head = some fields)
      (h₂ : c₂.get? head = some fields) : AgreeOn c₁ c₂ head []
  /-- A reference with accessors reads one field of the root, or finds that it is missing. -/
  | field {fields₁ fields₂ : Fields Value} {accessor : String} {accessors : List String}
      (h₁ : c₁.get? head = some fields₁) (h₂ : c₂.get? head = some fields₂)
      (h : fields₁.get? (accessorKey accessor) = fields₂.get? (accessorKey accessor)) :
      AgreeOn c₁ c₂ head (accessor :: accessors)

/-- The root stands in the source as a token of its own. -/
def IsWrittenRoot (source name : String) : Prop :=
  ∃ tokens, tokenize source = .ok tokens ∧ ∃ t ∈ tokens, t.kind = .root ∧ t.text = name

variable {c₁ c₂ : Context}

theorem AgreeOn.of_get?_eq {head : String} (h : c₁.get? head = c₂.get? head)
    (accessors : List String) : AgreeOn c₁ c₂ head accessors := by
  cases h₂ : c₂.get? head with
  | none => exact .absent (h.trans h₂) h₂
  | some fields =>
    cases accessors with
    | nil => exact .root (h.trans h₂) h₂
    | cons accessor accessors => exact .field (h.trans h₂) h₂ rfl

/-! ## References -/

/-- One field is all that a reference with accessors reads. -/
theorem Context.resolve_congr {head : String} {accessors : List String}
    (hm : head ∈ Root.all.map Root.name) (h : AgreeOn c₁ c₂ head accessors) :
    c₁.resolve head (accessors.map accessorKey) = c₂.resolve head (accessors.map accessorKey) := by
  cases h with
  | absent h₁ h₂ => rw [resolve_of_get?_eq_none h₁, resolve_of_get?_eq_none h₂]
  | root h₁ h₂ => rw [resolve_of_get?_eq_some hm h₁, resolve_of_get?_eq_some hm h₂]
  | field h₁ h₂ h =>
    rw [resolve_of_get?_eq_some hm h₁, resolve_of_get?_eq_some hm h₂, List.map_cons, Value.follow,
      Value.follow, h]

/-! ## Expressions -/

/-- The contexts agree on all references to roots among the literals. -/
def Agree (c₁ c₂ : Context) (parts : List Literal) : Prop :=
  ∀ head accessors, .reference head accessors ∈ parts → head ∈ Root.all.map Root.name →
    AgreeOn c₁ c₂ head accessors

theorem Agree.mono {parts more : List Literal} (h : Agree c₁ c₂ more) (hsub : parts ⊆ more) :
    Agree c₁ c₂ parts :=
  fun head accessors hp => h head accessors (hsub hp)

namespace Literal

mutual

/-- By induction on the literal: nothing but references looks at the context. -/
theorem evaluate_congr (l : Literal) (h : Agree c₁ c₂ l.parts) :
    l.evaluate c₁ = l.evaluate c₂ := by
  match l with
  | .null | .string _ | .int _ | .float _ | .bool _ => rfl
  | .reference head accessors =>
    by_cases hm : head ∈ Root.all.map Root.name
    · exact Context.resolve_congr hm (h head accessors List.mem_cons_self hm)
    · rw [evaluate, evaluate, Context.resolve_of_not_mem hm, Context.resolve_of_not_mem hm]
  | .call name args =>
    rw [evaluate, evaluate, evaluateAll_congr args (h.mono (List.subset_cons_self _ _))]

theorem evaluateAll_congr (args : List Literal) (h : Agree c₁ c₂ (partsAll args)) :
    evaluateAll c₁ args = evaluateAll c₂ args := by
  match args with
  | [] => rfl
  | arg :: args =>
    rw [evaluateAll, evaluateAll, evaluate_congr arg (h.mono (List.subset_append_left _ _)),
      evaluateAll_congr args (h.mono (List.subset_append_right _ _))]

end

end Literal

theorem Expression.evaluate_congr (e : Expression) (h : Agree c₁ c₂ e.parts) :
    e.evaluate c₁ = e.evaluate c₂ := by
  obtain ⟨lhs, rhs⟩ := e
  cases rhs with
  | none => rw [evaluate, evaluate, lhs.evaluate_congr h]
  | some operation =>
    obtain ⟨op, rhs⟩ := operation
    rw [evaluate, evaluate, lhs.evaluate_congr (h.mono (List.subset_append_left _ _))]
    simp only [rhs.evaluate_congr (h.mono (List.subset_append_right _ _))]

/-! ## Sources -/

/-- The name of a root is a token of no other kind. -/
theorem kind_eq_root_of_tokenize {source name : String} {tokens : List Token}
    (h : tokenize source = .ok tokens) (hm : name ∈ Root.all.map Root.name) {t : Token}
    (ht : t ∈ tokens) (htext : t.text = name) : t.kind = .root := by
  subst htext
  obtain ⟨found, hs, rfl⟩ := tokenize_eq_ok_iff.mp h
  rcases List.mem_append.mp ht with ht | ht
  · obtain ⟨r, hmunch⟩ := hs.exists_isMunch t (List.mem_filter.mp ht).1
    exact hmunch.kind_eq_of_word (show t.text ∈ Kind.root.words from hm)
  · obtain rfl := List.mem_singleton.mp ht
    exact absurd hm (show "" ∉ Root.all.map Root.name by decide)

/-- The head of a reference to a root is a token for the root. -/
theorem exists_root_of_parse {source : String} {e : Expression}
    (he : Expression.parse source = .ok e) {head : String} {accessors : List String}
    (hp : .reference head accessors ∈ e.parts) (hm : head ∈ Root.all.map Root.name) :
    IsWrittenRoot source head := by
  obtain ⟨found, hs, hderives⟩ := Expression.exists_derives_of_parse he
  have htokens := tokenize_eq_ok_iff.mpr ⟨found, hs, rfl⟩
  cases hderives.written _ hp with
  | @reference t _ ht _ _ =>
    have hmem := List.mem_append_left [endOfInput source.utf8ByteSize] ht
    exact ⟨_, htokens, t, hmem, kind_eq_root_of_tokenize htokens hm hmem rfl, rfl⟩

/-- A source that is no expression has the same error in every context. -/
theorem evaluate_congr_of_agree {source : String}
    (h : ∀ e, Expression.parse source = .ok e → Agree c₁ c₂ e.parts) :
    evaluate source c₁ = evaluate source c₂ := by
  rw [evaluate, evaluate]
  cases he : Expression.parse source with
  | error err => rfl
  | ok e => exact e.evaluate_congr (h e he)

/-- A condition reads nothing of a context but what its references name. Contexts that agree there
give the same value or the same error; a source that does not stand for an expression reads nothing.
A reference can name a root only by a token for it, so that no other entry of a context has an
influence. -/
theorem evaluate_reads_named (source : String) (c₁ c₂ : Context) :
    ((∀ e, Expression.parse source = .ok e → ∀ head accessors,
        Literal.reference head accessors ∈ e.parts → head ∈ Root.all.map Root.name →
          AgreeOn c₁ c₂ head accessors) →
      evaluate source c₁ = evaluate source c₂) ∧
    (∀ err, Expression.parse source = .error err →
      evaluate source c₁ = .error err ∧ evaluate source c₂ = .error err) ∧
    (∀ e, Expression.parse source = .ok e → ∀ head accessors,
      Literal.reference head accessors ∈ e.parts → head ∈ Root.all.map Root.name →
        IsWrittenRoot source head ∧ ∀ tokens, tokenize source = .ok tokens →
          ∀ t ∈ tokens, t.text = head → t.kind = .root) ∧
    ((∀ root : Root, IsWrittenRoot source root.name → c₁.get? root.name = c₂.get? root.name) →
      evaluate source c₁ = evaluate source c₂) := by
  refine ⟨evaluate_congr_of_agree, fun err herr => ?_, fun e he head accessors hp hm => ?_,
    fun h => ?_⟩
  · rw [evaluate, evaluate, herr]
    exact ⟨rfl, rfl⟩
  · exact ⟨exists_root_of_parse he hp hm, fun tokens h t => kind_eq_root_of_tokenize h hm⟩
  · refine evaluate_congr_of_agree fun e he head accessors hp hm => ?_
    obtain ⟨root, -, rfl⟩ := List.mem_map.mp hm
    exact .of_get?_eq (h root (exists_root_of_parse he hp hm)) accessors

end WorkflowCondition
