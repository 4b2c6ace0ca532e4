import WorkflowCondition.Expression.Parser

/-!
# The grammar of expressions

The grammar as relations between tokens and syntax trees, one rule for each constructor, without a
word about how tokens are read: `DerivesLiteral` for literals, `DerivesArguments` and `DerivesMore`
for what stands between the parentheses of a call, and `Derives` for a whole expression. The nesting
of calls is bounded on the tree (`Literal.callDepth`), not along the derivation.
-/

namespace WorkflowCondition

namespace Literal

mutual

/-- How many calls are open at once, at most, in a literal. -/
def callDepth : Literal → Nat
  | .call _ args => 1 + maxCallDepth args
  | _ => 0

/-- The greatest depth among the arguments. -/
def maxCallDepth : List Literal → Nat
  | [] => 0
  | arg :: args => max arg.callDepth (maxCallDepth args)

end

end Literal

namespace Grammar

/-- A token that starts a reference: a root, or an identifier that starts like a word. -/
def IsHead (t : Token) : Prop :=
  t.kind = .root ∨ t.kind = .identifier ∧ ∃ c rest, t.text.toList = c :: rest ∧ isWordStart c

mutual

/-- The tokens of a literal. -/
inductive DerivesLiteral : List Token → Literal → Prop
  | null {t : Token} (ht : t.kind = .null) : DerivesLiteral [t] .null
  | string {t : Token} (ht : t.kind = .string) : DerivesLiteral [t] (.string t.text)
  | integer {t : Token} {n : Int64} (ht : t.kind = .integer) (hn : readInteger? t.text = some n) :
      DerivesLiteral [t] (.int n)
  | float {t : Token} {x : Binary64} (ht : t.kind = .float) (hx : readBinary64? t.text = some x) :
      DerivesLiteral [t] (.float x)
  | bool {t : Token} {b : Bool} (ht : t.kind = .bool) (hb : b = true ↔ t.text = "true") :
      DerivesLiteral [t] (.bool b)
  | call {name opening closing : Token} {u : List Token} {args : List Literal}
      (hn : name.kind = .identifier) (ho : opening.isPunct "(") (hu : DerivesArguments u args)
      (hc : closing.isPunct ")") :
      DerivesLiteral (name :: opening :: (u ++ [closing])) (.call name.text args)
  | reference {head : Token} {accessors : List Token} (hh : IsHead head)
      (ha : ∀ t ∈ accessors, t.kind = .accessor) :
      DerivesLiteral (head :: accessors) (.reference head.text (accessors.map Token.text))

/-- The tokens between the parentheses of a call. A first argument that started with a closing
parenthesis would be taken for the end of the call. -/
inductive DerivesArguments : List Token → List Literal → Prop
  | none : DerivesArguments [] []
  | some {t : Token} {u v : List Token} {arg : Literal} {args : List Literal}
      (ht : ¬ t.isPunct ")") (hu : DerivesLiteral (t :: u) arg) (hv : DerivesMore v args) :
      DerivesArguments (t :: u ++ v) (arg :: args)

/-- The tokens of the arguments behind an argument, each with a comma before it. -/
inductive DerivesMore : List Token → List Literal → Prop
  | none : DerivesMore [] []
  | some {comma : Token} {u v : List Token} {arg : Literal} {args : List Literal}
      (hc : comma.isPunct ",") (hu : DerivesLiteral u arg) (hv : DerivesMore v args) :
      DerivesMore (comma :: (u ++ v)) (arg :: args)

end

/-- The tokens of an expression. -/
inductive Derives : List Token → Expression → Prop
  | literal {u : List Token} {a : Literal} (hu : DerivesLiteral u a) (ha : a.callDepth ≤ 64) :
      Derives u ⟨a, none⟩
  | binary {u v : List Token} {t : Token} {a b : Literal} {op : Operator}
      (hu : DerivesLiteral u a) (ha : a.callDepth ≤ 64) (ht : t.kind = .operator)
      (ho : t.text = op.symbol) (hv : DerivesLiteral v b) (hb : b.callDepth ≤ 64) :
      Derives (u ++ t :: v) ⟨a, some (op, b)⟩

theorem DerivesLiteral.exists_cons {u : List Token} {a : Literal} (h : DerivesLiteral u a) :
    ∃ t v, u = t :: v := by
  cases h <;> exact ⟨_, _, rfl⟩

/-- What can follow a literal without changing how it is read: it neither goes on with a reference
nor makes its head the name of a call. -/
def Follows : List Token → Prop
  | [] => True
  | t :: _ => t.kind ≠ .accessor ∧ ¬ t.isPunct "("

theorem Follows.of_kind {t : Token} {kind : Token.Kind} {r : List Token} (h : t.kind = kind)
    (hk : kind ≠ .accessor ∧ kind ≠ .identifier := by decide) : Follows (t :: r) :=
  ⟨h ▸ hk.1, fun ho => hk.2 (h.symm.trans (Token.isPunct_iff.mp ho).1)⟩

theorem Follows.of_isPunct {t : Token} {text : String} {r : List Token} (h : t.isPunct text)
    (ht : text ≠ "(" := by decide) : Follows (t :: r) := by
  obtain ⟨hk, hx⟩ := Token.isPunct_iff.mp h
  refine ⟨by rw [hk]; decide, fun ho => ht ?_⟩
  exact hx.symm.trans (Token.isPunct_iff.mp ho).2

/-- Behind the head of a reference no call starts. -/
theorem not_opening {accessors r : List Token} {last : Token}
    (ha : ∀ t ∈ accessors, t.kind = .accessor)
    (hr : accessors = [] → ¬ (r.headD last).isPunct "(") :
    ¬ ((accessors ++ r).headD last).isPunct "(" := by
  cases accessors with
  | nil => exact hr rfl
  | cons t accessors =>
    intro ho
    have hi : t.kind = .identifier := (Token.isPunct_iff.mp ho).1
    exact absurd (hi.symm.trans (ha t List.mem_cons_self)) (by decide)

/-- The token `t` behind the tokens `u` of a literal is not part of it: a reference goes on with
every accessor, and an identifier in front of a parenthesis is no reference. -/
def Stops (u : List Token) (a : Literal) (t : Token) : Prop :=
  ∀ head accessors, a = .reference head accessors →
    t.kind ≠ .accessor ∧ (accessors = [] → ∀ h ∈ u, h.kind = .identifier → ¬ t.isPunct "(")

theorem Stops.of_ne {u : List Token} {a : Literal}
    (h : ∀ head accessors, a ≠ .reference head accessors)
    (t : Token) : Stops u a t :=
  fun head accessors ha => absurd ha (h head accessors)

/-- What can follow an expression goes on with none of its literals. -/
theorem Follows.stops {r : List Token} (hr : Follows r) (u : List Token) (a : Literal) :
    Stops u a (r.headD Parser.pastEnd) := by
  rintro head accessors -
  cases r with
  | nil => exact ⟨by decide, fun _ _ _ _ => by decide⟩
  | cons t r => exact ⟨hr.1, fun _ _ _ _ => hr.2⟩

theorem DerivesMore.follows {u r : List Token} {args : List Literal} (h : DerivesMore u args)
    (hr : Follows r) : Follows (u ++ r) := by
  cases h with
  | none => exact hr
  | some hc => exact .of_isPunct hc

/-- The tokens in front of the first end of input, or all of them if there is none. -/
def beforeEnd (tokens : List Token) : List Token :=
  tokens.takeWhile (·.kind != .endOfInput)

/-- Nothing follows, or an end of input does. -/
def AtEnd : List Token → Prop
  | [] => True
  | t :: _ => t.kind = .endOfInput

theorem AtEnd.follows {r : List Token} (h : AtEnd r) : Follows r := by
  cases r with
  | nil => trivial
  | cons t r => exact .of_kind h

/-- Nothing behind the first end of input counts. -/
theorem beforeEnd_append {u r : List Token} (hu : ∀ t ∈ u, t.kind ≠ .endOfInput) (hr : AtEnd r) :
    beforeEnd (u ++ r) = u := by
  have hall : ∀ t ∈ u, (t.kind != .endOfInput) = true := fun t ht => bne_iff_ne.mpr (hu t ht)
  rw [beforeEnd, List.takeWhile_append_of_pos hall]
  cases r with
  | nil => exact List.append_nil u
  | cons t r =>
    have ht : t.kind = .endOfInput := hr
    simp [ht]

theorem exists_beforeEnd (tokens : List Token) : ∃ r, tokens = beforeEnd tokens ++ r ∧ AtEnd r := by
  refine ⟨_, List.takeWhile_append_dropWhile.symm, ?_⟩
  induction tokens with
  | nil => trivial
  | cons t tokens ih =>
    rw [List.dropWhile_cons]
    split
    · exact ih
    · rename_i h
      show t.kind = .endOfInput
      simpa using h

end Grammar

end WorkflowCondition
