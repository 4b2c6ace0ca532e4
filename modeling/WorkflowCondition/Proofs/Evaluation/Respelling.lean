import WorkflowCondition.Evaluation
import WorkflowCondition.Proofs.Expression.Respelling

/-!
# Evaluation and the form of accessors

Evaluation sees the keys of accessors alone. Other texts with the same keys do not change a value
(`Literal.evaluate_mapAccessors`), so that literals with the same keys have the same values or the
same errors (`Literal.evaluate_eq_of_keys`), and so have a source and the source with accessors in
their other form (`evaluate_respelled`).
-/

namespace WorkflowCondition

open Grammar Token

/-- The accessor `.key`. -/
def pointed (key : String) : String :=
  .ofList ('.' :: key.toList)

theorem accessorKey_pointed (key : String) : accessorKey (pointed key) = key := by
  rw [accessorKey_of_toList_eq (.inl (show (pointed key).toList = _ from String.toList_ofList)),
    String.ofList_toList]

namespace Literal

mutual

/-- Accessors can be changed twice at once. -/
theorem mapAccessors_mapAccessors (f g : String → String) :
    ∀ a : Literal, (a.mapAccessors f).mapAccessors g = a.mapAccessors (g ∘ f)
  | .call name args => by
    rw [mapAccessors, mapAccessors, mapAccessorsAll_mapAccessorsAll f g args, mapAccessors]
  | .reference head accessors => by
    rw [mapAccessors, mapAccessors, List.map_map, mapAccessors]
  | .null | .string _ | .int _ | .float _ | .bool _ => rfl

theorem mapAccessorsAll_mapAccessorsAll (f g : String → String) : ∀ args : List Literal,
    mapAccessorsAll g (mapAccessorsAll f args) = mapAccessorsAll (g ∘ f) args
  | [] => rfl
  | arg :: args => by
    rw [mapAccessorsAll, mapAccessorsAll, mapAccessors_mapAccessors f g arg,
      mapAccessorsAll_mapAccessorsAll f g args, mapAccessorsAll]

end

@[simp] theorem length_mapAccessorsAll (f : String → String) (args : List Literal) :
    (mapAccessorsAll f args).length = args.length := by
  induction args with
  | nil => rfl
  | cons arg args ih => rw [mapAccessorsAll, List.length_cons, List.length_cons, ih]

mutual

/-- Other texts with the same keys give the same value or the same error. -/
theorem evaluate_mapAccessors {f : String → String}
    (hf : ∀ accessor, accessorKey (f accessor) = accessorKey accessor) (c : Context) :
    ∀ a : Literal, (a.mapAccessors f).evaluate c = a.evaluate c
  | .call name args => by
    simp only [mapAccessors, evaluate, length_mapAccessorsAll,
      evaluateAll_mapAccessorsAll hf c args]
  | .reference head accessors => by
    simp only [mapAccessors, evaluate, List.map_map, Function.comp_def, hf]
  | .null | .string _ | .int _ | .float _ | .bool _ => rfl

theorem evaluateAll_mapAccessorsAll {f : String → String}
    (hf : ∀ accessor, accessorKey (f accessor) = accessorKey accessor) (c : Context) :
    ∀ args : List Literal, evaluateAll c (mapAccessorsAll f args) = evaluateAll c args
  | [] => rfl
  | arg :: args => by
    rw [mapAccessorsAll, evaluateAll, evaluate_mapAccessors hf c arg,
      evaluateAll_mapAccessorsAll hf c args, evaluateAll]

end

/-- A literal is evaluated by its keys: it has the value or the error of every literal with the same
keys. -/
theorem evaluate_eq_of_keys {a a' : Literal}
    (h : a'.mapAccessors accessorKey = a.mapAccessors accessorKey) (c : Context) :
    a'.evaluate c = a.evaluate c := by
  have hkeys (b : Literal) :
      ((b.mapAccessors accessorKey).mapAccessors pointed).evaluate c = b.evaluate c := by
    rw [mapAccessors_mapAccessors]
    exact evaluate_mapAccessors (fun accessor => accessorKey_pointed _) c b
  rw [← hkeys a', h, hkeys a]

end Literal

theorem Expression.evaluate_eq_of_keys {e e' : Expression}
    (h : e'.mapAccessors accessorKey = e.mapAccessors accessorKey) (c : Context) :
    e'.evaluate c = e.evaluate c := by
  obtain ⟨lhs, rhs⟩ := e
  obtain ⟨lhs', rhs'⟩ := e'
  obtain ⟨hlhs, hrhs⟩ := Expression.mk.inj h
  rw [evaluate, evaluate, Literal.evaluate_eq_of_keys hlhs]
  cases rhs with
  | none => rw [Option.map_eq_none_iff.mp hrhs]
  | some right =>
    obtain ⟨op, rhs⟩ := right
    obtain ⟨⟨op', rhs'⟩, rfl, hright⟩ := Option.map_eq_some_iff.mp hrhs
    obtain ⟨rfl, hrhs⟩ := Prod.mk.inj hright
    simp only [Literal.evaluate_eq_of_keys hrhs]

/-- The two forms of an accessor can stand for each other. A source that stands for an expression
has tokens that give it back, and any of its accessors can be written in their other form: the new
source has these tokens but for the chosen texts, it stands for the same expression but for these
texts, with the same keys, and it has the same value or the same error in every context. -/
theorem evaluate_respelled {source : String} {e : Expression}
    (h : Expression.parse source = .ok e) :
    ∃ tokens, scan source = .ok tokens ∧ respelled (fun _ => false) tokens = source ∧
      ∀ chosen : Token → Bool, ∃ found e', scan (respelled chosen tokens) = .ok found ∧
        found.map entry = (tokens.map (respell chosen)).map entry ∧
        Expression.parse (respelled chosen tokens) = .ok e' ∧
        e'.mapAccessors accessorKey = e.mapAccessors accessorKey ∧
        e.accessors = accessorTexts tokens ∧
        e'.accessors = accessorTexts (tokens.map (respell chosen)) ∧
        ∀ c : Context, evaluate (respelled chosen tokens) c = evaluate source c := by
  obtain ⟨tokens, htokens, hrespelled⟩ := Expression.parse_respelled h
  refine ⟨tokens, htokens, respelled_of_none htokens, fun chosen => ?_⟩
  obtain ⟨found, e', hfound, hentries, he', hkeys, haccessors, haccessors'⟩ := hrespelled chosen
  refine ⟨found, e', hfound, hentries, he', hkeys, haccessors, haccessors', fun c => ?_⟩
  rw [evaluate, evaluate, h, he']
  exact Expression.evaluate_eq_of_keys hkeys c

/-- An accessor in brackets ends at its last bracket, so that the operator behind it stays. -/
theorem evaluate_respelled_reference :
    Expression.parse "env.a-b!=github['c']" =
      .ok ⟨.reference "env" [".a-b"], some (.ne, .reference "github" ["['c']"])⟩ ∧
    ∀ c : Context, evaluate "env['a-b']!=github.c" c = evaluate "env.a-b!=github['c']" c := by
  have hscan : Scans 0 "env.a-b!=github['c']".toList [⟨.root, "env", 0⟩, ⟨.accessor, ".a-b", 3⟩,
      ⟨.operator, "!=", 7⟩, ⟨.root, "github", 9⟩, ⟨.accessor, "['c']", 15⟩] [] :=
    .next (n := 3) (by decide) (.next (n := 4) (by decide) (.next (n := 2) (by decide)
      (.next (n := 6) (by decide) (.next (n := 5) (by decide) .refl))))
  have he : Expression.parse "env.a-b!=github['c']" =
      .ok ⟨.reference "env" [".a-b"], some (.ne, .reference "github" ["['c']"])⟩ := by
    rw [Expression.parse, tokenize_eq_ok_iff.mpr ⟨_, hscan, rfl⟩]
    rfl
  obtain ⟨tokens, htokens, -, hrespelled⟩ := evaluate_respelled he
  obtain rfl := Except.ok.inj (htokens.symm.trans (scanFrom_eq_ok_iff.mpr ⟨_, hscan, rfl⟩))
  obtain ⟨_, _, -, -, -, -, -, -, hvalue⟩ := hrespelled fun _ => true
  exact ⟨he, hvalue⟩

end WorkflowCondition
