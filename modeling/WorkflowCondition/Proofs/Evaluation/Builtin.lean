import Mathlib.Logic.Relation
import WorkflowCondition.Evaluation

/-!
# What the functions test

A call of a function tells whether one text starts with, ends with or contains another
(`Builtin.test_iff`), where the texts are those of the values without their single quotes
(`Value.bareText`). The laws of the functions are those of the three relations between texts, and a
quote more or less in an argument makes no difference (`bareText_of_sameButQuotes`).
`Literal.evaluate_builtin` puts this together for calls with any arguments.
-/

namespace WorkflowCondition

/-- The text of a value without its single quotes. What is no string has the empty text. -/
def Value.bareText : Value → String
  | .string s => .ofList (s.toList.filter (· != '\''))
  | _ => ""

theorem Value.toList_bareText (v : Value) : v.bareText.toList = Builtin.comparedChars v := by
  cases v with
  | string s => exact String.toList_ofList
  | _ => rfl

/-! ## Texts -/

namespace Builtin

/-- What a function says of two texts. -/
def Relates (f : Builtin) (text part : String) : Prop :=
  match f with
  | .startsWith => ∃ t, text = part ++ t
  | .endsWith => ∃ t, text = t ++ part
  | .contains => ∃ t u, text = t ++ part ++ u

/-- The search finds every place where the part stands. -/
theorem hasPart_iff {part text : List Char} : hasPart part text = true ↔ part <:+: text := by
  induction text with
  | nil => rw [hasPart, List.isEmpty_iff, List.infix_nil]
  | cons c rest ih =>
    rw [hasPart, Bool.or_eq_true, ih, List.isPrefixOf_iff_prefix, List.infix_cons_iff]

theorem test_iff (f : Builtin) (text part : String) :
    f.test text.toList part.toList = true ↔ f.Relates text part := by
  cases f with
  | startsWith =>
    rw [test, List.isPrefixOf_iff_prefix]
    constructor
    · rintro ⟨t, ht⟩
      exact ⟨.ofList t, String.toList_inj.mp (by simp [ht])⟩
    · rintro ⟨t, rfl⟩
      exact ⟨t.toList, String.toList_append.symm⟩
  | endsWith =>
    rw [test, List.isSuffixOf_iff_suffix]
    constructor
    · rintro ⟨t, ht⟩
      exact ⟨.ofList t, String.toList_inj.mp (by simp [ht])⟩
    · rintro ⟨t, rfl⟩
      exact ⟨t.toList, String.toList_append.symm⟩
  | contains =>
    rw [test, hasPart_iff]
    constructor
    · rintro ⟨t, u, htu⟩
      exact ⟨.ofList t, .ofList u, String.toList_inj.mp (by simp [← htu])⟩
    · rintro ⟨t, u, rfl⟩
      exact ⟨t.toList, u.toList, by simp⟩

theorem Relates.contains {text part : String}
    (h : startsWith.Relates text part ∨ endsWith.Relates text part) :
    Builtin.contains.Relates text part := by
  obtain ⟨t, rfl⟩ | ⟨t, rfl⟩ := h
  · exact ⟨"", t, by rw [String.empty_append]⟩
  · exact ⟨t, "", by rw [String.append_empty]⟩

theorem relates_self (f : Builtin) (text : String) : f.Relates text text := by
  cases f with
  | startsWith => exact ⟨"", String.append_empty.symm⟩
  | endsWith => exact ⟨"", String.empty_append.symm⟩
  | contains => exact ⟨"", "", by rw [String.empty_append, String.append_empty]⟩

theorem Relates.trans {f : Builtin} {s t u : String} (h : f.Relates s t) (h' : f.Relates t u) :
    f.Relates s u := by
  cases f with
  | startsWith =>
    obtain ⟨a, rfl⟩ := h
    obtain ⟨b, rfl⟩ := h'
    exact ⟨b ++ a, String.append_assoc⟩
  | endsWith =>
    obtain ⟨a, rfl⟩ := h
    obtain ⟨b, rfl⟩ := h'
    exact ⟨a ++ b, String.append_assoc.symm⟩
  | contains =>
    obtain ⟨a, b, rfl⟩ := h
    obtain ⟨d, e, rfl⟩ := h'
    exact ⟨a ++ d, e ++ b, by simp only [String.append_assoc]⟩

theorem ofName?_name (f : Builtin) : ofName? f.name = some f := by
  cases f <;> decide

end Builtin

/-! ## Quotes -/

/-- One single quote is added somewhere in the text. -/
def AddsQuote (s s' : String) : Prop :=
  ∃ before after, s = before ++ after ∧ s' = before ++ "'" ++ after

/-- The texts become the same when single quotes are added to them or removed from them. -/
def SameButQuotes : String → String → Prop :=
  Relation.EqvGen AddsQuote

/-- By induction on the quotes that are added and removed. -/
theorem bareText_of_sameButQuotes {s s' : String} (h : SameButQuotes s s') :
    (Value.string s).bareText = (Value.string s').bareText := by
  induction h with
  | rel s s' h =>
    obtain ⟨before, after, rfl, rfl⟩ := h
    apply String.toList_inj.mp
    simp [Value.bareText]
  | refl s => rfl
  | symm s s' _ ih => exact ih.symm
  | trans s s' s'' _ _ ih ih' => exact ih.trans ih'

/-! ## Calls -/

namespace Literal

/-- A call with two arguments evaluates both of them and tests their texts. -/
theorem evaluate_call (c : Context) (f : Builtin) (l m : Literal) :
    (Literal.call f.name [l, m]).evaluate c = (l.evaluate c).bind fun x =>
      (m.evaluate c).map fun y => .bool (f.test x.bareText.toList y.bareText.toList) := by
  simp only [Value.toList_bareText]
  rw [evaluate, Builtin.ofName?_name, evaluateAll, evaluateAll, evaluateAll]
  cases l.evaluate c with
  | error e => rfl
  | ok x =>
    cases m.evaluate c with
    | error e => rfl
    | ok y => rfl

/-- The value of the call is true. -/
def Confirms (c : Context) (f : Builtin) (l m : Literal) : Prop :=
  (Literal.call f.name [l, m]).evaluate c = .ok (.bool true)

variable {c : Context} {f : Builtin} {l m n : Literal} {x y : Value}

theorem confirms_iff (hx : l.evaluate c = .ok x) (hy : m.evaluate c = .ok y) :
    Confirms c f l m ↔ f.Relates x.bareText y.bareText := by
  rw [← f.test_iff, Confirms, evaluate_call, hx, hy]
  simp [Except.bind, Except.map]

/-- A call has no value if one of its arguments has none. -/
theorem Confirms.exists_values (h : Confirms c f l m) :
    ∃ x y, l.evaluate c = .ok x ∧ m.evaluate c = .ok y := by
  rw [Confirms, evaluate_call] at h
  cases hx : l.evaluate c with
  | error e => rw [hx] at h; cases h
  | ok x =>
    cases hy : m.evaluate c with
    | error e => rw [hx, hy] at h; cases h
    | ok y => exact ⟨x, y, rfl, rfl⟩

theorem Confirms.contains (h : Confirms c .startsWith l m ∨ Confirms c .endsWith l m) :
    Confirms c .contains l m := by
  obtain ⟨x, y, hx, hy⟩ := h.elim Confirms.exists_values Confirms.exists_values
  rw [confirms_iff hx hy, confirms_iff hx hy] at h
  exact (confirms_iff hx hy).mpr (Builtin.Relates.contains h)

theorem Confirms.trans (h : Confirms c f l m) (h' : Confirms c f m n) : Confirms c f l n := by
  obtain ⟨x, y, hx, hy⟩ := h.exists_values
  obtain ⟨-, z, -, hz⟩ := h'.exists_values
  rw [confirms_iff hx hy] at h
  rw [confirms_iff hy hz] at h'
  exact (confirms_iff hx hz).mpr (h.trans h')

/-- A call of a function with two arguments that have values is true if and only if the text of the
first starts with, ends with or contains that of the second, as the function says, and else false;
single quotes are left out of the texts. So a text that starts or ends with another contains it,
every function is reflexive and transitive over what is evaluated, and quotes that are added to a
string or removed from it do not change the result, in either place and whatever the other argument
is. -/
theorem evaluate_builtin (c : Context) (f : Builtin) :
    (∀ (l m : Literal) (x y : Value), l.evaluate c = .ok x → m.evaluate c = .ok y →
      ∃ b, (Literal.call f.name [l, m]).evaluate c = .ok (.bool b) ∧
        (b = true ↔ f.Relates x.bareText y.bareText)) ∧
    (∀ l m, Confirms c .startsWith l m ∨ Confirms c .endsWith l m → Confirms c .contains l m) ∧
    (∀ (l : Literal) (x : Value), l.evaluate c = .ok x → Confirms c f l l) ∧
    (∀ l m n, Confirms c f l m → Confirms c f m n → Confirms c f l n) ∧
    ∀ (l l' m : Literal) (s s' : String), SameButQuotes s s' →
      l.evaluate c = .ok (.string s) → l'.evaluate c = .ok (.string s') →
      (Literal.call f.name [l, m]).evaluate c = (Literal.call f.name [l', m]).evaluate c ∧
        (Literal.call f.name [m, l]).evaluate c = (Literal.call f.name [m, l']).evaluate c := by
  refine ⟨fun l m x y hx hy => ?_, fun _ _ => Confirms.contains, fun l x hx => ?_,
    fun _ _ _ => Confirms.trans, fun l l' m s s' hs hl hl' => ?_⟩
  · refine ⟨_, ?_, f.test_iff _ _⟩
    rw [evaluate_call, hx, hy]
    rfl
  · exact (confirms_iff hx hx).mpr (f.relates_self _)
  · have hbare := bareText_of_sameButQuotes hs
    simp only [evaluate_call, hl, hl', Except.bind, Except.map, hbare, and_self]

/-- Without their quotes the two strings are `dont` and `nt`. -/
theorem evaluate_builtin_quotes :
    (Literal.string "'don''t'").evaluate .empty = .ok (.string "don't") ∧
      (Literal.string "'n''''t'").evaluate .empty = .ok (.string "n''t") ∧
      (Literal.call "startsWith" [.string "'don''t'", .string "'n''''t'"]).evaluate .empty =
        .ok (.bool false) ∧
      (Literal.call "endsWith" [.string "'don''t'", .string "'n''''t'"]).evaluate .empty =
        .ok (.bool true) ∧
      (Literal.call "contains" [.string "'don''t'", .string "'n''''t'"]).evaluate .empty =
        .ok (.bool true) := by
  have hx : (Literal.string "'don''t'").evaluate .empty = .ok (.string "don't") := by rfl
  have hy : (Literal.string "'n''''t'").evaluate .empty = .ok (.string "n''t") := by rfl
  obtain ⟨b, hstarts, hiff⟩ := (evaluate_builtin .empty .startsWith).1 _ _ _ _ hx hy
  obtain rfl : b = false := by
    rw [← Bool.not_eq_true, hiff]
    rintro ⟨t, ht⟩
    have hhead := congrArg (fun s => s.toList.head?) ht
    simp [Value.bareText] at hhead
  obtain ⟨b, hends, hiff⟩ := (evaluate_builtin .empty .endsWith).1 _ _ _ _ hx hy
  obtain rfl : b = true := hiff.mpr ⟨"do", by decide⟩
  obtain ⟨b, hcontains, hiff⟩ := (evaluate_builtin .empty .contains).1 _ _ _ _ hx hy
  obtain rfl : b = true := hiff.mpr ⟨"do", "", by decide⟩
  exact ⟨hx, hy, hstarts, hends, hcontains⟩

end Literal

end WorkflowCondition
