import WorkflowCondition.Proofs.Token.Munch
import WorkflowCondition.Text.Quoted

/-!
# The texts of strings

What stands between the quotes of a string is a text with its quotes doubled and nothing else
(`mem_quoted_iff`), so that the texts of strings are those that `quote` writes
(`mem_string_language_iff`). In front of anything but a quote such a text is found again whole
(`next?_quote_append`).
-/

namespace WorkflowCondition

open scoped Computability

namespace Token

theorem append_mem_quoted {u v : List Char}
    (hu : u ∈ oneOf (· ≠ '\'') + ({['\'', '\'']} : Language Char)) (hv : v ∈ quoted) :
    u ++ v ∈ quoted := by
  obtain ⟨parts, rfl, hparts⟩ := Language.mem_kstar.mp hv
  exact Language.mem_kstar.mpr ⟨u :: parts, rfl, List.forall_mem_cons.mpr ⟨hu, hparts⟩⟩

theorem doubleQuotes_quote (cs : List Char) :
    doubleQuotes ('\'' :: cs) = '\'' :: '\'' :: doubleQuotes cs :=
  if_pos rfl

theorem doubleQuotes_cons {c : Char} (hc : c ≠ '\'') (cs : List Char) :
    doubleQuotes (c :: cs) = c :: doubleQuotes cs :=
  if_neg hc

/-- A text can stand between quotes if and only if its quotes are doubled. -/
theorem mem_quoted_iff {u : List Char} : u ∈ quoted ↔ ∃ cs, u = doubleQuotes cs := by
  constructor
  · intro hu
    obtain ⟨parts, rfl, hparts⟩ := Language.mem_kstar.mp hu
    clear hu
    induction parts with
    | nil => exact ⟨[], rfl⟩
    | cons part parts ih =>
      obtain ⟨hpart, hrest⟩ := List.forall_mem_cons.mp hparts
      obtain ⟨cs, hcs⟩ := ih hrest
      rw [List.flatten_cons, hcs]
      rcases hpart with ⟨c, hc, rfl⟩ | rfl
      · exact ⟨c :: cs, (doubleQuotes_cons (of_decide_eq_true hc) cs).symm⟩
      · exact ⟨'\'' :: cs, (doubleQuotes_quote cs).symm⟩
  · rintro ⟨cs, rfl⟩
    induction cs with
    | nil => exact Language.nil_mem_kstar _
    | cons c cs ih =>
      by_cases hc : c = '\''
      · subst hc
        rw [doubleQuotes_quote]
        exact append_mem_quoted (u := ['\'', '\'']) (.inr rfl) ih
      · rw [doubleQuotes_cons hc]
        exact append_mem_quoted (u := [c]) (.inl ⟨c, decide_eq_true hc, rfl⟩) ih

theorem toList_quote (s : String) :
    (quote s).toList = '\'' :: (doubleQuotes s.toList ++ ['\'']) := by
  rw [quote, String.toList_ofList, List.cons_append]

/-- The texts of strings are those that `quote` writes. -/
theorem mem_string_language_iff {w : List Char} :
    w ∈ Kind.string.language ↔ ∃ s : String, w = (quote s).toList := by
  constructor
  · intro hw
    obtain ⟨_, rfl, v, hv, rfl⟩ := Language.mem_mul.mp hw
    obtain ⟨u, hu, _, rfl, rfl⟩ := Language.mem_mul.mp hv
    obtain ⟨cs, rfl⟩ := mem_quoted_iff.mp hu
    refine ⟨.ofList cs, ?_⟩
    rw [toList_quote, String.toList_ofList]
    rfl
  · rintro ⟨s, rfl⟩
    rw [toList_quote]
    refine Language.mem_mul.mpr ⟨['\''], rfl, _, ?_, rfl⟩
    exact Language.mem_mul.mpr ⟨_, mem_quoted_iff.mpr ⟨s.toList, rfl⟩, ['\''], rfl, rfl⟩

/-- Where nothing closes a string, the quotes are doubled up to the end. -/
theorem mem_quoted_of_closingLength? {cs : List Char} (h : closingLength? cs = none) :
    cs ∈ quoted := by
  fun_induction closingLength? cs with
  | case1 => exact Language.nil_mem_kstar _
  | case2 rest ih =>
    exact append_mem_quoted (u := ['\'', '\'']) (.inr rfl) (ih (Option.map_eq_none_iff.mp h))
  | case3 => cases h
  | case4 c rest _ hc ih =>
    exact append_mem_quoted (u := [c]) (.inl ⟨c, decide_eq_true hc, rfl⟩)
      (ih (Option.map_eq_none_iff.mp h))

/-- Behind doubled quotes the first quote that is not doubled closes. -/
theorem closingLength?_doubleQuotes (cs : List Char) {r : List Char} (hr : r.head? ≠ some '\'') :
    closingLength? (doubleQuotes cs ++ '\'' :: r) = some ((doubleQuotes cs).length + 1) := by
  induction cs with
  | nil =>
    cases r with
    | nil => rfl
    | cons d r =>
      have hd : d ≠ '\'' := fun hd => hr (congrArg some hd)
      show closingLength? ('\'' :: d :: r) = some 1
      rw [closingLength?.eq_3 _ _ fun _ _ h => hd (List.cons.inj h).1, if_pos rfl]
  | cons c cs ih =>
    by_cases hc : c = '\''
    · subst hc
      rw [doubleQuotes_quote]
      show (closingLength? (doubleQuotes cs ++ '\'' :: r)).map (· + 2) = _
      rw [ih]
      rfl
    · rw [doubleQuotes_cons hc, List.cons_append, closingLength?_cons hc, ih]
      rfl

/-- A kind that answers is taken where the kinds before it start with other characters. -/
theorem next?_of_lead {kind : Kind} {c : Char} {r : List Char} {n : Nat}
    (h : kind.length? (c :: r) = some n)
    (hlead : ∀ kind' : Kind, kind'.ctorIdx < kind.ctorIdx → kind'.lead ≠ leadOf c) :
    next? (c :: r) = some (kind, n) := by
  refine next?_eq_some_iff.mpr ⟨h, fun kind' hlt => ?_⟩
  cases hk : kind'.length? (c :: r) with
  | none => rfl
  | some m =>
    have hi : kind' ≠ .identifier := by
      rintro rfl
      cases kind with
      | endOfInput => cases h
      | _ => exact absurd hlt (by decide)
    exact absurd (Kind.lead_of_length? hk hi).symm (hlead kind' hlt)

/-- The literal of a string is found as one token, unless a quote follows. -/
theorem next?_quote_append (s : String) {r : List Char} (hr : r.head? ≠ some '\'') :
    next? ((quote s).toList ++ r) = some (.string, (quote s).toList.length) := by
  rw [toList_quote, List.cons_append, List.append_assoc, List.singleton_append]
  refine next?_of_lead ?_ fun kind => by cases kind <;> decide
  show (closingLength? _).map (· + 1) = _
  rw [closingLength?_doubleQuotes s.toList hr]
  simp

end Token

end WorkflowCondition
