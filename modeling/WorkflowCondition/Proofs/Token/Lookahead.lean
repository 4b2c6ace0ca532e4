import Mathlib.Data.List.Find
import WorkflowCondition.Proofs.Token.Separation

/-!
# What can follow a token

A token is told from what follows it by one more character: `Kind.goesOn` are the characters with
which a text can go on, by the kind that its first character stands for, and in front of any other
character a separable text is found whole (`IsSeparable.next?_append`). An operator is found again
in front of the same character, whatever is behind that (`next?_operator_append`).
-/

namespace WorkflowCondition

open scoped Computability

namespace Token

/-- Whether a text can have the character behind its first one. The kind stands for the kinds of
texts with the same first characters; a string goes on behind its end with a quote. -/
def Kind.goesOn : Kind → Char → Bool
  | .root, c => isWordChar c
  | .integer, c => c.isDigit || c ∈ ['.', 'e', 'E', '+', '-']
  | .string, c => c == '\''
  | .whitespace, c => isBlank c
  | .accessor, c => isKeyChar c || c ∈ ['\'', ']']
  | .operator, c => c ∈ ['=', '&', '|']
  | _, _ => false

theorem goesOn_of_mem_accessor {d : Char} {v : List Char} (h : d :: v ∈ Kind.accessor.language) :
    ∀ c ∈ v, Kind.accessor.goesOn c := by
  have hkey : ∀ {key : List Char}, key ∈ someOf isKeyChar →
      ∀ c ∈ key, Kind.accessor.goesOn c := fun hk c hc => by
    simp [Kind.goesOn, hk.2 c hc]
  obtain h | h := h
  · obtain ⟨_, rfl, key, hk, he⟩ := Language.mem_mul.mp h
    cases he
    exact hkey hk
  · obtain ⟨_, rfl, u, hu, he⟩ := Language.mem_mul.mp h
    obtain ⟨key, hk, _, rfl, rfl⟩ := Language.mem_mul.mp hu
    have hclose : ∀ c ∈ ['\'', ']'], Kind.accessor.goesOn c := forall_mem_of_all (by decide)
    have hbody : ∀ c ∈ key ++ ['\'', ']'], Kind.accessor.goesOn c :=
      List.forall_mem_append.mpr ⟨hkey hk, hclose⟩
    cases he
    exact List.forall_mem_cons.mpr ⟨by decide, hbody⟩

/-- Behind its first character a text has only characters with which it can go on. -/
theorem Kind.goesOn_of_mem {kind : Kind} {d : Char} {v : List Char} (h : d :: v ∈ kind.language)
    (hstring : kind ≠ .string) : ∀ c ∈ v, (leadOf d).goesOn c := by
  intro c hc
  have hmem : c ∈ d :: v := List.mem_cons_of_mem d hc
  have hdigit : ∀ {c : Char}, c.isDigit → Kind.integer.goesOn c := fun h => by
    simp [Kind.goesOn, h]
  by_cases hi : kind = .identifier
  · subst hi
    obtain h | ⟨_, -, he⟩ := h
    · obtain ⟨_, ⟨d, hd, rfl⟩, u, hu, he⟩ := Language.mem_mul.mp h
      cases he
      rw [leadOf, if_pos hd]
      exact hu c hc
    · cases he
      cases hc
  · rw [Kind.lead_eq h hi]
    cases kind with
    | null | bool | root =>
      obtain ⟨word, hm, hw⟩ := h
      exact isWordChar_of_mem_words hm c (hw ▸ hmem)
    | float =>
      have hmarks : ∀ c ∈ ['.', 'e', 'E', '+', '-'], Kind.integer.goesOn c :=
        forall_mem_of_all (by decide)
      exact Over.float (p := (Kind.integer.goesOn ·)) hdigit hmarks _ h c hmem
    | integer => exact Over.integer (p := (Kind.integer.goesOn ·)) hdigit (by decide) _ h c hmem
    | string => exact absurd rfl hstring
    | whitespace => exact h.2 c hmem
    | accessor => exact goesOn_of_mem_accessor h c hc
    | operator =>
      obtain ⟨text, ht, he⟩ := h
      have hall : ∀ text ∈ Operator.all.map Operator.symbol,
          text.toList.tail.all Kind.operator.goesOn := by decide
      have htail := hall text ht
      rw [← he] at htail
      exact List.all_eq_true.mp htail c hc
    | not => cases h; cases hc
    | identifier => exact absurd rfl hi
    | endOfInput => cases h

/-- A separable text is a text of its kind and of no kind before it. -/
theorem IsSeparable.munch {kind : Kind} {w : List Char} (h : IsSeparable kind w) :
    IsMunch kind w [] := by
  have hnext := h [] (by simp)
  rw [List.append_nil] at hnext
  have hmunch := isMunch_of_next? hnext
  rwa [List.take_length, List.drop_length] at hmunch

/-- In front of a character with which it cannot go on a separable text is found whole. -/
theorem IsSeparable.next?_append {kind : Kind} {w r : List Char} (h : IsSeparable kind w)
    (hwhite : kind ≠ .whitespace)
    (hr : ∀ d ∈ w.head?, ∀ c ∈ r.head?, ¬ (leadOf d).goesOn c) :
    next? (w ++ r) = some (kind, w.length) := by
  have hmunch := h.munch
  obtain ⟨d, v, rfl, -⟩ := h.exists_cons hwhite
  by_cases hstring : kind = .string
  · subst hstring
    obtain ⟨s, hs⟩ := mem_string_language_iff.mp hmunch.mem
    have hd : leadOf d = .string := Kind.lead_eq hmunch.mem (by decide)
    rw [hs]
    refine next?_quote_append s fun hq => ?_
    have hno := hr d rfl '\'' hq
    rw [hd] at hno
    exact hno rfl
  have halone : d :: v ≠ ['\''] := by
    rintro ⟨⟩
    have hnext := h [] (by simp)
    have hnone : next? ['\''] = none := by decide
    rw [List.append_nil, hnone] at hnext
    cases hnext
  have hquote : d ≠ '\'' := ne_quote_of_mem hmunch.mem hstring halone
  refine next?_of_longest (List.cons_ne_nil d v) hmunch.mem hmunch.first hstring hwhite halone
    fun kind' u hu hp => ?_
  refine length_le_of_tail ?_ (hr d rfl) hp
  cases u with
  | nil => simp
  | cons d' u =>
    obtain ⟨rfl, -⟩ := List.cons_prefix_cons.mp hp
    have hkind : kind' ≠ .string := by
      rintro rfl
      exact hquote (eq_quote_of_mem hu)
    exact Kind.goesOn_of_mem hu hkind

/-- No operator is longer than two characters. -/
theorem operatorLength?_append {w : List Char} (hne : w ≠ []) (c : Char) (r : List Char) :
    operatorLength? (w ++ c :: r) = operatorLength? (w ++ [c]) := by
  have htwo : ∀ op ∈ operators, op.toList.length ≤ (w ++ [c]).length := by
    have hall : ∀ op ∈ operators, op.toList.length ≤ 2 := by decide
    have hpos : 0 < w.length := List.length_pos_of_ne_nil hne
    intro op hm
    have hle := hall op hm
    simp only [List.length_append, List.length_cons, List.length_nil]
    omega
  have hstart : ∀ op ∈ operators,
      op.toList.isPrefixOf (w ++ c :: r) = op.toList.isPrefixOf (w ++ [c]) := by
    intro op hm
    rw [Bool.eq_iff_iff, List.isPrefixOf_iff_prefix, List.isPrefixOf_iff_prefix, List.append_cons]
    exact ⟨fun hp => List.prefix_of_prefix_length_le hp (List.prefix_append _ r) (htwo op hm),
      List.prefix_append_of_prefix⟩
  exact congrArg (Option.map String.length) (List.find?_congr hstart)

/-- What is found at an operator depends on no more than the next character. -/
theorem next?_operator_append {w r r' : List Char} {c : Char}
    (h : next? (w ++ c :: r) = some (.operator, w.length)) :
    next? (w ++ c :: r') = some (.operator, w.length) := by
  obtain ⟨hk, -⟩ := next?_eq_some_iff.mp h
  have hne : w ≠ [] := by
    rintro rfl
    exact absurd (Kind.length?_pos hk) (by decide)
  have hsame : operatorLength? (w ++ c :: r') = operatorLength? (w ++ c :: r) :=
    (operatorLength?_append hne c r').trans (operatorLength?_append hne c r).symm
  obtain ⟨d, v, rfl⟩ := List.exists_cons_of_ne_nil hne
  have hlead : leadOf d = .operator := Kind.lead_of_length? hk (by decide)
  refine next?_of_lead (hsame.trans hk) fun kind hlt => ?_
  rw [hlead]
  revert hlt
  cases kind <;> decide

end Token

end WorkflowCondition
