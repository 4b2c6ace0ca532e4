import WorkflowCondition.Proofs.Expression.Bracketing
import WorkflowCondition.Proofs.Expression.Parts
import WorkflowCondition.Proofs.Expression.Relocation
import WorkflowCondition.Proofs.Token.Numeral
import WorkflowCondition.Proofs.Token.QuoteRuns

/-!
# How literals are written

Which texts the tokens of a literal have: `IsStringText`, `IsAccessorText` and `isWord` say without
a word about the scan what the languages of their kinds are (`isStringText_iff`,
`isAccessorText_iff`, `isWord_iff`). Each of these texts is separable, and so is a numeral, so that
it can be written between blanks.
-/

namespace WorkflowCondition

open scoped Computability

open Grammar Token

/-! ## Texts -/

/-- A text between two single quotes, with even runs of quotes in it. -/
def IsStringText (raw : String) : Prop :=
  ∃ body, raw.toList = '\'' :: (body ++ ['\'']) ∧ EvenRuns body

/-- A key behind a point, or between `['` and `']`. -/
def IsAccessorText (accessor : String) : Prop :=
  ∃ key, key ≠ [] ∧ (∀ c ∈ key, isKeyChar c) ∧
    (accessor.toList = '.' :: key ∨ accessor.toList = '[' :: '\'' :: (key ++ ['\'', ']']))

theorem isStringText_iff {raw : String} :
    IsStringText raw ↔ raw.toList ∈ Kind.string.language := by
  constructor
  · rintro ⟨body, hraw, hbody⟩
    rw [hraw]
    exact Language.mem_mul.mpr ⟨['\''], rfl, _, Language.mem_mul.mpr
      ⟨body, mem_quoted_of_evenRuns hbody, ['\''], rfl, rfl⟩, rfl⟩
  · intro h
    obtain ⟨_, rfl, v, hv, hraw⟩ := Language.mem_mul.mp h
    obtain ⟨body, hbody, _, rfl, rfl⟩ := Language.mem_mul.mp hv
    exact ⟨body, hraw.symm, evenRuns_of_mem_quoted hbody⟩

theorem isAccessorText_iff {accessor : String} :
    IsAccessorText accessor ↔ accessor.toList ∈ Kind.accessor.language := by
  constructor
  · rintro ⟨key, hne, hkey, h | h⟩
    · rw [h]
      exact .inl (Language.mem_mul.mpr ⟨['.'], rfl, key, ⟨hne, hkey⟩, rfl⟩)
    · rw [h]
      exact .inr (Language.mem_mul.mpr ⟨['[', '\''], rfl, _, Language.mem_mul.mpr
        ⟨key, ⟨hne, hkey⟩, ['\'', ']'], rfl, rfl⟩, rfl⟩)
  · rintro (h | h)
    · obtain ⟨_, rfl, key, ⟨hne, hkey⟩, he⟩ := Language.mem_mul.mp h
      exact ⟨key, hne, hkey, .inl he.symm⟩
    · obtain ⟨_, rfl, v, hv, he⟩ := Language.mem_mul.mp h
      obtain ⟨key, ⟨hne, hkey⟩, _, rfl, rfl⟩ := Language.mem_mul.mp hv
      exact ⟨key, hne, hkey, .inr he.symm⟩

theorem accessorKey_of_toList_eq {accessor : String} {key : List Char}
    (h : accessor.toList = '.' :: key ∨ accessor.toList = '[' :: '\'' :: (key ++ ['\'', ']'])) :
    accessorKey accessor = .ofList key := by
  rcases h with h | h
  · simp only [accessorKey, h]
  · have hclose : ['\'', ']'].isSuffixOf (key ++ ['\'', ']']) :=
      List.isSuffixOf_iff_suffix.mpr (List.suffix_append _ _)
    simp only [accessorKey, h, if_pos hclose, List.length_append, List.length_cons, List.length_nil,
      Nat.add_sub_cancel, List.take_left]

theorem isWord_iff {text : String} :
    isWord text ↔ ∃ c v, text.toList = c :: v ∧ isWordStart c ∧ ∀ d ∈ v, isWordChar d := by
  rw [isWord]
  cases text.toList with
  | nil => simp
  | cons c v => simp

/-! ## Tokens -/

/-- A keyword or a root is one token, if no character of a word follows. -/
theorem isSeparable_word {kind : Token.Kind} {word : String} (hm : word ∈ kind.words) :
    IsSeparable kind word.toList := by
  have hkind : kind ≠ .whitespace ∧ word.toList ∈ kind.language ∧
      ∀ kind' : Token.Kind, kind'.ctorIdx < kind.ctorIdx → kind' ≠ .identifier := by
    cases kind with
    | null | bool | root =>
      exact ⟨by decide, ⟨word, hm, rfl⟩, by rintro _ hlt rfl; exact absurd hlt (by decide)⟩
    | _ => cases hm
  obtain ⟨hwhite, hmem, hearlier⟩ := hkind
  obtain ⟨c, v, hw, hc, -⟩ := isWordStart_of_mem_words hm
  refine isSeparable_of_mem ?_ hmem (fun kind' hlt hmem' => ?_) hwhite ?_
  · rw [hw]
    exact List.cons_ne_nil c v
  · rw [Kind.eq_of_word hmem' (hearlier kind' hlt) hm] at hlt
    exact absurd hlt (Nat.lt_irrefl _)
  · rw [hw]
    rintro ⟨⟩
    exact absurd hc (by decide)

theorem isSeparable_identifier {text : String} (hw : isWord text)
    (hwords : ∀ kind : Token.Kind, text ∉ kind.words) :
    IsSeparable .identifier text.toList := by
  obtain ⟨c, v, htext, hc, hv⟩ := isWord_iff.mp hw
  rw [htext]
  have hmem : c :: v ∈ Kind.identifier.language :=
    .inl (Language.mem_mul.mpr ⟨[c], ⟨c, hc, rfl⟩, v, hv, rfl⟩)
  refine isSeparable_of_mem (List.cons_ne_nil c v) hmem (fun kind hlt hmem' => ?_) (by decide) ?_
  · have hi : kind ≠ .identifier := by
      rintro rfl
      exact absurd hlt (Nat.lt_irrefl _)
    obtain ⟨word, hm, he⟩ := Kind.mem_anyText_words hmem' hi hc
    exact hwords kind (String.toList_inj.mp (htext.trans he) ▸ hm)
  · rintro ⟨⟩
    exact absurd hc (by decide)

theorem isSeparable_of_isStringText {raw : String} (h : IsStringText raw) :
    IsSeparable .string raw.toList := by
  obtain ⟨s, hs⟩ := mem_string_language_iff.mp (isStringText_iff.mp h)
  rw [hs]
  exact isSeparable_quote s

theorem isSeparable_of_isAccessorText {accessor : String} (h : IsAccessorText accessor) :
    IsSeparable .accessor accessor.toList := by
  refine isSeparable_of_lead ?_ (isAccessorText_iff.mp h) (by decide)
    (fun kind => by cases kind <;> decide) (by decide) (by decide)
  obtain ⟨key, -, -, htext | htext⟩ := h
  all_goals
    rw [htext]
    exact List.cons_ne_nil _ _

theorem isSeparable_operator (op : Operator) : IsSeparable .operator op.symbol.toList := by
  have hmem : op.symbol.toList ∈ Kind.operator.language :=
    ⟨op.symbol, List.mem_map_of_mem (by cases op <;> decide), rfl⟩
  exact isSeparable_of_lead (by cases op <;> decide) hmem (by decide)
    (fun kind => by cases kind <;> decide) (by decide) (by decide)

/-- There is no float without a point. -/
theorem point_mem_of_mem_float {w : List Char} (h : w ∈ Kind.float.language) : '.' ∈ w := by
  obtain ⟨s, -, v, hv, rfl⟩ := Language.mem_mul.mp h
  obtain ⟨d, -, x, hx, rfl⟩ := Language.mem_mul.mp hv
  obtain ⟨_, rfl, y, -, rfl⟩ := Language.mem_mul.mp hx
  simp

/-- A float has a point, and an integer has none. -/
theorem isSeparable_of_isNumeral {n : Int} {text : String} (h : IsNumeral n text) :
    IsSeparable .integer text.toList := by
  have hmem := h.mem_language
  have hpoint : ∀ c ∈ text.toList, c ≠ '.' :=
    Over.integer (p := (· ≠ '.')) (by rintro c hc rfl; exact absurd hc (by decide))
      (by decide) _ hmem
  obtain ⟨c, v, htext⟩ : ∃ c v, text.toList = c :: v := by
    refine List.exists_cons_of_ne_nil fun hnil => ?_
    obtain ⟨digits, hne, -, ⟨htext, -⟩ | ⟨htext, -⟩⟩ := h
    · exact hne (htext.symm.trans hnil)
    · cases htext.symm.trans hnil
  have hlead := Kind.lead_eq (htext ▸ hmem) (by decide)
  refine isSeparable_of_mem (by rw [htext]; exact List.cons_ne_nil c v) hmem
    (fun kind hlt hmem' => ?_) (by decide) fun hq => ?_
  · have hi : kind ≠ .identifier := by
      rintro rfl
      exact absurd hlt (by decide)
    have heq : kind.lead = Kind.integer.lead := (Kind.lead_eq (htext ▸ hmem') hi).symm.trans hlead
    rcases Kind.eq_of_lead_eq heq hlt with hroot | ⟨rfl, -⟩ | hnot
    · rw [heq] at hroot
      cases hroot
    · exact hpoint '.' (point_mem_of_mem_float hmem') rfl
    · cases hnot
  · rw [hq] at htext
    cases htext
    cases hlead

end WorkflowCondition
