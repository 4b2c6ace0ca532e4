import WorkflowCondition.Proofs.Token.Recognised
import WorkflowCondition.Proofs.Token.Run

/-!
# The order of the kinds

Of two recognisers that answer in front of the same text, the one asked first does not find less
(`Kind.length?_le`), so that the first answer is the longest (`Token.length?_le_of_next?`). A first
character leaves few kinds to compare (`Kind.lead_eq`): kinds of words answer with the whole word,
and of the others that share a first character the one asked first has the longer text.
-/

namespace WorkflowCondition

open scoped Computability

namespace Token

/-! ## First characters -/

/-- The kind that stands for all kinds which the character can start, next to `identifier`. -/
def leadOf (c : Char) : Kind :=
  if isWordStart c then .root
  else if c = '-' ∨ c.isDigit then .integer
  else if c = '\'' then .string
  else if isBlank c then .whitespace
  else if c = '.' ∨ c = '[' then .accessor
  else if c ∈ ['=', '!', '<', '>', '&', '|'] then .operator
  else .identifier

/-- The kind that stands for the kinds with the same first characters. -/
def Kind.lead : Kind → Kind
  | .null | .bool => .root
  | .float => .integer
  | .not => .operator
  | kind => kind

theorem toNat_of_isWordStart {c : Char} (h : isWordStart c) :
    0x41 ≤ c.toNat ∧ c.toNat ≤ 0x5A ∨ c.toNat = 0x5F ∨ 0x61 ≤ c.toNat ∧ c.toNat ≤ 0x7A := by
  rcases Bool.or_eq_true_iff.mp h with h | h
  · rcases Bool.or_eq_true_iff.mp h with h | h
    · exact .inl (of_decide_eq_true h)
    · obtain ⟨hl, hu⟩ := Bool.and_eq_true_iff.mp h
      exact .inr (.inr ⟨of_decide_eq_true hl, of_decide_eq_true hu⟩)
  · rw [eq_of_beq h]
    decide

theorem toNat_of_isDigit {c : Char} (h : c.isDigit) : 0x30 ≤ c.toNat ∧ c.toNat ≤ 0x39 := by
  obtain ⟨hl, hu⟩ := Bool.and_eq_true_iff.mp h
  exact ⟨of_decide_eq_true hl, of_decide_eq_true hu⟩

theorem toNat_of_isBlank {c : Char} (h : isBlank c) :
    c.toNat ≤ 0x20 ∨ 0x85 ≤ c.toNat := by
  obtain ⟨r, hr, hc⟩ := List.any_eq_true.mp h
  rw [Bool.and_eq_true, decide_eq_true_eq, decide_eq_true_eq] at hc
  have hranges : ∀ r ∈ blankRanges, r.2 ≤ 0x20 ∨ 0x85 ≤ r.1 := by decide
  have := hranges r hr
  omega

theorem leadOf_of_isDigit {c : Char} (h : c.isDigit) : leadOf c = .integer := by
  have hc := toNat_of_isDigit h
  have hw : ¬ isWordStart c := fun hw => by
    have := toNat_of_isWordStart hw
    omega
  rw [leadOf, if_neg hw, if_pos (.inr h)]

theorem leadOf_of_isBlank {c : Char} (h : isBlank c) : leadOf c = .whitespace := by
  have hc := toNat_of_isBlank h
  have hw : ¬ isWordStart c := fun hw => by
    have := toNat_of_isWordStart hw
    omega
  have hn : ¬ (c = '-' ∨ c.isDigit) := by
    rintro (rfl | hd)
    · exact absurd hc (by decide)
    · have := toNat_of_isDigit hd
      omega
  have hq : c ≠ '\'' := by
    rintro rfl
    exact absurd hc (by decide)
  rw [leadOf, if_neg hw, if_neg hn, if_neg hq, if_pos h]

/-- A minus sign in front of a digit leads to a number, as the digit does. -/
theorem leadOf_of_mem_signed {c : Char} {v : List Char} {l : Language Char}
    (hw : c :: v ∈ sign ['-'] * l) (hl : ∀ u ∈ l, StartsWithDigit u) : leadOf c = .integer := by
  obtain ⟨s, hs, u, hu, he⟩ := Language.mem_mul.mp hw
  rcases hs with rfl | ⟨d, hd, rfl⟩
  · obtain ⟨d, r, rfl, hd⟩ := hl u hu
    cases he
    exact leadOf_of_isDigit hd
  · obtain rfl : d = '-' := by simpa using hd
    cases he
    rfl

theorem isWordStart_of_mem_words {kind : Kind} {word : String} (h : word ∈ kind.words) :
    ∃ c r, word.toList = c :: r ∧ isWordStart c ∧ ∀ d ∈ c :: r, isWordChar d := by
  have hall : ∀ kind : Kind, ∀ word ∈ kind.words,
      word.toList.head?.any isWordStart ∧ word.toList.all isWordChar := by
    intro kind
    cases kind <;> decide
  obtain ⟨hs, hc⟩ := hall kind word h
  cases hw : word.toList with
  | nil => rw [hw] at hs; cases hs
  | cons c r =>
    rw [hw] at hs hc
    exact ⟨c, r, rfl, hs, List.all_eq_true.mp hc⟩

theorem isWordChar_of_mem_words {kind : Kind} {word : String} (h : word ∈ kind.words) :
    ∀ c ∈ word.toList, isWordChar c := by
  obtain ⟨c, r, hw, -, hall⟩ := isWordStart_of_mem_words h
  rwa [hw]

/-- Listed words start as identifiers do, and are told from them by the whole word. -/
theorem leadOf_of_mem_words {kind : Kind} {c : Char} {v : List Char}
    (h : c :: v ∈ anyText kind.words) : leadOf c = .root := by
  obtain ⟨word, hm, hw⟩ := h
  obtain ⟨d, r, hd, hs, -⟩ := isWordStart_of_mem_words hm
  cases hw.trans hd
  exact if_pos hs

/-- A string starts with a quote. -/
theorem eq_quote_of_mem {c : Char} {v : List Char} (h : c :: v ∈ Kind.string.language) :
    c = '\'' := by
  obtain ⟨_, rfl, r, -, he⟩ := Language.mem_mul.mp h
  cases he
  rfl

/-- A text of a kind starts like its kind, if it is no identifier. -/
theorem Kind.lead_eq {kind : Kind} {c : Char} {v : List Char} (h : c :: v ∈ kind.language)
    (hk : kind ≠ .identifier) : leadOf c = kind.lead := by
  cases kind with
  | null | bool | root => exact leadOf_of_mem_words h
  | float =>
    refine leadOf_of_mem_signed h fun u hu => ?_
    obtain ⟨d, hd, r, -, rfl⟩ := Language.mem_mul.mp hu
    exact (startsWithDigit_of_mem_whole hd).append r
  | integer => exact leadOf_of_mem_signed h fun u hu => startsWithDigit_of_mem_someOf hu
  | string =>
    rw [eq_quote_of_mem h]
    rfl
  | whitespace => exact leadOf_of_isBlank (h.2 c List.mem_cons_self)
  | accessor =>
    rcases h with h | h
    all_goals
      obtain ⟨_, rfl, r, -, he⟩ := Language.mem_mul.mp h
      cases he
      rfl
  | operator =>
    obtain ⟨text, ht, he⟩ := h
    have hall : ∀ text ∈ Operator.all.map Operator.symbol,
        text.toList.head?.all (leadOf · = .operator) := by decide
    have := hall text ht
    rw [← he] at this
    exact of_decide_eq_true this
  | not => cases h; rfl
  | identifier => exact absurd rfl hk
  | endOfInput => cases h

/-! ## Answers in front of the same text -/

/-- The first character decides between all kinds but identifiers, which also take what is left. -/
theorem Kind.lead_of_length? {kind : Kind} {c : Char} {r : List Char} {n : Nat}
    (h : kind.length? (c :: r) = some n) (hk : kind ≠ .identifier) : leadOf c = kind.lead := by
  obtain ⟨m, rfl⟩ := Nat.exists_eq_add_one_of_ne_zero (Kind.length?_pos h).ne'
  exact lead_eq (Kind.starts_language h).2 hk

theorem wordLength?_append (word r : List Char) :
    wordLength? word (word ++ r) =
      if spanLength isWordChar r = 0 then some word.length else none := by
  have hp : word.isPrefixOf (word ++ r) := List.isPrefixOf_iff_prefix.mpr ⟨r, rfl⟩
  rw [wordLength?, hp, List.drop_left]
  cases r with
  | nil => rfl
  | cons d r =>
    cases hd : isWordChar d with
    | false =>
      rw [spanLength_cons_of_neg (by simp [hd])]
      simp [hd]
    | true =>
      have hspan : spanLength isWordChar (d :: r) ≠ 0 := by
        rw [spanLength, List.takeWhile_cons_of_pos hd]
        exact Nat.succ_ne_zero _
      rw [if_neg hspan]
      simp [hd]

theorem identifierLength?_word {c : Char} (hc : isWordStart c) (r : List Char) :
    identifierLength? (c :: r) = some (spanLength isWordChar (c :: r)) := by
  have hspan : spanLength isWordChar (c :: r) = 1 + spanLength isWordChar r := by
    rw [spanLength, List.takeWhile_cons_of_pos (isWordChar_of_isWordStart hc), List.length_cons,
      Nat.add_comm]
    rfl
  rw [identifierLength?, if_pos hc, hspan]

/-- A kind that answers in front of a word answers with the whole word. -/
theorem Kind.length?_word {kind : Kind} {c : Char} {r : List Char} {n : Nat}
    (hc : isWordStart c) (h : kind.length? (c :: r) = some n) :
    n = spanLength isWordChar (c :: r) := by
  by_cases hk : kind = .identifier
  · subst hk
    exact (Option.some.inj ((identifierLength?_word hc r).symm.trans h)).symm
  · have hlead : kind.lead = .root := (lead_of_length? h hk).symm.trans (if_pos hc)
    have hne : kind.words ≠ [] := by
      cases kind with
      | null | bool | root => decide
      | _ => cases hlead
    rw [kind.length?_eq_findSome? hne] at h
    obtain ⟨word, hm, hl⟩ := List.exists_of_findSome?_eq_some h
    obtain ⟨⟨u, hu⟩, rfl⟩ := prefix_of_wordLength? hl
    obtain ⟨d, v, hw, -, hall⟩ := isWordStart_of_mem_words hm
    rw [← hu, wordLength?_append] at hl
    rw [← hu, spanLength_append (hw ▸ hall)]
    split at hl
    · rename_i hzero
      rw [hzero, Nat.add_zero]
    · cases hl

/-- In front of a point the whole part of a float has all the digits, as an integer has. -/
theorem spanLength_isDigit_of_whole {cs rest : List Char} (h : wholeLength cs ≠ 0)
    (hr : cs.drop (wholeLength cs) = '.' :: rest) :
    spanLength Char.isDigit cs = wholeLength cs := by
  cases cs with
  | nil => exact absurd rfl h
  | cons c r =>
    rw [wholeLength] at hr ⊢
    split
    · rename_i hc
      subst hc
      rw [if_pos rfl] at hr
      obtain rfl : r = '.' :: rest := hr
      rfl
    · rfl

/-- Where there is a float, the integer in front of its point is no longer than it. -/
theorem integerLength?_le_floatLength? {cs : List Char} {n n' : Nat}
    (h : floatLength? cs = some n) (h' : integerLength? cs = some n') : n' ≤ n := by
  simp only [floatLength?] at h
  split at h
  · cases h
  · rename_i hw
    split at h
    · rename_i rest hr
      split at h
      · cases h
      · cases h
        rw [← List.drop_drop] at hr
        simp only [integerLength?, spanLength_isDigit_of_whole hw hr, if_neg hw] at h'
        cases h'
        omega
    · cases h

/-- Kinds with the same first characters, words apart. -/
theorem Kind.eq_of_lead_eq {kind kind' : Kind} (h : kind.lead = kind'.lead)
    (hlt : kind.ctorIdx < kind'.ctorIdx) :
    kind.lead = .root ∨ kind = .float ∧ kind' = .integer ∨ kind' = .not := by
  revert h hlt
  cases kind <;> cases kind' <;> decide

theorem isWordStart_of_leadOf {c : Char} (h : leadOf c = .root) : isWordStart c := by
  by_contra hc
  rw [leadOf, if_neg hc] at h
  repeat' split at h
  all_goals cases h

theorem identifierLength?_punctuation {c : Char} {r : List Char} {n : Nat} (hc : ¬ isWordStart c)
    (h : identifierLength? (c :: r) = some n) : n = 1 := by
  rw [identifierLength?, if_neg hc] at h
  split at h
  · exact (Option.some.inj h).symm
  · cases h

/-- Of two kinds that answer the one asked first does not find less. -/
theorem Kind.length?_le {kind kind' : Kind} {c : Char} {r : List Char} {n n' : Nat}
    (hlt : kind.ctorIdx < kind'.ctorIdx) (h : kind.length? (c :: r) = some n)
    (h' : kind'.length? (c :: r) = some n') : n' ≤ n := by
  have hpos := Kind.length?_pos h
  by_cases hc : isWordStart c
  · rw [length?_word hc h, length?_word hc h']
  · by_cases hk' : kind' = .identifier
    · subst hk'
      rw [identifierLength?_punctuation hc h']
      exact hpos
    · have hk : kind ≠ .identifier := by
        rintro rfl
        cases kind' with
        | endOfInput => cases h'
        | _ => exact absurd hlt (by decide)
      have hlead := lead_of_length? h hk
      rcases eq_of_lead_eq (hlead.symm.trans (lead_of_length? h' hk')) hlt with hroot | hnum | rfl
      · exact absurd (isWordStart_of_leadOf (hlead.trans hroot)) hc
      · obtain ⟨rfl, rfl⟩ := hnum
        exact integerLength?_le_floatLength? h h'
      · simp only [Kind.length?, notLength?] at h'
        split at h'
        · cases h'
          exact hpos
        · cases h'

/-! ## The first answer -/

/-- The kinds are tried in the order in which they are declared. -/
theorem Kind.tried_pairwise : tried.Pairwise fun a b => a.ctorIdx < b.ctorIdx := by
  decide

theorem Kind.mem_tried {kind : Kind} {cs : List Char} {n : Nat} (h : kind.length? cs = some n) :
    kind ∈ tried := by
  cases kind with
  | endOfInput => cases h
  | _ => decide

/-- The answer that is taken is the first in the order of the kinds. -/
theorem next?_eq_some_iff {cs : List Char} {kind : Kind} {n : Nat} :
    next? cs = some (kind, n) ↔ kind.length? cs = some n ∧
      ∀ kind' : Kind, kind'.ctorIdx < kind.ctorIdx → kind'.length? cs = none := by
  rw [next?, List.findSome?_eq_some_iff]
  constructor
  · rintro ⟨before, found, after, heq, hf, hbefore⟩
    obtain ⟨m, hm, he⟩ := Option.map_eq_some_iff.mp hf
    cases he
    refine ⟨hm, fun kind' hlt => ?_⟩
    cases hl : kind'.length? cs with
    | none => rfl
    | some m' =>
      have hpair := heq ▸ Kind.tried_pairwise
      rcases List.mem_append.mp (heq ▸ Kind.mem_tried hl) with hb | ha
      · rw [Option.map_eq_none_iff.mp (hbefore kind' hb)] at hl
        cases hl
      · rcases List.mem_cons.mp ha with rfl | ha
        · exact absurd hlt (Nat.lt_irrefl _)
        · have := (List.pairwise_cons.mp (List.pairwise_append.mp hpair).2.1).1 kind' ha
          omega
  · rintro ⟨h, hfirst⟩
    obtain ⟨before, after, heq⟩ := List.append_of_mem (Kind.mem_tried h)
    have hpair := heq ▸ Kind.tried_pairwise
    refine ⟨before, kind, after, heq, by rw [h]; rfl, fun kind' hb => ?_⟩
    rw [hfirst kind' ((List.pairwise_append.mp hpair).2.2 kind' hb kind List.mem_cons_self)]
    rfl

/-- The answer that is taken is the longest of all. -/
theorem length?_le_of_next? {cs : List Char} {kind kind' : Kind} {n n' : Nat}
    (h : next? cs = some (kind, n)) (h' : kind'.length? cs = some n') : n' ≤ n := by
  obtain ⟨hk, hfirst⟩ := next?_eq_some_iff.mp h
  cases cs with
  | nil => rw [next?_nil] at h; cases h
  | cons c r =>
    rcases Nat.lt_trichotomy kind.ctorIdx kind'.ctorIdx with hlt | heq | hgt
    · exact Kind.length?_le hlt hk h'
    · have : kind = kind' := by rw [← Kind.ofNat_ctorIdx kind, heq, Kind.ofNat_ctorIdx]
      subst this
      rw [hk] at h'
      exact (Option.some.inj h').ge
    · rw [hfirst kind' hgt] at h'
      cases h'

/-- Nothing but a string starts with a quote. -/
theorem next?_quote {r : List Char} {kind : Kind} {n : Nat}
    (h : next? ('\'' :: r) = some (kind, n)) : stringLength? ('\'' :: r) = some n := by
  obtain ⟨hk, -⟩ := next?_eq_some_iff.mp h
  by_cases hi : kind = .identifier
  · subst hi
    cases hk
  · have hlead : Kind.string = kind.lead := Kind.lead_of_length? hk hi
    cases kind with
    | string => exact hk
    | _ => cases hlead

end Token

end WorkflowCondition
