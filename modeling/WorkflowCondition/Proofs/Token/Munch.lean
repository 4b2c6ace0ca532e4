import WorkflowCondition.Proofs.Token.Order

/-!
# The longest token

The kinds are asked in a fixed order and the first answer is taken, yet no kind has a longer text at
the same place. Where a token starts, a text of any kind is found by its recogniser, or is part of
something longer that another recogniser finds (`Kind.finds`); and no recogniser finds more than the
first that answers. `Token.isMunch_of_next?` puts the two together, and `Token.Scans.isMunch` says
so of every token of a scan.
-/

namespace WorkflowCondition

open scoped Computability

namespace Token

/-! ## Texts that are found -/

/-- In front of `r`, the text `w` of the kind is found: by the kind, or as part of a longer token of
another. -/
def Kind.Finds (kind : Kind) (w r : List Char) : Prop :=
  ∃ kind' n, Kind.length? kind' (w ++ r) = some n ∧ w.length ≤ n ∧ (kind' = kind ∨ w.length < n)

/-- A recogniser that finds at least the text finds it for its own kind. -/
theorem Kind.Finds.own {kind : Kind} {w r : List Char}
    (h : ∃ n, kind.length? (w ++ r) = some n ∧ w.length ≤ n) : kind.Finds w r := by
  obtain ⟨n, hn, hle⟩ := h
  exact ⟨kind, n, hn, hle, .inl rfl⟩

/-- A word of a kind in front of more letters is found by `identifier`. -/
theorem finds_word {kind : Kind} {w : List Char} (hw : w ∈ anyText kind.words) (r : List Char) :
    kind.Finds w r := by
  obtain ⟨word, hm, rfl⟩ := hw
  obtain ⟨c, v, hw, hc, hall⟩ := isWordStart_of_mem_words hm
  have hspan := spanLength_append (hw ▸ hall) r
  by_cases hr : spanLength isWordChar r = 0
  · have hne : kind.words ≠ [] := List.ne_nil_of_mem hm
    have hl := wordLength?_append word.toList r
    rw [if_pos hr] at hl
    have hsome : (kind.length? (word.toList ++ r)).isSome := by
      rw [kind.length?_eq_findSome? hne, List.findSome?_isSome_iff]
      exact ⟨word, hm, by rw [hl]; rfl⟩
    obtain ⟨n, hn⟩ := Option.isSome_iff_exists.mp hsome
    refine .own ⟨n, hn, ?_⟩
    rw [hw, List.cons_append] at hn
    rw [Kind.length?_word hc hn, ← List.cons_append, ← hw, hspan]
    exact Nat.le_add_right _ _
  · refine ⟨.identifier, spanLength isWordChar (word.toList ++ r), ?_, by omega, .inr (by omega)⟩
    rw [hw]
    exact identifierLength?_word hc (v ++ r)

theorem closingLength?_cons {c : Char} (hc : c ≠ '\'') (r : List Char) :
    closingLength? (c :: r) = (closingLength? r).map (· + 1) := by
  rw [closingLength?.eq_3 _ _ fun _ he _ => hc he, if_neg hc]

theorem closingLength?_pos {cs : List Char} {n : Nat} (h : closingLength? cs = some n) :
    0 < n := by
  obtain ⟨v, -, close, rfl, he⟩ := Language.mem_mul.mp (starts_closing h).2
  refine Nat.pos_of_ne_zero ?_
  rintro rfl
  simp at he

/-- What closes behind quoted text closes at its end or later. -/
theorem le_closingLength? {u : List Char} (hu : u ∈ quoted) {r : List Char} {n : Nat}
    (h : closingLength? (u ++ '\'' :: r) = some n) : u.length + 1 ≤ n := by
  obtain ⟨parts, rfl, hparts⟩ := Language.mem_kstar.mp hu
  clear hu
  induction parts generalizing n with
  | nil => exact closingLength?_pos h
  | cons part parts ih =>
    obtain ⟨hpart, hrest⟩ := List.forall_mem_cons.mp hparts
    rw [List.flatten_cons, List.append_assoc] at h
    rw [List.flatten_cons, List.length_append]
    rcases hpart with ⟨c, hc, rfl⟩ | rfl
    · rw [List.singleton_append, closingLength?_cons (of_decide_eq_true hc)] at h
      obtain ⟨m, hm, rfl⟩ := Option.map_eq_some_iff.mp h
      have := ih hrest hm
      rw [List.length_singleton]
      omega
    · obtain ⟨m, hm, rfl⟩ := Option.map_eq_some_iff.mp h
      have := ih hrest hm
      rw [List.length_cons, List.length_singleton]
      omega

/-- A quote opens a string or nothing, so that any token at a quote is the string. -/
theorem finds_string {w r : List Char} (hw : w ∈ Kind.string.language)
    (h : (next? (w ++ r)).isSome) : Kind.string.Finds w r := by
  obtain ⟨⟨kind, n⟩, hn⟩ := Option.isSome_iff_exists.mp h
  obtain ⟨_, rfl, v, hv, rfl⟩ := Language.mem_mul.mp hw
  obtain ⟨u, hu, _, rfl, rfl⟩ := Language.mem_mul.mp hv
  have hs := next?_quote hn
  refine .own ⟨n, hs, ?_⟩
  obtain ⟨m, hm, rfl⟩ := Option.map_eq_some_iff.mp hs
  have hle : u.length + 1 ≤ m := le_closingLength? hu (r := r) (by simpa using hm)
  simpa using hle

/-- A quote is punctuation, but what is found there is a string. -/
theorem finds_identifier {w r : List Char} (hw : w ∈ Kind.identifier.language)
    (h : (next? (w ++ r)).isSome) : Kind.identifier.Finds w r := by
  rcases hw with hw | ⟨c, hc, rfl⟩
  · obtain ⟨_, ⟨c, hc, rfl⟩, v, hv, rfl⟩ := Language.mem_mul.mp hw
    refine .own ⟨_, identifierLength?_word hc (v ++ r), ?_⟩
    have hall : ∀ d ∈ c :: v, isWordChar d :=
      List.forall_mem_cons.mpr ⟨isWordChar_of_isWordStart hc, hv⟩
    rw [← List.cons_append, spanLength_append hall]
    exact Nat.le_add_right _ _
  · by_cases hq : c = '\''
    · subst hq
      obtain ⟨⟨kind, n⟩, hn⟩ := Option.isSome_iff_exists.mp h
      have hs := next?_quote hn
      obtain ⟨m, hm, rfl⟩ := Option.map_eq_some_iff.mp hs
      have hpos := closingLength?_pos hm
      exact ⟨.string, m + 1, hs, by simp, .inr (by simpa using hpos)⟩
    · refine .own ?_
      simp only [Kind.length?, List.singleton_append, identifierLength?]
      split
      · exact ⟨_, rfl, by simp⟩
      · exact ⟨1, by simp [hc, hq], by simp⟩

/-- Where a token starts, the texts of all kinds are found. -/
theorem Kind.finds {kind : Kind} {w r : List Char} (hw : w ∈ kind.language)
    (h : (next? (w ++ r)).isSome) : kind.Finds w r := by
  cases kind with
  | null | bool | root => exact finds_word hw r
  | float => exact .own (exists_floatLength? hw r)
  | integer => exact .own (exists_integerLength? hw r)
  | string => exact finds_string hw h
  | whitespace => exact .own (exists_whitespaceLength? hw r)
  | accessor => exact .own (exists_accessorLength? hw r)
  | operator => exact .own (exists_operatorLength? hw r)
  | not => exact .own (exists_notLength? hw r)
  | identifier => exact finds_identifier hw h
  | endOfInput => cases hw

/-! ## Maximal munch -/

/-- What a token of a kind is in front of the text behind it. -/
structure IsMunch (kind : Kind) (text rest : List Char) : Prop where
  /-- The text is one of the kind. -/
  mem : text ∈ kind.language
  /-- No text of any kind that starts here is longer. -/
  longest : ∀ (kind' : Kind) (w : List Char), w ∈ kind'.language → w <+: text ++ rest →
    w.length ≤ text.length
  /-- The text is none of an earlier kind. -/
  first : ∀ kind' : Kind, kind'.ctorIdx < kind.ctorIdx → text ∉ kind'.language

/-- What is found is in the language of its kind, as long as possible, and of the first such
kind. -/
theorem isMunch_of_next? {cs : List Char} {kind : Kind} {n : Nat}
    (h : next? cs = some (kind, n)) : IsMunch kind (cs.take n) (cs.drop n) := by
  obtain ⟨hk, hfirst⟩ := next?_eq_some_iff.mp h
  obtain ⟨hle, hmem⟩ := Kind.starts_language hk
  have hlen : (cs.take n).length = n := by rw [List.length_take, Nat.min_eq_left hle]
  have hfinds : ∀ {kind' : Kind} {w r : List Char}, w ∈ kind'.language → w ++ r = cs →
      kind'.Finds w r := by
    rintro kind' w r hw rfl
    exact Kind.finds hw (by rw [h]; rfl)
  refine ⟨hmem, ?_, ?_⟩
  · rintro kind' w hw ⟨r, hr⟩
    rw [List.take_append_drop] at hr
    obtain ⟨found, m, hm, hwm, -⟩ := hfinds hw hr
    rw [hr] at hm
    rw [hlen]
    exact hwm.trans (length?_le_of_next? h hm)
  · intro kind' hlt hw
    obtain ⟨found, m, hm, -, hown⟩ := hfinds hw (List.take_append_drop n cs)
    rw [List.take_append_drop] at hm
    rw [hlen] at hown
    have hle := length?_le_of_next? h hm
    rcases hown with rfl | hlonger
    · rw [hfirst _ hlt] at hm
      cases hm
    · omega

/-! ### What follows for whitespace, words and operators -/

/-- Behind whitespace comes no blank. -/
theorem IsMunch.not_isBlank {text rest : List Char} (h : IsMunch .whitespace text rest) :
    ∀ c ∈ rest.head?, ¬ isBlank c := by
  intro c hc hblank
  obtain ⟨r, rfl⟩ := List.head?_eq_some_iff.mp hc
  have hlonger : text ++ [c] ∈ Kind.whitespace.language :=
    ⟨by simp, List.forall_mem_append.mpr ⟨h.mem.2, List.forall_mem_singleton.mpr hblank⟩⟩
  have hle := h.longest .whitespace _ hlonger ⟨r, by simp⟩
  rw [List.length_append, List.length_singleton] at hle
  omega

/-- A keyword or a root is not the start of a longer word. -/
theorem IsMunch.word_ends {kind : Kind} {text rest : List Char} (h : IsMunch kind text rest)
    (hk : kind.words ≠ []) : ¬ rest.head?.any isWordChar := by
  have hmem : text ∈ anyText kind.words := by
    cases kind with
    | null | bool | root => exact h.mem
    | _ => exact absurd rfl hk
  obtain ⟨word, hm, rfl⟩ := hmem
  obtain ⟨c, r, hw, hc, hall⟩ := isWordStart_of_mem_words hm
  cases rest with
  | nil => exact Bool.false_ne_true
  | cons d rest =>
    intro hd
    have hlonger : word.toList ++ [d] ∈ Kind.identifier.language := by
      rw [hw]
      refine .inl (Language.mem_mul.mpr ⟨[c], ⟨c, hc, rfl⟩, r ++ [d], ?_, rfl⟩)
      refine List.forall_mem_append.mpr ⟨(List.forall_mem_cons.mp hall).2, ?_⟩
      exact List.forall_mem_singleton.mpr hd
    have hle := h.longest .identifier _ hlonger ⟨rest, by simp⟩
    rw [List.length_append, List.length_singleton] at hle
    omega

/-- No operator that starts here is cut off. -/
theorem IsMunch.operator_le {kind : Kind} {text rest : List Char} (h : IsMunch kind text rest)
    (op : Operator) (hp : op.symbol.toList <+: text ++ rest) :
    op.symbol.length ≤ text.length := by
  have hmem : op ∈ Operator.all := by cases op <;> decide
  have hle := h.longest .operator _ ⟨op.symbol, List.mem_map_of_mem hmem, rfl⟩ hp
  rwa [String.length_toList] at hle

/-- An identifier is neither a keyword nor a root. -/
theorem IsMunch.not_word {text rest : List Char} (h : IsMunch .identifier text rest)
    {kind : Kind} {word : String} (hm : word ∈ kind.words) : text ≠ word.toList := by
  intro heq
  have hmem : text ∈ anyText kind.words := ⟨word, hm, heq⟩
  cases kind with
  | null => exact h.first .null (by decide) hmem
  | bool => exact h.first .bool (by decide) hmem
  | root => exact h.first .root (by decide) hmem
  | _ => cases hm

/-- No word is listed for two kinds. -/
theorem Kind.eq_of_mem_words {kind kind' : Kind} {word : String} (h : word ∈ kind.words)
    (h' : word ∈ kind'.words) : kind = kind' := by
  have hall : ∀ kind kind' : Kind, ∀ word ∈ kind.words, word ∈ kind'.words → kind = kind' := by
    intro kind kind'
    cases kind <;> cases kind' <;> decide
  exact hall kind kind' word h h'

/-- What starts like a word and is no identifier is one of the words of its kind. -/
theorem Kind.mem_anyText_words {kind : Kind} {c : Char} {v : List Char}
    (h : c :: v ∈ kind.language) (hi : kind ≠ .identifier) (hc : isWordStart c) :
    c :: v ∈ anyText kind.words := by
  have hlead := Kind.lead_eq h hi
  rw [leadOf, if_pos hc] at hlead
  cases kind with
  | null | bool | root => exact h
  | _ => cases hlead

/-- A keyword or a root is of no other kind, but it is an identifier. -/
theorem Kind.eq_of_word {kind kind' : Kind} {word : String} (h : word.toList ∈ kind.language)
    (hi : kind ≠ .identifier) (hm : word ∈ kind'.words) : kind = kind' := by
  obtain ⟨c, v, hw, hc, -⟩ := isWordStart_of_mem_words hm
  rw [hw] at h
  obtain ⟨word', hm', he⟩ := Kind.mem_anyText_words h hi hc
  rw [← String.toList_inj.mp (hw.trans he)] at hm'
  exact Kind.eq_of_mem_words hm' hm

/-- A keyword or a root is found as nothing else. -/
theorem IsMunch.kind_eq_of_word {kind kind' : Kind} {word : String} {rest : List Char}
    (h : IsMunch kind word.toList rest) (hm : word ∈ kind'.words) : kind = kind' := by
  refine Kind.eq_of_word h.mem ?_ hm
  rintro rfl
  exact h.not_word hm rfl

/-- Wherever a scan finds a token, the token stands there in the source, it is the longest text of
any kind, and its kind is the first that the text is one of. Words and operators are not cut. -/
theorem Scans.isMunch {source : String} {tokens : List Token} {t : Token} {rest : List Char}
    (hs : Scans 0 source.toList (tokens ++ [t]) rest) :
    source.toList = texts tokens ++ (t.text.toList ++ rest) ∧
      t.position = utf8Length (texts tokens) ∧
      IsMunch t.kind t.text.toList rest ∧
      (t.kind.words ≠ [] → ¬ rest.head?.any isWordChar) ∧
      (∀ op : Operator, op.symbol.toList <+: t.text.toList ++ rest →
        op.symbol.length ≤ t.text.length) ∧
      (t.kind = .identifier → ∀ kind : Kind, t.text ∉ kind.words) := by
  have htexts := hs.texts_append
  obtain ⟨mid, -, hlast⟩ := hs.of_append
  rcases hlast with _ | @⟨_, n, _, _, kind, _, h, hrest⟩
  cases hrest
  have hmunch := isMunch_of_next? h
  rw [← String.toList_ofList (l := mid.take n)] at hmunch
  refine ⟨?_, ?_, hmunch, hmunch.word_ends, ?_, ?_⟩
  · rw [← htexts]
    simp [texts]
  · exact Nat.zero_add _
  · intro op hp
    have hle := hmunch.operator_le op hp
    rwa [String.length_toList] at hle
  · rintro rfl kind hm
    exact hmunch.not_word hm rfl

/-- In front of `nullable<=1` there is no keyword, and its operator has two characters. -/
theorem nullable_isMunch :
    Scans 0 "nullable<=1".toList [⟨.identifier, "nullable", 0⟩, ⟨.operator, "<=", 8⟩] ['1'] ∧
      IsMunch .operator ['<', '='] ['1'] := by
  have hs : Scans 0 "nullable<=1".toList
      ([⟨.identifier, "nullable", 0⟩] ++ [⟨.operator, "<=", 8⟩]) ['1'] :=
    .next (n := 8) (by decide) (.next (n := 2) (by decide) .refl)
  exact ⟨hs, (Scans.isMunch hs).2.2.1⟩

end Token

end WorkflowCondition
