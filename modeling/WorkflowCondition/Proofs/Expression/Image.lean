import WorkflowCondition.Proofs.Expression.Spelling

/-!
# The expressions that have a source

Not every syntax tree is read from a source. `parse_image` says which are, of those without floats
whose functions have words for names: the texts of its literals have to be texts of tokens
(`Literal.IsSpellable`), and calls can be nested 64 deep. One direction is about the tokens that a
parsed expression was written with (`Literal.isSpellable_of_written`), the other writes tokens for
every such tree (`Literal.exists_spelling`) and puts blanks between them.
-/

namespace WorkflowCondition

open scoped Computability

open Grammar Token

namespace Literal

/-- The texts that a literal holds itself can be written: a string has its quotes, a reference is
not taken for a keyword and has its accessors with their delimiters, and the name of a call is
taken for nothing else. -/
def IsSpellable : Literal → Prop
  | .string raw => IsStringText raw
  | .reference head accessors =>
    isWord head ∧ head ∉ ["null", "true", "false"] ∧
      ∀ accessor ∈ accessors, IsAccessorText accessor
  | .call name _ => name ∉ ["null", "true", "false"] ∧ name ∉ Root.all.map Root.name
  | _ => True

end Literal

/-- All texts in an expression can be written, and its calls are not nested too deep. -/
structure Expression.IsSpellable (e : Expression) : Prop where
  parts : ∀ part ∈ e.parts, part.IsSpellable
  lhs : e.lhs.callDepth ≤ 64
  rhs : ∀ op b, e.rhs = some (op, b) → b.callDepth ≤ 64

theorem mem_keywords_iff {text : String} :
    text ∈ ["null", "true", "false"] ↔ text ∈ Kind.null.words ∨ text ∈ Kind.bool.words := by
  simp only [Kind.words, List.mem_cons, List.not_mem_nil, or_false]
  tauto

/-! ## What is parsed can be written -/

/-- The head of a reference is a word, also where it is no root. -/
theorem isWord_of_isHead {t : Token} {r : List Char} (h : IsMunch t.kind t.text.toList r)
    (hh : IsHead t) : isWord t.text := by
  rw [isWord_iff]
  have hmem := h.mem
  rcases hh with hk | ⟨hk, c, v, htext, hc⟩
  · rw [hk] at hmem
    obtain ⟨word, hm, he⟩ := hmem
    obtain ⟨c, v, hw, hc, hall⟩ := isWordStart_of_mem_words (show word ∈ Kind.root.words from hm)
    exact ⟨c, v, he.trans hw, hc, (List.forall_mem_cons.mp hall).2⟩
  · refine ⟨c, v, htext, hc, ?_⟩
    rw [hk, htext] at hmem
    rcases hmem with hmem | ⟨d, -, he⟩
    · obtain ⟨_, ⟨d, -, rfl⟩, x, hx, he⟩ := Language.mem_mul.mp hmem
      cases he
      exact hx
    · cases he
      exact List.forall_mem_nil _

/-- Neither a root nor an identifier is a keyword. -/
theorem not_mem_keywords {kind : Kind} {text : String} {r : List Char}
    (h : IsMunch kind text.toList r) (hn : kind ≠ .null) (hb : kind ≠ .bool) :
    text ∉ ["null", "true", "false"] := by
  rw [mem_keywords_iff]
  rintro (hm | hm)
  · exact hn (h.kind_eq_of_word hm)
  · exact hb (h.kind_eq_of_word hm)

theorem Literal.isSpellable_of_written {position : Nat} {cs rest : List Char} {found : List Token}
    (hs : Scans position cs found rest) {a : Literal} (h : Written found a) : a.IsSpellable := by
  cases h with
  | null | int | float | bool => trivial
  | string ht hk =>
    obtain ⟨r, hmunch⟩ := hs.exists_isMunch _ ht
    exact isStringText_iff.mpr (hk ▸ hmunch.mem)
  | call ht hk args =>
    obtain ⟨r, hmunch⟩ := hs.exists_isMunch _ ht
    rw [hk] at hmunch
    exact ⟨not_mem_keywords hmunch (by decide) (by decide),
      fun hm => hmunch.not_word (show _ ∈ Kind.root.words from hm) rfl⟩
  | @reference t accessors ht hh ha =>
    obtain ⟨r, hmunch⟩ := hs.exists_isMunch _ ht
    have hkind : t.kind ≠ .null ∧ t.kind ≠ .bool := by
      rcases hh with hk | ⟨hk, -⟩ <;> rw [hk] <;> decide
    refine ⟨isWord_of_isHead hmunch hh, not_mem_keywords hmunch hkind.1 hkind.2, ?_⟩
    refine List.forall_mem_map.mpr fun s hs' => ?_
    obtain ⟨hm, hk⟩ := ha s hs'
    obtain ⟨r', hmunch'⟩ := hs.exists_isMunch _ hm
    exact isAccessorText_iff.mpr (hk ▸ hmunch'.mem)

theorem Grammar.Derives.callDepth_le {u : List Token} {e : Expression} (h : Derives u e) :
    e.lhs.callDepth ≤ 64 ∧ ∀ op b, e.rhs = some (op, b) → b.callDepth ≤ 64 := by
  cases h with
  | literal _ ha => exact ⟨ha, by rintro _ _ ⟨⟩⟩
  | binary _ ha _ _ _ hb => exact ⟨ha, by rintro _ _ ⟨⟩; exact hb⟩

/-- The parts of an expression come from tokens, and its calls are nested within the limit. -/
theorem Expression.isSpellable_of_parse {source : String} {e : Expression}
    (h : parse source = .ok e) : e.IsSpellable := by
  obtain ⟨found, hs, hderives⟩ := exists_derives_of_parse h
  refine ⟨fun part hp => ?_, hderives.callDepth_le.1, hderives.callDepth_le.2⟩
  have hwritten := (hderives.written part hp).mono (List.filter_subset_self _)
  exact Literal.isSpellable_of_written hs hwritten

/-! ## What can be written is parsed -/

theorem isSpaceable_mk {kind : Kind} {text : String} (h : IsSeparable kind text.toList)
    (hwhite : kind ≠ .whitespace := by decide) : (⟨kind, text, 0⟩ : Token).IsSpaceable :=
  ⟨h, hwhite⟩

theorem isSpaceable_of_isNumeral {n : Int} {text : String} (h : IsNumeral n text) :
    (⟨.integer, text, 0⟩ : Token).IsSpaceable :=
  isSpaceable_mk (isSeparable_of_isNumeral h)

theorem isSpaceable_opening : (⟨.identifier, "(", 0⟩ : Token).IsSpaceable :=
  isSpaceable_mk (isSeparable_mark (c := '(') (by decide) (by decide))

theorem isSpaceable_closing : (⟨.identifier, ")", 0⟩ : Token).IsSpaceable :=
  isSpaceable_mk (isSeparable_mark (c := ')') (by decide) (by decide))

theorem isSpaceable_comma : (⟨.identifier, ",", 0⟩ : Token).IsSpaceable :=
  isSpaceable_mk (isSeparable_mark (c := ',') (by decide) (by decide))

/-- A text that is no keyword and no root is an identifier. -/
theorem not_mem_words {text : String} (hkey : text ∉ ["null", "true", "false"])
    (hroot : text ∉ Root.all.map Root.name) (kind : Kind) : text ∉ kind.words := by
  rw [mem_keywords_iff, not_or] at hkey
  cases kind with
  | null => exact hkey.1
  | bool => exact hkey.2
  | root => exact hroot
  | _ => exact List.not_mem_nil

theorem not_isPunct_of_isWord {t : Token} (h : isWord t.text) : ¬ t.isPunct ")" := by
  intro hp
  rw [(isPunct_iff.mp hp).2] at h
  exact absurd h (by decide)

/-- A word that is no keyword starts a reference, as a root or as an identifier. -/
theorem exists_isHead {head : String} (hword : isWord head)
    (hkey : head ∉ ["null", "true", "false"]) :
    ∃ t : Token, t.text = head ∧ IsHead t ∧ t.IsSpaceable := by
  by_cases hroot : head ∈ Root.all.map Root.name
  · exact ⟨⟨.root, head, 0⟩, rfl, .inl rfl, isSpaceable_mk (isSeparable_word hroot)⟩
  · obtain ⟨c, v, htext, hc, -⟩ := isWord_iff.mp hword
    exact ⟨⟨.identifier, head, 0⟩, rfl, .inr ⟨rfl, c, v, htext, hc⟩,
      isSpaceable_mk (isSeparable_identifier hword (not_mem_words hkey hroot))⟩

namespace Literal

/-- A literal that tokens can be written for. -/
def HasSpelling (a : Literal) : Prop :=
  a.IsSpellable ∧ (∀ x, a ≠ .float x) ∧ ∀ name args, a = .call name args → isWord name

mutual

/-- The tokens of a literal, by induction on it; a call gets its marks here. -/
theorem exists_spelling (a : Literal) (h : ∀ part ∈ a.parts, part.HasSpelling) :
    ∃ t u, DerivesLiteral (t :: u) a ∧ ¬ t.isPunct ")" ∧ ∀ s ∈ t :: u, s.IsSpaceable := by
  match a with
  | .null =>
    refine ⟨⟨.null, "null", 0⟩, [], .null rfl, by decide, List.forall_mem_singleton.mpr ?_⟩
    exact isSpaceable_mk (isSeparable_word (by decide))
  | .string raw =>
    obtain ⟨hraw, -⟩ := h _ List.mem_cons_self
    refine ⟨⟨.string, raw, 0⟩, [], .string rfl, by simp [isPunct], List.forall_mem_singleton.mpr ?_⟩
    exact isSpaceable_mk (isSeparable_of_isStringText hraw)
  | .int n =>
    have hn := isNumeral_toString n.toInt
    refine ⟨⟨.integer, toString n.toInt, 0⟩, [],
      .integer rfl ((readInteger?_eq_some_iff hn).mpr rfl), by simp [isPunct],
      List.forall_mem_singleton.mpr (isSpaceable_of_isNumeral hn)⟩
  | .float x => exact absurd rfl ((h _ List.mem_cons_self).2.1 x)
  | .bool b =>
    refine ⟨⟨.bool, if b then "true" else "false", 0⟩, [], .bool rfl (by cases b <;> decide),
      by simp [isPunct], List.forall_mem_singleton.mpr ?_⟩
    exact isSpaceable_mk (isSeparable_word (by cases b <;> decide))
  | .reference head accessors =>
    obtain ⟨⟨hword, hkey, hacc⟩, -⟩ := h _ List.mem_cons_self
    obtain ⟨t, rfl, hh, ht⟩ := exists_isHead hword hkey
    have htexts : (accessors.map fun text => (⟨.accessor, text, 0⟩ : Token)).map Token.text =
        accessors := by
      rw [List.map_map]
      exact List.map_id accessors
    have hkinds : ∀ s ∈ accessors.map fun text => (⟨.accessor, text, 0⟩ : Token),
        s.kind = .accessor :=
      List.forall_mem_map.mpr fun _ _ => rfl
    have hreference := DerivesLiteral.reference hh hkinds
    rw [htexts] at hreference
    refine ⟨t, _, hreference, not_isPunct_of_isWord hword, List.forall_mem_cons.mpr ⟨ht, ?_⟩⟩
    exact List.forall_mem_map.mpr fun text hm =>
      isSpaceable_mk (isSeparable_of_isAccessorText (hacc text hm))
  | .call name args =>
    obtain ⟨⟨⟨hkey, hroot⟩, -, hname⟩, hargs⟩ := List.forall_mem_cons.mp h
    obtain ⟨u, hu, hspace⟩ := exists_spellingArguments args hargs
    have hword : isWord name := hname name args rfl
    have hcall : DerivesLiteral (⟨.identifier, name, 0⟩ :: ⟨.identifier, "(", 0⟩ ::
        (u ++ [⟨.identifier, ")", 0⟩])) (.call name args) :=
      .call rfl rfl hu rfl
    refine ⟨_, _, hcall, not_isPunct_of_isWord hword, ?_⟩
    have hname := isSpaceable_mk (isSeparable_identifier hword (not_mem_words hkey hroot))
    exact List.forall_mem_cons.mpr ⟨hname, List.forall_mem_cons.mpr ⟨isSpaceable_opening,
      List.forall_mem_append.mpr ⟨hspace, List.forall_mem_singleton.mpr isSpaceable_closing⟩⟩⟩

theorem exists_spellingArguments (args : List Literal)
    (h : ∀ part ∈ partsAll args, part.HasSpelling) :
    ∃ u, DerivesArguments u args ∧ ∀ s ∈ u, s.IsSpaceable := by
  match args with
  | [] => exact ⟨[], .none, by simp⟩
  | arg :: args =>
    obtain ⟨harg, hargs⟩ := List.forall_mem_append.mp h
    obtain ⟨t, u, hu, ht, hspace⟩ := exists_spelling arg harg
    obtain ⟨v, hv, hspace'⟩ := exists_spellingMore args hargs
    exact ⟨_, .some ht hu hv, List.forall_mem_append.mpr ⟨hspace, hspace'⟩⟩

theorem exists_spellingMore (args : List Literal)
    (h : ∀ part ∈ partsAll args, part.HasSpelling) :
    ∃ u, DerivesMore u args ∧ ∀ s ∈ u, s.IsSpaceable := by
  match args with
  | [] => exact ⟨[], .none, by simp⟩
  | arg :: args =>
    obtain ⟨harg, hargs⟩ := List.forall_mem_append.mp h
    obtain ⟨t, u, hu, -, hspace⟩ := exists_spelling arg harg
    obtain ⟨v, hv, hspace'⟩ := exists_spellingMore args hargs
    have hmore : DerivesMore (⟨.identifier, ",", 0⟩ :: (t :: u ++ v)) (arg :: args) :=
      .some rfl hu hv
    exact ⟨_, hmore, List.forall_mem_cons.mpr
      ⟨isSpaceable_comma, List.forall_mem_append.mpr ⟨hspace, hspace'⟩⟩⟩

end

end Literal

theorem exists_joined (tokens : List Token) : ∃ body, Joined tokens body := by
  induction tokens with
  | nil => exact ⟨[], .nil⟩
  | cons t tokens ih =>
    cases tokens with
    | nil => exact ⟨_, .single t⟩
    | cons s tokens =>
      obtain ⟨rest, hrest⟩ := ih
      have hblank : ∀ c ∈ [' '], isBlank c := forall_mem_of_all (by decide)
      exact ⟨_, .cons (List.cons_ne_nil _ _) hblank hrest⟩

namespace Expression

/-- What is written with the tokens of an expression and blanks between them is read as it. -/
theorem parse_of_respaced {u : List Token} {e : Expression} {source : String} (h : Derives u e)
    (hu : ∀ t ∈ u, t.IsSpaceable) (hs : Respaced u source) : parse source = .ok e := by
  obtain ⟨content, htokens, hentry⟩ := hs.tokenize hu
  have hpair := (List.pairwise_append.mp (increasing_of_tokenize htokens)).1
  obtain ⟨g, rfl⟩ := exists_relocate hentry.symm hpair
  generalize source.utf8ByteSize = n at htokens
  have hend : AtEnd ([endOfInput n].map (Token.relocate g)) := rfl
  have hok : ofTokens ((content ++ [endOfInput n]).map (Token.relocate g)) = .ok e := by
    refine ofTokens_of_derives ?_
    rwa [List.map_append, beforeEnd_append h.noEnd hend]
  rw [parse_of_tokenize htokens]
  exact ofTokens_of_relocate g ⟨endOfInput n, by simp, rfl⟩ hok

/-- Tokens of an expression that can be written between blanks are those of a source. -/
theorem exists_parse_of_derives {u : List Token} {e : Expression} (h : Derives u e)
    (hu : ∀ t ∈ u, t.IsSpaceable) : ∃ source, parse source = .ok e := by
  obtain ⟨body, hbody⟩ := exists_joined u
  have hrespaced : Respaced u (.ofList body) :=
    ⟨[], body, [], by simp, by simp, by simp, hbody⟩
  exact ⟨_, parse_of_respaced h hu hrespaced⟩

/-- The source is written from the derivation, and read back by the scan and the parser. -/
theorem exists_parse_of_isSpellable {e : Expression} (h : e.IsSpellable)
    (hparts : ∀ part ∈ e.parts, part.HasSpelling) : ∃ source, parse source = .ok e := by
  obtain ⟨-, ha, hb⟩ := h
  obtain ⟨lhs, rhs⟩ := e
  cases rhs with
  | none =>
    obtain ⟨t, u, hu, -, hspace⟩ := lhs.exists_spelling hparts
    exact exists_parse_of_derives (.literal hu ha) hspace
  | some operation =>
    obtain ⟨op, rhs⟩ := operation
    obtain ⟨hlhs, hrhs⟩ := List.forall_mem_append.mp hparts
    obtain ⟨t, u, hu, -, hspace⟩ := lhs.exists_spelling hlhs
    obtain ⟨s, v, hv, -, hspace'⟩ := rhs.exists_spelling hrhs
    refine exists_parse_of_derives (.binary (t := ⟨.operator, op.symbol, 0⟩) hu ha rfl rfl hv
      (hb op rhs rfl)) (List.forall_mem_append.mpr ⟨hspace, List.forall_mem_cons.mpr ⟨?_, hspace'⟩⟩)
    exact isSpaceable_mk (isSeparable_operator op)

end Expression

/-! ## The image -/

theorem exists_stripQuotes? {raw : String} (h : IsStringText raw) :
    ∃ body, stripQuotes? raw.toList = some body := by
  obtain ⟨body, hraw, -⟩ := h
  exact ⟨body, by rw [hraw]; exact stripQuotes?_quote body⟩

/-- An expression without floats whose functions have words for names is read from a source if and
only if its texts can be written and its calls are nested no more than 64 deep. So every string that
is read from a source has its quotes, and every accessor its delimiters around its key. -/
theorem parse_image :
    (∀ e : Expression, (∀ part ∈ e.parts, ∀ x, part ≠ .float x) →
      (∀ name args, .call name args ∈ e.parts → isWord name) →
        ((∃ source, Expression.parse source = .ok e) ↔ e.IsSpellable)) ∧
    ∀ source e, Expression.parse source = .ok e →
      (∀ raw, .string raw ∈ e.parts → ∃ body, stripQuotes? raw.toList = some body) ∧
      ∀ head accessors, .reference head accessors ∈ e.parts → ∀ accessor ∈ accessors, ∃ key,
        (accessor.toList = '.' :: key ∨ accessor.toList = '[' :: '\'' :: (key ++ ['\'', ']'])) ∧
          accessorKey accessor = .ofList key := by
  refine ⟨fun e hfloat hwords => ⟨?_, fun h => ?_⟩, fun source e h => ?_⟩
  · rintro ⟨source, h⟩
    exact Expression.isSpellable_of_parse h
  · exact Expression.exists_parse_of_isSpellable h fun part hp => ⟨h.parts part hp, hfloat part hp,
      by rintro name args rfl; exact hwords name args hp⟩
  · have hparts := (Expression.isSpellable_of_parse h).parts
    refine ⟨fun raw hp => exists_stripQuotes? (hparts _ hp), ?_⟩
    intro head accessors hp accessor hm
    obtain ⟨key, -, -, htext⟩ := (hparts _ hp).2.2 accessor hm
    exact ⟨key, htext, accessorKey_of_toList_eq htext⟩

/-- There is a source for a call with a doubled quote, a key in brackets and the least integer. -/
theorem parse_image_call :
    ∃ source, Expression.parse source = .ok ⟨.call "f" [.string "'it''s'",
      .reference "env" [".a", "['b-c']"]], some (.ge, .int Int64.minValue)⟩ := by
  have hstring : IsStringText "'it''s'" :=
    ⟨"it''s".toList, by decide,
      evenRuns_of_mem_quoted (mem_quoted_iff.mpr ⟨"it's".toList, by decide⟩)⟩
  have hdot : IsAccessorText ".a" :=
    ⟨['a'], by decide, forall_mem_of_all (by decide), .inl (by decide)⟩
  have hbracket : IsAccessorText "['b-c']" :=
    ⟨"b-c".toList, by decide, forall_mem_of_all (by decide), .inr (by decide)⟩
  refine (parse_image.1 _ ?_ ?_).mpr ⟨?_, by decide, by rintro _ _ ⟨⟩; decide⟩
  · simp [Expression.parts, Literal.parts, Literal.partsAll]
  · simp [Expression.parts, Literal.parts, Literal.partsAll]
    decide
  · simp [Expression.parts, Literal.parts, Literal.partsAll, Literal.IsSpellable, hstring, hdot,
      hbracket]
    decide

end WorkflowCondition
