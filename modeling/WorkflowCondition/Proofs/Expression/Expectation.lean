import WorkflowCondition.Proofs.Expression.Parts
import WorkflowCondition.Proofs.Expression.Rejection
import WorkflowCondition.Proofs.Token.Numeral

/-!
# What a parse error expects

Some things that a parser can expect are never missing. The opening parenthesis of a call has been
seen before its name is consumed, and the tokens that a scan finds are all read: the symbol of an
operator, a float, and an integer unless it is out of range. `Grammar.CanExpect` says what has to be
wrong with a token for each expectation, `Grammar.Fails.canExpect` that something is, and
`Token.IsReadable` that nothing is wrong with the tokens of a source.
`Expression.parse_error_expected` puts this together.
-/

namespace WorkflowCondition

open Grammar Token

/-! ## Errors and tokens -/

namespace Grammar

/-- What is wrong with a token where something else was expected. Of an opening parenthesis nothing
is: no error expects it. -/
def CanExpect (t : Token) : Expected → Prop
  | .openParen => False
  | .operator => t.kind = .operator ∧ Operator.ofSymbol? t.text = none
  | .float => t.kind = .float ∧ readBinary64? t.text = none
  | .integer => t.kind = .integer ∧ readInteger? t.text = none
  | _ => True

theorem Refused.canExpect {n : Nat} {t found : Token} {called : Bool} {expected : Expected}
    (h : Refused n t called (.unexpectedToken expected found)) : CanExpect t expected := by
  cases h with
  | integer ht hn => exact ⟨ht, hn⟩
  | float ht hx => exact ⟨ht, hx⟩
  | nesting | mark | other => trivial

/-- By cases on how the literal is left: refused, or not closed behind an argument. -/
theorem FailsLiteral.canExpect {k : Nat} {u : List Token} {t found : Token} {called : Bool}
    {expected : Expected} (h : FailsLiteral k u t called (.unexpectedToken expected found)) :
    CanExpect t expected := by
  cases h with
  | refused _ h => exact h.canExpect
  | unclosed => trivial

theorem Fails.canExpect {u : List Token} {t found : Token} {called : Bool} {expected : Expected}
    (h : Fails u t called (.unexpectedToken expected found)) : CanExpect t expected := by
  cases h with
  | lhs h | rhs _ _ _ _ h => exact h.canExpect
  | operator _ _ ht ho => exact ⟨ht, ho⟩
  | lhsEnd | rhsEnd => trivial

end Grammar

/-- What is expected in place of a token, or behind all tokens, is missing there. -/
theorem Expression.exists_canExpect {tokens : List Token} {expected : Expected} {found : Token}
    (h : ofTokens tokens = .error (.unexpectedToken expected found)) :
    ∃ t, (t ∈ tokens ∨ t = Parser.pastEnd) ∧ CanExpect t expected := by
  obtain ⟨u, r, rfl, hfails⟩ := (ofTokens_eq_error_iff tokens _).mp h
  refine ⟨_, ?_, hfails.canExpect⟩
  cases r with
  | nil => exact .inr rfl
  | cons t r => exact .inl (by simp)

/-- The words of a message tell the three expectations apart from all others. -/
theorem Expected.mem_of_text_mem {expected : Expected}
    (h : expected.text ∈ ["an operator", "a float", "'('"]) :
    expected ∈ [Expected.operator, .float, .openParen] := by
  cases expected with
  | nesting limit =>
    -- The limit is not looked at: the texts differ in their first characters.
    have hfirst : ∀ text ∈ ["an operator", "a float", "'('"], text.toList.head? ≠ some 'n' := by
      decide
    have htext : (Expected.nesting limit).text.toList =
        "nesting depth <= ".toList ++ (toString limit).toList := String.toList_append
    have hnesting : (Expected.nesting limit).text.toList.head? = some 'n' := by
      rw [htext]
      rfl
    exact absurd hnesting (hfirst _ h)
  | _ => revert h; decide

/-! ## Tokens of a source -/

/-- A token whose text is read where it stands for a float or an operator. An integer is read if it
is in the range of 64 bits. -/
structure Token.IsReadable (t : Token) : Prop where
  float : t.kind = .float → ∃ x, readBinary64? t.text = some x ∧ x ≠ .nan
  operator : t.kind = .operator → ∃ op : Operator, t.text = op.symbol ∧
    Operator.ofSymbol? t.text = some op
  integer : t.kind = .integer → ∃ n, IsNumeral n t.text ∧
    (readInteger? t.text = none ↔ ¬ FitsInt64 n)

theorem exists_ofSymbol? {text : String} (h : text.toList ∈ Kind.operator.language) :
    ∃ op : Operator, text = op.symbol ∧ Operator.ofSymbol? text = some op := by
  obtain ⟨symbol, hm, htext⟩ := h
  obtain ⟨op, -, rfl⟩ := List.mem_map.mp hm
  obtain rfl := String.toList_inj.mp htext
  exact ⟨op, rfl, Operator.ofSymbol?_symbol op⟩

theorem Token.isReadable_of_mem {t : Token} (h : t.text.toList ∈ t.kind.language) :
    t.IsReadable where
  float hk := exists_readBinary64? (hk ▸ h)
  operator hk := exists_ofSymbol? (hk ▸ h)
  integer hk := by
    obtain ⟨n, hn⟩ := exists_isNumeral (hk ▸ h)
    exact ⟨n, hn, readInteger?_eq_none_iff hn⟩

theorem Token.isReadable_endOfInput (position : Nat) : (endOfInput position).IsReadable := by
  constructor <;> rintro ⟨⟩

theorem Token.isReadable_of_scan {source : String} {tokens : List Token}
    (h : scan source = .ok tokens) : ∀ t ∈ tokens, t.IsReadable := by
  obtain ⟨found, hs, rfl⟩ := scanFrom_eq_ok_iff.mp h
  refine List.forall_mem_append.mpr ⟨fun t ht => ?_, ?_⟩
  · obtain ⟨r, hmunch⟩ := hs.exists_isMunch t ht
    exact isReadable_of_mem hmunch.mem
  · exact List.forall_mem_singleton.mpr (isReadable_endOfInput _)

theorem Token.isReadable_of_tokenize {source : String} {tokens : List Token}
    (h : tokenize source = .ok tokens) : ∀ t ∈ tokens, t.IsReadable := by
  rw [tokenize] at h
  cases hscan : scan source with
  | error e => rw [hscan] at h; cases h
  | ok all =>
    rw [hscan] at h
    cases h
    exact fun t ht => isReadable_of_scan hscan t (List.mem_filter.mp ht).1

/-- A readable token is not where an operator, a float or a parenthesis is missing. -/
theorem Token.IsReadable.not_canExpect {t : Token} (ht : t.IsReadable) {expected : Expected}
    (h : expected ∈ [Expected.operator, .float, .openParen]) : ¬ CanExpect t expected := by
  intro hc
  simp only [List.mem_cons, List.not_mem_nil, or_false] at h
  obtain rfl | rfl | rfl := h
  · obtain ⟨op, -, hop⟩ := ht.operator hc.1
    cases hop.symm.trans hc.2
  · obtain ⟨x, hx, -⟩ := ht.float hc.1
    cases hx.symm.trans hc.2
  · exact hc

/-! ## Sources -/

namespace Expression

/-- An error about a token is one of the parser, so that the source has tokens. -/
theorem exists_tokenize_of_parse {source : String} {expected : Expected} {found : Token}
    (h : parse source = .error (.unexpectedToken expected found)) :
    ∃ tokens, tokenize source = .ok tokens ∧
      ofTokens tokens = .error (.unexpectedToken expected found) := by
  rw [parse] at h
  cases htokens : tokenize source with
  | error e =>
    rw [htokens] at h
    cases h
    -- A scan fails at a character and not at a token.
    rw [tokenize] at htokens
    cases hscan : scan source with
    | error e =>
      rw [hscan] at htokens
      cases htokens
      obtain ⟨_, _, _, -, -, he⟩ := scanFrom_eq_error_iff.mp hscan
      cases he
    | ok all => rw [hscan] at htokens; cases htokens
  | ok tokens =>
    rw [htokens] at h
    exact ⟨tokens, rfl, h⟩

/-- No source is refused for want of an operator, of a float or of an opening parenthesis. For its
floats are all read as numbers, its operators are all spelled like one, and an integer is not read
only if it is out of the range of 64 bits. An opening parenthesis is never found missing in any
tokens. -/
theorem parse_error_expected :
    (∀ source expected found, parse source = .error (.unexpectedToken expected found) →
      expected.text ∉ ["an operator", "a float", "'('"]) ∧
    (∀ source tokens, scan source = .ok tokens → ∀ t ∈ tokens, t.IsReadable) ∧
    ∀ tokens expected found, ofTokens tokens = .error (.unexpectedToken expected found) →
      expected.text ≠ "'('" := by
  refine ⟨fun source expected found h htext => ?_, fun source tokens => isReadable_of_scan,
    fun tokens expected found h htext => ?_⟩
  · obtain ⟨tokens, htokens, hexpected⟩ := exists_tokenize_of_parse h
    obtain ⟨t, ht, hc⟩ := exists_canExpect hexpected
    have hread : t.IsReadable := by
      obtain ht | rfl := ht
      · exact isReadable_of_tokenize htokens t ht
      · exact isReadable_endOfInput 0
    exact hread.not_canExpect (Expected.mem_of_text_mem htext) hc
  · obtain ⟨t, -, hc⟩ := exists_canExpect h
    have hm : expected ∈ [Expected.operator, .float, .openParen] :=
      Expected.mem_of_text_mem (by rw [htext]; decide)
    simp only [List.mem_cons, List.not_mem_nil, or_false] at hm
    obtain rfl | rfl | rfl := hm
    · exact absurd htext (by decide)
    · exact absurd htext (by decide)
    · exact hc

/-- Behind an operator the least integer out of range is refused, and as an integer. -/
theorem parse_error_expected_integer :
    parse "0 <= 9223372036854775808" =
        .error (.unexpectedToken .integer ⟨.integer, "9223372036854775808", 5⟩) ∧
      Expected.integer.text ∉ ["an operator", "a float", "'('"] ∧
      (⟨.operator, "<=", 2⟩ : Token).IsReadable := by
  have hs : Scans 0 "0 <= 9223372036854775808".toList [⟨.integer, "0", 0⟩, ⟨.whitespace, " ", 1⟩,
      ⟨.operator, "<=", 2⟩, ⟨.whitespace, " ", 4⟩, ⟨.integer, "9223372036854775808", 5⟩] [] :=
    .next (n := 1) (by decide) (.next (n := 1) (by decide) (.next (n := 2) (by decide)
      (.next (n := 1) (by decide) (.next (n := 19) (by decide) .refl))))
  have hscan : scan "0 <= 9223372036854775808" = .ok _ := scanFrom_eq_ok_iff.mpr ⟨_, hs, rfl⟩
  have htokens : tokenize "0 <= 9223372036854775808" = .ok [⟨.integer, "0", 0⟩,
      ⟨.operator, "<=", 2⟩, ⟨.integer, "9223372036854775808", 5⟩, .endOfInput 24] :=
    tokenize_eq_ok_iff.mpr ⟨_, hs, rfl⟩
  have hparse : parse "0 <= 9223372036854775808" =
      .error (.unexpectedToken .integer ⟨.integer, "9223372036854775808", 5⟩) :=
    (parse_of_tokenize htokens).trans rfl
  exact ⟨hparse, parse_error_expected.1 _ _ _ hparse,
    parse_error_expected.2.1 _ _ hscan _ (by decide)⟩

end Expression

end WorkflowCondition
