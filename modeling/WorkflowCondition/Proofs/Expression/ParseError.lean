import WorkflowCondition.Proofs.Expression.Bracketing
import WorkflowCondition.Proofs.Expression.Rejection

/-!
# Where a source stops being an expression

An error of the parser lies at a token of the source, and the tokens in front of it can be completed
to an expression: the error could not have been found earlier. It was found without a look at
anything behind the next token. `IsFault` says this of a token and an error, and
`Expression.parse_error_located` of every source that has tokens and stands for no expression. The
grammar comes in through `Grammar.Fails` alone.
-/

namespace WorkflowCondition

open Grammar Token

/-- The token `t` between `before` and `after` is the one at which the tokens stop being the start
of an expression, and `err` is the error for it. -/
structure IsFault (before : List Token) (t : Token) (after : List Token) (err : Error) : Prop where
  /-- Only this token is at the position of the error. -/
  unique : (before ++ t :: after).filter (fun s => err.position? = some s.position) = [t]
  /-- The message describes the token, or names the operator that it is. -/
  message : (∃ expected, err = .unexpectedToken expected t ∧
      err.message = "Parse error at offset " ++ toString t.position ++ ": expected " ++
        expected.text ++ ", found " ++ t.describe) ∨
    err = .unsupported t ∧ t.kind = .not ∧
      err.message = "Operator '" ++ t.text ++ "' at offset " ++ toString t.position ++
        " is not supported"
  /-- What stands in front of the token is the start of an expression. -/
  viable : ∃ more e, Expression.ofTokens (before ++ more) = .ok e
  /-- Tokens that agree up to and with the one behind `t`, if there is one, have the same error. -/
  stable : ∀ tokens, (before ++ t :: after).take (before.length + 2) <+: tokens →
    Expression.ofTokens tokens = .error err

/-- Increasing positions tell tokens apart. -/
theorem filter_position {before after : List Token} {t : Token}
    (h : (before ++ t :: after).Pairwise fun s t => s.position < t.position) :
    (before ++ t :: after).filter (fun s => some t.position = some s.position) = [t] := by
  obtain ⟨-, htail, hcross⟩ := List.pairwise_append.mp h
  have hbefore : before.filter (fun s => some t.position = some s.position) = [] := by
    refine List.filter_eq_nil_iff.mpr fun s hs => ?_
    have := hcross s hs t List.mem_cons_self
    simp only [Option.some.injEq, decide_eq_true_eq]
    omega
  have hafter : after.filter (fun s => some t.position = some s.position) = [] := by
    refine List.filter_eq_nil_iff.mpr fun s hs => ?_
    have := (List.pairwise_cons.mp htail).1 s hs
    simp only [Option.some.injEq, decide_eq_true_eq]
    omega
  rw [List.filter_append, hbefore, List.filter_cons_of_pos (by simp), hafter, List.nil_append]

/-- The failure at a token is the same whatever stands behind the token after it. -/
theorem ofTokens_stable {before after : List Token} {t : Token} {err : Error}
    (h : Fails before t ((after.headD Parser.pastEnd).isPunct "(") err)
    (hlast : after = [] → t.kind ≠ .identifier) {tokens : List Token}
    (hp : (before ++ t :: after).take (before.length + 2) <+: tokens) :
    Expression.ofTokens tokens = .error err := by
  obtain ⟨more, rfl⟩ := hp
  rw [List.take_length_add_append, List.append_assoc]
  cases after with
  | nil => exact Expression.ofTokens_of_fails (h.of_kind (hlast rfl))
  | cons s after => exact Expression.ofTokens_of_fails h

namespace Expression

/-- Positions that increase make the token the only one at its position. -/
theorem isFault_of_fails {before after : List Token} {t : Token} {err : Error}
    (hpair : (before ++ t :: after).Pairwise fun s t => s.position < t.position)
    (hlast : after = [] → t.kind ≠ .identifier)
    (h : Fails before t ((after.headD Parser.pastEnd).isPunct "(") err) :
    IsFault before t after err := by
  refine ⟨?_, ?_, exists_ofTokens_of_fails h, fun tokens => ofTokens_stable h hlast⟩
  · rcases h.found with ⟨expected, rfl⟩ | ⟨rfl, -⟩
    all_goals exact filter_position hpair
  · rcases h.found with ⟨expected, rfl⟩ | ⟨rfl, hk⟩
    · exact .inl ⟨expected, rfl, rfl⟩
    · exact .inr ⟨rfl, hk, rfl⟩

/-- The error for a source that has tokens is at one of them, the first that no expression goes on
with, and it depends on no token behind the next. -/
theorem parse_error_located {source : String} {tokens : List Token} {err : Error}
    (htokens : tokenize source = .ok tokens) (h : parse source = .error err) :
    ∃ before t after, tokens = before ++ t :: after ∧ IsFault before t after err ∧
      (t.kind = .endOfInput → t.position = source.utf8ByteSize) := by
  rw [parse, htokens] at h
  obtain ⟨content, rfl, hcontent⟩ := exists_content_of_tokenize htokens
  obtain ⟨before, t, after, hsplit, hfails⟩ :=
    exists_fails_of_ofTokens ⟨endOfInput source.utf8ByteSize, by simp, rfl⟩ h
  have hpair := increasing_of_tokenize htokens
  rw [hsplit] at hpair
  refine ⟨before, t, after, hsplit, isFault_of_fails hpair ?_ hfails, fun hk => ?_⟩
  · rintro rfl
    obtain ⟨-, hend⟩ := List.append_inj' hsplit rfl
    cases hend
    exact Kind.noConfusion
  · have hm : t ∈ content ++ [endOfInput source.utf8ByteSize] := by
      rw [hsplit]
      simp
    rcases List.mem_append.mp hm with hm | hm
    · exact absurd hk (hcontent t hm).1
    · rw [List.mem_singleton.mp hm]
      rfl

/-- Behind a comma the closing parenthesis is one token too early. -/
theorem parse_error_located_comma :
    ∃ tokens, tokenize "f(null, )" = .ok tokens ∧
      parse "f(null, )" = .error (.unexpectedToken .literal ⟨.identifier, ")", 8⟩) ∧
      ∃ before t after, tokens = before ++ t :: after ∧
        IsFault before t after (.unexpectedToken .literal ⟨.identifier, ")", 8⟩) := by
  have hs : Scans 0 "f(null, )".toList [⟨.identifier, "f", 0⟩, ⟨.identifier, "(", 1⟩,
      ⟨.null, "null", 2⟩, ⟨.identifier, ",", 6⟩, ⟨.whitespace, " ", 7⟩, ⟨.identifier, ")", 8⟩] [] :=
    .next (n := 1) (by decide) (.next (n := 1) (by decide) (.next (n := 4) (by decide)
      (.next (n := 1) (by decide) (.next (n := 1) (by decide)
        (.next (n := 1) (by decide) .refl)))))
  have htokens := tokenize_eq_ok_iff.mpr ⟨_, hs, rfl⟩
  have h : parse "f(null, )" = .error (.unexpectedToken .literal ⟨.identifier, ")", 8⟩) := by
    rw [parse, htokens]
    rfl
  obtain ⟨before, t, after, hsplit, hfault, -⟩ := parse_error_located htokens h
  exact ⟨_, htokens, h, before, t, after, hsplit, hfault⟩

end Expression

end WorkflowCondition
