import WorkflowCondition.Proofs.Expression.CallCount
import WorkflowCondition.Proofs.Expression.Recognition

/-!
# A parser that is used again

A call of `Parser.expression` leaves nothing behind but the tokens that it has not consumed. So a
parser over the tokens `tokens` is, after any number of calls, a new parser over an end of them
(`Parser.exists_after`), and `Parser.expression_after` says of every call in such a row what it
gives and where it ends. In front of an end of input a parser stays where it is.
-/

namespace WorkflowCondition

open Grammar

namespace Parser

/-- The parser behind `n` calls of `expression`, whatever they give. -/
def after (p : Parser) : Nat → Parser
  | 0 => p
  | n + 1 => (p.after n).expression.2

/-- How many of the tokens are behind the parser. -/
def cursor (p : Parser) (tokens : List Token) : Nat :=
  tokens.length - p.rest.length

end Parser

/-- The counting parser behind `n` calls of `expression`. -/
def CountingParser.after (c : CountingParser) : Nat → CountingParser
  | 0 => c
  | n + 1 => (c.after n).expression.2

/-! ## Rows of calls -/

/-- The answers are the same, and the counts stay within the bounds. -/
theorem CountingParser.Matches.expression {c : CountingParser} {p : Parser} (h : c.Matches p) :
    c.expression.1 = p.expression.1 ∧ c.expression.2.Matches p.expression.2 := by
  obtain ⟨reply, c', p', hc, hp, h', -⟩ := mirrors_expression h
  rw [hc, hp]
  exact ⟨rfl, h'⟩

theorem CountingParser.matches_ofTokens (tokens : List Token) :
    (CountingParser.ofTokens tokens).Matches (.ofTokens tokens) := by
  refine ⟨rfl, rfl, fun n hn => ?_⟩
  obtain rfl : n = 0 := List.mem_singleton.mp hn
  decide

/-- By induction on the calls made before. -/
theorem CountingParser.Matches.after {c : CountingParser} {p : Parser} (h : c.Matches p) (n : Nat) :
    (c.after n).Matches (p.after n) := by
  induction n with
  | zero => exact h
  | succ n ih => exact ih.expression.2

namespace Parser

/-- An expression leaves every call that it enters, also on an error. -/
theorem keeps_expression (p : Parser) : p.Keeps p.expression.2 := by
  -- a counting parser that has only had the present count
  have h : CountingParser.Matches ⟨p.rest, p.depth, []⟩ p := by
    refine ⟨rfl, rfl, fun n hn => ?_⟩
    obtain rfl : n = p.depth := List.mem_singleton.mp hn
    have hle := p.depth_le
    omega
  obtain ⟨reply, -, p', -, hp, -, k⟩ := CountingParser.mirrors_expression h
  rw [hp]
  exact k

/-- Outside of all calls a parser is told by the tokens that are left. -/
theorem eq_ofTokens {p : Parser} (h : p.depth = 0) : p = .ofTokens p.rest := by
  cases p
  cases h
  rfl

/-- After any number of calls the parser is a new one in front of what is left. -/
theorem exists_after (tokens : List Token) (n : Nat) :
    ∃ rest, rest <:+ tokens ∧ (ofTokens tokens).after n = .ofTokens rest := by
  induction n with
  | zero => exact ⟨tokens, List.suffix_refl _, rfl⟩
  | succ n ih =>
    obtain ⟨rest, hrest, hp⟩ := ih
    have k : (ofTokens rest).Keeps ((ofTokens tokens).after (n + 1)) := by
      rw [after, hp]
      exact keeps_expression _
    exact ⟨_, k.suffix.trans hrest, eq_ofTokens k.depth⟩

theorem drop_cursor {tokens rest : List Token} (h : rest <:+ tokens) :
    tokens.drop ((ofTokens rest).cursor tokens) = rest := by
  obtain ⟨front, rfl⟩ := h
  have hcursor : (ofTokens rest).cursor (front ++ rest) = front.length := by
    show (front ++ rest).length - rest.length = front.length
    rw [List.length_append, Nat.add_sub_cancel]
  rw [hcursor, List.drop_left]

/-- Tokens are only taken, so that the place does not go back. -/
theorem Keeps.cursor_le {p q : Parser} (k : p.Keeps q) (tokens : List Token) :
    p.cursor tokens ≤ q.cursor tokens :=
  Nat.sub_le_sub_left k.suffix.length_le _

/-! ## In front of an end of input -/

/-- At the end there is no expression, and the parser stays there. -/
theorem expression_of_atEnd {p : Parser} (h : p.peek.kind = .endOfInput) :
    p.expression = (.error (.unexpectedToken .literal p.peek), p) := by
  have hliteral : p.literal = p.refuse .literal := by
    rw [literal]
    cases p.rest.length with
    | zero => rfl
    | succ n => rw [literalWithin, h]
  rw [expression, hliteral]
  rfl

theorem after_of_atEnd {p : Parser} (h : p.peek.kind = .endOfInput) (n : Nat) : p.after n = p := by
  induction n with
  | zero => rfl
  | succ n ih => rw [after, ih, expression_of_atEnd h]

theorem message_of_atEnd {t : Token} (h : t.kind = .endOfInput) :
    (Error.unexpectedToken .literal t).message = "Parse error at offset " ++ toString t.position ++
      ": expected a literal, found end of input" := by
  have hdescribe : t.describe = "end of input" := by rw [Token.describe, h]
  have hwords : ": expected " ++ "a literal" ++ ", found " ++ "end of input" =
      ": expected a literal, found end of input" := by
    decide
  show "Parse error at offset " ++ toString t.position ++ ": expected " ++ "a literal" ++
    ", found " ++ t.describe = _
  rw [hdescribe, ← hwords]
  simp only [String.append_assoc]

/-- A parser over the tokens that has nothing left to read: it is in front of an end of input or
behind all tokens, and from there every further call fails for want of a literal. -/
structure IsSpent (tokens : List Token) (p : Parser) : Prop where
  atEnd : p.cursor tokens = tokens.length ∨
    ∃ t, tokens[p.cursor tokens]? = some t ∧ t.kind = .endOfInput
  stays (n : Nat) : ∃ e, (p.after n).expression = (.error e, p) ∧
    e.position? = some ((tokens[p.cursor tokens]?.map Token.position).getD 0) ∧
    e.message = "Parse error at offset " ++
      toString ((tokens[p.cursor tokens]?.map Token.position).getD 0) ++
      ": expected a literal, found end of input"

theorem isSpent_of_atEnd {tokens rest : List Token} (hrest : rest <:+ tokens) (h : AtEnd rest) :
    (ofTokens rest).IsSpent tokens := by
  have hget : tokens[(ofTokens rest).cursor tokens]? = rest.head? := by
    rw [← List.head?_drop, drop_cursor hrest]
  have hpeek : (ofTokens rest).peek.kind = .endOfInput := atEnd_iff.mp h
  have hposition : ((rest.head?).map Token.position).getD 0 = (ofTokens rest).peek.position := by
    cases rest <;> rfl
  refine ⟨?_, fun n => ?_⟩
  · rw [hget]
    cases rest with
    | nil => exact .inl (Nat.sub_zero _)
    | cons t rest => exact .inr ⟨t, rfl, h⟩
  · rw [hget, hposition, after_of_atEnd hpeek]
    exact ⟨_, expression_of_atEnd hpeek, rfl, message_of_atEnd hpeek⟩

/-- Every call in a row of calls by one parser gives what a new parser over the tokens that are left
gives. It moves the cursor forward at most, inside no call again, and the count of open calls was
between none and `maxCalls` all the time. An expression is read up to the end of the tokens. -/
theorem expression_after (tokens : List Token) (n : Nat) :
    let p := (ofTokens tokens).after n
    let q := (ofTokens tokens).after (n + 1)
    let c := (CountingParser.ofTokens tokens).after n
    p.rest = tokens.drop (p.cursor tokens) ∧
      p.expression = (Expression.ofTokens (tokens.drop (p.cursor tokens)), q) ∧
      p.cursor tokens ≤ q.cursor tokens ∧ q.cursor tokens ≤ tokens.length ∧ q.depth = 0 ∧
      (c.expression.1 = p.expression.1 ∧ c.expression.2.rest = q.rest ∧
        c.expression.2.count = 0 ∧ ∀ k ∈ c.expression.2.counts, 0 ≤ k ∧ k ≤ 64) ∧
      ∀ e, p.expression.1 = .ok e → q.IsSpent tokens := by
  obtain ⟨rest, hrest, hp⟩ := exists_after tokens n
  obtain ⟨rest', hrest', hq⟩ := exists_after tokens (n + 1)
  have k : (ofTokens rest).Keeps (ofTokens rest') := by
    rw [← hq, after, hp]
    exact keeps_expression _
  obtain ⟨hreply, hc⟩ := ((CountingParser.matches_ofTokens tokens).after n).expression
  have hcount : _ = ((0 : Nat) : Int) := hc.count.trans (congrArg _ (congrArg depth hq))
  have hexpression : (ofTokens rest).expression = (Expression.ofTokens rest, ofTokens rest') := by
    rw [← hq, after, hp]
    rfl
  simp only [hp, hq, drop_cursor hrest]
  refine ⟨rfl, hexpression, k.cursor_le tokens, Nat.sub_le _ _, rfl,
    ⟨?_, ?_, hcount, hc.bounds⟩, ?_⟩
  · rw [hreply, hp]
  · rw [hc.rest, ← after, hq]
  · intro e he
    obtain ⟨-, -, -, hend⟩ := expression_sound (q := ofTokens rest') rfl
      (hexpression.trans (Prod.ext (by rw [← he, hexpression]) rfl))
    exact isSpent_of_atEnd hrest' hend

end Parser

end WorkflowCondition
