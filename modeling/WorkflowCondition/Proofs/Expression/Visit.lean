import WorkflowCondition.Proofs.Expression.Nesting

/-!
# Where the parser reads literals

`Parser.Visits` are the parsers at which a literal of the tokens is read: at their start, behind an
operator, and behind the parenthesis or a comma of a call. The tokens in front of each of them lead
from the start of an expression to that place (`Parser.Visits.reached`), and so a literal that is
not read at one of them is the failure of the whole expression (`Parser.Visits.ofTokens_error`).
-/

namespace WorkflowCondition

open Grammar

namespace Parser

/-- The parser reads a literal of the tokens here. -/
inductive Visits (tokens : List Token) : Parser → Prop
  | lhs : Visits tokens (.ofTokens tokens)
  | rhs {p : Parser} {a : Literal} {op : Operator} (ha : (ofTokens tokens).literal = (.ok a, p))
      (hk : p.peek.kind = .operator) (ho : Operator.ofSymbol? p.peek.text = some op) :
      Visits tokens p.advance
  | first {p : Parser} (hp : Visits tokens p) (hk : p.peek.kind = .identifier)
      (ho : p.peekSecond.isPunct "(") (hd : p.depth < maxCalls)
      (ht : ¬ p.advance.advance.peek.isPunct ")") : Visits tokens (p.advance.advance.enter hd)
  | later {p q : Parser} {a : Literal} (hp : Visits tokens p) (hd : 0 < p.depth)
      (ha : p.literal = (.ok a, q)) (hc : q.peek.isPunct ",") : Visits tokens q.advance

/-- The tokens in front of the parser lead to it, inside as many calls as it knows. -/
def Reached (tokens : List Token) (p : Parser) : Prop :=
  ∃ u, tokens = u ++ p.rest ∧ Reaches p.depth p.peek u

/-- The parser is outside of all calls, or it is where an argument starts of the call whose name is
at a place that has been reached. -/
inductive Located (tokens : List Token) (p : Parser) : Prop
  | outside (hd : p.depth = 0) (hp : p.Reached tokens)
  | inside {q : Parser} {v : List Token} (hq : q.Reached tokens) (hk : q.peek.kind = .identifier)
      (ho : q.peekSecond.isPunct "(") (hd : q.depth < maxCalls)
      (hread : (q.advance.advance.enter hd).Reads v p) (hv : Precedes p.peek (q.depth + 1) v)

variable {tokens : List Token} {p q : Parser}

/-- A place of the parser is one that the grammar knows. -/
theorem Located.reached (h : p.Located tokens) : p.Reached tokens := by
  cases h with
  | outside _ hp => exact hp
  | @inside q v hq hk ho hd hread hv =>
    obtain ⟨u, htokens, hu⟩ := hq
    have hopening : q.advance.Reads [q.peekSecond] q.advance.advance := .advance_punct ho
    have hname := ((Reads.advance hk).trans hopening).rest
    have hrest : q.advance.advance.rest = v ++ p.rest := hread.rest
    refine ⟨u ++ q.peek :: q.peekSecond :: v, ?_, ?_⟩
    · rw [htokens, hname, hrest]
      simp
    · rw [show p.depth = q.depth + 1 from hread.depth]
      exact hu.enter hd hk ho hv

/-- Every literal is read at a place of the grammar. -/
theorem Visits.located (h : Visits tokens p) : p.Located tokens := by
  induction h with
  | lhs => exact .outside rfl ⟨[], rfl, .lhs .here⟩
  | @rhs p a op ha hk ho =>
    obtain ⟨u, hu, du, bu, -⟩ := literalWithin_sound _ ha
    have hread := hu.trans (Reads.advance hk)
    have hd : p.advance.depth = 0 := hread.depth
    refine .outside hd ⟨u ++ [p.peek], hread.rest, ?_⟩
    rw [hd]
    exact .rhs du (by simpa [ofTokens] using bu) hk (Operator.symbol_of_ofSymbol? ho).symm .here
  | @first p _ hk ho hd ht ih => exact .inside ih.reached hk ho hd (.refl _) (.first ht)
  | @later p q a _ hd ha hc ih =>
    cases ih with
    | outside hp => omega
    | inside hq hk ho hlt hread hv =>
      have hargument := (literalWithin_sound _ ha).argument hread hv
      obtain ⟨v, hread', hv'⟩ := hargument.comma hc
      exact .inside hq hk ho hlt hread' hv'

theorem Visits.reached (h : Visits tokens p) : p.Reached tokens :=
  h.located.reached

theorem Visits.peek_mem (h : Visits tokens p) (hk : p.peek.kind ≠ .endOfInput) :
    p.peek ∈ tokens := by
  obtain ⟨u, htokens, -⟩ := h.reached
  rw [htokens, (Reads.advance rfl hk).rest]
  simp

/-- A literal that is not read is why the expression is not. -/
theorem Visits.ofTokens_error {e : Error} (h : Visits tokens p)
    (he : p.literal = (.error e, q)) : Expression.ofTokens tokens = .error e := by
  obtain ⟨u, htokens, hu⟩ := h.reached
  obtain ⟨v, r, hr, hfails⟩ := literal_fails he
  refine (Expression.ofTokens_eq_error_iff tokens e).mpr ⟨u ++ v, r, ?_, ?_⟩
  · rw [htokens, hr, List.append_assoc]
  · exact hu.fails (headD_rest p v r hr) hfails

end Parser

end WorkflowCondition
