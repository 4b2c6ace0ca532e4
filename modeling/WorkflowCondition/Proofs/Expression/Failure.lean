import WorkflowCondition.Proofs.Expression.Grammar

/-!
# Where tokens leave the grammar

What is wrong with tokens that derive no expression, as relations on the tokens and without a word
about how they are read. `Opens` leads from a place where a literal is expected to another one
inside more calls, `Refused` says why a token starts no literal at such a place, and `FailsLiteral`
and `Fails` say of a literal and of an expression at which token, and with which error, they end
too early. What stands in front of the token at fault is always the start of an expression
(`Fails.viable`): wherever a literal is expected any literal goes on, and then every open call can
be closed (`Opens.exists_closed`).
-/

namespace WorkflowCondition

namespace Literal

theorem maxCallDepth_append (args more : List Literal) :
    maxCallDepth (args ++ more) = max (maxCallDepth args) (maxCallDepth more) := by
  induction args with
  | nil => rw [List.nil_append, maxCallDepth, Nat.zero_max]
  | cons arg args ih => rw [List.cons_append, maxCallDepth, maxCallDepth, ih, Nat.max_assoc]

end Literal

namespace Grammar

/-! ## Places and faults -/

/-- Why the token `t` starts no literal inside `n` calls. Whether an opening parenthesis is behind
the token is told by `called`. -/
inductive Refused (n : Nat) (t : Token) (called : Bool) : Error → Prop
  | integer (ht : t.kind = .integer) (hn : readInteger? t.text = none) :
      Refused n t called (.unexpectedToken .integer t)
  | float (ht : t.kind = .float) (hx : readBinary64? t.text = none) :
      Refused n t called (.unexpectedToken .float t)
  | nesting (ht : t.kind = .identifier) (hc : called = true) (hn : n = maxCalls) :
      Refused n t called (.unexpectedToken (.nesting maxCalls) t)
  | mark (ht : t.kind = .identifier) (hc : called = false) (hh : ¬ IsHead t) :
      Refused n t called (.unexpectedToken .literal t)
  | not (ht : t.kind = .not) : Refused n t called (.unsupported t)
  | other (ht : t.kind = .whitespace ∨ t.kind = .accessor ∨ t.kind = .operator ∨
      t.kind = .endOfInput) : Refused n t called (.unexpectedToken .literal t)

/-- What can stand between the opening parenthesis of a call, which is the `n`-th open one, and an
argument that starts with `t`. -/
inductive Precedes (t : Token) (n : Nat) : List Token → Prop
  | first (ht : ¬ t.isPunct ")") : Precedes t n []
  | later {v : List Token} {args : List Literal} {comma : Token} (hv : DerivesArguments v args)
      (hne : args ≠ []) (hd : n + Literal.maxCallDepth args ≤ maxCalls)
      (hc : comma.isPunct ",") : Precedes t n (v ++ [comma])

/-- From a place inside `k` calls where a literal is expected, the tokens lead to such a place
inside `n` calls, where `t` stands. -/
inductive Opens (t : Token) : Nat → Nat → List Token → Prop
  | here {n : Nat} : Opens t n n []
  | call {k n : Nat} {name opening : Token} {u v : List Token} (hn : name.kind = .identifier)
      (ho : opening.isPunct "(") (hk : k < maxCalls) (hv : Precedes (u.headD t) (k + 1) v)
      (hu : Opens t (k + 1) n u) : Opens t k n (name :: opening :: (v ++ u))

/-- A literal inside `k` calls is left at the token `t` behind the tokens of the list: where a
literal is expected `t` starts none, or behind an argument `t` neither goes on with the arguments
nor closes them. -/
inductive FailsLiteral (k : Nat) : List Token → Token → Bool → Error → Prop
  | refused {n : Nat} {u : List Token} {t : Token} {called : Bool} {e : Error}
      (hu : Opens t k n u) (h : Refused n t called e) : FailsLiteral k u t called e
  | unclosed {n : Nat} {u w : List Token} {s t : Token} {called : Bool} {a : Literal}
      (hu : Opens s k n u) (hk : k < n) (hw : DerivesLiteral (s :: w) a)
      (hd : n + a.callDepth ≤ maxCalls) (hs : Stops (s :: w) a t) (hcomma : ¬ t.isPunct ",")
      (hclose : ¬ t.isPunct ")") :
      FailsLiteral k (u ++ s :: w) t called (.unexpectedToken .closeParen t)

/-- An expression is left at the token `t` behind the tokens of the list. -/
inductive Fails : List Token → Token → Bool → Error → Prop
  | lhs {u : List Token} {t : Token} {called : Bool} {e : Error}
      (h : FailsLiteral 0 u t called e) : Fails u t called e
  | operator {u : List Token} {t : Token} {called : Bool} {a : Literal} (hu : DerivesLiteral u a)
      (ha : a.callDepth ≤ maxCalls) (ht : t.kind = .operator)
      (ho : Operator.ofSymbol? t.text = none) :
      Fails u t called (.unexpectedToken .operator t)
  | lhsEnd {u : List Token} {t : Token} {called : Bool} {a : Literal} (hu : DerivesLiteral u a)
      (ha : a.callDepth ≤ maxCalls) (hs : Stops u a t) (ht : t.kind ≠ .operator)
      (he : t.kind ≠ .endOfInput) : Fails u t called (.unexpectedToken .endOfInput t)
  | rhs {u v : List Token} {s t : Token} {called : Bool} {a : Literal} {op : Operator} {e : Error}
      (hu : DerivesLiteral u a) (ha : a.callDepth ≤ maxCalls) (ht : s.kind = .operator)
      (ho : s.text = op.symbol) (h : FailsLiteral 0 v t called e) :
      Fails (u ++ s :: v) t called e
  | rhsEnd {u v : List Token} {s t : Token} {called : Bool} {a b : Literal} {op : Operator}
      (hu : DerivesLiteral u a) (ha : a.callDepth ≤ maxCalls) (ht : s.kind = .operator)
      (ho : s.text = op.symbol) (hv : DerivesLiteral v b) (hb : b.callDepth ≤ maxCalls)
      (hs : Stops v b t) (he : t.kind ≠ .endOfInput) :
      Fails (u ++ s :: v) t called (.unexpectedToken .endOfInput t)

/-! ## The token at fault -/

/-- The error names the token itself. Only `!` is told from other tokens by its error. -/
theorem Refused.found {n : Nat} {t : Token} {called : Bool} {e : Error}
    (h : Refused n t called e) :
    (∃ expected, e = .unexpectedToken expected t) ∨ e = .unsupported t ∧ t.kind = .not := by
  cases h with
  | not ht => exact .inr ⟨rfl, ht⟩
  | _ => exact .inl ⟨_, rfl⟩

theorem FailsLiteral.found {k : Nat} {u : List Token} {t : Token} {called : Bool} {e : Error}
    (h : FailsLiteral k u t called e) :
    (∃ expected, e = .unexpectedToken expected t) ∨ e = .unsupported t ∧ t.kind = .not := by
  cases h with
  | refused _ h => exact h.found
  | unclosed => exact .inl ⟨_, rfl⟩

/-- An error reports the token at which the expression is left. -/
theorem Fails.found {u : List Token} {t : Token} {called : Bool} {e : Error}
    (h : Fails u t called e) :
    (∃ expected, e = .unexpectedToken expected t) ∨ e = .unsupported t ∧ t.kind = .not := by
  cases h with
  | lhs h | rhs _ _ _ _ h => exact h.found
  | operator | lhsEnd | rhsEnd => exact .inl ⟨_, rfl⟩

/-- What is behind the token matters only for identifiers. -/
theorem Refused.of_kind {n : Nat} {t : Token} {called other : Bool} {e : Error}
    (h : Refused n t called e) (ht : t.kind ≠ .identifier) : Refused n t other e := by
  cases h with
  | integer ht hn => exact .integer ht hn
  | float ht hx => exact .float ht hx
  | nesting hi | mark hi => exact absurd hi ht
  | not ht => exact .not ht
  | other ht => exact .other ht

theorem FailsLiteral.of_kind {k : Nat} {u : List Token} {t : Token} {called other : Bool}
    {e : Error} (h : FailsLiteral k u t called e) (ht : t.kind ≠ .identifier) :
    FailsLiteral k u t other e := by
  cases h with
  | refused hu h => exact .refused hu (h.of_kind ht)
  | unclosed hu hk hw hd hs hcomma hclose => exact .unclosed hu hk hw hd hs hcomma hclose

/-- Only behind an identifier it matters what follows the token at fault. -/
theorem Fails.of_kind {u : List Token} {t : Token} {called other : Bool} {e : Error}
    (h : Fails u t called e) (ht : t.kind ≠ .identifier) : Fails u t other e := by
  cases h with
  | lhs h => exact .lhs (h.of_kind ht)
  | operator hu ha hk ho => exact .operator hu ha hk ho
  | lhsEnd hu ha hs hk he => exact .lhsEnd hu ha hs hk he
  | rhs hu ha hk ho h => exact .rhs hu ha hk ho (h.of_kind ht)
  | rhsEnd hu ha hk ho hv hb hs he => exact .rhsEnd hu ha hk ho hv hb hs he

/-! ## Calls around a failure -/

/-- No place is inside more calls than may be open. -/
theorem Opens.le_maxCalls {t : Token} {k n : Nat} {u : List Token} (hu : Opens t k n u)
    (hk : k ≤ maxCalls) : n ≤ maxCalls := by
  induction hu with
  | here => exact hk
  | call _ _ hlt _ _ ih => exact ih hlt

theorem headD_append_cons (u w : List Token) (s t : Token) :
    (u ++ s :: w).headD t = u.headD s := by
  cases u <;> rfl

/-- A literal that is left inside a call is left from outside of it too. -/
theorem FailsLiteral.call {k : Nat} {name opening t : Token} {u v : List Token} {called : Bool}
    {e : Error} (hn : name.kind = .identifier) (ho : opening.isPunct "(") (hk : k < maxCalls)
    (hv : Precedes (u.headD t) (k + 1) v) (h : FailsLiteral (k + 1) u t called e) :
    FailsLiteral k (name :: opening :: (v ++ u)) t called e := by
  cases h with
  | refused hu h => exact .refused (.call hn ho hk hv hu) h
  | @unclosed n u w s t called a hu hlt hw hd hs hcomma hclose =>
    rw [headD_append_cons] at hv
    have hcall : FailsLiteral k (name :: opening :: (v ++ u) ++ s :: w) t called _ :=
      .unclosed (.call hn ho hk hv hu) (by omega) hw hd hs hcomma hclose
    simpa using hcall

/-! ## Completions -/

theorem DerivesMore.append {u v : List Token} {args more : List Literal} (hu : DerivesMore u args)
    (hv : DerivesMore v more) : DerivesMore (u ++ v) (args ++ more) := by
  induction args generalizing u with
  | nil => cases hu; exact hv
  | cons arg args ih =>
    rcases hu with _ | @⟨comma, w, x, _, _, hc, hw, hx⟩
    have hrest := DerivesMore.some hc hw (ih hx)
    rwa [← List.append_assoc, ← List.cons_append] at hrest

/-- An argument behind others. -/
theorem DerivesArguments.snoc {v w : List Token} {comma : Token} {args : List Literal} {a : Literal}
    (hv : DerivesArguments v args) (hne : args ≠ []) (hc : comma.isPunct ",")
    (hw : DerivesLiteral w a) : DerivesArguments (v ++ comma :: w) (args ++ [a]) := by
  rcases hv with _ | @⟨t, u, x, arg, more, ht, hu, hx⟩
  · exact absurd rfl hne
  · have hlast := hx.append (.some hc hw .none)
    rw [List.append_nil] at hlast
    have hall := DerivesArguments.some ht hu hlast
    rwa [← List.append_assoc] at hall

/-- The arguments up to and with the one at the place. -/
theorem Precedes.derives {s : Token} {n : Nat} {v w : List Token} {a : Literal}
    (hv : Precedes s n v) (hw : DerivesLiteral (s :: w) a) (hd : n + a.callDepth ≤ maxCalls) :
    ∃ args, DerivesArguments (v ++ s :: w) args ∧ args ≠ [] ∧
      n + Literal.maxCallDepth args ≤ maxCalls := by
  cases hv with
  | first ht =>
    have hargs := DerivesArguments.some ht hw .none
    rw [List.append_nil] at hargs
    refine ⟨[a], hargs, List.cons_ne_nil _ _, ?_⟩
    rwa [Literal.maxCallDepth, Literal.maxCallDepth, Nat.max_zero]
  | @later v args comma hv hne hdepth hc =>
    refine ⟨args ++ [a], ?_, by simp, ?_⟩
    · rw [List.append_assoc]
      exact hv.snoc hne hc hw
    · rw [Literal.maxCallDepth_append, Literal.maxCallDepth, Literal.maxCallDepth]
      omega

/-- Which token an argument starts with does not matter, if it is not the closing parenthesis. -/
theorem Precedes.of_first {s t : Token} {n : Nat} {v : List Token} (hv : Precedes t n v)
    (hs : s = t ∨ ¬ s.isPunct ")") : Precedes s n v := by
  cases hv with
  | first ht =>
    rcases hs with rfl | hs
    · exact .first ht
    · exact .first hs
  | later hv hne hd hc => exact .later hv hne hd hc

/-- A literal at a place inside calls, with all these calls closed behind it. -/
theorem Opens.exists_closed {s t : Token} {k n : Nat} {u w : List Token} {a : Literal}
    (hu : Opens t k n u) (hs : s = t ∨ ¬ s.isPunct ")") (hw : DerivesLiteral (s :: w) a)
    (hd : n + a.callDepth ≤ maxCalls) :
    ∃ v b, DerivesLiteral (u ++ s :: w ++ v) b ∧ k + b.callDepth ≤ maxCalls := by
  induction hu with
  | here => exact ⟨[], a, by simpa using hw, hd⟩
  | @call k n name opening u v hn ho hk hv hu ih =>
    obtain ⟨x, b, hb, hdepth⟩ := ih hd
    -- The argument that is completed starts at the place behind `v`.
    obtain ⟨y, hy⟩ : ∃ y, u ++ s :: w ++ x = u.headD s :: y := by
      cases u <;> exact ⟨_, rfl⟩
    have hv' : Precedes (u.headD s) (k + 1) v := by
      cases u with
      | nil => exact hv.of_first hs
      | cons => exact hv
    obtain ⟨args, hargs, -, hmax⟩ := hv'.derives (hy ▸ hb) hdepth
    rw [← hy] at hargs
    have hclose : (⟨.identifier, ")", 0⟩ : Token).isPunct ")" := rfl
    have hcall := DerivesLiteral.call hn ho hargs hclose
    refine ⟨x ++ [⟨.identifier, ")", 0⟩], .call name.text args, by simpa using hcall, ?_⟩
    rw [Literal.callDepth]
    omega

/-- What stands in front of the token at fault is the start of a literal. -/
theorem FailsLiteral.viable {k : Nat} {u : List Token} {t : Token} {called : Bool} {e : Error}
    (h : FailsLiteral k u t called e) (hk : k ≤ maxCalls) :
    ∃ v b, DerivesLiteral (u ++ v) b ∧ k + b.callDepth ≤ maxCalls := by
  cases h with
  | @refused n u t called e hu h =>
    have hn := hu.le_maxCalls hk
    have hnull : DerivesLiteral [⟨.null, "null", 0⟩] .null := .null rfl
    obtain ⟨v, b, hb, hd⟩ := hu.exists_closed (.inr (by decide)) hnull
      (by simpa [Literal.callDepth] using hn)
    exact ⟨_, b, by rwa [List.append_assoc] at hb, hd⟩
  | unclosed hu _ hw hd => exact hu.exists_closed (.inl rfl) hw hd

/-- What stands in front of the token at fault is the start of an expression. -/
theorem Fails.viable {u : List Token} {t : Token} {called : Bool} {e : Error}
    (h : Fails u t called e) : ∃ v x, Derives (u ++ v) x := by
  cases h with
  | lhs h =>
    obtain ⟨v, b, hb, hd⟩ := h.viable (Nat.zero_le _)
    exact ⟨v, _, .literal hb (by rwa [Nat.zero_add] at hd)⟩
  | operator hu ha | lhsEnd hu ha => exact ⟨[], _, .literal (by rwa [List.append_nil]) ha⟩
  | @rhs u w s t called a op e hu ha ht ho h =>
    obtain ⟨v, b, hb, hd⟩ := h.viable (Nat.zero_le _)
    rw [Nat.zero_add] at hd
    refine ⟨v, ⟨a, some (op, b)⟩, ?_⟩
    rw [List.append_assoc, List.cons_append]
    exact .binary hu ha ht ho hb hd
  | rhsEnd hu ha ht ho hv hb =>
    have hx := Derives.binary hu ha ht ho hv hb
    rw [← List.append_nil (_ ++ _ :: _)] at hx
    exact ⟨[], _, hx⟩

/-! ## No end of input is read -/

theorem IsHead.noEnd {t : Token} (h : IsHead t) : t.kind ≠ .endOfInput := by
  rcases h with h | ⟨h, -⟩ <;> rw [h] <;> decide

theorem noEnd_of_isPunct {t : Token} {text : String} (h : t.isPunct text) :
    t.kind ≠ .endOfInput := by
  rw [(Token.isPunct_iff.mp h).1]
  decide

mutual

theorem DerivesLiteral.noEnd : ∀ {u : List Token} {a : Literal}, DerivesLiteral u a →
    ∀ t ∈ u, t.kind ≠ .endOfInput
  | _, _, .null ht | _, _, .string ht | _, _, .integer ht _ | _, _, .float ht _
  | _, _, .bool ht _ => List.forall_mem_singleton.mpr (by rw [ht]; decide)
  | _, _, .call hn ho hu hc =>
    List.forall_mem_cons.mpr ⟨by rw [hn]; decide, List.forall_mem_cons.mpr ⟨noEnd_of_isPunct ho,
      List.forall_mem_append.mpr ⟨hu.noEnd, List.forall_mem_singleton.mpr (noEnd_of_isPunct hc)⟩⟩⟩
  | _, _, .reference hh ha =>
    List.forall_mem_cons.mpr ⟨hh.noEnd, fun t ht => by rw [ha t ht]; decide⟩

theorem DerivesArguments.noEnd : ∀ {u : List Token} {args : List Literal},
    DerivesArguments u args → ∀ t ∈ u, t.kind ≠ .endOfInput
  | _, _, .none => by simp
  | _, _, .some _ hu hv => List.forall_mem_append.mpr ⟨hu.noEnd, hv.noEnd⟩

theorem DerivesMore.noEnd : ∀ {u : List Token} {args : List Literal}, DerivesMore u args →
    ∀ t ∈ u, t.kind ≠ .endOfInput
  | _, _, .none => by simp
  | _, _, .some hc hu hv =>
    List.forall_mem_cons.mpr ⟨noEnd_of_isPunct hc, List.forall_mem_append.mpr ⟨hu.noEnd, hv.noEnd⟩⟩

end

theorem Derives.noEnd {u : List Token} {e : Expression} (h : Derives u e) :
    ∀ t ∈ u, t.kind ≠ .endOfInput := by
  cases h with
  | literal hu => exact hu.noEnd
  | binary hu _ ht _ hv =>
    exact List.forall_mem_append.mpr
      ⟨hu.noEnd, List.forall_mem_cons.mpr ⟨by rw [ht]; decide, hv.noEnd⟩⟩

theorem Fails.noEnd {u : List Token} {t : Token} {called : Bool} {e : Error}
    (h : Fails u t called e) : ∀ s ∈ u, s.kind ≠ .endOfInput := by
  obtain ⟨v, x, hx⟩ := h.viable
  exact (List.forall_mem_append.mp hx.noEnd).1

end Grammar

end WorkflowCondition
