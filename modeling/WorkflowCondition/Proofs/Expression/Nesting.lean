import WorkflowCondition.Proofs.Expression.Rejection

/-!
# The limit of nesting

`Grammar.Expects` says where in the tokens of an expression a literal is expected, and inside how
many open calls. It knows no limit: that is the parser's. Tokens that would be a literal either keep
to the limit or have a name in front of a parenthesis with `maxCalls` calls open around it
(`Grammar.DerivesLiteral.callDepth_le_or`), and the parser fails at the first such name whatever
follows. So wherever tokens are the start of an expression, the places behind them are those of
`Grammar.Opens` (`Grammar.Expects.reaches_or`), and the error for the limit is given at the places
inside `maxCalls` calls and nowhere else (`Expression.ofTokens_nesting_limit`).
-/

namespace WorkflowCondition

namespace Grammar

/-! ## Places without a limit -/

/-- Behind the tokens of the list the token stands where a literal is expected, inside this number
of calls that are still open. -/
inductive Expects : Nat → List Token → Token → Prop
  | lhs {t : Token} : Expects 0 [] t
  | rhs {u : List Token} {s t : Token} {a : Literal} {op : Operator} (hu : DerivesLiteral u a)
      (hs : s.kind = .operator) (ho : s.text = op.symbol) : Expects 0 (u ++ [s]) t
  | first {n : Nat} {u : List Token} {name opening t : Token} (hu : Expects n u name)
      (hn : name.kind = .identifier) (ho : opening.isPunct "(") (ht : ¬ t.isPunct ")") :
      Expects (n + 1) (u ++ [name, opening]) t
  | later {n : Nat} {u v : List Token} {name opening comma t : Token} {args : List Literal}
      (hu : Expects n u name) (hn : name.kind = .identifier) (ho : opening.isPunct "(")
      (hv : DerivesArguments v args) (hne : args ≠ []) (hc : comma.isPunct ",") :
      Expects (n + 1) (u ++ name :: opening :: (v ++ [comma])) t

/-- Inside `k` calls the tokens go up to a name in front of a parenthesis that would be one call too
many. -/
def Exceeds (k : Nat) (u : List Token) : Prop :=
  ∃ before t opening after, u = before ++ t :: opening :: after ∧ opening.isPunct "(" ∧
    FailsLiteral k before t true (.unexpectedToken (.nesting maxCalls) t)

/-- The same of tokens behind the opening parenthesis of a call, which is the `k`-th open one. -/
def ExceedsArgument (k : Nat) (u : List Token) : Prop :=
  ∃ v w, u = v ++ w ∧ Precedes (w.headD Parser.pastEnd) k v ∧ Exceeds k w

/-- Once there are too many calls, no continuation helps. -/
theorem Exceeds.append {k : Nat} {u : List Token} (h : Exceeds k u) (r : List Token) :
    Exceeds k (u ++ r) := by
  obtain ⟨before, t, opening, after, rfl, ho, hfails⟩ := h
  exact ⟨before, t, opening, after ++ r, by simp, ho, hfails⟩

theorem Exceeds.of_name {k : Nat} {name opening : Token} (hk : k = maxCalls)
    (hn : name.kind = .identifier) (ho : opening.isPunct "(") (r : List Token) :
    Exceeds k (name :: opening :: r) :=
  ⟨[], name, opening, r, rfl, ho, .refused .here (.nesting hn rfl hk)⟩

/-- What exceeds the limit in an argument does so in the call. -/
theorem ExceedsArgument.call {k : Nat} {name opening : Token} {u : List Token} (hk : k < maxCalls)
    (hn : name.kind = .identifier) (ho : opening.isPunct "(") (h : ExceedsArgument (k + 1) u)
    (r : List Token) : Exceeds k (name :: opening :: (u ++ r)) := by
  obtain ⟨v, w, rfl, hv, before, t, inner, after, rfl, hi, hfails⟩ := h
  rw [headD_append_cons] at hv
  exact ⟨name :: opening :: (v ++ before), t, inner, after ++ r, by simp, hi,
    hfails.call hn ho hk hv⟩

mutual

/-- The tokens of a literal keep to the limit if the literal does. -/
theorem DerivesLiteral.callDepth_le_or {k : Nat} (hk : k ≤ maxCalls) :
    ∀ {u : List Token} {a : Literal}, DerivesLiteral u a →
      k + a.callDepth ≤ maxCalls ∨ Exceeds k u
  | _, _, .null _ | _, _, .string _ | _, _, .integer _ _ | _, _, .float _ _ | _, _, .bool _ _
  | _, _, .reference _ _ => .inl hk
  | _, _, .call hn ho hu _ => by
    obtain hlt | heq := Nat.lt_or_eq_of_le hk
    · obtain hle | hexceeds := hu.maxCallDepth_le_or hlt
      · refine .inl ?_
        rw [Literal.callDepth]
        omega
      · exact .inr (hexceeds.call hlt hn ho _)
    · exact .inr (.of_name heq hn ho _)

/-- Arguments fit, or the first that does not is at a place too deep. -/
theorem DerivesArguments.maxCallDepth_le_or {k : Nat} (hk : k ≤ maxCalls) :
    ∀ {u : List Token} {args : List Literal}, DerivesArguments u args →
      k + Literal.maxCallDepth args ≤ maxCalls ∨ ExceedsArgument k u
  | _, _, .none => .inl hk
  | _, _, @DerivesArguments.some t u v arg _ ht hu hv => by
    obtain hle | hexceeds := hu.callDepth_le_or hk
    · have hone : DerivesArguments (t :: u) [arg] := by
        simpa using DerivesArguments.some ht hu .none
      have hdepth : k + Literal.maxCallDepth [arg] ≤ maxCalls := by
        rwa [Literal.maxCallDepth, Literal.maxCallDepth, Nat.max_zero]
      exact hv.maxCallDepth_le_or hk _ _ hone (List.cons_ne_nil _ _) hdepth
    · exact .inr ⟨[], t :: u ++ v, rfl, .first ht, hexceeds.append v⟩

/-- In front of the tokens stand those of the arguments that have been read already. -/
theorem DerivesMore.maxCallDepth_le_or {k : Nat} (hk : k ≤ maxCalls) :
    ∀ {w : List Token} {more : List Literal}, DerivesMore w more → ∀ v args,
      DerivesArguments v args → args ≠ [] → k + Literal.maxCallDepth args ≤ maxCalls →
        k + Literal.maxCallDepth (args ++ more) ≤ maxCalls ∨ ExceedsArgument k (v ++ w)
  | _, _, .none, v, args, _, _, hd => .inl (by rwa [List.append_nil])
  | _, _, @DerivesMore.some comma u x arg _ hc hu hx, v, args, hv, hne, hd => by
    obtain hle | hexceeds := hu.callDepth_le_or hk
    · have hdepth : k + Literal.maxCallDepth (args ++ [arg]) ≤ maxCalls := by
        rw [Literal.maxCallDepth_append, Literal.maxCallDepth, Literal.maxCallDepth]
        omega
      have hmore := hx.maxCallDepth_le_or hk _ _ (hv.snoc hne hc hu) (by simp) hdepth
      simpa using hmore
    · exact .inr ⟨v ++ [comma], u ++ x, by simp, .later hv hne hd hc, hexceeds.append x⟩

end

/-! ## Places within the limit -/

/-- The tokens lead from the start of an expression to the token, inside `n` calls at most. -/
inductive Reaches (n : Nat) (t : Token) : List Token → Prop
  | lhs {u : List Token} (hu : Opens t 0 n u) : Reaches n t u
  | rhs {u v : List Token} {s : Token} {a : Literal} {op : Operator} (hu : DerivesLiteral u a)
      (ha : a.callDepth ≤ maxCalls) (hs : s.kind = .operator) (ho : s.text = op.symbol)
      (hv : Opens t 0 n v) : Reaches n t (u ++ s :: v)

theorem headD_append (u w : List Token) (t : Token) : (u ++ w).headD t = u.headD (w.headD t) := by
  cases u <;> rfl

/-- From a place in front of a name a call leads to one place inside it. -/
theorem Opens.enter {k n : Nat} {name opening t : Token} {u v : List Token}
    (hu : Opens name k n u) (hlt : n < maxCalls) (hn : name.kind = .identifier)
    (ho : opening.isPunct "(") (hv : Precedes t (n + 1) v) :
    Opens t k (n + 1) (u ++ name :: opening :: v) := by
  induction hu with
  | here =>
    have hcall : Opens t _ _ (name :: opening :: (v ++ [])) := .call hn ho hlt hv .here
    simpa using hcall
  | @call k n outer first u x hname hfirst hk hx _ ih =>
    have hplace : Precedes ((u ++ name :: opening :: v).headD t) (k + 1) x := by
      rwa [headD_append_cons]
    have hcall := Opens.call hname hfirst hk hplace (ih hlt hv)
    simpa using hcall

/-- What leaves the literal at a place leaves the outermost call around the place. -/
theorem Opens.fails {k n : Nat} {s t : Token} {u w : List Token} {called : Bool} {e : Error}
    (hu : Opens s k n u) (hs : w.headD t = s) (h : FailsLiteral n w t called e) :
    FailsLiteral k (u ++ w) t called e := by
  induction hu with
  | here => exact h
  | @call k n name opening u v hn ho hk hv _ ih =>
    have hplace : Precedes ((u ++ w).headD t) (k + 1) v := by
      rwa [headD_append, hs]
    have hcall := FailsLiteral.call hn ho hk hplace (ih h)
    simpa using hcall

/-- One call deeper: its name, its parenthesis and what precedes an argument. -/
theorem Reaches.enter {n : Nat} {name opening t : Token} {u v : List Token}
    (hu : Reaches n name u) (hlt : n < maxCalls) (hn : name.kind = .identifier)
    (ho : opening.isPunct "(") (hv : Precedes t (n + 1) v) :
    Reaches (n + 1) t (u ++ name :: opening :: v) := by
  cases hu with
  | lhs hu => exact .lhs (hu.enter hlt hn ho hv)
  | rhs hlhs ha hs hop hu =>
    have hrhs := Reaches.rhs hlhs ha hs hop (hu.enter hlt hn ho hv)
    simpa using hrhs

theorem Reaches.fails {n : Nat} {s t : Token} {u w : List Token} {called : Bool} {e : Error}
    (hu : Reaches n s u) (hs : w.headD t = s) (h : FailsLiteral n w t called e) :
    Fails (u ++ w) t called e := by
  cases hu with
  | lhs hu => exact .lhs (hu.fails hs h)
  | rhs hlhs ha ho hop hu =>
    have hrhs := Fails.rhs hlhs ha ho hop (hu.fails hs h)
    simpa using hrhs

theorem Reaches.le_maxCalls {n : Nat} {t : Token} {u : List Token} (h : Reaches n t u) :
    n ≤ maxCalls := by
  cases h with
  | lhs hu | rhs _ _ _ _ hu => exact hu.le_maxCalls (Nat.zero_le _)

/-- The tokens go on as an expression up to a name that would be one call too many. -/
def IsTooDeep (u : List Token) : Prop :=
  ∃ before t opening after, u = before ++ t :: opening :: after ∧ opening.isPunct "(" ∧
    Fails before t true (.unexpectedToken (.nesting maxCalls) t)

theorem IsTooDeep.append {u : List Token} (h : IsTooDeep u) (r : List Token) :
    IsTooDeep (u ++ r) := by
  obtain ⟨before, t, opening, after, rfl, ho, hfails⟩ := h
  exact ⟨before, t, opening, after ++ r, by simp, ho, hfails⟩

theorem Exceeds.isTooDeep {n : Nat} {s : Token} {u w : List Token} (h : Exceeds n (s :: w))
    (hu : Reaches n s u) : IsTooDeep (u ++ s :: w) := by
  obtain ⟨before, t, opening, after, hw, ho, hfails⟩ := h
  have hs : before.headD t = s := by
    rw [← headD_append_cons before (opening :: after) t t, ← hw]
    rfl
  exact ⟨u ++ before, t, opening, after, by rw [hw, List.append_assoc], ho, hu.fails hs hfails⟩

/-- A place is within the limit, or a name in front of it is one call too many. -/
theorem Expects.reaches_or {n : Nat} {u : List Token} {t : Token} (h : Expects n u t) :
    Reaches n t u ∨ IsTooDeep u := by
  induction h with
  | lhs => exact .inl (.lhs .here)
  | @rhs u s t a op hu hs ho =>
    obtain hle | ⟨before, name, opening, after, rfl, hi, hfails⟩ :=
      hu.callDepth_le_or (Nat.zero_le _)
    · rw [Nat.zero_add] at hle
      exact .inl (.rhs hu hle hs ho .here)
    · exact .inr ⟨before, name, opening, after ++ [s], by simp, hi, .lhs hfails⟩
  | @first n u name opening t _ hn ho ht ih =>
    obtain hu | hdeep := ih
    · obtain hlt | heq := Nat.lt_or_eq_of_le hu.le_maxCalls
      · exact .inl (hu.enter hlt hn ho (.first ht))
      · exact .inr ((Exceeds.of_name heq hn ho []).isTooDeep hu)
    · exact .inr (hdeep.append _)
  | @later n u v name opening comma t args _ hn ho hv hne hc ih =>
    obtain hu | hdeep := ih
    · obtain hlt | heq := Nat.lt_or_eq_of_le hu.le_maxCalls
      · obtain hle | hexceeds := hv.maxCallDepth_le_or hlt
        · exact .inl (hu.enter hlt hn ho (.later hv hne hle hc))
        · exact .inr ((hexceeds.call hlt hn ho [comma]).isTooDeep hu)
      · exact .inr ((Exceeds.of_name heq hn ho (v ++ [comma])).isTooDeep hu)
    · exact .inr (hdeep.append _)

/-- Within the limit and without one the places are the same. -/
theorem Opens.expects {k n : Nat} {t : Token} {p u : List Token} (hu : Opens t k n u)
    (hp : Expects k p (u.headD t)) : Expects n (p ++ u) t := by
  induction hu generalizing p with
  | here => simpa using hp
  | @call k n name opening u v hn ho hk hv _ ih =>
    have hinner : Expects (k + 1) (p ++ name :: opening :: v) (u.headD t) := by
      cases hv with
      | first ht => exact .first hp hn ho ht
      | later hv hne _ hc => exact .later hp hn ho hv hne hc
    simpa using ih hinner

/-- The limit is the only difference between the two kinds of places. -/
theorem Reaches.expects {n : Nat} {t : Token} {u : List Token} (h : Reaches n t u) :
    Expects n u t := by
  cases h with
  | lhs hu => exact hu.expects .lhs
  | @rhs u v s a op hu _ hs ho hv =>
    have hplace := hv.expects (p := u ++ [s]) (.rhs hu hs ho)
    simpa using hplace

/-- An error for the limit is given at a name, inside as many calls as there can be. -/
theorem Fails.of_nesting {u : List Token} {t found : Token} {called : Bool} {limit : Nat}
    (h : Fails u t called (.unexpectedToken (.nesting limit) found)) :
    found = t ∧ t.kind = .identifier ∧ called = true ∧ Expects maxCalls u t := by
  cases h with
  | lhs h =>
    cases h with
    | refused hu h =>
      cases h with
      | nesting ht hc hn => exact ⟨rfl, ht, hc, hn ▸ (Reaches.lhs hu).expects⟩
  | rhs hu ha hs ho h =>
    cases h with
    | refused hv h =>
      cases h with
      | nesting ht hc hn => exact ⟨rfl, ht, hc, hn ▸ (Reaches.rhs hu ha hs ho hv).expects⟩

end Grammar

namespace Expression

open Grammar

/-- The error names the limit, whatever follows. -/
theorem ofTokens_of_isTooDeep {u : List Token} (h : IsTooDeep u) (r : List Token) :
    ∃ t, ofTokens (u ++ r) = .error (.unexpectedToken (.nesting maxCalls) t) := by
  obtain ⟨before, t, opening, after, rfl, ho, hfails⟩ := h
  refine ⟨t, ?_⟩
  rw [List.append_assoc, List.cons_append, List.cons_append]
  exact ofTokens_of_fails (by rwa [← ho] at hfails)

/-- A call is one too many at every place inside `maxCalls` calls that the parser gets to. -/
theorem ofTokens_of_expects {u v : List Token} {t opening : Token}
    (hviable : ∃ more e, ofTokens (u ++ more) = .ok e) (hu : Expects maxCalls u t)
    (ht : t.kind = .identifier) (ho : opening.isPunct "(") :
    ofTokens (u ++ t :: opening :: v) = .error (.unexpectedToken (.nesting maxCalls) t) := by
  obtain hreaches | hdeep := hu.reaches_or
  · have hfails : FailsLiteral maxCalls [] t true (.unexpectedToken (.nesting maxCalls) t) :=
      .refused .here (.nesting ht rfl rfl)
    have hwhole := hreaches.fails rfl hfails
    rw [List.append_nil] at hwhole
    exact ofTokens_of_fails (by rwa [← ho] at hwhole)
  · obtain ⟨more, e, he⟩ := hviable
    obtain ⟨s, hs⟩ := ofTokens_of_isTooDeep hdeep more
    rw [he] at hs
    cases hs

/-- The error for the limit is given where a call starts inside 64 open calls, behind the start of
an expression, and only there; it reports the name of the call. All expressions that keep to the
limit are accepted. -/
theorem ofTokens_nesting_limit (tokens : List Token) :
    (∀ t, ofTokens tokens = .error (.unexpectedToken (.nesting 64) t) ↔
      ∃ u opening v, tokens = u ++ t :: opening :: v ∧
        (∃ more e, ofTokens (u ++ more) = .ok e) ∧ Expects 64 u t ∧
        t.kind = .identifier ∧ opening.isPunct "(") ∧
      (∀ t, (Error.unexpectedToken (.nesting 64) t).position? = some t.position ∧
        (Error.unexpectedToken (.nesting 64) t).message = "Parse error at offset " ++
          toString t.position ++ ": expected " ++ "nesting depth <= 64" ++ ", found " ++
          t.describe) ∧
      ∀ e, Derives (beforeEnd tokens) e → ofTokens tokens = .ok e := by
  refine ⟨fun t => ⟨fun h => ?_, ?_⟩, fun t => ⟨rfl, rfl⟩, fun e => ofTokens_of_derives⟩
  · obtain ⟨u, r, rfl, hfails⟩ := (ofTokens_eq_error_iff tokens _).mp h
    obtain ⟨rfl, ht, ho, hu⟩ := hfails.of_nesting
    -- The name and the parenthesis are tokens: the one past the end is no identifier.
    match r with
    | [] => cases ht
    | [_] => cases ho
    | t :: opening :: v =>
      exact ⟨u, opening, v, rfl, exists_ofTokens_of_fails hfails, hu, ht, ho⟩
  · rintro ⟨u, opening, v, rfl, hviable, hu, ht, ho⟩
    exact ofTokens_of_expects hviable hu ht ho

/-- The tokens of `f(f(f(`, and so on, with this number of open calls. -/
def openCalls (n : Nat) : List Token :=
  (List.replicate n [⟨.identifier, "f", 0⟩, ⟨.identifier, "(", 0⟩]).flatten

theorem openCalls_succ (n : Nat) :
    openCalls (n + 1) = openCalls n ++ [⟨.identifier, "f", 0⟩, ⟨.identifier, "(", 0⟩] := by
  rw [openCalls, List.replicate_succ', List.flatten_concat]
  rfl

theorem expects_openCalls (n : Nat) : Expects n (openCalls n) ⟨.identifier, "f", 0⟩ := by
  induction n with
  | zero => exact .lhs
  | succ n ih =>
    rw [openCalls_succ]
    exact .first ih rfl rfl (by decide)

set_option maxRecDepth 2000 in
/-- The 65th of calls inside each other is one too many, and 64 of them can be closed. -/
theorem ofTokens_openCalls : ofTokens (openCalls 65) =
    .error (.unexpectedToken (.nesting 64) ⟨.identifier, "f", 0⟩) := by
  have hviable : ∃ more e, ofTokens (openCalls 64 ++ more) = .ok e :=
    ⟨⟨.null, "null", 0⟩ :: List.replicate 64 ⟨.identifier, ")", 0⟩, _, rfl⟩
  exact ((ofTokens_nesting_limit _).1 _).mpr
    ⟨openCalls 64, _, [], openCalls_succ 64, hviable, expects_openCalls 64, rfl, rfl⟩

end Expression

end WorkflowCondition
