import Mathlib.Data.List.TakeWhile
import WorkflowCondition.Proofs.Expression.Grammar

/-!
# The parser accepts the grammar

`Parser.literalWithin_sound`: a literal that is read is derived by the tokens consumed for it,
within the calls that may still be opened. `Parser.literalWithin_complete`: the tokens of a
derivation are read as its literal, whatever follows them, as long as it can neither go on with the
reference nor turn its head into the name of a call (`Grammar.Stops`). Together,
`Expression.ofTokens_eq_ok_iff_derives`: the tokens in front of the end of input derive the
expression that they are read as, and no other.
-/

namespace WorkflowCondition

open Grammar

namespace Parser

/-- From `p` to `q` exactly the tokens `u` are consumed, none of them an end of input, and `q` is
inside the calls that `p` is inside of. -/
structure Reads (p : Parser) (u : List Token) (q : Parser) : Prop where
  rest : p.rest = u ++ q.rest
  depth : q.depth = p.depth
  noEnd : ∀ t ∈ u, t.kind ≠ .endOfInput

theorem Reads.refl (p : Parser) : p.Reads [] p :=
  ⟨rfl, rfl, by simp⟩

theorem Reads.trans {p q r : Parser} {u v : List Token} (h : p.Reads u q) (h' : q.Reads v r) :
    p.Reads (u ++ v) r := by
  refine ⟨by rw [h.rest, h'.rest, List.append_assoc], h'.depth.trans h.depth, fun t ht => ?_⟩
  exact (List.mem_append.mp ht).elim (h.noEnd t) (h'.noEnd t)

/-- A token of any kind but the end of input is there to be consumed. -/
theorem Reads.advance {p : Parser} {kind : Token.Kind} (h : p.peek.kind = kind)
    (hk : kind ≠ .endOfInput := by decide) : p.Reads [p.peek] p.advance := by
  refine ⟨?_, rfl, fun t ht => by rw [List.mem_singleton.mp ht, h]; exact hk⟩
  unfold peek Parser.advance at *
  cases hr : p.rest with
  | nil => rw [hr] at h; exact absurd h.symm hk
  | cons t rest => rfl

/-- The part between two parsers inside one more call. -/
theorem Reads.enter {p q : Parser} {u : List Token} (hd : p.depth < maxCalls)
    (h : (p.enter hd).Reads u q) : p.Reads u q.leave := by
  refine ⟨h.rest, ?_, h.noEnd⟩
  have hdepth : q.depth = p.depth + 1 := h.depth
  show q.depth - 1 = p.depth
  omega

theorem Reads.advance_punct {p : Parser} {text : String} (h : p.peek.isPunct text) :
    p.Reads [p.peek] p.advance :=
  .advance (Token.isPunct_iff.mp h).1

/-! ## What is read is derived -/

/-- What is consumed from `p` to `q` derives the literal, within the calls that may be opened, and
the token behind it is not part of it. -/
def ReadsLiteral (p : Parser) (a : Literal) (q : Parser) : Prop :=
  ∃ u, p.Reads u q ∧ DerivesLiteral u a ∧ p.depth + a.callDepth ≤ maxCalls ∧ Stops u a q.peek

/-- A reader of literals that accepts nothing but derivations. -/
def Sound (read : Parser → Reply Literal) : Prop :=
  ∀ {p q a}, read p = (.ok a, q) → p.ReadsLiteral a q

variable {read : Parser → Reply Literal}

/-- Each turn of the loop reads a comma and an argument. -/
theorem moreArguments_sound (hr : Sound read) {n : Nat} {p q : Parser} {args : List Literal}
    (h : moreArguments read n p = (.ok args, q)) :
    ∃ u, p.Reads u q ∧ DerivesMore u args ∧ p.depth + Literal.maxCallDepth args ≤ maxCalls := by
  induction n generalizing p args with
  | zero => cases h; exact ⟨[], .refl q, .none, q.depth_le⟩
  | succ n ih =>
    rw [moreArguments] at h
    split at h
    · rename_i hc
      have hcomma := Reads.advance_punct hc
      split at h
      · cases h
      · rename_i arg p₁ h₁
        obtain ⟨u, hu, du, bu, -⟩ := hr h₁
        split at h
        · cases h
        · rename_i args p₂ h₂
          cases h
          obtain ⟨v, hv, dv, bv⟩ := ih h₂
          rw [hu.depth, hcomma.depth] at bv
          rw [hcomma.depth] at bu
          refine ⟨p.peek :: (u ++ v), hcomma.trans (hu.trans hv), .some hc du dv, ?_⟩
          rw [Literal.maxCallDepth]
          omega
    · cases h; exact ⟨[], .refl q, .none, q.depth_le⟩

/-- The first token of a literal is not consumed for anything else. -/
theorem Reads.head_eq_peek {p q : Parser} {t : Token} {u : List Token} (h : p.Reads (t :: u) q) :
    p.peek = t := by
  rw [peek, h.rest]; rfl

/-- The arguments are derived, and the parenthesis that closes the call is read with them. -/
theorem arguments_sound (hr : Sound read) {p q : Parser} {args : List Literal}
    (h : arguments read p = (.ok args, q)) :
    ∃ u closing, p.Reads (u ++ [closing]) q ∧ DerivesArguments u args ∧ closing.isPunct ")" ∧
      p.depth + Literal.maxCallDepth args ≤ maxCalls := by
  rw [arguments] at h
  split at h
  · cases h
  · rename_i args p₁ h₁
    have hargs : ∃ u, p.Reads u p₁ ∧ DerivesArguments u args ∧
        p.depth + Literal.maxCallDepth args ≤ maxCalls := by
      split at h₁
      · cases h₁; exact ⟨[], .refl p, .none, p.depth_le⟩
      · rename_i hp
        split at h₁
        · cases h₁
        · rename_i arg p₂ h₂
          obtain ⟨u, hu, du, bu, -⟩ := hr h₂
          split at h₁
          · cases h₁
          · rename_i args p₃ h₃
            obtain ⟨v, hv, dv, bv⟩ := moreArguments_sound hr h₃
            cases h₁
            rw [hu.depth] at bv
            obtain ⟨t, u, rfl⟩ := du.exists_cons
            rw [hu.head_eq_peek] at hp
            refine ⟨t :: u ++ v, hu.trans hv, .some hp du dv, ?_⟩
            rw [Literal.maxCallDepth]
            omega
    obtain ⟨u, hu, du, bu⟩ := hargs
    rw [expectPunct] at h
    split at h
    · cases h
    · rename_i hc
      split at hc
      · rename_i hp
        cases hc; cases h
        exact ⟨u, p₁.peek, hu.trans (.advance_punct hp), du, hp, bu⟩
      · cases hc

/-- A call that is read is derived, one call deeper than its arguments. -/
theorem call_sound (hr : Sound read) {p q : Parser} {a : Literal}
    (hk : p.peek.kind = .identifier) (h : call read p = (.ok a, q)) : p.ReadsLiteral a q := by
  simp only [call] at h
  split at h
  · rename_i hd
    split at h
    · rename_i ho
      split at h
      · cases h
      · rename_i args p₁ h₁
        cases h
        obtain ⟨u, closing, hu, du, hc, bu⟩ := arguments_sound hr h₁
        have hbound : p.depth + 1 + Literal.maxCallDepth args ≤ maxCalls := bu
        refine ⟨p.peek :: p.advance.peek :: (u ++ [closing]),
          (Reads.advance hk).trans ((Reads.advance_punct ho).trans (.enter hd hu)),
          .call hk ho du hc, ?_, .of_ne (by rintro _ _ ⟨⟩) _⟩
        rw [Literal.callDepth]
        omega
    · cases h
  · cases h

theorem ReadsLiteral.token {p : Parser} {kind : Token.Kind} {a : Literal}
    (h : p.peek.kind = kind) (ha : DerivesLiteral [p.peek] a) (hd : a.callDepth = 0)
    (hk : kind ≠ .endOfInput := by decide)
    (hr : ∀ head accessors, a ≠ .reference head accessors := by rintro _ _ ⟨⟩) :
    p.ReadsLiteral a p.advance :=
  ⟨[p.peek], .advance h hk, ha, hd ▸ p.depth_le, .of_ne hr _⟩

theorem readNext_sound {α : Type} {p q : Parser} {expected : Expected} {f : String → Option α}
    {x : α} (h : p.readNext expected f = (.ok x, q)) : f p.peek.text = some x ∧ q = p.advance := by
  rw [readNext] at h
  split at h
  · rename_i hx
    cases h
    exact ⟨hx, rfl⟩
  · cases h

/-- Behind the accessors of a reference comes none. -/
theorem kind_headD_dropWhile (tokens : List Token) :
    ((tokens.dropWhile (·.kind == .accessor)).headD pastEnd).kind ≠ .accessor := by
  induction tokens with
  | nil => decide
  | cons t tokens ih =>
    rw [List.dropWhile_cons]
    split
    · exact ih
    · rename_i h
      simpa using h

/-- All accessors that follow are part of the reference. -/
theorem reference_sound {p q : Parser} {a : Literal} {kind : Token.Kind} (hk : p.peek.kind = kind)
    (hh : IsHead p.peek) (hs : p.peek.kind = .identifier → ¬ p.peekSecond.isPunct "(")
    (h : p.reference = (.ok a, q)) (hne : kind ≠ .endOfInput := by decide) :
    p.ReadsLiteral a q := by
  cases h
  have hacc : ∀ t ∈ p.advance.rest.takeWhile (·.kind == .accessor), t.kind = .accessor :=
    fun t ht => by simpa using List.mem_takeWhile_imp ht
  have htail : p.advance.Reads (p.advance.rest.takeWhile (·.kind == .accessor))
      { p.advance with rest := p.advance.rest.dropWhile (·.kind == .accessor) } :=
    ⟨List.takeWhile_append_dropWhile.symm, rfl, fun t ht => by rw [hacc t ht]; decide⟩
  refine ⟨_, (Reads.advance hk hne).trans htail, .reference hh hacc, p.depth_le, ?_⟩
  rintro head accessors ⟨⟩
  refine ⟨kind_headD_dropWhile _, fun hnil h hm hi => ?_⟩
  have htake := List.map_eq_nil_iff.mp hnil
  have hsplit := List.takeWhile_append_dropWhile (p := (·.kind == .accessor)) (l := p.advance.rest)
  rw [htake, List.nil_append] at hsplit
  rw [htake] at hm
  obtain rfl := List.mem_singleton.mp hm
  show ¬ (List.headD (p.advance.rest.dropWhile (·.kind == .accessor)) pastEnd).isPunct "("
  rw [hsplit]
  exact hs hi

/-- By induction on the nesting that is left. The cases are those of the parser. -/
theorem literalWithin_sound (n : Nat) : Sound (literalWithin n) := by
  induction n with
  | zero => intro p q a h; cases h
  | succ n ih =>
    intro p q a h
    rw [literalWithin] at h
    split at h
    · rename_i hk; cases h; exact .token hk (.null hk) rfl
    · rename_i hk; cases h; exact .token hk (.string hk) rfl
    · rename_i hk
      obtain ⟨hread, rfl⟩ := readNext_sound h
      obtain ⟨n, hn, rfl⟩ := Option.map_eq_some_iff.mp hread
      exact .token hk (.integer hk hn) rfl
    · rename_i hk
      obtain ⟨hread, rfl⟩ := readNext_sound h
      obtain ⟨x, hx, rfl⟩ := Option.map_eq_some_iff.mp hread
      exact .token hk (.float hk hx) rfl
    · rename_i hk; cases h; exact .token hk (.bool hk beq_iff_eq) rfl
    · rename_i hk; exact reference_sound hk (.inl hk) (by rw [hk]; rintro ⟨⟩) h
    · rename_i hk
      split at h
      · exact call_sound ih hk h
      · rename_i hs
        split at h
        · rename_i hw
          refine reference_sound hk (.inr ⟨hk, ?_⟩) (fun _ => hs) h
          cases hc : p.peek.text.toList with
          | nil => rw [hc] at hw; cases hw
          | cons c rest => rw [hc] at hw; exact ⟨c, rest, rfl, hw⟩
        · cases h
    · cases h
    · cases h

/-! ## What is derived is read -/

theorem peek_of_rest {p : Parser} {t : Token} {r : List Token} (h : p.rest = t :: r) :
    p.peek = t := by
  rw [peek, h]; rfl

theorem advance_of_rest {p : Parser} {t : Token} {r : List Token} (h : p.rest = t :: r) :
    p.advance = { p with rest := r } := by
  rw [advance, h]; rfl

theorem readNext_complete {α : Type} {p : Parser} {t : Token} {r : List Token}
    {expected : Expected} {f : String → Option α} {x : α} (h : p.rest = t :: r)
    (hx : f t.text = some x) : p.readNext expected f = (.ok x, { p with rest := r }) := by
  rw [readNext, peek_of_rest h, hx, advance_of_rest h]

theorem expectPunct_complete {p : Parser} {t : Token} {r : List Token} {text : String}
    {expected : Expected} (h : p.rest = t :: r) (ht : t.isPunct text) :
    p.expectPunct text expected = (.ok (), { p with rest := r }) := by
  rw [expectPunct, peek_of_rest h, if_pos ht, advance_of_rest h]

/-- A reference ends where the accessors do. -/
theorem reference_complete {p : Parser} {head : Token} {accessors r : List Token}
    (h : p.rest = head :: (accessors ++ r)) (ha : ∀ t ∈ accessors, t.kind = .accessor)
    (hr : (r.headD pastEnd).kind ≠ .accessor) :
    p.reference =
      (.ok (.reference head.text (accessors.map Token.text)), { p with rest := r }) := by
  have hall : ∀ t ∈ accessors, (t.kind == .accessor) = true := fun t ht => beq_iff_eq.mpr (ha t ht)
  have htake : r.takeWhile (·.kind == .accessor) = [] := by
    cases r with
    | nil => rfl
    | cons t r => exact List.takeWhile_cons_of_neg (by simpa using hr)
  have hdrop : r.dropWhile (·.kind == .accessor) = r := by
    cases r with
    | nil => rfl
    | cons t r => exact List.dropWhile_cons_of_neg (by simpa using hr)
  simp only [reference, peek_of_rest h, advance_of_rest h]
  rw [List.takeWhile_append_of_pos hall, List.dropWhile_append_of_pos hall, htake, hdrop,
    List.append_nil]

/-- A reader of literals that accepts every derivation from at most `n` tokens. -/
def Complete (n : Nat) (read : Parser → Reply Literal) : Prop :=
  ∀ {p u a r}, DerivesLiteral u a → u.length ≤ n → p.rest = u ++ r → Stops u a (r.headD pastEnd) →
    p.depth + a.callDepth ≤ maxCalls → read p = (.ok a, { p with rest := r })

/-- Derived arguments are read to the end, by induction on them. -/
theorem moreArguments_complete {n k : Nat} (hread : Complete n read) {p : Parser}
    {u r : List Token} {closing : Token} {args : List Literal} (du : DerivesMore u args)
    (hn : u.length ≤ n) (hk : u.length ≤ k) (h : p.rest = u ++ closing :: r)
    (hc : closing.isPunct ")") (hd : p.depth + Literal.maxCallDepth args ≤ maxCalls) :
    moreArguments read k p = (.ok args, { p with rest := closing :: r }) := by
  induction args generalizing p u k with
  | nil =>
    cases du
    have hcomma : ¬ closing.isPunct "," := fun hc' =>
      absurd ((Token.isPunct_iff.mp hc).2.symm.trans (Token.isPunct_iff.mp hc').2) (by decide)
    have hp : { p with rest := closing :: r } = p := by rw [← List.nil_append (closing :: r), ← h]
    cases k with
    | zero => rw [moreArguments, hp]
    | succ k => rw [moreArguments, peek_of_rest h, if_neg hcomma, hp]
  | cons arg args ih =>
    rcases du with _ | @⟨comma, u, v, _, _, hcomma, du, dv⟩
    simp only [List.length_cons, List.length_append, Literal.maxCallDepth] at hn hk hd
    rw [List.cons_append, List.append_assoc] at h
    obtain ⟨k, rfl⟩ : ∃ k', k = k' + 1 := ⟨k - 1, by omega⟩
    have harg := hread (p := { p with rest := u ++ (v ++ closing :: r) }) du (by omega) rfl
      ((dv.follows (.of_isPunct hc)).stops u arg) (show p.depth + _ ≤ _ by omega)
    have hargs := ih (p := { p with rest := v ++ closing :: r }) dv (by omega) (k := k) (by omega)
      rfl (show p.depth + _ ≤ _ by omega)
    rw [moreArguments, peek_of_rest h, if_pos hcomma, advance_of_rest h, harg]
    simp only [hargs]

theorem arguments_complete {n : Nat} (hread : Complete n read) {p : Parser} {u r : List Token}
    {closing : Token} {args : List Literal} (du : DerivesArguments u args) (hn : u.length ≤ n)
    (h : p.rest = u ++ closing :: r) (hc : closing.isPunct ")")
    (hd : p.depth + Literal.maxCallDepth args ≤ maxCalls) :
    arguments read p = (.ok args, { p with rest := r }) := by
  rcases du with _ | @⟨t, u, v, arg, args, ht, du, dv⟩
  · rw [List.nil_append] at h
    rw [arguments, peek_of_rest h, if_pos hc]
    simp only [expectPunct_complete h hc]
  · simp only [List.length_append, Literal.maxCallDepth] at hn hd
    rw [List.append_assoc] at h
    have harg := hread du (by omega) h ((dv.follows (.of_isPunct hc)).stops _ arg) (by omega)
    have hargs := moreArguments_complete (p := { p with rest := v ++ closing :: r })
      (k := (v ++ closing :: r).length) hread dv (by omega)
      (by rw [List.length_append]; omega) rfl hc (show p.depth + _ ≤ _ by omega)
    have hclose : expectPunct { p with rest := closing :: r } ")" .closeParen = _ :=
      expectPunct_complete rfl hc
    rw [arguments, peek_of_rest h, if_neg ht, harg]
    simp only [hargs, hclose]

theorem call_complete {n : Nat} (hread : Complete n read) {p : Parser} {u r : List Token}
    {name opening closing : Token} {args : List Literal} (du : DerivesArguments u args)
    (hn : u.length ≤ n) (h : p.rest = name :: opening :: (u ++ closing :: r))
    (ho : opening.isPunct "(") (hc : closing.isPunct ")")
    (hd : p.depth + (1 + Literal.maxCallDepth args) ≤ maxCalls) :
    call read p = (.ok (.call name.text args), { p with rest := r }) := by
  have hlt : p.depth < maxCalls := by omega
  have hargs := arguments_complete
    (p := Parser.enter { p with rest := u ++ closing :: r } hlt) hread du hn rfl hc
    (show p.depth + 1 + _ ≤ _ by omega)
  have hpeek : Parser.peek { p with rest := opening :: (u ++ closing :: r) } = opening := rfl
  have hadvance := advance_of_rest (p := { p with rest := opening :: (u ++ closing :: r) }) rfl
  simp only [call, peek_of_rest h, advance_of_rest h, dif_pos hlt, hpeek, if_pos ho, hadvance,
    hargs]
  rfl

/-- By induction on the nesting that is left. The cases are those of the derivation. -/
theorem literalWithin_complete (n : Nat) : Complete n (literalWithin n) := by
  induction n with
  | zero =>
    intro p u a r du hn
    obtain ⟨t, v, rfl⟩ := du.exists_cons
    cases hn
  | succ n ih =>
    intro p u a r du hn h hr hd
    cases du with
    | @null t ht =>
      have h : p.rest = t :: r := h
      rw [literalWithin, peek_of_rest h, ht, advance_of_rest h]
    | @string t ht =>
      have h : p.rest = t :: r := h
      rw [literalWithin, peek_of_rest h, ht, advance_of_rest h]
    | @integer t m ht hm =>
      have h : p.rest = t :: r := h
      rw [literalWithin, peek_of_rest h, ht]
      exact readNext_complete h (by rw [hm]; rfl)
    | @float t x ht hx =>
      have h : p.rest = t :: r := h
      rw [literalWithin, peek_of_rest h, ht]
      exact readNext_complete h (by rw [hx]; rfl)
    | @bool t b ht hb =>
      have h : p.rest = t :: r := h
      have hb : (t.text == "true") = b := by rw [Bool.eq_iff_iff, beq_iff_eq, hb]
      rw [literalWithin, peek_of_rest h, ht, advance_of_rest h]
      simp only [hb]
    | @call name opening closing u args hname ho du hc =>
      have h : p.rest = name :: opening :: (u ++ closing :: r) := by simpa using h
      have hsecond : p.peekSecond = opening := by rw [peekSecond, h]; rfl
      simp only [List.length_cons, List.length_append] at hn
      rw [literalWithin, peek_of_rest h, hname]
      simp only [hsecond, if_pos ho]
      exact call_complete ih du (by omega) h ho hc hd
    | @reference head accessors hh ha =>
      have h : p.rest = head :: (accessors ++ r) := h
      rw [literalWithin, peek_of_rest h]
      obtain ⟨hacc, hopen⟩ := hr _ _ rfl
      rcases hh with hk | ⟨hk, c, rest, hc, hw⟩
      · rw [hk]
        exact reference_complete h ha hacc
      · have hsecond : ¬ p.peekSecond.isPunct "(" := by
          rw [peekSecond, h]
          exact not_opening ha fun hnil => hopen (by simp [hnil]) head List.mem_cons_self hk
        rw [hk]
        simp only [if_neg hsecond, hc, List.head?_cons, Option.any_some, hw, if_true]
        exact reference_complete h ha hacc

/-! ## Whole expressions -/

theorem atEnd_iff {p : Parser} : AtEnd p.rest ↔ p.peek.kind = .endOfInput := by
  cases h : p.rest with
  | nil => rw [peek, h]; exact ⟨fun _ => rfl, fun _ => trivial⟩
  | cons t r => rw [peek, h]; exact Iff.rfl

theorem finish_sound {p q : Parser} {e e' : Expression} (h : p.finish e = (.ok e', q)) :
    e' = e ∧ q = p ∧ AtEnd p.rest := by
  rw [finish] at h
  split at h
  · rename_i hk
    cases h
    exact ⟨rfl, rfl, atEnd_iff.mpr (beq_iff_eq.mp hk)⟩
  · cases h

/-- What is read as an expression is derived, and nothing is left behind it. -/
theorem expression_sound {p q : Parser} {e : Expression} (hd : p.depth = 0)
    (h : p.expression = (.ok e, q)) :
    ∃ u, p.Reads u q ∧ Derives u e ∧ AtEnd q.rest := by
  rw [expression] at h
  split at h
  · cases h
  · rename_i a p₁ h₁
    obtain ⟨u, hu, du, bu, -⟩ := literalWithin_sound _ h₁
    rw [hd, Nat.zero_add] at bu
    split at h
    · rename_i hk
      have hk : p₁.peek.kind = .operator := beq_iff_eq.mp hk
      split at h
      · cases h
      · rename_i op p₂ h₂
        obtain ⟨hop, rfl⟩ := readNext_sound h₂
        split at h
        · cases h
        · rename_i b p₃ h₃
          obtain ⟨v, hv, dv, bv, -⟩ := literalWithin_sound _ h₃
          obtain ⟨rfl, rfl, hend⟩ := finish_sound h
          have hd₂ : p₁.advance.depth = 0 := hu.depth.trans hd
          rw [hd₂, Nat.zero_add] at bv
          refine ⟨_, hu.trans ((Reads.advance hk).trans hv), ?_, hend⟩
          exact .binary du bu hk (Operator.symbol_of_ofSymbol? hop).symm dv bv
    · obtain ⟨rfl, rfl, hend⟩ := finish_sound h
      exact ⟨u, hu, .literal du bu, hend⟩

/-- A derived literal is read. Each of its calls takes tokens, so that the nesting does not run
out. -/
theorem literal_complete {p : Parser} {u r : List Token} {a : Literal} (du : DerivesLiteral u a)
    (h : p.rest = u ++ r) (hr : Stops u a (r.headD pastEnd))
    (hd : p.depth + a.callDepth ≤ maxCalls) : p.literal = (.ok a, { p with rest := r }) := by
  refine literalWithin_complete _ du ?_ h hr hd
  rw [h, List.length_append]
  exact Nat.le_add_right _ _

/-- Behind a left operand and an operator the right operand is read. -/
theorem expression_of_operator {p : Parser} {u r : List Token} {t : Token} {a : Literal}
    {op : Operator} (hd : p.depth = 0) (du : DerivesLiteral u a) (bu : a.callDepth ≤ maxCalls)
    (ht : t.kind = .operator) (ho : t.text = op.symbol) (h : p.rest = u ++ t :: r) :
    p.expression = match Parser.literal { p with rest := r } with
      | (.error e, q) => (.error e, q)
      | (.ok b, q) => q.finish ⟨a, some (op, b)⟩ := by
  have hlhs := literal_complete du h ((Follows.of_kind ht).stops _ _) (by rwa [hd, Nat.zero_add])
  have hop : Operator.ofSymbol? t.text = some op := by rw [ho]; exact Operator.ofSymbol?_symbol op
  have hpeek : (Parser.peek { p with rest := t :: r }).kind = .operator := ht
  have hread : readNext { p with rest := t :: r } .operator Operator.ofSymbol? = _ :=
    readNext_complete rfl hop
  rw [expression, hlhs]
  simp only
  rw [if_pos (beq_iff_eq.mpr hpeek)]
  exact hread ▸ rfl

/-- A derived expression is read. -/
theorem expression_complete {p : Parser} {u r : List Token} {e : Expression} (hd : p.depth = 0)
    (du : Derives u e) (h : p.rest = u ++ r) (hr : AtEnd r) :
    p.expression = (.ok e, { p with rest := r }) := by
  have hend : (Parser.peek { p with rest := r }).kind = .endOfInput := atEnd_iff.mp hr
  have hfinish : ∀ e, finish { p with rest := r } e = (.ok e, { p with rest := r }) := fun e => by
    rw [finish, hend]; rfl
  cases du with
  | literal du bu =>
    have hlhs := literal_complete du h (hr.follows.stops _ _) (by rwa [hd, Nat.zero_add])
    rw [expression, hlhs]
    simp only [hend]
    exact hfinish _
  | @binary u v t a b op du bu ht ho dv bv =>
    rw [List.append_assoc, List.cons_append] at h
    have hb := literal_complete (p := { p with rest := v ++ r }) dv rfl (hr.follows.stops _ _)
      (show p.depth + _ ≤ _ by rw [hd, Nat.zero_add]; exact bv)
    rw [expression_of_operator hd du bu ht ho h, hb]
    exact hfinish _

end Parser

namespace Expression

theorem ofTokens_of_derives {tokens : List Token} {e : Expression}
    (h : Derives (beforeEnd tokens) e) : ofTokens tokens = .ok e := by
  obtain ⟨r, ht, hr⟩ := exists_beforeEnd tokens
  rw [ofTokens, Parser.expression_complete (p := .ofTokens tokens) rfl h ht hr]

theorem derives_of_ofTokens {tokens : List Token} {e : Expression} (h : ofTokens tokens = .ok e) :
    Derives (beforeEnd tokens) e := by
  obtain ⟨u, hu, du, hend⟩ := Parser.expression_sound (p := .ofTokens tokens) rfl (Prod.ext h rfl)
  have ht : tokens = u ++ _ := hu.rest
  rw [ht, beforeEnd_append hu.noEnd hend]
  exact du

/-- The parser accepts exactly the grammar: the tokens in front of the end of input derive the
expression that they are read as, and there is no other that they derive. -/
theorem ofTokens_eq_ok_iff_derives (tokens : List Token) :
    (∀ e, ofTokens tokens = .ok e ↔ Derives (beforeEnd tokens) e) ∧
      ∀ e e', Derives (beforeEnd tokens) e → Derives (beforeEnd tokens) e' → e = e' := by
  refine ⟨fun e => ⟨derives_of_ofTokens, ofTokens_of_derives⟩, fun e e' h h' => ?_⟩
  exact Except.ok.inj ((ofTokens_of_derives h).symm.trans (ofTokens_of_derives h'))

end Expression

end WorkflowCondition
