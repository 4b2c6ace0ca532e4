import WorkflowCondition.Expression.Parser

/-!
# The count of open calls

`Parser.depth` is bounded by its type and stops at zero. Here the same parser counts its open calls
with an integer that nothing holds within bounds: one more where a call is entered, one less where
it is left, and every value that the count has had is kept. `CountingParser.mirrors_expression`
says that it gives the replies of `Parser.expression` and ends in front of the same tokens, that no
value of the count was ever below zero or above `maxCalls`, and that the count is the one it started
with, also behind an error. What is said of the tokens that are left (`Parser.Keeps`) is proved in
the same induction.
-/

namespace WorkflowCondition

/-! ## Steps between two tokens -/

namespace Parser

/-- A step from `p` to `q` only consumes tokens, and leaves as many calls open as there were. -/
structure Keeps (p q : Parser) : Prop where
  suffix : q.rest <:+ p.rest
  depth : q.depth = p.depth

theorem Keeps.refl (p : Parser) : p.Keeps p :=
  ⟨List.suffix_refl _, rfl⟩

theorem Keeps.trans {p q r : Parser} (h : p.Keeps q) (h' : q.Keeps r) : p.Keeps r :=
  ⟨h'.suffix.trans h.suffix, h'.depth.trans h.depth⟩

theorem Keeps.advance (p : Parser) : p.Keeps p.advance :=
  ⟨List.tail_suffix _, rfl⟩

/-- A call that is entered is left at the depth around it. -/
theorem Keeps.enter {p q : Parser} {hd : p.depth < maxCalls} (h : (p.enter hd).Keeps q) :
    p.Keeps q.leave := by
  have hdepth : q.depth = p.depth + 1 := h.depth
  refine ⟨h.suffix, ?_⟩
  show q.depth - 1 = p.depth
  omega

variable {α : Type}

/-- A step that neither looks at the count of open calls nor changes it. -/
structure IsPlain (step : Parser → Reply α) : Prop where
  suffix (p : Parser) : (step p).2.rest <:+ p.rest
  eq (p : Parser) : step p =
    ((step (ofTokens p.rest)).1, { p with rest := (step (ofTokens p.rest)).2.rest })

theorem isPlain_refuse (expected : Expected) :
    IsPlain fun p => (p.refuse expected : Reply α) :=
  ⟨fun p => List.suffix_refl p.rest, fun _ => rfl⟩

theorem isPlain_readNext (expected : Expected) (f : String → Option α) :
    IsPlain (·.readNext expected f) := by
  have hpeek (p : Parser) : (ofTokens p.rest).peek = p.peek := rfl
  refine ⟨fun p => ?_, fun p => ?_⟩
  · simp only [readNext]
    split <;> exact List.tail_suffix _
  · simp only [readNext, hpeek]
    split <;> rfl

theorem isPlain_expectPunct (text : String) (expected : Expected) :
    IsPlain (·.expectPunct text expected) := by
  have hpeek (p : Parser) : (ofTokens p.rest).peek = p.peek := rfl
  refine ⟨fun p => ?_, fun p => ?_⟩
  · simp only [expectPunct]
    split
    · exact List.tail_suffix _
    · exact List.suffix_refl _
  · simp only [expectPunct, hpeek]
    split <;> rfl

theorem isPlain_reference : IsPlain reference :=
  ⟨fun p => (List.dropWhile_suffix _).trans (List.tail_suffix p.rest), fun _ => rfl⟩

theorem isPlain_finish (e : Expression) : IsPlain (·.finish e) := by
  have hpeek (p : Parser) : (ofTokens p.rest).peek = p.peek := rfl
  refine ⟨fun p => ?_, fun p => ?_⟩
  · simp only [finish]
    split <;> exact List.suffix_refl _
  · simp only [finish, hpeek]
    split <;> rfl

/-! ## The steps of a parser one after another -/

end Parser

/-- Goes on with an answer from the state behind it; an error ends the run. -/
def andThen {σ α β : Type} (x : Except Error α × σ) (f : α → σ → Except Error β × σ) :
    Except Error β × σ :=
  match x with
  | (.error e, s) => (.error e, s)
  | (.ok a, s) => f a s

namespace Parser

variable {read : Parser → Reply Literal}

theorem moreArguments_succ (n : Nat) (p : Parser) : moreArguments read (n + 1) p =
    if p.peek.isPunct "," then
      andThen (read p.advance) fun arg p =>
        andThen (moreArguments read n p) fun args p => (.ok (arg :: args), p)
    else (.ok [], p) := by
  rw [moreArguments]
  congr 1
  obtain ⟨_ | arg, q⟩ := read p.advance
  · rfl
  · simp only [andThen]
    obtain ⟨_ | args, r⟩ := moreArguments read n q <;> rfl

theorem arguments_eq (p : Parser) : arguments read p =
    andThen
      (if p.peek.isPunct ")" then (.ok [], p)
        else andThen (read p) fun arg p =>
          andThen (moreArguments read p.rest.length p) fun args p => (.ok (arg :: args), p))
      fun args p =>
        andThen (p.expectPunct ")" .closeParen) fun _ p => (.ok args, p) := by
  rw [arguments]
  by_cases hp : p.peek.isPunct ")"
  · rw [if_pos hp, if_pos hp]
    simp only [andThen]
    obtain ⟨_ | _, q⟩ := p.expectPunct ")" .closeParen <;> rfl
  · rw [if_neg hp, if_neg hp]
    obtain ⟨_ | arg, q⟩ := read p
    · rfl
    · simp only [andThen]
      obtain ⟨_ | args, r⟩ := moreArguments read q.rest.length q
      · rfl
      · simp only
        obtain ⟨_ | _, s⟩ := r.expectPunct ")" .closeParen <;> rfl

/-- A call, with what is done inside of it as one reply. -/
theorem call_eq (p : Parser) : call read p =
    if h : p.advance.depth < maxCalls then
      if p.advance.peek.isPunct "(" then
        let x := arguments read (p.advance.advance.enter h)
        (x.1.map (.call p.peek.text), x.2.leave)
      else p.advance.refuse .openParen
    else (.error (.unexpectedToken (.nesting maxCalls) p.peek), p.advance) := by
  rw [call]
  split
  · rename_i hd
    congr 1
    obtain ⟨_ | args, q⟩ := arguments read (p.advance.advance.enter hd) <;> rfl
  · rfl

theorem expression_eq (p : Parser) : p.expression =
    andThen p.literal fun lhs p =>
      if p.peek.kind == .operator then
        andThen (p.readNext .operator Operator.ofSymbol?) fun op p =>
          andThen p.literal fun rhs p => p.finish ⟨lhs, some (op, rhs)⟩
      else p.finish ⟨lhs, none⟩ := by
  rw [expression]
  obtain ⟨_ | lhs, q⟩ := p.literal
  · rfl
  · simp only [andThen]
    congr 1
    obtain ⟨_ | op, r⟩ := q.readNext .operator Operator.ofSymbol?
    · rfl
    · simp only
      obtain ⟨_ | rhs, s⟩ := r.literal <;> rfl

end Parser

/-! ## The counting parser -/

/-- A parser with an integer for the count of its open calls, and the counts before. -/
structure CountingParser where
  rest : List Token
  count : Int
  past : List Int

namespace CountingParser

/-- A result, or an error, and where the parser stands afterwards. -/
abbrev Reply (α : Type) :=
  Except Error α × CountingParser

variable {α : Type}

/-- A parser in front of all tokens, which has counted no call yet. -/
def ofTokens (tokens : List Token) : CountingParser :=
  ⟨tokens, 0, []⟩

/-- All the counts so far. -/
def counts (c : CountingParser) : List Int :=
  c.count :: c.past

/-- The same tokens in front of a parser that is inside no call. -/
def outside (c : CountingParser) : Parser :=
  .ofTokens c.rest

/-- The next token. -/
def peek (c : CountingParser) : Token :=
  c.outside.peek

/-- Behind the next token, with the same counts. -/
def advance (c : CountingParser) : CountingParser :=
  { c with rest := c.outside.advance.rest }

/-- One more call is open. -/
def enter (c : CountingParser) : CountingParser :=
  { c with count := c.count + 1, past := c.counts }

/-- One call less is open. -/
def leave (c : CountingParser) : CountingParser :=
  { c with count := c.count - 1, past := c.counts }

/-- A step that has nothing to do with the count. -/
def plain (step : Parser → Parser.Reply α) (c : CountingParser) : Reply α :=
  ((step c.outside).1, { c with rest := (step c.outside).2.rest })

/-- The arguments behind commas, as in `Parser.moreArguments`. -/
def moreArguments (literal : CountingParser → Reply Literal) :
    Nat → CountingParser → Reply (List Literal)
  | 0, c => (.ok [], c)
  | n + 1, c =>
    if c.peek.isPunct "," then
      andThen (literal c.advance) fun arg c =>
        andThen (moreArguments literal n c) fun args c => (.ok (arg :: args), c)
    else (.ok [], c)

/-- The arguments of a call and its closing parenthesis, as in `Parser.arguments`. -/
def arguments (literal : CountingParser → Reply Literal) (c : CountingParser) :
    Reply (List Literal) :=
  andThen
    (if c.peek.isPunct ")" then (.ok [], c)
      else andThen (literal c) fun arg c =>
        andThen (moreArguments literal c.rest.length c) fun args c => (.ok (arg :: args), c))
    fun args c =>
      andThen (c.plain (·.expectPunct ")" .closeParen)) fun _ c => (.ok args, c)

/-- A call. It is left again also when its arguments have an error. -/
def call (literal : CountingParser → Reply Literal) (c : CountingParser) : Reply Literal :=
  if c.advance.count < maxCalls then
    if c.advance.peek.isPunct "(" then
      let x := arguments literal c.advance.advance.enter
      (x.1.map (.call c.peek.text), x.2.leave)
    else c.advance.plain (·.refuse .openParen)
  else (.error (.unexpectedToken (.nesting maxCalls) c.peek), c.advance)

/-- A literal of at most so much nesting, as in `Parser.literalWithin`. -/
def literalWithin : Nat → CountingParser → Reply Literal
  | 0, c => c.plain (·.refuse .literal)
  | n + 1, c =>
    match c.peek.kind with
    | .null => (.ok .null, c.advance)
    | .string => (.ok (.string c.peek.text), c.advance)
    | .integer => c.plain (·.readNext .integer fun text => (readInteger? text).map .int)
    | .float => c.plain (·.readNext .float fun text => (readBinary64? text).map .float)
    | .bool => (.ok (.bool (c.peek.text == "true")), c.advance)
    | .root => c.plain Parser.reference
    | .identifier =>
      if c.outside.peekSecond.isPunct "(" then c.call (literalWithin n)
      else if c.peek.text.toList.head?.any isWordStart then c.plain Parser.reference
      else c.plain (·.refuse .literal)
    | .not => (.error (.unsupported c.peek), c)
    | _ => c.plain (·.refuse .literal)

/-- A literal, with room for as many calls as there are tokens. -/
def literal (c : CountingParser) : Reply Literal :=
  literalWithin c.rest.length c

/-- One expression, as in `Parser.expression`. -/
def expression (c : CountingParser) : Reply Expression :=
  andThen c.literal fun lhs c =>
    if c.peek.kind == .operator then
      andThen (c.plain (·.readNext .operator Operator.ofSymbol?)) fun op c =>
        andThen c.literal fun rhs c => c.plain (·.finish ⟨lhs, some (op, rhs)⟩)
    else c.plain (·.finish ⟨lhs, none⟩)

/-! ## The two parsers step for step -/

/-- The parsers `c` and `p` are in front of the same tokens inside as many calls, and no count of
`c` so far was out of bounds. -/
structure Matches (c : CountingParser) (p : Parser) : Prop where
  rest : c.rest = p.rest
  count : c.count = p.depth
  bounds : ∀ n ∈ c.counts, 0 ≤ n ∧ n ≤ maxCalls

/-- Two replies agree: after steps from a parser that matched `p` and from `p`, the answers are the
same and the parsers match again. -/
def Agree (p : Parser) (x : Reply α) (y : Parser.Reply α) : Prop :=
  ∃ reply c' p', x = (reply, c') ∧ y = (reply, p') ∧ c'.Matches p' ∧ p.Keeps p'

/-- From parsers that match, two steps give replies that agree. -/
def Mirrors (counting : CountingParser → Reply α) (step : Parser → Parser.Reply α) : Prop :=
  ∀ {c p}, c.Matches p → Agree p (counting c) (step p)

section
variable {c : CountingParser} {p : Parser}

theorem Matches.peek (h : c.Matches p) : c.peek = p.peek := by
  show c.rest.headD _ = p.rest.headD _
  rw [h.rest]

theorem Matches.peekSecond (h : c.Matches p) : c.outside.peekSecond = p.peekSecond := by
  show c.rest.tail.headD _ = p.rest.tail.headD _
  rw [h.rest]

theorem Matches.with_rest (h : c.Matches p) (rest : List Token) :
    Matches { c with rest } { p with rest } :=
  ⟨rfl, h.count, h.bounds⟩

theorem Matches.advance (h : c.Matches p) : c.advance.Matches p.advance := by
  have htail : c.outside.advance.rest = p.advance.rest := by
    show c.rest.tail = p.rest.tail
    rw [h.rest]
  exact ⟨htail, h.count, h.bounds⟩

/-- The new count is within the bounds, as the parser may enter only below the limit. -/
theorem Matches.enter (h : c.Matches p) (hd : p.depth < maxCalls) :
    c.enter.Matches (p.enter hd) := by
  have hcount := h.count
  refine ⟨h.rest, ?_, fun n hn => ?_⟩
  · show c.count + 1 = ((p.depth + 1 : Nat) : Int)
    omega
  · obtain rfl | hn := List.mem_cons.mp hn
    · show 0 ≤ c.count + 1 ∧ c.count + 1 ≤ maxCalls
      omega
    · exact h.bounds n hn

/-- The count does not fall below zero, as a call is open. -/
theorem Matches.leave (h : c.Matches p) (hd : 0 < p.depth) : c.leave.Matches p.leave := by
  have hcount := h.count
  have hle := p.depth_le
  refine ⟨h.rest, ?_, fun n hn => ?_⟩
  · show c.count - 1 = ((p.depth - 1 : Nat) : Int)
    omega
  · obtain rfl | hn := List.mem_cons.mp hn
    · show 0 ≤ c.count - 1 ∧ c.count - 1 ≤ maxCalls
      omega
    · exact h.bounds n hn

end

/-- A step that does not look at the calls is the same for both parsers. -/
theorem mirrors_plain {step : Parser → Parser.Reply α} (hs : Parser.IsPlain step) :
    Mirrors (plain step) step := by
  intro c p h
  have houtside : c.outside = .ofTokens p.rest := by rw [outside, h.rest]
  have hrest : (step p).2.rest = (step (.ofTokens p.rest)).2.rest := by rw [hs.eq p]
  refine ⟨_, _, _, rfl, ?_, h.with_rest _, ?_, rfl⟩
  · rw [houtside, ← hs.eq p]
  · show (step c.outside).2.rest <:+ p.rest
    rw [houtside, ← hrest]
    exact hs.suffix p

theorem Agree.of_keeps {p q : Parser} {x : Reply α} {y : Parser.Reply α} (h : Agree q x y)
    (k : p.Keeps q) : Agree p x y := by
  obtain ⟨reply, c', p', hx, hy, h', k'⟩ := h
  exact ⟨reply, c', p', hx, hy, h', k.trans k'⟩

/-- Behind replies that agree, an error ends both runs and with an answer both go on. -/
theorem Agree.andThen {β : Type} {p : Parser} {x : Reply α} {y : Parser.Reply α} (h : Agree p x y)
    {f : α → CountingParser → Reply β} {g : α → Parser → Parser.Reply β}
    (hfg : ∀ a, Mirrors (f a) (g a)) : Agree p (andThen x f) (andThen y g) := by
  obtain ⟨reply, c', p', rfl, rfl, h', k⟩ := h
  cases reply with
  | error e => exact ⟨_, c', p', rfl, rfl, h', k⟩
  | ok a => exact (hfg a h').of_keeps k

theorem mirrors_ok (a : α) : Mirrors (fun c => (.ok a, c)) (fun p => (.ok a, p)) :=
  fun {c p} h => ⟨_, c, p, rfl, rfl, h, .refl p⟩

theorem mirrors_advance (a : α) :
    Mirrors (fun c => (.ok a, c.advance)) (fun p => (.ok a, p.advance)) :=
  fun {_ p} h => (mirrors_ok a h.advance).of_keeps (.advance p)

variable {counting : CountingParser → Reply Literal} {read : Parser → Parser.Reply Literal}

/-- By induction on the number of arguments that may follow. -/
theorem mirrors_moreArguments (hr : Mirrors counting read) (n : Nat) :
    Mirrors (moreArguments counting n) (Parser.moreArguments read n) := by
  induction n with
  | zero => exact mirrors_ok []
  | succ n ih =>
    intro c p h
    rw [moreArguments, Parser.moreArguments_succ, h.peek]
    split
    · refine ((hr h.advance).of_keeps (.advance p)).andThen fun arg c p h => ?_
      exact (ih h).andThen fun args => mirrors_ok (arg :: args)
    · exact mirrors_ok [] h

theorem mirrors_arguments (hr : Mirrors counting read) :
    Mirrors (arguments counting) (Parser.arguments read) := by
  intro c p h
  rw [arguments, Parser.arguments_eq, h.peek]
  refine Agree.andThen ?_ fun args c p h => ?_
  · split
    · exact mirrors_ok [] h
    · refine (hr h).andThen fun arg c p h => ?_
      rw [h.rest]
      exact (mirrors_moreArguments hr _ h).andThen fun args => mirrors_ok (arg :: args)
  · exact (mirrors_plain (Parser.isPlain_expectPunct ")" .closeParen) h).andThen fun _ =>
      mirrors_ok args

/-- The only step that changes the count. It undoes the change also on an error. -/
theorem mirrors_call (hr : Mirrors counting read) : Mirrors (call counting) (Parser.call read) := by
  intro c p h
  have hadvance := h.advance
  have hguard : c.advance.count < maxCalls ↔ p.advance.depth < maxCalls := by
    rw [hadvance.count]
    omega
  rw [call, Parser.call_eq, h.peek, hadvance.peek]
  simp only [hguard]
  refine Agree.of_keeps ?_ (.advance p)
  split
  · rename_i hd
    split
    · obtain ⟨reply, c', p', hc, hp, h', k⟩ := mirrors_arguments hr (hadvance.advance.enter hd)
      have hopen : p'.depth = p.depth + 1 := k.depth
      rw [hc, hp]
      exact ⟨_, c'.leave, p'.leave, rfl, rfl, h'.leave (by omega),
        (Parser.Keeps.advance _).trans (.enter k)⟩
    · exact mirrors_plain (Parser.isPlain_refuse .openParen) hadvance
  · exact ⟨_, c.advance, p.advance, rfl, rfl, hadvance, .refl _⟩

/-- By induction on the nesting that is left, with the calls inside as the hypothesis. -/
theorem mirrors_literalWithin (n : Nat) : Mirrors (literalWithin n) (Parser.literalWithin n) := by
  induction n with
  | zero => exact mirrors_plain (Parser.isPlain_refuse .literal)
  | succ n ih =>
    intro c p h
    rw [literalWithin, Parser.literalWithin, h.peek, h.peekSecond]
    cases p.peek.kind with
    | null => exact mirrors_advance Literal.null h
    | string => exact mirrors_advance (Literal.string p.peek.text) h
    | bool => exact mirrors_advance (Literal.bool (p.peek.text == "true")) h
    | integer | float => exact mirrors_plain (Parser.isPlain_readNext _ _) h
    | root => exact mirrors_plain Parser.isPlain_reference h
    | identifier =>
      simp only
      split
      · exact mirrors_call ih h
      · split
        · exact mirrors_plain Parser.isPlain_reference h
        · exact mirrors_plain (Parser.isPlain_refuse .literal) h
    | not => exact ⟨_, c, p, rfl, rfl, h, .refl p⟩
    | whitespace | accessor | operator | endOfInput =>
      exact mirrors_plain (Parser.isPlain_refuse .literal) h

theorem mirrors_literal : Mirrors literal Parser.literal := by
  intro c p h
  rw [literal, Parser.literal, h.rest]
  exact mirrors_literalWithin p.rest.length h

/-- The counting parser gives the replies of the parser, its count stays within bounds, and no call
is left open, whatever the reply is. -/
theorem mirrors_expression : Mirrors expression Parser.expression := by
  intro c p h
  rw [expression, Parser.expression_eq]
  refine (mirrors_literal h).andThen fun lhs c p h => ?_
  rw [h.peek]
  split
  · refine (mirrors_plain (Parser.isPlain_readNext _ _) h).andThen fun op c p h => ?_
    exact (mirrors_literal h).andThen fun rhs => mirrors_plain (Parser.isPlain_finish _)
  · exact mirrors_plain (Parser.isPlain_finish _) h

end CountingParser

end WorkflowCondition
