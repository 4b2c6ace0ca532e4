import WorkflowCondition.Proofs.Expression.Failure
import WorkflowCondition.Proofs.Expression.Recognition

/-!
# The parser fails where tokens leave the grammar

`Parser.literalWithin_fails`: where no literal is read, the tokens leave the grammar at the token
that is reported (`Grammar.FailsLiteral`). `Parser.literalWithin_error`: where they leave it, the
parser fails with that error, whatever follows. Together, `Expression.ofTokens_eq_error_iff`: the
error for tokens is that of the token at which they leave the grammar of expressions.
-/

namespace WorkflowCondition

open Grammar

namespace Parser

variable {read : Parser → Reply Literal}

/-- Some of the tokens in front of the parser leave a literal with the error. -/
def FailsAt (p : Parser) (e : Error) : Prop :=
  ∃ u r, p.rest = u ++ r ∧
    FailsLiteral p.depth u (r.headD pastEnd) ((r.tail.headD pastEnd).isPunct "(") e

/-- From `p`, behind the opening parenthesis of a call, to `q` there are arguments; the token behind
the last one is not part of it. -/
inductive ReadsArgument (p q : Parser) : Prop
  | intro (v : List Token) (s : Token) (w : List Token) (a : Literal)
      (hread : p.Reads (v ++ s :: w) q) (hv : Precedes s p.depth v)
      (hw : DerivesLiteral (s :: w) a) (hd : p.depth + a.callDepth ≤ maxCalls)
      (hs : Stops (s :: w) a q.peek)

/-- From `p`, behind the opening parenthesis of a call, there are arguments, and then one that is
left with the error. -/
def FailsArgument (p : Parser) (e : Error) : Prop :=
  ∃ v q, p.Reads v q ∧ Precedes q.peek p.depth v ∧ q.FailsAt e

/-- A reader of literals that fails only where a literal is left, in front of `n` tokens at most. -/
def Failing (n : Nat) (read : Parser → Reply Literal) : Prop :=
  ∀ {p q e}, p.rest.length ≤ n → read p = (.error e, q) → p.FailsAt e

/-! ## What is not read is left -/

theorem Reads.length_lt {p q : Parser} {t : Token} {u : List Token} (h : p.Reads (t :: u) q) :
    q.rest.length < p.rest.length := by
  rw [h.rest, List.length_append, List.length_cons]
  omega

theorem ReadsLiteral.length_lt {p q : Parser} {a : Literal} (h : p.ReadsLiteral a q) :
    q.rest.length < p.rest.length := by
  obtain ⟨u, hu, du, -⟩ := h
  obtain ⟨t, u, rfl⟩ := du.exists_cons
  exact hu.length_lt

/-- A literal that is read behind a parenthesis or a comma is an argument. -/
theorem ReadsLiteral.argument {p p₁ q : Parser} {v : List Token} {a : Literal}
    (h : p₁.ReadsLiteral a q) (hv : p.Reads v p₁) (hp : Precedes p₁.peek p.depth v) :
    p.ReadsArgument q := by
  obtain ⟨u, hu, du, bu, hs⟩ := h
  obtain ⟨s, w, rfl⟩ := du.exists_cons
  rw [hu.head_eq_peek] at hp
  exact ⟨v, s, w, a, hv.trans hu, hp, du, hv.depth ▸ bu, hs⟩

/-- Behind a comma stands the place of the next argument. -/
theorem ReadsArgument.comma {p q : Parser} (h : p.ReadsArgument q) (hc : q.peek.isPunct ",") :
    ∃ v, p.Reads v q.advance ∧ Precedes q.advance.peek p.depth v := by
  obtain ⟨v, s, w, a, hread, hv, hw, hd, -⟩ := h
  obtain ⟨args, hargs, hne, hmax⟩ := hv.derives hw hd
  exact ⟨_, hread.trans (.advance_punct hc), .later hargs hne hmax hc⟩

/-- What a reply to arguments means behind `p`: they end in front of what is no comma, or one of
them is left. -/
def ArgumentsEnd (p : Parser) : Reply (List Literal) → Prop
  | (.ok _, q) => p.ReadsArgument q ∧ ¬ q.peek.isPunct ","
  | (.error e, _) => p.FailsArgument e

/-- The loop ends in front of no comma, or an argument is left. There are enough turns for that. -/
theorem moreArguments_ends {n m : Nat} (hr : Sound read) (hf : Failing n read) {p p₁ : Parser}
    (h : p.ReadsArgument p₁) (hn : p₁.rest.length ≤ n) (hm : p₁.rest.length ≤ m) :
    p.ArgumentsEnd (moreArguments read m p₁) := by
  induction m generalizing p₁ with
  | zero =>
    have hend : p₁.peek = pastEnd := by
      rw [peek, List.eq_nil_of_length_eq_zero (Nat.le_zero.mp hm)]
      rfl
    exact ⟨h, by rw [hend]; decide⟩
  | succ m ih =>
    rw [moreArguments]
    split
    · rename_i hc
      obtain ⟨v, hv, hplace⟩ := h.comma hc
      have hlt : p₁.advance.rest.length < p₁.rest.length := (Reads.advance_punct hc).length_lt
      cases h₂ : read p₁.advance with
      | mk result p₂ =>
        cases result with
        | error err => exact ⟨v, p₁.advance, hv, hplace, hf (by omega) h₂⟩
        | ok arg =>
          have harg := hr h₂
          have hlt₂ := harg.length_lt
          have hmore := ih (harg.argument hv hplace) (by omega) (by omega)
          simp only
          cases h₃ : moreArguments read m p₂ with
          | mk result p₃ =>
            rw [h₃] at hmore
            cases result <;> exact hmore
    · rename_i hc
      exact ⟨h, hc⟩

/-- If arguments fail, one of them is left, or the parenthesis that closes them is missing. -/
theorem arguments_fails {n : Nat} (hr : Sound read) (hf : Failing n read) {p q : Parser} {e : Error}
    (hn : p.rest.length ≤ n) (h : arguments read p = (.error e, q)) :
    p.FailsArgument e ∨ ∃ q', p.ReadsArgument q' ∧ ¬ q'.peek.isPunct "," ∧ ¬ q'.peek.isPunct ")" ∧
      e = .unexpectedToken .closeParen q'.peek := by
  rw [arguments] at h
  by_cases hp : p.peek.isPunct ")"
  · rw [if_pos hp] at h
    simp only [expectPunct, if_pos hp] at h
    cases h
  · rw [if_neg hp] at h
    have hplace : Precedes p.peek p.depth [] := .first hp
    cases h₁ : read p with
    | mk result p₁ =>
      simp only [h₁] at h
      cases result with
      | error err =>
        cases h
        exact .inl ⟨[], p, .refl p, hplace, hf hn h₁⟩
      | ok arg =>
        have harg := (hr h₁).argument (.refl p) hplace
        have hlt := (hr h₁).length_lt
        have hmore := moreArguments_ends hr hf harg (by omega) (Nat.le_refl _)
        cases h₂ : moreArguments read p₁.rest.length p₁ with
        | mk result p₂ =>
          rw [h₂] at hmore
          simp only [h₂] at h
          cases result with
          | error err =>
            cases h
            exact .inl hmore
          | ok more =>
            obtain ⟨hlast, hcomma⟩ := hmore
            by_cases hclose : p₂.peek.isPunct ")"
            · simp only [expectPunct, if_pos hclose] at h
              cases h
            · simp only [expectPunct, if_neg hclose, refuse] at h
              cases h
              exact .inr ⟨q, hlast, hcomma, hclose, rfl⟩

theorem headD_rest (p : Parser) (u r : List Token) (h : p.rest = u ++ r) :
    u.headD (r.headD pastEnd) = p.peek := by
  rw [peek, h]
  cases u <;> rfl

/-- If a call fails, it is nested too deeply, or its arguments fail. -/
theorem call_fails {n : Nat} (hr : Sound read) (hf : Failing n read) {p q : Parser} {e : Error}
    (hn : p.rest.length ≤ n + 1) (hk : p.peek.kind = .identifier) (ho : p.peekSecond.isPunct "(")
    (h : call read p = (.error e, q)) : p.FailsAt e := by
  simp only [call] at h
  have hname := Reads.advance hk
  split at h
  · rename_i hd
    rw [if_pos (show p.advance.peek.isPunct "(" from ho)] at h
    have hopening : p.advance.Reads [p.peekSecond] p.advance.advance := .advance_punct ho
    have hrest : p.rest = p.peek :: p.peekSecond :: p.advance.advance.rest :=
      (hname.trans hopening).rest
    have hlen : (p.advance.advance.enter hd).rest.length ≤ n := by
      show p.advance.advance.rest.length ≤ n
      rw [hrest] at hn
      simp only [List.length_cons] at hn
      omega
    cases h₁ : arguments read (p.advance.advance.enter hd) with
    | mk result p₁ =>
      simp only [h₁] at h
      cases result with
      | ok args => cases h
      | error err =>
        cases h
        rcases arguments_fails hr hf hlen h₁ with
          ⟨v, q, hv, hplace, u, r, hq, hu⟩ | ⟨q, hargument, hc, hc', rfl⟩
        · rw [← headD_rest q u r hq] at hplace
          rw [hv.depth] at hu
          refine ⟨_, r, ?_, hu.call hk ho hd hplace⟩
          rw [hrest, show p.advance.advance.rest = _ from hv.rest, hq]
          simp
        · obtain ⟨v, s, w, a, hread, hplace, hw, hb, hs⟩ := hargument
          refine ⟨_, q.rest, ?_, .unclosed (.call (u := []) hk ho hd hplace .here)
            (Nat.lt_succ_self _) hw hb hs hc hc'⟩
          rw [hrest, show p.advance.advance.rest = _ from hread.rest]
          simp
  · rename_i hd
    cases h
    exact ⟨[], p.rest, rfl, .refused .here (.nesting hk ho (Nat.le_antisymm p.depth_le
      (Nat.not_lt.mp hd)))⟩

theorem failsAt_of_refused {p : Parser} {e : Error}
    (h : Refused p.depth p.peek (p.peekSecond.isPunct "(") e) : p.FailsAt e :=
  ⟨[], p.rest, rfl, .refused .here h⟩

theorem readNext_error {α : Type} {p q : Parser} {expected : Expected} {f : String → Option α}
    {e : Error} (h : p.readNext expected f = (.error e, q)) :
    f p.peek.text = none ∧ e = .unexpectedToken expected p.peek := by
  rw [readNext] at h
  split at h
  · cases h
  · rename_i hx
    cases h
    exact ⟨hx, rfl⟩

theorem isHead_iff {t : Token} (hk : t.kind = .identifier) :
    IsHead t ↔ t.text.toList.head?.any isWordStart := by
  simp only [IsHead, hk, reduceCtorEq, true_and, false_or]
  cases t.text.toList with
  | nil => simp
  | cons c rest => simp

/-- By induction on the nesting that is left: the reader fails only where a literal is left. -/
theorem literalWithin_fails (n : Nat) : Failing n (literalWithin n) := by
  induction n with
  | zero =>
    intro p q e hn h
    have hrest : p.rest = [] := List.eq_nil_of_length_eq_zero (Nat.le_zero.mp hn)
    cases h
    exact failsAt_of_refused (.other (.inr (.inr (.inr (by rw [peek, hrest]; rfl)))))
  | succ n ih =>
    intro p q e hn h
    rw [literalWithin] at h
    split at h
    · cases h
    · cases h
    · rename_i hk
      obtain ⟨hnone, rfl⟩ := readNext_error h
      exact failsAt_of_refused (.integer hk (Option.map_eq_none_iff.mp hnone))
    · rename_i hk
      obtain ⟨hnone, rfl⟩ := readNext_error h
      exact failsAt_of_refused (.float hk (Option.map_eq_none_iff.mp hnone))
    · cases h
    · cases h
    · rename_i hk
      split at h
      · rename_i ho
        exact call_fails (literalWithin_sound n) ih hn hk ho h
      · rename_i ho
        split at h
        · cases h
        · rename_i hw
          cases h
          exact failsAt_of_refused (.mark hk (Bool.eq_false_iff.mpr ho) (mt (isHead_iff hk).mp hw))
    · rename_i hk
      cases h
      exact failsAt_of_refused (.not hk)
    · rename_i hnull hstring hint hfloat hbool hroot hident hnot
      cases h
      refine failsAt_of_refused (.other ?_)
      cases hk : p.peek.kind <;> simp_all

/-! ## What is left is not read -/

/-- A reader finds no argument of a call in front of the parser, or nothing that can follow one
behind it. -/
inductive BreaksArgument (read : Parser → Reply Literal) (p : Parser) : Error → Prop
  | refused {q : Parser} {e : Error} (h : read p = (.error e, q)) : BreaksArgument read p e
  | unclosed {q : Parser} {a : Literal} (h : read p = (.ok a, q)) (hcomma : ¬ q.peek.isPunct ",")
      (hclose : ¬ q.peek.isPunct ")") :
      BreaksArgument read p (.unexpectedToken .closeParen q.peek)

theorem moreArguments_of_not_comma (m : Nat) {p : Parser} (hc : ¬ p.peek.isPunct ",") :
    moreArguments read m p = (.ok [], p) := by
  cases m with
  | zero => rw [moreArguments]
  | succ m => rw [moreArguments, if_neg hc]

/-- Behind some arguments and a comma an argument breaks off. -/
theorem moreArguments_breaks {n k : Nat} (hread : Complete n read) {p : Parser} {u r : List Token}
    {comma : Token} {args : List Literal} {e : Error} (du : DerivesMore u args) (hn : u.length ≤ n)
    (hk : u.length < k) (h : p.rest = u ++ comma :: r) (hc : comma.isPunct ",")
    (hd : p.depth + Literal.maxCallDepth args ≤ maxCalls)
    (he : BreaksArgument read { p with rest := r } e) :
    (∃ q, moreArguments read k p = (.error e, q)) ∨
      ∃ more q, moreArguments read k p = (.ok more, q) ∧ ¬ q.peek.isPunct ")" ∧
        e = .unexpectedToken .closeParen q.peek := by
  induction args generalizing p u k with
  | nil =>
    cases du
    obtain ⟨k, rfl⟩ : ∃ k', k = k' + 1 := ⟨k - 1, by omega⟩
    rw [List.nil_append] at h
    rw [moreArguments, peek_of_rest h, if_pos hc, advance_of_rest h]
    cases he with
    | @refused q _ hq => exact .inl ⟨q, by rw [hq]⟩
    | @unclosed q a hq hcomma hclose =>
      refine .inr ⟨[a], q, ?_, hclose, rfl⟩
      rw [hq]
      simp only [moreArguments_of_not_comma k hcomma]
  | cons arg args ih =>
    rcases du with _ | @⟨first, u, v, _, _, hfirst, du, dv⟩
    simp only [List.length_cons, List.length_append, Literal.maxCallDepth] at hn hk hd
    rw [List.cons_append, List.append_assoc] at h
    obtain ⟨k, rfl⟩ : ∃ k', k = k' + 1 := ⟨k - 1, by omega⟩
    have harg := hread (p := { p with rest := u ++ (v ++ comma :: r) }) du (by omega) rfl
      ((dv.follows (.of_isPunct hc)).stops u arg) (show p.depth + _ ≤ _ by omega)
    have hmore := ih (p := { p with rest := v ++ comma :: r }) dv (by omega) (k := k) (by omega) rfl
      (show p.depth + _ ≤ _ by omega) he
    rw [moreArguments, peek_of_rest h, if_pos hfirst, advance_of_rest h, harg]
    rcases hmore with ⟨q, hq⟩ | ⟨more, q, hq, hclose, rfl⟩
    · exact .inl ⟨q, by simp only [hq]⟩
    · exact .inr ⟨arg :: more, q, by simp only [hq], hclose, rfl⟩

/-- The arguments in front of the fault are read, and then the fault is met. -/
theorem arguments_breaks {n : Nat} (hread : Complete n read) {p : Parser} {v r : List Token}
    {e : Error} (hv : Precedes (r.headD pastEnd) p.depth v) (hn : v.length ≤ n)
    (h : p.rest = v ++ r) (he : BreaksArgument read { p with rest := r } e) :
    ∃ q, arguments read p = (.error e, q) := by
  cases hv with
  | first ht =>
    have hp : { p with rest := r } = p := by rw [← List.nil_append r, ← h]
    have hpeek : ¬ p.peek.isPunct ")" := by rwa [peek, h]
    rw [hp] at he
    rw [arguments, if_neg hpeek]
    cases he with
    | @refused q _ hq => exact ⟨q, by simp only [hq]⟩
    | @unclosed q a hq hcomma hclose =>
      refine ⟨q, ?_⟩
      simp only [hq, moreArguments_of_not_comma _ hcomma, expectPunct, if_neg hclose, refuse]
  | @later v args comma hargs hne hd hc =>
    rcases hargs with _ | @⟨t, u, w, arg, args, ht, du, dw⟩
    · exact absurd rfl hne
    · simp only [List.length_append, List.length_singleton, Literal.maxCallDepth] at hn hd
      have hrest : p.rest = t :: u ++ (w ++ comma :: r) := by simpa using h
      have harg := hread du (by omega) hrest ((dw.follows (.of_isPunct hc)).stops _ arg) (by omega)
      have hmore := moreArguments_breaks (p := { p with rest := w ++ comma :: r })
        (k := (w ++ comma :: r).length) hread dw (by omega)
        (by rw [List.length_append, List.length_cons]; omega) rfl hc
        (show p.depth + _ ≤ _ by omega) he
      rw [arguments, peek_of_rest hrest, if_neg ht, harg]
      rcases hmore with ⟨q, hq⟩ | ⟨more, q, hq, hclose, rfl⟩
      · exact ⟨q, by simp only [hq]⟩
      · refine ⟨q, ?_⟩
        simp only [hq, expectPunct, if_neg hclose, refuse]

/-- A fault in an argument is that of the call. -/
theorem call_breaks {n : Nat} (hread : Complete n read) {p : Parser} {name opening : Token}
    {v r : List Token} {e : Error} (h : p.rest = name :: opening :: (v ++ r))
    (ho : opening.isPunct "(") (hd : p.depth < maxCalls)
    (hv : Precedes (r.headD pastEnd) (p.depth + 1) v) (hn : v.length ≤ n)
    (he : BreaksArgument read { (p.enter hd) with rest := r } e) :
    ∃ q, call read p = (.error e, q) := by
  obtain ⟨q, hq⟩ := arguments_breaks
    (p := Parser.enter { p with rest := v ++ r } hd) hread hv hn rfl he
  have hpeek : Parser.peek { p with rest := opening :: (v ++ r) } = opening := rfl
  have hadvance := advance_of_rest (p := { p with rest := opening :: (v ++ r) }) rfl
  refine ⟨q.leave, ?_⟩
  simp only [call, peek_of_rest h, advance_of_rest h, dif_pos hd, hpeek, if_pos ho, hadvance, hq]

/-- Where a token starts no literal, none is read. -/
theorem literalWithin_of_refused {n : Nat} {p : Parser} {e : Error}
    (h : Refused p.depth p.peek (p.peekSecond.isPunct "(") e) (hn : p.rest.length ≤ n) :
    ∃ q, literalWithin n p = (.error e, q) := by
  cases n with
  | zero =>
    have hpeek : p.peek = pastEnd := by
      rw [peek, List.eq_nil_of_length_eq_zero (Nat.le_zero.mp hn)]
      rfl
    generalize hs : p.peekSecond.isPunct "(" = called at h
    rw [hpeek] at h
    rcases h with ht | ht | ht | ht | ht | ht
    iterate 5 cases ht
    exact ⟨p, by rw [literalWithin, refuse, hpeek]⟩
  | succ n =>
    rw [literalWithin]
    generalize hs : p.peekSecond.isPunct "(" = called at h
    cases h with
    | integer ht hx => exact ⟨p.advance, by simp only [ht, readNext, hx, Option.map_none]⟩
    | float ht hx => exact ⟨p.advance, by simp only [ht, readNext, hx, Option.map_none]⟩
    | nesting ht hc hd =>
      subst hc
      have hlt : ¬ p.advance.depth < maxCalls := by
        show ¬ p.depth < maxCalls
        omega
      refine ⟨p.advance, ?_⟩
      simp only [ht, if_true, call, dif_neg hlt]
    | mark ht hc hh =>
      subst hc
      rw [isHead_iff ht, Bool.not_eq_true] at hh
      refine ⟨p, ?_⟩
      simp only [ht, hh, Bool.false_eq_true, if_false, refuse]
    | not ht => exact ⟨p, by simp only [ht]⟩
    | other ht =>
      rcases ht with ht | ht | ht | ht
      all_goals exact ⟨p, by simp only [ht, refuse]⟩

/-- What goes wrong at a place inside calls goes wrong for the outermost of them. -/
theorem literalWithin_of_opens {s : Token} {k n : Nat} {u r : List Token} {e : Error}
    (hu : Opens s k n u) (hs : r.headD pastEnd = s) (hn : n ≤ maxCalls)
    (he : ∀ m, r.length ≤ m → BreaksArgument (literalWithin m) ⟨r, n, hn⟩ e) {p : Parser} {m : Nat}
    (hd : p.depth = k) (h : p.rest = u ++ r) (hm : p.rest.length ≤ m) :
    u = [] ∧ k = n ∨ ∃ q, literalWithin m p = (.error e, q) := by
  induction hu generalizing p m with
  | here => exact .inl ⟨rfl, rfl⟩
  | @call k n name opening u v hname ho hk hv hu ih =>
    subst hd
    have hrest : p.rest = name :: opening :: (v ++ (u ++ r)) := by simpa using h
    rw [hrest] at hm
    simp only [List.length_cons, List.length_append] at hm
    obtain ⟨m, rfl⟩ : ∃ m', m = m' + 1 := ⟨m - 1, by omega⟩
    have hinner : BreaksArgument (literalWithin m) { (p.enter hk) with rest := u ++ r } e := by
      rcases ih hn he (p := { (p.enter hk) with rest := u ++ r }) (m := m) rfl rfl
        (by simp only [List.length_append]; omega) with ⟨rfl, rfl⟩ | ⟨q, hq⟩
      · exact he m (by omega)
      · exact .refused hq
    have hplace : Precedes ((u ++ r).headD pastEnd) (p.depth + 1) v := by
      cases u with
      | nil => rwa [List.nil_append, hs]
      | cons => exact hv
    obtain ⟨q, hq⟩ := call_breaks (literalWithin_complete m) hrest ho hk hplace (by omega) hinner
    have hsecond : p.peekSecond = opening := by rw [peekSecond, hrest]; rfl
    refine .inr ⟨q, ?_⟩
    rw [literalWithin, peek_of_rest hrest, hname]
    simp only [hsecond, if_pos ho, hq]

/-- Where a literal is left, none is read. -/
theorem literalWithin_error {m : Nat} {p : Parser} {u r : List Token} {e : Error}
    (hu : FailsLiteral p.depth u (r.headD pastEnd) ((r.tail.headD pastEnd).isPunct "(") e)
    (h : p.rest = u ++ r) (hm : p.rest.length ≤ m) : ∃ q, literalWithin m p = (.error e, q) := by
  generalize ht : r.headD pastEnd = t at hu
  generalize hc : (r.tail.headD pastEnd).isPunct "(" = called at hu
  cases hu with
  | @refused n u t called e hu hrefused =>
    subst ht hc
    have hn := hu.le_maxCalls p.depth_le
    have he : ∀ m, r.length ≤ m → ∃ q, literalWithin m ⟨r, n, hn⟩ = (.error e, q) :=
      fun m hm => literalWithin_of_refused hrefused hm
    have hbreaks : ∀ m, r.length ≤ m → BreaksArgument (literalWithin m) ⟨r, n, hn⟩ e := by
      intro m hm
      obtain ⟨q, hq⟩ := he m hm
      exact .refused hq
    rcases literalWithin_of_opens hu rfl hn hbreaks rfl h hm with ⟨rfl, hk⟩ | herror
    · subst hk
      have hp : p = ⟨r, p.depth, hn⟩ := by rw [← List.nil_append r, ← h]
      rw [hp]
      exact he m (by rw [h] at hm; exact hm)
    · exact herror
  | @unclosed n u w s t called a hu hk hw hd hs hcomma hclose =>
    subst ht
    rw [List.append_assoc] at h
    have hn := hu.le_maxCalls p.depth_le
    have he : ∀ m, (s :: w ++ r).length ≤ m →
        literalWithin m ⟨s :: w ++ r, n, hn⟩ = (.ok a, ⟨r, n, hn⟩) := by
      intro m hm
      rw [List.length_append] at hm
      exact literalWithin_complete m hw (by omega) rfl hs hd
    rcases literalWithin_of_opens hu rfl hn
      (fun m hm => .unclosed (he m hm) hcomma hclose) rfl h hm with ⟨-, rfl⟩ | herror
    · exact absurd hk (Nat.lt_irrefl _)
    · exact herror

/-! ## Whole expressions -/

theorem finish_error {p q : Parser} {e : Expression} {err : Error}
    (h : p.finish e = (.error err, q)) :
    p.peek.kind ≠ .endOfInput ∧ err = .unexpectedToken .endOfInput p.peek := by
  rw [finish] at h
  split at h
  · cases h
  · rename_i hk
    cases h
    exact ⟨by simpa using hk, rfl⟩

theorem literal_fails {p q : Parser} {e : Error} (h : p.literal = (.error e, q)) : p.FailsAt e :=
  literalWithin_fails _ (Nat.le_refl _) h

/-- If an expression fails, it is left at the token that the error names. -/
theorem expression_fails {p q : Parser} {e : Error} (hd : p.depth = 0)
    (h : p.expression = (.error e, q)) :
    ∃ u r, p.rest = u ++ r ∧
      Fails u (r.headD pastEnd) ((r.tail.headD pastEnd).isPunct "(") e := by
  rw [expression] at h
  cases h₁ : p.literal with
  | mk result p₁ =>
    simp only [h₁] at h
    cases result with
    | error err =>
      cases h
      obtain ⟨u, r, hr, hu⟩ := literal_fails h₁
      exact ⟨u, r, hr, .lhs (hd ▸ hu)⟩
    | ok a =>
      obtain ⟨u, hu, du, bu, hs⟩ := literalWithin_sound _ h₁
      rw [hd, Nat.zero_add] at bu
      simp only at h
      split at h
      · rename_i hk
        have hk : p₁.peek.kind = .operator := beq_iff_eq.mp hk
        cases h₂ : p₁.readNext .operator Operator.ofSymbol? with
        | mk result p₂ =>
          simp only [h₂] at h
          cases result with
          | error err =>
            cases h
            obtain ⟨hnone, rfl⟩ := readNext_error h₂
            exact ⟨u, p₁.rest, hu.rest, .operator du bu hk hnone⟩
          | ok op =>
            obtain ⟨hop, rfl⟩ := readNext_sound h₂
            have hsymbol := (Operator.symbol_of_ofSymbol? hop).symm
            have hread := hu.trans (Reads.advance hk)
            have hd₂ : p₁.advance.depth = 0 := hread.depth.trans hd
            cases h₃ : p₁.advance.literal with
            | mk result p₃ =>
              simp only [h₃] at h
              cases result with
              | error err =>
                cases h
                obtain ⟨v, r, hr, hv⟩ := literal_fails h₃
                rw [hd₂] at hv
                refine ⟨u ++ p₁.peek :: v, r, ?_, .rhs du bu hk hsymbol hv⟩
                rw [hread.rest, hr]
                simp
              | ok b =>
                obtain ⟨v, hv, dv, bv, hs'⟩ := literalWithin_sound _ h₃
                rw [hd₂, Nat.zero_add] at bv
                obtain ⟨he, rfl⟩ := finish_error h
                refine ⟨u ++ p₁.peek :: v, p₃.rest, ?_, .rhsEnd du bu hk hsymbol dv bv hs' he⟩
                rw [hread.rest, hv.rest]
                simp
      · rename_i hk
        obtain ⟨he, rfl⟩ := finish_error h
        exact ⟨u, p₁.rest, hu.rest, .lhsEnd du bu hs (fun hop => hk (beq_iff_eq.mpr hop)) he⟩

theorem finish_of_kind {p : Parser} (hk : p.peek.kind ≠ .endOfInput) (e : Expression) :
    p.finish e = (.error (.unexpectedToken .endOfInput p.peek), p) := by
  rw [finish, if_neg (by simpa using hk), refuse]

theorem literal_error {p : Parser} {u r : List Token} {e : Error}
    (hu : FailsLiteral p.depth u (r.headD pastEnd) ((r.tail.headD pastEnd).isPunct "(") e)
    (h : p.rest = u ++ r) : ∃ q, p.literal = (.error e, q) :=
  literalWithin_error hu h (Nat.le_refl _)

theorem expression_error {p : Parser} {u r : List Token} {e : Error} (hd : p.depth = 0)
    (hu : Fails u (r.headD pastEnd) ((r.tail.headD pastEnd).isPunct "(") e) (h : p.rest = u ++ r) :
    ∃ q, p.expression = (.error e, q) := by
  generalize ht : r.headD pastEnd = t at hu
  generalize hc : (r.tail.headD pastEnd).isPunct "(" = called at hu
  cases hu with
  | lhs hfails =>
    subst ht hc
    obtain ⟨q, hq⟩ := literal_error (hd ▸ hfails) h
    exact ⟨q, by rw [expression, hq]⟩
  | operator du bu hk ho =>
    subst ht
    have hfollows : Follows [r.headD pastEnd] := .of_kind hk
    have hlhs := literal_complete du h (hfollows.stops _ _) (by rwa [hd, Nat.zero_add])
    refine ⟨{ p with rest := r.tail }, ?_⟩
    simp only [expression, hlhs, readNext, peek, hk, beq_self_eq_true, if_true, ho, advance]
  | lhsEnd du bu hs hk he =>
    subst ht
    have hlhs := literal_complete du h hs (by rwa [hd, Nat.zero_add])
    have hpeek : ¬ ((Parser.peek { p with rest := r }).kind == .operator) :=
      fun hop => hk (beq_iff_eq.mp hop)
    refine ⟨{ p with rest := r }, ?_⟩
    simp only [expression, hlhs]
    rw [if_neg hpeek]
    exact finish_of_kind (p := { p with rest := r }) he _
  | @rhs u v s t called a op e du bu hk ho hfails =>
    subst ht hc
    rw [List.append_assoc, List.cons_append] at h
    obtain ⟨q, hq⟩ := literal_error (p := { p with rest := v ++ r }) (u := v) (r := r)
      (hd ▸ hfails) rfl
    exact ⟨q, by rw [expression_of_operator hd du bu hk ho h, hq]⟩
  | @rhsEnd u v s t called a b op du bu hk ho dv bv hs he =>
    subst ht
    rw [List.append_assoc, List.cons_append] at h
    have hrhs := literal_complete (p := { p with rest := v ++ r }) dv rfl hs
      (show p.depth + _ ≤ _ by rwa [hd, Nat.zero_add])
    refine ⟨{ p with rest := r }, ?_⟩
    rw [expression_of_operator hd du bu hk ho h, hrhs]
    exact finish_of_kind (p := { p with rest := r }) he _

end Parser

namespace Expression

/-- An error for tokens is the one with which they leave the grammar. -/
theorem ofTokens_eq_error_iff (tokens : List Token) (e : Error) :
    ofTokens tokens = .error e ↔ ∃ u r, tokens = u ++ r ∧
      Fails u (r.headD Parser.pastEnd) ((r.tail.headD Parser.pastEnd).isPunct "(") e := by
  constructor
  · intro h
    exact Parser.expression_fails (p := .ofTokens tokens) rfl (Prod.ext h rfl)
  · rintro ⟨u, r, ht, hu⟩
    obtain ⟨q, hq⟩ := Parser.expression_error (p := .ofTokens tokens) rfl hu ht
    rw [ofTokens, hq]

/-- Tokens behind the fault do not matter, but for an opening parenthesis right behind it. -/
theorem ofTokens_of_fails {before after : List Token} {t : Token} {e : Error}
    (h : Fails before t ((after.headD Parser.pastEnd).isPunct "(") e) :
    ofTokens (before ++ t :: after) = .error e :=
  (ofTokens_eq_error_iff _ e).mpr ⟨before, t :: after, rfl, h⟩

/-- What stands in front of the token at fault goes on to an expression. -/
theorem exists_ofTokens_of_fails {u : List Token} {t : Token} {called : Bool} {err : Error}
    (h : Fails u t called err) : ∃ more e, ofTokens (u ++ more) = .ok e := by
  obtain ⟨more, e, he⟩ := h.viable
  refine ⟨more, e, ofTokens_of_derives ?_⟩
  have hend := beforeEnd_append (r := []) he.noEnd trivial
  rw [List.append_nil] at hend
  rwa [hend]

/-- An end of input is not consumed, and so the token at fault is one of the tokens. -/
theorem exists_fails_of_ofTokens {tokens : List Token} {e : Error}
    (hend : ∃ t ∈ tokens, t.kind = .endOfInput) (h : ofTokens tokens = .error e) :
    ∃ before t after, tokens = before ++ t :: after ∧
      Fails before t ((after.headD Parser.pastEnd).isPunct "(") e := by
  obtain ⟨u, r, rfl, hfails⟩ := (ofTokens_eq_error_iff tokens e).mp h
  cases r with
  | nil =>
    obtain ⟨t, ht, hk⟩ := hend
    rw [List.append_nil] at ht
    exact absurd hk (hfails.noEnd t ht)
  | cons t r => exact ⟨u, t, r, rfl, hfails⟩

end Expression

end WorkflowCondition
