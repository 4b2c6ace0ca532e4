import Mathlib.Data.List.Chain
import WorkflowCondition.Proofs.Expression.Grammar
import WorkflowCondition.Proofs.Token.Lookahead

/-!
# Which tokens stand next to each other

The tokens of an expression form a chain in which each two neighbours are of a few sorts
(`Grammar.Adjoins`, `Grammar.Derives.isChain`). No two of them run into each other when they are
written without a blank between them: the one in front cannot go on with the first character of the
one behind it (`Grammar.Adjoins.not_goesOn`), but for an operator, which is told from its right
operand by that character alone.
-/

namespace WorkflowCondition

open Token

namespace Grammar

/-! ## Neighbours -/

/-- A parenthesis of a call, or a comma between its arguments. -/
def IsCallMark (t : Token) : Prop :=
  t.isPunct "(" ∨ t.isPunct ")" ∨ t.isPunct ","

/-- A token that can be the last one of a literal. -/
inductive Ends (t : Token) : Prop
  | kind (ht : t.kind ∈ [.null, .string, .integer, .float, .bool, .accessor])
  | head (hh : IsHead t)
  | closing (hc : t.isPunct ")")

/-- The token `t` can stand right behind `s` in an expression. -/
inductive Adjoins (s t : Token) : Prop
  | mark (ht : IsCallMark t)
  | argument (hs : s.isPunct "(" ∨ s.isPunct ",")
  | accessor (hs : s.kind = .accessor ∨ IsHead s) (ht : t.kind = .accessor)
  | operator (hs : Ends s) (ht : t.kind = .operator)
  | operand (hs : s.kind = .operator) (ht : t.kind ≠ .accessor)

theorem ne_of_isPunct {t : Token} {text : String} {kind : Kind} (h : t.isPunct text)
    (hk : kind ≠ .identifier := by decide) : t.kind ≠ kind :=
  fun ht => hk (ht.symm.trans (isPunct_iff.mp h).1)

theorem IsHead.ne {t : Token} {kind : Kind} (h : IsHead t)
    (hk : kind ≠ .root ∧ kind ≠ .identifier := by decide) : t.kind ≠ kind := by
  intro ht
  obtain h | ⟨h, -⟩ := h
  · exact hk.1 (ht.symm.trans h)
  · exact hk.2 (ht.symm.trans h)

theorem isChain_accessors {head : Token} {accessors : List Token}
    (hh : head.kind = .accessor ∨ IsHead head) (ha : ∀ t ∈ accessors, t.kind = .accessor) :
    (head :: accessors).IsChain Adjoins := by
  induction accessors generalizing head with
  | nil => exact .singleton head
  | cons t accessors ih =>
    obtain ⟨ht, ha⟩ := List.forall_mem_cons.mp ha
    exact .cons_cons (.accessor hh ht) (ih (.inl ht) ha)

theorem DerivesMore.head_isPunct {v : List Token} {args : List Literal} (h : DerivesMore v args) :
    ∀ t ∈ v.head?, t.isPunct "," := by
  cases h with
  | none => simp
  | some hc => simpa using hc

mutual

/-- By induction on the derivation: where two of its parts meet, one of them is a mark of a call. -/
theorem DerivesLiteral.isChain : ∀ {u : List Token} {a : Literal}, DerivesLiteral u a →
    u.IsChain Adjoins
  | _, _, .null _ | _, _, .string _ | _, _, .integer _ _ | _, _, .float _ _ | _, _, .bool _ _ =>
    .singleton _
  | _, _, @DerivesLiteral.call name opening closing u args _ ho hu hc => by
    have hbody : (u ++ [closing]).IsChain Adjoins := by
      refine List.isChain_append.mpr ⟨hu.isChain, .singleton closing, fun s _ t ht => ?_⟩
      obtain rfl := Option.some.inj ht
      exact .mark (.inr (.inl hc))
    exact .cons_cons (.mark (.inl ho)) (.cons hbody fun t _ => .argument (.inl ho))
  | _, _, .reference hh ha => isChain_accessors (.inr hh) ha

theorem DerivesArguments.isChain : ∀ {u : List Token} {args : List Literal},
    DerivesArguments u args → u.IsChain Adjoins
  | _, _, .none => .nil
  | _, _, .some _ hu hv =>
    List.isChain_append.mpr ⟨hu.isChain, hv.isChain, fun _ _ t ht =>
      .mark (.inr (.inr (hv.head_isPunct t ht)))⟩

theorem DerivesMore.isChain : ∀ {u : List Token} {args : List Literal}, DerivesMore u args →
    u.IsChain Adjoins
  | _, _, .none => .nil
  | _, _, .some hc hu hv => by
    have hrest := List.isChain_append.mpr ⟨hu.isChain, hv.isChain, fun _ _ t ht =>
      .mark (.inr (.inr (hv.head_isPunct t ht)))⟩
    exact .cons hrest fun t _ => .argument (.inr hc)

end

/-- By cases on the rule: a reference ends with its last accessor, or else with its head. -/
theorem DerivesLiteral.ends {u : List Token} {a : Literal} (h : DerivesLiteral u a) :
    ∀ t ∈ u.getLast?, Ends t := by
  intro t ht
  cases h with
  | null hk | string hk | integer hk | float hk | bool hk =>
    rw [List.getLast?_singleton] at ht
    obtain rfl := Option.some.inj ht
    exact .kind (by rw [hk]; decide)
  | @call name opening closing u args hn ho hu hc =>
    rw [← List.cons_append, ← List.cons_append, List.getLast?_concat] at ht
    obtain rfl := Option.some.inj ht
    exact .closing hc
  | @reference head accessors hh ha =>
    obtain rfl | hm := List.mem_cons.mp (List.mem_of_mem_getLast? ht)
    · exact .head hh
    · exact .kind (by rw [ha t hm]; decide)

theorem DerivesLiteral.head_kind_ne {u : List Token} {a : Literal} (h : DerivesLiteral u a) :
    ∀ t ∈ u.head?, t.kind ≠ .accessor := by
  intro t ht
  cases h with
  | null hk | string hk | integer hk | float hk | bool hk | call hk =>
    obtain rfl := Option.some.inj ht
    rw [hk]
    decide
  | reference hh =>
    obtain rfl := Option.some.inj ht
    exact hh.ne

theorem Derives.isChain {u : List Token} {e : Expression} (h : Derives u e) :
    u.IsChain Adjoins := by
  cases h with
  | literal hu => exact hu.isChain
  | binary hu _ ht _ hv =>
    have hright := List.IsChain.cons hv.isChain fun t h => .operand ht (hv.head_kind_ne t h)
    refine List.isChain_append.mpr ⟨hu.isChain, hright, fun s hs t h => ?_⟩
    obtain rfl := Option.some.inj h
    exact .operator (hu.ends s hs) ht

/-- No reference goes on behind an operator. -/
theorem Adjoins.kind_ne {s t : Token} (h : Adjoins s t) (hs : s.kind = .operator) :
    t.kind ≠ .accessor := by
  cases h with
  | mark ht => exact ht.elim ne_of_isPunct (Or.elim · ne_of_isPunct ne_of_isPunct)
  | argument h => exact absurd hs (h.elim ne_of_isPunct ne_of_isPunct)
  | accessor h =>
    obtain h | h := h
    · exact absurd (hs.symm.trans h) (by decide)
    · exact absurd hs h.ne
  | operator _ ht =>
    rw [ht]
    decide
  | operand _ ht => exact ht

/-! ## First characters -/

section

variable {s t : Token} {c d : Char}

/-- The first character of a token tells its kind, unless it is an identifier. -/
theorem leadOf_of_isSpaceable (ht : t.IsSpaceable) (hc : c ∈ t.text.toList.head?)
    (hi : t.kind ≠ .identifier) : leadOf c = t.kind.lead := by
  obtain ⟨v, hv⟩ := List.head?_eq_some_iff.mp hc
  have hmem := (IsSeparable.munch ht.1).mem
  rw [hv] at hmem
  exact Kind.lead_eq hmem hi

theorem leadOf_of_isHead (ht : t.IsSpaceable) (hc : c ∈ t.text.toList.head?) (hh : IsHead t) :
    leadOf c = .root := by
  obtain hk | ⟨-, c', v, hv, hw⟩ := hh
  · rw [leadOf_of_isSpaceable ht hc (by rw [hk]; decide), hk]
    rfl
  · rw [hv] at hc
    obtain rfl := Option.some.inj hc
    exact if_pos hw

theorem eq_of_isPunct {mark : Char} (ht : t.isPunct (.singleton mark))
    (hc : c ∈ t.text.toList.head?) : c = mark := by
  rw [(isPunct_iff.mp ht).2, String.toList_singleton] at hc
  exact (Option.some.inj hc).symm

theorem mem_of_isCallMark (ht : IsCallMark t) (hc : c ∈ t.text.toList.head?) :
    c ∈ ['(', ')', ','] := by
  obtain ht | ht | ht := ht
  · obtain rfl : c = '(' := eq_of_isPunct ht hc
    decide
  · obtain rfl : c = ')' := eq_of_isPunct ht hc
    decide
  · obtain rfl : c = ',' := eq_of_isPunct ht hc
    decide

theorem Ends.leadOf_ne (hs : Ends s) (hsep : s.IsSpaceable) (hd : d ∈ s.text.toList.head?) :
    leadOf d ≠ .operator := by
  cases hs with
  | kind hk =>
    have hall : ∀ kind ∈ [Kind.null, .string, .integer, .float, .bool, .accessor],
        kind ≠ .identifier ∧ kind.lead ≠ .operator := by decide
    obtain ⟨hi, hlead⟩ := hall _ hk
    rw [leadOf_of_isSpaceable hsep hd hi]
    exact hlead
  | head hh =>
    rw [leadOf_of_isHead hsep hd hh]
    decide
  | closing hc =>
    obtain rfl : d = ')' := eq_of_isPunct hc hd
    decide

theorem mem_of_operator (ht : t.IsSpaceable) (hk : t.kind = .operator)
    (hc : c ∈ t.text.toList.head?) : c ∈ ['=', '!', '<', '>', '&', '|'] := by
  have hmem := (IsSeparable.munch ht.1).mem
  rw [hk] at hmem
  obtain ⟨symbol, hs, he⟩ := hmem
  have hall : ∀ symbol ∈ Operator.all.map Operator.symbol,
      symbol.toList.head?.all (· ∈ ['=', '!', '<', '>', '&', '|']) := by decide
  have hsymbol := hall symbol hs
  rw [← he, Option.mem_def.mp hc] at hsymbol
  exact of_decide_eq_true hsymbol

theorem mem_of_accessor (ht : t.IsSpaceable) (hk : t.kind = .accessor)
    (hc : c ∈ t.text.toList.head?) : c ∈ ['.', '['] := by
  have hmem := (IsSeparable.munch ht.1).mem
  rw [hk] at hmem
  obtain h | h := hmem
  all_goals
    obtain ⟨_, rfl, v, -, he⟩ := Language.mem_mul.mp h
    rw [← he] at hc
    obtain rfl := Option.some.inj hc
    decide

/-- Of two neighbours the one in front cannot go on with the first character of the other, unless
it is an operator. -/
theorem Adjoins.not_goesOn (h : Adjoins s t) (hs : s.IsSpaceable) (ht : t.IsSpaceable)
    (hk : s.kind ≠ .operator) (hd : d ∈ s.text.toList.head?)
    (hc : c ∈ t.text.toList.head?) : ¬ (leadOf d).goesOn c := by
  cases h with
  | mark h =>
    have hall : ∀ lead : Kind, ∀ c ∈ ['(', ')', ','], ¬ lead.goesOn c := by
      refine fun lead => forall_mem_of_all ?_
      cases lead <;> decide
    exact hall _ c (mem_of_isCallMark h hc)
  | argument h =>
    have hlead : leadOf d = .identifier := by
      obtain h | h := h
      · obtain rfl : d = '(' := eq_of_isPunct h hd
        rfl
      · obtain rfl : d = ',' := eq_of_isPunct h hd
        rfl
    rw [hlead]
    exact Bool.false_ne_true
  | accessor h hacc =>
    have hlead : leadOf d = .accessor ∨ leadOf d = .root := by
      obtain h | h := h
      · exact .inl (by rw [leadOf_of_isSpaceable hs hd (by rw [h]; decide), h]; rfl)
      · exact .inr (leadOf_of_isHead hs hd h)
    have hall : ∀ lead : Kind, lead = .accessor ∨ lead = .root →
        ∀ c ∈ ['.', '['], ¬ lead.goesOn c := by
      rintro lead (rfl | rfl)
      · exact forall_mem_of_all (by decide)
      · exact forall_mem_of_all (by decide)
    exact hall _ hlead c (mem_of_accessor ht hacc hc)
  | operator h hop =>
    have hall : ∀ lead : Kind, lead ≠ .operator →
        ∀ c ∈ ['=', '!', '<', '>', '&', '|'], ¬ lead.goesOn c := by
      refine fun lead hlead => forall_mem_of_all ?_
      cases lead with
      | operator => exact absurd rfl hlead
      | _ => decide
    exact hall _ (h.leadOf_ne hs hd) c (mem_of_operator ht hop hc)
  | operand h => exact absurd h hk

end

end Grammar

end WorkflowCondition
