import WorkflowCondition.Proofs.Expression.Recognition
import WorkflowCondition.Proofs.Token.Cover

/-!
# Parentheses and calls

In the tokens of an expression every call has one opening and one closing parenthesis, and a name.
The name can be any identifier token, so it can itself be a parenthesis: `Bracketing` counts the
parentheses with the names among them, and says that they are balanced where no name is one. Its
three rules (`Bracketing.plain`, `Bracketing.append` and `Bracketing.call`) are all that a
derivation needs, and `parse_bracketing` reads the result off a source. The expression `(()` is a
call of `(`.
-/

namespace WorkflowCondition

open scoped Computability

open Grammar Token

namespace Literal

mutual

/-- The names of the calls in a literal, as they are written. -/
def calledNames : Literal → List String
  | .call name args => name :: calledNamesAll args
  | _ => []

/-- The names of the calls in the arguments. -/
def calledNamesAll : List Literal → List String
  | [] => []
  | arg :: args => calledNames arg ++ calledNamesAll args

end

end Literal

/-- The names of the calls in an expression. -/
def Expression.calledNames (e : Expression) : List String :=
  match e.rhs with
  | none => e.lhs.calledNames
  | some (_, rhs) => e.lhs.calledNames ++ rhs.calledNames

/-- A letter or `_`, and then letters, digits and `_` only. -/
def isWord (text : String) : Bool :=
  match text.toList with
  | [] => false
  | c :: rest => isWordStart c && rest.all isWordChar

/-- A single punctuation character that is no quote. -/
def isMark (text : String) : Bool :=
  match text.toList with
  | [c] => isPunctuation c && c != '\''
  | _ => false

/-- How many of the tokens are a punctuation mark. -/
def marks (text : String) (tokens : List Token) : Nat :=
  tokens.countP fun t => t.isPunct text

/-- Opening and closing parentheses match. -/
structure WellBracketed (tokens : List Token) : Prop where
  /-- There are equally many of both. -/
  total : marks "(" tokens = marks ")" tokens
  /-- None is closed that is not open. -/
  opened : ∀ u v, tokens = u ++ v → marks ")" u ≤ marks "(" u

/-- What calls of these names leave in the tokens. -/
structure Bracketing (tokens : List Token) (names : List String) : Prop where
  /-- Every call has an opening parenthesis, and another one if that is its name. -/
  opening : marks "(" tokens = names.length + names.count "("
  /-- Every call has a closing parenthesis, and another one if that is its name. -/
  closing : marks ")" tokens = names.length + names.count ")"
  wellBracketed : "(" ∉ names → ")" ∉ names → WellBracketed tokens
  /-- Every name is the text of an identifier. -/
  named : ∀ name ∈ names, ∃ t ∈ tokens, t.kind = .identifier ∧ t.text = name

/-! ## Counting marks -/

@[simp] theorem marks_nil (text : String) : marks text [] = 0 := rfl

@[simp] theorem marks_cons (text : String) (t : Token) (tokens : List Token) :
    marks text (t :: tokens) = marks text tokens + if t.isPunct text then 1 else 0 :=
  List.countP_cons

@[simp] theorem marks_append (text : String) (u v : List Token) :
    marks text (u ++ v) = marks text u + marks text v :=
  List.countP_append

/-- The token is no parenthesis. -/
def IsPlainToken (t : Token) : Prop :=
  ¬ t.isPunct "(" ∧ ¬ t.isPunct ")"

theorem isPlainToken_of_kind {t : Token} (h : t.kind ≠ .identifier) : IsPlainToken t :=
  ⟨fun ho => h (isPunct_iff.mp ho).1, fun hc => h (isPunct_iff.mp hc).1⟩

theorem isPlainToken_of_text {t : Token} (ho : t.text ≠ "(") (hc : t.text ≠ ")") :
    IsPlainToken t :=
  ⟨fun h => ho (isPunct_iff.mp h).2, fun h => hc (isPunct_iff.mp h).2⟩

/-- What starts a reference is no parenthesis. -/
theorem isPlainToken_of_isHead {t : Token} (h : IsHead t) : IsPlainToken t := by
  rcases h with hk | ⟨-, c, rest, htext, hc⟩
  · exact isPlainToken_of_kind (by rw [hk]; decide)
  · refine isPlainToken_of_text ?_ ?_
    all_goals
      intro he
      rw [he] at htext
      cases htext
      exact absurd hc (by decide)

theorem marks_of_plain {u : List Token} (h : ∀ t ∈ u, IsPlainToken t) :
    marks "(" u = 0 ∧ marks ")" u = 0 := by
  refine ⟨?_, ?_⟩
  · exact List.countP_eq_zero.mpr fun t ht => (h t ht).1
  · exact List.countP_eq_zero.mpr fun t ht => (h t ht).2

/-- A token is one punctuation mark at most. -/
theorem isPunct_eq_false {t : Token} {text other : String} (h : t.isPunct text)
    (hne : text ≠ other := by decide) : t.isPunct other = false := by
  rw [Bool.eq_false_iff]
  intro h'
  exact hne ((isPunct_iff.mp h).2.symm.trans (isPunct_iff.mp h').2)

theorem isPlainToken_of_comma {t : Token} (h : t.isPunct ",") : IsPlainToken t := by
  have htext := (isPunct_iff.mp h).2
  exact isPlainToken_of_text (by rw [htext]; decide) (by rw [htext]; decide)

/-! ## Balance -/

theorem WellBracketed.of_plain {u : List Token} (h : ∀ t ∈ u, IsPlainToken t) :
    WellBracketed u := by
  obtain ⟨ho, hc⟩ := marks_of_plain h
  refine ⟨ho.trans hc.symm, ?_⟩
  rintro u v rfl
  rw [marks_append] at hc
  omega

/-- A beginning of the whole lies in the first part, or is all of it with a beginning of the second.
-/
theorem WellBracketed.append {u v : List Token} (hu : WellBracketed u) (hv : WellBracketed v) :
    WellBracketed (u ++ v) := by
  have htotal := hu.total
  refine ⟨?_, fun w w' h => ?_⟩
  · rw [marks_append, marks_append, htotal, hv.total]
  · rcases List.append_eq_append_iff.mp h with ⟨mid, rfl, hmid⟩ | ⟨mid, rfl, -⟩
    · -- The part goes on in `v`.
      have hopened := hv.opened mid w' hmid
      rw [marks_append, marks_append]
      omega
    · exact hu.opened w mid rfl

/-- What stands between an opening and a closing parenthesis stays matched. -/
theorem WellBracketed.wrap {opening closing : Token} {u : List Token} (hu : WellBracketed u)
    (ho : opening.isPunct "(") (hc : closing.isPunct ")") :
    WellBracketed (opening :: (u ++ [closing])) := by
  have htotal := hu.total
  have hoc : opening.isPunct ")" = false := isPunct_eq_false ho
  have hco : closing.isPunct "(" = false := isPunct_eq_false hc
  refine ⟨?_, fun w w' h => ?_⟩
  · simp [ho, hc, hoc, hco, htotal]
  · cases w with
    | nil => exact Nat.le_refl _
    | cons t w =>
      rw [List.cons_append] at h
      obtain ⟨rfl, htail⟩ := List.cons_eq_cons.mp h
      have hopening : marks "(" (opening :: w) = marks "(" w + 1 := by simp [ho]
      have hclosing : marks ")" (opening :: w) = marks ")" w := by simp [hoc]
      rw [hopening, hclosing]
      rcases List.append_eq_append_iff.mp htail with ⟨mid, rfl, hmid⟩ | ⟨mid, rfl, -⟩
      · have hone : marks ")" [closing] = 1 := by simp [hc]
        rw [hmid, marks_append] at hone
        rw [marks_append, marks_append]
        omega
      · have hopened := hu.opened w mid rfl
        omega

/-! ## Calls -/

theorem Bracketing.plain {u : List Token} (h : ∀ t ∈ u, IsPlainToken t) : Bracketing u [] := by
  obtain ⟨ho, hc⟩ := marks_of_plain h
  exact ⟨ho, hc, fun _ _ => .of_plain h, by simp⟩

/-- Two parts side by side count together. -/
theorem Bracketing.append {u v : List Token} {names more : List String} (hu : Bracketing u names)
    (hv : Bracketing v more) : Bracketing (u ++ v) (names ++ more) := by
  refine ⟨?_, ?_, fun ho hc => ?_, fun name hm => ?_⟩
  · rw [marks_append, hu.opening, hv.opening, List.length_append, List.count_append]
    omega
  · rw [marks_append, hu.closing, hv.closing, List.length_append, List.count_append]
    omega
  · rw [List.mem_append, not_or] at ho hc
    exact (hu.wellBracketed ho.1 hc.1).append (hv.wellBracketed ho.2 hc.2)
  · rcases List.mem_append.mp hm with hm | hm
    · obtain ⟨t, ht, hk⟩ := hu.named name hm
      exact ⟨t, List.mem_append_left v ht, hk⟩
    · obtain ⟨t, ht, hk⟩ := hv.named name hm
      exact ⟨t, List.mem_append_right u ht, hk⟩

/-- A call adds its name and one pair of parentheses around what it holds. -/
theorem Bracketing.call {name opening closing : Token} {u : List Token} {names : List String}
    (hu : Bracketing u names) (hn : name.kind = .identifier) (ho : opening.isPunct "(")
    (hc : closing.isPunct ")") :
    Bracketing (name :: opening :: (u ++ [closing])) (name.text :: names) := by
  have hoc : opening.isPunct ")" = false := isPunct_eq_false ho
  have hco : closing.isPunct "(" = false := isPunct_eq_false hc
  have hname : ∀ text, name.isPunct text = (name.text == text) := fun text => by
    rw [isPunct, hn, beq_self_eq_true, Bool.true_and]
  refine ⟨?_, ?_, fun hno hnc => ?_, fun n hm => ?_⟩
  · simp [hu.opening, ho, hco, hname, List.count_cons]
    omega
  · simp [hu.closing, hc, hoc, hname, List.count_cons]
    omega
  · rw [List.mem_cons, not_or] at hno hnc
    have hplain : ∀ t ∈ [name], IsPlainToken t :=
      List.forall_mem_singleton.mpr (isPlainToken_of_text (Ne.symm hno.1) (Ne.symm hnc.1))
    exact (WellBracketed.of_plain hplain).append ((hu.wellBracketed hno.2 hnc.2).wrap ho hc)
  · rcases List.mem_cons.mp hm with rfl | hm
    · exact ⟨name, List.mem_cons_self, hn, rfl⟩
    · obtain ⟨t, ht, hk⟩ := hu.named n hm
      refine ⟨t, ?_, hk⟩
      simp [ht]

/-! ## Derivations -/

mutual

/-- By induction on the derivation, with the three rules above. -/
theorem bracketing_literal : ∀ {u : List Token} {a : Literal}, DerivesLiteral u a →
    Bracketing u a.calledNames
  | _, _, .null ht | _, _, .string ht | _, _, .integer ht _ | _, _, .float ht _
  | _, _, .bool ht _ =>
    .plain (List.forall_mem_singleton.mpr (isPlainToken_of_kind (by rw [ht]; decide)))
  | _, _, .call hn ho hu hc => (bracketing_arguments hu).call hn ho hc
  | _, _, .reference hh ha =>
    .plain (List.forall_mem_cons.mpr ⟨isPlainToken_of_isHead hh, fun t ht =>
      isPlainToken_of_kind (by rw [ha t ht]; decide)⟩)

theorem bracketing_arguments : ∀ {u : List Token} {args : List Literal}, DerivesArguments u args →
    Bracketing u (Literal.calledNamesAll args)
  | _, _, .none => .plain (by simp)
  | _, _, .some _ hu hv => (bracketing_literal hu).append (bracketing_more hv)

theorem bracketing_more : ∀ {u : List Token} {args : List Literal}, DerivesMore u args →
    Bracketing u (Literal.calledNamesAll args)
  | _, _, .none => .plain (by simp)
  | _, _, .some hc hu hv =>
    (Bracketing.plain (List.forall_mem_singleton.mpr (isPlainToken_of_comma hc))).append
      ((bracketing_literal hu).append (bracketing_more hv))

end

theorem bracketing_of_derives {u : List Token} {e : Expression} (h : Derives u e) :
    Bracketing u e.calledNames := by
  cases h with
  | literal hu _ => exact bracketing_literal hu
  | @binary u v t a b op hu _ ht _ hv _ =>
    have hop : ∀ s ∈ [t], IsPlainToken s :=
      List.forall_mem_singleton.mpr (isPlainToken_of_kind (by rw [ht]; decide))
    exact (bracketing_literal hu).append ((Bracketing.plain hop).append (bracketing_literal hv))

/-! ## Sources -/

theorem isWord_or_isMark {cs : List Char} {n : Nat} (h : identifierLength? cs = some n) :
    isWord (.ofList (cs.take n)) ∨ isMark (.ofList (cs.take n)) := by
  unfold identifierLength? at h
  split at h
  · cases h
  · rename_i c rest
    split at h
    · rename_i hc
      cases h
      left
      have htake : (c :: rest).take (1 + spanLength isWordChar rest) =
          c :: rest.takeWhile isWordChar := by
        rw [Nat.add_comm, List.take_succ_cons, take_spanLength]
      rw [htake, isWord, String.toList_ofList]
      simp only [hc, Bool.true_and]
      exact List.all_eq_true.mpr fun d hd => List.mem_takeWhile_imp hd
    · split at h
      · rename_i hp
        cases h
        right
        rw [isMark, String.toList_ofList]
        exact hp
      · cases h

/-- The tokens of a source that are not whitespace, in front of its end. -/
theorem exists_content_of_tokenize {source : String} {tokens : List Token}
    (h : tokenize source = .ok tokens) :
    ∃ content, tokens = content ++ [endOfInput source.utf8ByteSize] ∧
      ∀ t ∈ content, t.kind ≠ .endOfInput ∧
        (t.kind = .identifier → isWord t.text ∨ isMark t.text) := by
  obtain ⟨found, hs, rfl⟩ := tokenize_eq_ok_iff.mp h
  refine ⟨_, rfl, fun t ht => ?_⟩
  have hm := (List.mem_filter.mp ht).1
  refine ⟨(hs.content t hm).1, fun hk => ?_⟩
  obtain ⟨before, after, rfl⟩ := List.append_of_mem hm
  obtain ⟨mid, n, hn, htext, -, -⟩ := hs.found
  rw [hk] at hn
  rw [htext]
  exact isWord_or_isMark (next?_eq_some_iff.mp hn).1

/-- The tokens of a source that stands for an expression are bracketed by its calls, and every name
in it is a word or a punctuation mark. -/
theorem parse_bracketing {source : String} {e : Expression}
    (h : Expression.parse source = .ok e) :
    ∃ tokens, tokenize source = .ok tokens ∧ Bracketing tokens e.calledNames ∧
      ∀ name ∈ e.calledNames, isWord name ∨ isMark name := by
  rw [Expression.parse] at h
  cases htokens : tokenize source with
  | error err => rw [htokens] at h; cases h
  | ok tokens =>
    rw [htokens] at h
    obtain ⟨content, rfl, hcontent⟩ := exists_content_of_tokenize htokens
    have hderives := Expression.derives_of_ofTokens h
    have hatEnd : AtEnd [endOfInput source.utf8ByteSize] := rfl
    rw [beforeEnd_append (fun t ht => (hcontent t ht).1) hatEnd] at hderives
    have hbrackets := bracketing_of_derives hderives
    have hend : ∀ t ∈ [endOfInput source.utf8ByteSize], IsPlainToken t :=
      List.forall_mem_singleton.mpr (isPlainToken_of_kind Token.Kind.noConfusion)
    refine ⟨_, rfl, ?_, fun name hm => ?_⟩
    · have hall := hbrackets.append (.plain hend)
      rwa [List.append_nil] at hall
    · obtain ⟨t, ht, hk, rfl⟩ := hbrackets.named name hm
      exact (hcontent t ht).2 hk

/-- A parenthesis inside a string counts for nothing. -/
theorem parse_bracketing_nested :
    Expression.parse "f(g(),')')" = .ok ⟨.call "f" [.call "g" [], .string "')'"], none⟩ ∧
      ∃ tokens, tokenize "f(g(),')')" = .ok tokens ∧ WellBracketed tokens := by
  have hs : Scans 0 "f(g(),')')".toList
      [⟨.identifier, "f", 0⟩, ⟨.identifier, "(", 1⟩, ⟨.identifier, "g", 2⟩, ⟨.identifier, "(", 3⟩,
        ⟨.identifier, ")", 4⟩, ⟨.identifier, ",", 5⟩, ⟨.string, "')'", 6⟩, ⟨.identifier, ")", 9⟩]
      [] :=
    .next (n := 1) (by decide) (.next (n := 1) (by decide) (.next (n := 1) (by decide)
      (.next (n := 1) (by decide) (.next (n := 1) (by decide) (.next (n := 1) (by decide)
        (.next (n := 3) (by decide) (.next (n := 1) (by decide) .refl)))))))
  have h : Expression.parse "f(g(),')')" =
      .ok ⟨.call "f" [.call "g" [], .string "')'"], none⟩ := by
    rw [Expression.parse, tokenize, scan, scanFrom_eq_ok_iff.mpr ⟨_, hs, rfl⟩]
    rfl
  obtain ⟨tokens, htokens, hbrackets, -⟩ := parse_bracketing h
  exact ⟨h, tokens, htokens, hbrackets.wellBracketed (by decide) (by decide)⟩

/-- An opening parenthesis can be called: its name is no word, and one parenthesis stays open. -/
theorem parse_called_parenthesis :
    Expression.parse "(()" = .ok ⟨.call "(" [], none⟩ ∧
      "(" ∈ Expression.calledNames ⟨.call "(" [], none⟩ ∧ isWord "(" = false ∧
      ∃ tokens, tokenize "(()" = .ok tokens ∧ ¬ WellBracketed tokens := by
  have hs : Scans 0 "(()".toList
      [⟨.identifier, "(", 0⟩, ⟨.identifier, "(", 1⟩, ⟨.identifier, ")", 2⟩] [] :=
    .next (n := 1) (by decide) (.next (n := 1) (by decide) (.next (n := 1) (by decide) .refl))
  have htokens : tokenize "(()" =
      .ok [⟨.identifier, "(", 0⟩, ⟨.identifier, "(", 1⟩, ⟨.identifier, ")", 2⟩, .endOfInput 3] := by
    rw [tokenize, scan, scanFrom_eq_ok_iff.mpr ⟨_, hs, rfl⟩]
    rfl
  refine ⟨?_, List.mem_cons_self, rfl, _, htokens, fun hbalanced => ?_⟩
  · rw [Expression.parse, htokens]
    rfl
  · exact absurd hbalanced.total (by decide)

end WorkflowCondition
