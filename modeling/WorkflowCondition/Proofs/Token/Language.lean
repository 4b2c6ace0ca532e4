import Mathlib.Computability.Language
import Mathlib.Data.List.TakeWhile
import WorkflowCondition.Expression.Basic
import WorkflowCondition.Token.Scan

/-!
# The languages of the kinds of tokens

`Token.Kind.language`: the texts that are tokens of a kind, written with union, concatenation and
repetition and without a word about how they are found. `Token.Kind.starts_language`: what a
recogniser measures off is in the language of its kind. The parts of a recogniser measure off the
parts of a regular expression, one behind the other (`Starts.mul`).
-/

namespace WorkflowCondition

open scoped Computability

namespace Token

/-! ## Languages -/

/-- One character of a class. -/
def oneOf (p : Char → Bool) : Language Char :=
  {w | ∃ c, p c ∧ w = [c]}

/-- Any number of characters of a class. -/
def manyOf (p : Char → Bool) : Language Char :=
  {w | ∀ c ∈ w, p c}

/-- Characters of a class, and at least one of them. -/
def someOf (p : Char → Bool) : Language Char :=
  {w | w ≠ [] ∧ ∀ c ∈ w, p c}

/-- One of some texts. -/
def anyText (texts : List String) : Language Char :=
  {w | ∃ text ∈ texts, w = text.toList}

/-- A text of the language, or nothing. -/
def optional (l : Language Char) : Language Char :=
  1 + l

/-- One of some signs, or nothing. -/
def sign (signs : List Char) : Language Char :=
  optional (oneOf (· ∈ signs))

/-- Digits that start with no zero, or a zero alone. -/
def whole : Language Char :=
  {['0']} + oneOf (fun c => c.isDigit ∧ c ≠ '0') * manyOf Char.isDigit

/-- An exponent with its mark. -/
def exponent : Language Char :=
  oneOf (fun c => c = 'e' ∨ c = 'E') * (sign ['+', '-'] * someOf Char.isDigit)

/-- What can stand between the quotes of a string: no quote, or a quote written twice. -/
def quoted : Language Char :=
  (oneOf (· ≠ '\'') + {['\'', '\'']})∗

/-- The words that are tokens of a kind; there are none for the kinds that have other texts. -/
def Kind.words : Kind → List String
  | .null => ["null"]
  | .bool => ["false", "true"]
  | .root => Root.all.map Root.name
  | _ => []

/-- The texts that are tokens of a kind. -/
def Kind.language : Kind → Language Char
  | .null => anyText Kind.null.words
  | .bool => anyText Kind.bool.words
  | .float => sign ['-'] * (whole * ({['.']} * (someOf Char.isDigit * optional exponent)))
  | .integer => sign ['-'] * someOf Char.isDigit
  | .string => {['\'']} * (quoted * {['\'']})
  | .whitespace => someOf isBlank
  | .root => anyText Kind.root.words
  | .accessor =>
    {['.']} * someOf isKeyChar + {['[', '\'']} * (someOf isKeyChar * {['\'', ']']})
  | .operator => anyText (Operator.all.map Operator.symbol)
  | .not => {['!']}
  | .identifier => oneOf isWordStart * manyOf isWordChar + oneOf isPunctuation
  | .endOfInput => 0

/-! ## The characters of a language -/

/-- All characters of all texts are in a class. -/
def Over (p : Char → Prop) (l : Language Char) : Prop :=
  ∀ w ∈ l, ∀ c ∈ w, p c

section

variable {p : Char → Prop} {l m : Language Char}

/-- Decided character by character, and not by a search through all characters. -/
theorem forall_mem_of_all [DecidablePred p] {cs : List Char} (h : cs.all (p ·)) : ∀ c ∈ cs, p c :=
  fun c hc => of_decide_eq_true (List.all_eq_true.mp h c hc)

theorem Over.mul (hl : Over p l) (hm : Over p m) : Over p (l * m) := by
  intro w hw
  obtain ⟨u, hu, v, hv, rfl⟩ := Language.mem_mul.mp hw
  exact List.forall_mem_append.mpr ⟨hl u hu, hm v hv⟩

theorem Over.add (hl : Over p l) (hm : Over p m) : Over p (l + m) := by
  rintro w (hw | hw)
  · exact hl w hw
  · exact hm w hw

theorem Over.optional (hl : Over p l) : Over p (optional l) := by
  refine .add ?_ hl
  rintro w rfl c hc
  cases hc

theorem Over.text {u : List Char} (hu : ∀ c ∈ u, p c) : Over p ({u} : Language Char) := by
  rintro w rfl
  exact hu

theorem Over.anyText {texts : List String} (h : ∀ text ∈ texts, ∀ c ∈ text.toList, p c) :
    Over p (anyText texts) := by
  rintro w ⟨text, hm, rfl⟩
  exact h text hm

theorem Over.operator [DecidablePred p]
    (h : Operator.all.all fun op => op.symbol.toList.all (p ·)) :
    Over p Kind.operator.language := by
  refine .anyText fun text hm => ?_
  obtain ⟨op, hop, rfl⟩ := List.mem_map.mp hm
  exact forall_mem_of_all (List.all_eq_true.mp h op hop)

section

variable {q : Char → Bool} (hq : ∀ {c : Char}, q c → p c)
include hq

theorem Over.oneOf : Over p (oneOf q) := by
  rintro w ⟨c, hc, rfl⟩
  exact List.forall_mem_singleton.mpr (hq hc)

theorem Over.manyOf : Over p (manyOf q) :=
  fun _ hw c hc => hq (hw c hc)

theorem Over.someOf : Over p (someOf q) :=
  fun _ hw c hc => hq (hw.2 c hc)

end

theorem Over.sign {signs : List Char} (h : ∀ c ∈ signs, p c) : Over p (sign signs) :=
  .optional (.oneOf fun hc => h _ (of_decide_eq_true hc))

section

variable (hd : ∀ {c : Char}, c.isDigit → p c)
include hd

theorem Over.integer (hs : p '-') : Over p Kind.integer.language :=
  .mul (.sign (List.forall_mem_singleton.mpr hs)) (.someOf hd)

theorem Over.exponent (hm : ∀ c ∈ ['e', 'E', '+', '-'], p c) : Over p exponent := by
  refine .mul (.oneOf fun hc => ?_) (.mul (.sign fun c hc => ?_) (.someOf hd))
  · rcases of_decide_eq_true hc with rfl | rfl
    · exact hm 'e' (by decide)
    · exact hm 'E' (by decide)
  · exact hm c (List.mem_cons_of_mem _ (List.mem_cons_of_mem _ hc))

theorem Over.float (hm : ∀ c ∈ ['.', 'e', 'E', '+', '-'], p c) :
    Over p Kind.float.language := by
  obtain ⟨hpoint, hexponent⟩ := List.forall_mem_cons.mp hm
  have hminus : p '-' := hm '-' (by decide)
  have hwhole : Over p whole :=
    .add (.text (List.forall_mem_singleton.mpr (hd (by decide))))
      (.mul (.oneOf fun hc => hd (of_decide_eq_true hc).1) (.manyOf hd))
  exact .mul (.sign (List.forall_mem_singleton.mpr hminus)) (.mul hwhole
    (.mul (.text (List.forall_mem_singleton.mpr hpoint))
      (.mul (.someOf hd) (.optional (.exponent hd hexponent)))))

end

end

/-! ## What is measured off -/

/-- The first `n` characters are there and are in the language. -/
def Starts (l : Language Char) (n : Nat) (cs : List Char) : Prop :=
  n ≤ cs.length ∧ cs.take n ∈ l

/-- What two recognisers find one behind the other is in the product of the languages. -/
theorem Starts.mul {l m : Language Char} {i j : Nat} {cs : List Char} (h : Starts l i cs)
    (h' : Starts m j (cs.drop i)) : Starts (l * m) (i + j) cs := by
  have hlen := h'.1
  rw [List.length_drop] at hlen
  refine ⟨by have := h.1; omega, ?_⟩
  rw [List.take_add]
  exact Language.mem_mul.mpr ⟨_, h.2, _, h'.2, rfl⟩

theorem Starts.text (w r : List Char) : Starts {w} w.length (w ++ r) := by
  refine ⟨by simp, ?_⟩
  rw [List.take_left]
  exact rfl

theorem Starts.one {p : Char → Bool} {c : Char} {r : List Char} (h : p c) :
    Starts (oneOf p) 1 (c :: r) :=
  ⟨by simp, c, h, rfl⟩

/-- A length of zero means that nothing is there, which is always possible. -/
theorem Starts.optional {l : Language Char} {n : Nat} {cs : List Char}
    (h : n ≠ 0 → Starts l n cs) : Starts (optional l) n cs := by
  by_cases hn : n = 0
  · subst hn
    exact ⟨Nat.zero_le _, .inl rfl⟩
  · exact ⟨(h hn).1, .inr (h hn).2⟩

theorem take_spanLength (p : Char → Bool) (cs : List Char) :
    cs.take (spanLength p cs) = cs.takeWhile p :=
  (List.prefix_iff_eq_take.mp (List.takeWhile_prefix p)).symm

theorem Starts.many (p : Char → Bool) (cs : List Char) :
    Starts (manyOf p) (spanLength p cs) cs := by
  refine ⟨(List.takeWhile_prefix p).length_le, ?_⟩
  rw [take_spanLength]
  exact fun c hc => List.mem_takeWhile_imp hc

theorem Starts.some {p : Char → Bool} {cs : List Char} (h : spanLength p cs ≠ 0) :
    Starts (someOf p) (spanLength p cs) cs := by
  refine ⟨(Starts.many p cs).1, ?_, (Starts.many p cs).2⟩
  rw [take_spanLength]
  exact fun he => h (by rw [spanLength, he]; rfl)

theorem Starts.sign (signs cs : List Char) : Starts (sign signs) (signLength signs cs) cs := by
  refine .optional fun hn => ?_
  cases cs with
  | nil => exact absurd rfl hn
  | cons c r =>
    rw [signLength] at hn ⊢
    split at hn
    · rename_i hc
      rw [if_pos hc]
      exact .one (by simpa using hc)
    · exact absurd rfl hn

theorem starts_whole {cs : List Char} (h : wholeLength cs ≠ 0) :
    Starts whole (wholeLength cs) cs := by
  cases cs with
  | nil => exact absurd rfl h
  | cons c r =>
    rw [wholeLength] at h ⊢
    split
    · rename_i hc
      subst hc
      exact ⟨by simp, .inl rfl⟩
    · rename_i hc
      rw [if_neg hc] at h
      have hd : c.isDigit := by
        by_contra hd
        exact h (by rw [spanLength, List.takeWhile_cons_of_neg hd]; rfl)
      have hspan : spanLength Char.isDigit (c :: r) = 1 + spanLength Char.isDigit r := by
        rw [spanLength, List.takeWhile_cons_of_pos hd, List.length_cons, Nat.add_comm]; rfl
      have hone : Starts (oneOf fun c => c.isDigit ∧ c ≠ '0') 1 (c :: r) := .one (by simp [hd, hc])
      have hs := hone.mul (Starts.many Char.isDigit r)
      rw [hspan]
      exact ⟨hs.1, .inr hs.2⟩

theorem starts_exponent (cs : List Char) : Starts (optional exponent) (exponentLength cs) cs := by
  refine .optional fun hn => ?_
  cases cs with
  | nil => exact absurd rfl hn
  | cons c r =>
    simp only [exponentLength] at hn ⊢
    split
    · rename_i hc
      rw [if_pos hc] at hn
      split
      · rename_i hd
        rw [if_pos hd] at hn
        exact absurd rfl hn
      · rename_i hd
        rw [Nat.add_assoc]
        exact .mul (.one (by simpa using hc)) (.mul (.sign _ _) (.some hd))
    · rename_i hc
      rw [if_neg hc] at hn
      exact absurd rfl hn

theorem starts_float {cs : List Char} {n : Nat} (h : floatLength? cs = some n) :
    Starts Kind.float.language n cs := by
  simp only [floatLength?] at h
  split at h
  · cases h
  · rename_i hw
    split at h
    · rename_i rest hr
      split at h
      · cases h
      · rename_i hf
        cases h
        rw [← List.drop_drop] at hr
        rw [show ∀ a b c d e : Nat, a + b + c + d + e = a + (b + (c + (d + e))) by omega]
        refine .mul (.sign _ _) (.mul (starts_whole hw) ?_)
        rw [hr]
        exact .mul (.text ['.'] rest) (.mul (.some hf) (starts_exponent _))
    · cases h

theorem starts_integer {cs : List Char} {n : Nat} (h : integerLength? cs = some n) :
    Starts Kind.integer.language n cs := by
  simp only [integerLength?] at h
  split at h
  · cases h
  · rename_i hd
    cases h
    exact .mul (.sign _ _) (.some hd)

/-- A part of a string in front of the rest of it. -/
theorem Starts.quoted {u r : List Char} {n : Nat}
    (hu : u ∈ oneOf (· ≠ '\'') + ({['\'', '\'']} : Language Char))
    (h : Starts (quoted * {['\'']}) n r) : Starts (quoted * {['\'']}) (n + u.length) (u ++ r) := by
  obtain ⟨v, hv, close, rfl, he⟩ := Language.mem_mul.mp h.2
  obtain ⟨parts, rfl, hparts⟩ := Language.mem_kstar.mp hv
  refine ⟨by rw [List.length_append]; have := h.1; omega, ?_⟩
  rw [Nat.add_comm, List.take_length_add_append, ← he, ← List.append_assoc]
  refine Language.mem_mul.mpr ⟨_, Language.mem_kstar.mpr ⟨u :: parts, rfl, ?_⟩, _, rfl, rfl⟩
  exact List.forall_mem_cons.mpr ⟨hu, hparts⟩

/-- The rest of a string is what may stand inside of one, and the quote that closes it. -/
theorem starts_closing {cs : List Char} {n : Nat} (h : closingLength? cs = some n) :
    Starts (quoted * {['\'']}) n cs := by
  fun_induction closingLength? cs generalizing n with
  | case1 => cases h
  | case2 rest ih =>
    obtain ⟨m, hm, rfl⟩ := Option.map_eq_some_iff.mp h
    exact .quoted (u := ['\'', '\'']) (.inr rfl) (ih hm)
  | case3 rest hq =>
    cases h
    exact ⟨by simp, Language.mem_mul.mpr ⟨[], Language.nil_mem_kstar _, ['\''], rfl, rfl⟩⟩
  | case4 c rest _ hc ih =>
    obtain ⟨m, hm, rfl⟩ := Option.map_eq_some_iff.mp h
    exact .quoted (u := [c]) (.inl ⟨c, by simpa using hc, rfl⟩) (ih hm)

theorem starts_string {cs : List Char} {n : Nat} (h : stringLength? cs = some n) :
    Starts Kind.string.language n cs := by
  unfold stringLength? at h
  split at h
  · rename_i rest
    obtain ⟨m, hm, rfl⟩ := Option.map_eq_some_iff.mp h
    rw [Nat.add_comm]
    exact .mul (.text ['\''] rest) (starts_closing hm)
  · cases h

theorem starts_whitespace {cs : List Char} {n : Nat} (h : whitespaceLength? cs = some n) :
    Starts Kind.whitespace.language n cs := by
  unfold whitespaceLength? at h
  split at h
  · cases h
  · rename_i hn
    cases h
    exact .some hn

theorem starts_accessor {cs : List Char} {n : Nat} (h : accessorLength? cs = some n) :
    Starts Kind.accessor.language n cs := by
  unfold accessorLength? at h
  split at h
  · rename_i rest
    split at h
    · cases h
    · rename_i hn
      cases h
      have hs := (Starts.text ['.'] rest).mul (.some hn)
      exact ⟨hs.1, .inl hs.2⟩
  · rename_i rest
    split at h
    · cases h
    · rename_i hn
      split at h
      · rename_i hc
        cases h
        obtain ⟨r, hr⟩ := List.isPrefixOf_iff_prefix.mp hc
        have hclose : Starts {['\'', ']']} 2 (rest.drop (spanLength isKeyChar rest)) := by
          rw [← hr]
          exact .text ['\'', ']'] r
        have hs := (Starts.text ['[', '\''] rest).mul ((Starts.some hn).mul hclose)
        rw [Nat.add_assoc]
        exact ⟨hs.1, .inr hs.2⟩
      · cases h
  · cases h

theorem operators_subset : operators ⊆ Operator.all.map Operator.symbol := by
  decide

theorem Starts.anyText {texts : List String} {text : String} {cs : List Char} (ht : text ∈ texts)
    (h : text.toList <+: cs) : Starts (anyText texts) text.toList.length cs := by
  obtain ⟨r, rfl⟩ := h
  refine ⟨(Starts.text text.toList r).1, text, ht, ?_⟩
  exact (Starts.text text.toList r).2

theorem prefix_of_wordLength? {word cs : List Char} {n : Nat} (h : wordLength? word cs = some n) :
    word <+: cs ∧ n = word.length := by
  rw [wordLength?] at h
  split at h
  · rename_i hw
    rw [Bool.and_eq_true] at hw
    cases h
    exact ⟨List.isPrefixOf_iff_prefix.mp hw.1, rfl⟩
  · cases h

/-- The kinds that have words are found by their words. -/
theorem Kind.length?_eq_findSome? (kind : Kind) (h : kind.words ≠ []) (cs : List Char) :
    kind.length? cs = kind.words.findSome? fun word => wordLength? word.toList cs := by
  cases kind with
  | null => rw [words, List.findSome?_singleton]; rfl
  | bool => rfl
  | root => rw [words, List.findSome?_map]; rfl
  | _ => exact absurd rfl h

/-- Of several words the first that is there is in the language of all of them. -/
theorem starts_words {words : List String} {cs : List Char} {n : Nat}
    (h : (words.findSome? fun word => wordLength? word.toList cs) = some n) :
    Starts (anyText words) n cs := by
  obtain ⟨word, hm, hl⟩ := List.exists_of_findSome?_eq_some h
  obtain ⟨hp, rfl⟩ := prefix_of_wordLength? hl
  exact .anyText hm hp

theorem starts_operator {cs : List Char} {n : Nat} (h : operatorLength? cs = some n) :
    Starts Kind.operator.language n cs := by
  obtain ⟨op, ho, rfl⟩ := Option.map_eq_some_iff.mp h
  have hp : op.toList.isPrefixOf cs := by simpa using List.find?_some ho
  rw [← String.length_toList]
  exact .anyText (operators_subset (List.mem_of_find?_eq_some ho))
    (List.isPrefixOf_iff_prefix.mp hp)

theorem starts_identifier {cs : List Char} {n : Nat} (h : identifierLength? cs = some n) :
    Starts Kind.identifier.language n cs := by
  unfold identifierLength? at h
  split at h
  · cases h
  · split at h
    · rename_i c rest hw
      cases h
      have hs := (Starts.one hw).mul (Starts.many isWordChar rest)
      exact ⟨hs.1, .inl hs.2⟩
    · rename_i c rest hw
      split at h
      · rename_i hp
        cases h
        rw [Bool.and_eq_true] at hp
        exact ⟨by simp, .inr ⟨c, hp.1, rfl⟩⟩
      · cases h

/-- What a recogniser measures off is a text of its kind. -/
theorem Kind.starts_language {kind : Kind} {cs : List Char} {n : Nat}
    (h : kind.length? cs = some n) : Starts kind.language n cs := by
  cases kind with
  | null => exact starts_words (length?_eq_findSome? .null (by decide) cs ▸ h)
  | bool => exact starts_words h
  | float => exact starts_float h
  | integer => exact starts_integer h
  | string => exact starts_string h
  | whitespace => exact starts_whitespace h
  | root => exact starts_words (length?_eq_findSome? .root (by decide) cs ▸ h)
  | accessor => exact starts_accessor h
  | operator => exact starts_operator h
  | not =>
    simp only [Kind.length?] at h
    unfold notLength? at h
    split at h
    · rename_i rest
      cases h
      exact .text ['!'] rest
    · cases h
  | identifier => exact starts_identifier h
  | endOfInput => cases h

end Token

end WorkflowCondition
