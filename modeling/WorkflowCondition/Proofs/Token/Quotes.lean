import Mathlib.Algebra.Group.Nat.Even
import WorkflowCondition.Proofs.Token.StringText

/-!
# Which sources have tokens

The number of single quotes in front of a character says whether it is inside a string. No token
ends inside a string (`balanced_of_next?`), so that what a run leaves of a balanced source is
balanced again (`balanced_append_iff`), and in front of balanced text there is a token
(`Balanced.next?_isSome`). `exists_scan_iff` gives the sources that have tokens.
-/

namespace WorkflowCondition

open scoped Computability

namespace Token

/-- The characters outside of strings: blanks and visible ASCII characters, quotes among them. -/
def IsPlain (c : Char) : Prop :=
  c = '\'' ∨ isBlank c ∨ 0x21 ≤ c.toNat ∧ c.toNat ≤ 0x7E

instance (c : Char) : Decidable (IsPlain c) :=
  inferInstanceAs (Decidable (_ ∨ _))

/-- The quotes come in pairs, and the characters that are not inside a pair are plain. -/
structure Balanced (cs : List Char) : Prop where
  /-- The number of single quotes is even. -/
  even : Even (cs.count '\'')
  /-- Behind an even number of single quotes stands a plain character. -/
  plain : ∀ before c after, cs = before ++ c :: after → Even (before.count '\'') → IsPlain c

theorem even_count_quote_cons (v : List Char) :
    Even (('\'' :: v).count '\'') ↔ ¬ Even (v.count '\'') := by
  rw [List.count_cons_self, Nat.even_add_one]

theorem Balanced.nil : Balanced [] := by
  refine ⟨⟨0, rfl⟩, fun before c after h _ => ?_⟩
  cases before <;> cases h

/-- A balanced text in front makes no difference: it closes all its strings. -/
theorem balanced_append_iff {u v : List Char} (hu : Balanced u) :
    Balanced (u ++ v) ↔ Balanced v := by
  have heven : Even ((u ++ v).count '\'') ↔ Even (v.count '\'') := by
    rw [List.count_append, Nat.even_add]
    exact iff_true_left hu.even
  constructor
  · intro h
    refine ⟨heven.mp h.even, ?_⟩
    rintro before c after rfl hb
    refine h.plain (u ++ before) c after (List.append_assoc u before (c :: after)).symm ?_
    rw [List.count_append]
    exact hu.even.add hb
  · intro h
    refine ⟨heven.mpr h.even, fun before c after heq hb => ?_⟩
    rcases List.append_eq_append_iff.mp heq with ⟨mid, rfl, rfl⟩ | ⟨mid, rfl, hmid⟩
    · -- The character is in `v`.
      rw [List.count_append, Nat.even_add] at hb
      exact h.plain mid c after rfl (hb.mp hu.even)
    · cases mid with
      | nil => exact h.plain [] c after hmid.symm ⟨0, rfl⟩
      | cons d mid =>
        cases hmid
        exact hu.plain before c mid rfl hb

/-! ## Characters of tokens -/

/-- A plain character that is no quote. -/
def IsUnquoted (c : Char) : Prop :=
  c ≠ '\'' ∧ IsPlain c

instance (c : Char) : Decidable (IsUnquoted c) :=
  inferInstanceAs (Decidable (_ ∧ _))

theorem isUnquoted_of_toNat {c : Char} (hl : 0x21 ≤ c.toNat) (hu : c.toNat ≤ 0x7E)
    (hq : c.toNat ≠ 0x27) : IsUnquoted c := by
  refine ⟨?_, .inr (.inr ⟨hl, hu⟩)⟩
  rintro rfl
  exact hq rfl

theorem isUnquoted_of_isDigit {c : Char} (h : c.isDigit) : IsUnquoted c := by
  have := toNat_of_isDigit h
  exact isUnquoted_of_toNat (by omega) (by omega) (by omega)

theorem isUnquoted_of_isWordStart {c : Char} (h : isWordStart c) : IsUnquoted c := by
  have := toNat_of_isWordStart h
  exact isUnquoted_of_toNat (by omega) (by omega) (by omega)

theorem isWordStart_or_isDigit {c : Char} (h : isWordChar c) : isWordStart c ∨ c.isDigit := by
  simp only [isWordStart, isWordChar, Char.isAlphanum, Bool.or_eq_true] at *
  rcases h with (h | h) | h
  · exact .inl (.inl h)
  · exact .inr h
  · exact .inl (.inr h)

theorem isUnquoted_of_isWordChar {c : Char} (h : isWordChar c) : IsUnquoted c := by
  rcases isWordStart_or_isDigit h with h | h
  · exact isUnquoted_of_isWordStart h
  · exact isUnquoted_of_isDigit h

theorem isUnquoted_of_isKeyChar {c : Char} (h : isKeyChar c) : IsUnquoted c := by
  rcases Bool.or_eq_true_iff.mp h with h | h
  · exact isUnquoted_of_isWordChar h
  · rw [eq_of_beq h]
    decide

theorem isUnquoted_of_isBlank {c : Char} (h : isBlank c) : IsUnquoted c := by
  refine ⟨?_, .inr (.inl h)⟩
  rintro rfl
  exact absurd h (by decide)

theorem isUnquoted_of_isPunctuation {c : Char} (h : isPunctuation c) (hq : c ≠ '\'') :
    IsUnquoted c := by
  simp only [isPunctuation, Bool.and_eq_true, decide_eq_true_eq] at h
  exact ⟨hq, .inr (.inr h.1)⟩

/-- A language whose texts have no quotes and plain characters only. -/
def Unquoted (l : Language Char) : Prop :=
  ∀ w ∈ l, ∀ c ∈ w, IsUnquoted c

/-- A token without quotes is balanced if all its characters can stand outside of strings. -/
theorem Unquoted.balanced {l : Language Char} (h : Unquoted l) {w : List Char} (hw : w ∈ l) :
    Balanced w := by
  refine ⟨?_, ?_⟩
  · rw [List.count_eq_zero.mpr fun hm => (h w hw _ hm).1 rfl]
    exact ⟨0, rfl⟩
  · rintro before c after rfl -
    exact (h _ hw c (List.mem_append_right _ List.mem_cons_self)).2

theorem unquoted_integer : Unquoted Kind.integer.language :=
  Over.integer isUnquoted_of_isDigit (by decide)

theorem unquoted_float : Unquoted Kind.float.language :=
  Over.float isUnquoted_of_isDigit (forall_mem_of_all (by decide))

theorem unquoted_words (kind : Kind) : Unquoted (anyText kind.words) :=
  Over.anyText fun _ hm c hc => isUnquoted_of_isWordChar (isWordChar_of_mem_words hm c hc)

theorem unquoted_operator : Unquoted Kind.operator.language :=
  Over.operator (by decide)

/-! ## Tokens with quotes -/

/-- The text of a string between its quotes: behind an odd number of quotes comes a quote. -/
theorem quote_of_mem_quoted {u : List Char} (hu : u ∈ quoted) :
    Even (u.count '\'') ∧
      ∀ before c after, u = before ++ c :: after → ¬ Even (before.count '\'') → c = '\'' := by
  obtain ⟨parts, rfl, hparts⟩ := Language.mem_kstar.mp hu
  clear hu
  induction parts with
  | nil =>
    refine ⟨⟨0, rfl⟩, fun before c after h _ => ?_⟩
    cases before <;> cases h
  | cons part parts ih =>
    obtain ⟨hpart, hrest⟩ := List.forall_mem_cons.mp hparts
    obtain ⟨heven, hodd⟩ := ih hrest
    rw [List.flatten_cons]
    rcases hpart with ⟨d, hd, rfl⟩ | rfl
    · have hd : d ≠ '\'' := of_decide_eq_true hd
      rw [List.singleton_append, List.count_cons_of_ne hd]
      refine ⟨heven, fun before c after heq hb => ?_⟩
      cases before with
      | nil => exact absurd ⟨0, rfl⟩ hb
      | cons e before =>
        obtain ⟨rfl, hrest⟩ := List.cons_eq_cons.mp heq
        rw [List.count_cons_of_ne hd] at hb
        exact hodd before c after hrest hb
    · have hcount : ∀ v : List Char,
          Even (('\'' :: '\'' :: v).count '\'') ↔ Even (v.count '\'') := by
        intro v
        rw [even_count_quote_cons, even_count_quote_cons, not_not]
      refine ⟨(hcount _).mpr heven, fun before c after heq hb => ?_⟩
      match before with
      | [] => exact absurd ⟨0, rfl⟩ hb
      | [_] => cases heq; rfl
      | d :: e :: before =>
        obtain ⟨rfl, htail⟩ := List.cons_eq_cons.mp heq
        obtain ⟨rfl, hrest⟩ := List.cons_eq_cons.mp htail
        exact hodd before c after hrest (mt (hcount before).mpr hb)

theorem balanced_string {w : List Char} (hw : w ∈ Kind.string.language) : Balanced w := by
  obtain ⟨_, rfl, v, hv, rfl⟩ := Language.mem_mul.mp hw
  obtain ⟨u, hu, _, rfl, rfl⟩ := Language.mem_mul.mp hv
  obtain ⟨heven, hodd⟩ := quote_of_mem_quoted hu
  show Balanced ('\'' :: (u ++ ['\'']))
  refine ⟨?_, fun before c after heq hb => .inl ?_⟩
  · rw [even_count_quote_cons, List.count_append, List.count_singleton_self, Nat.even_add_one]
    exact not_not_intro heven
  · cases before with
    | nil => cases heq; rfl
    | cons d before =>
      obtain ⟨rfl, htail⟩ := List.cons_eq_cons.mp heq
      rcases List.append_eq_append_iff.mp htail with ⟨mid, rfl, hmid⟩ | ⟨mid, hmid, hc⟩
      · -- The closing quote is the last character.
        cases mid with
        | nil => cases hmid; rfl
        | cons e mid => cases mid <;> cases hmid
      · cases mid with
        | nil => cases hc; rfl
        | cons e mid =>
          cases hc
          exact hodd before c mid hmid ((even_count_quote_cons before).mp hb)

/-- The quotes of an accessor in brackets are those of a string. -/
theorem balanced_accessor {w : List Char} (hw : w ∈ Kind.accessor.language) : Balanced w := by
  rcases hw with hw | hw
  · have hpoint : Over IsUnquoted {['.']} := .text (forall_mem_of_all (by decide))
    exact Unquoted.balanced (hpoint.mul (.someOf isUnquoted_of_isKeyChar)) hw
  · obtain ⟨_, rfl, v, hv, rfl⟩ := Language.mem_mul.mp hw
    obtain ⟨k, hk, _, rfl, rfl⟩ := Language.mem_mul.mp hv
    have hquoted : k ∈ quoted := by
      refine Language.mem_kstar.mpr ⟨k.map ([·]), (List.flatMap_singleton' k).symm, ?_⟩
      rintro _ hm
      obtain ⟨c, hc, rfl⟩ := List.mem_map.mp hm
      exact .inl ⟨c, decide_eq_true (isUnquoted_of_isKeyChar (hk.2 c hc)).1, rfl⟩
    have hstring : Balanced ('\'' :: (k ++ ['\''])) :=
      balanced_string (Language.mem_mul.mpr ⟨['\''], rfl, _,
        Language.mem_mul.mpr ⟨k, hquoted, ['\''], rfl, rfl⟩, rfl⟩)
    have hopen : Balanced ['['] :=
      Unquoted.balanced (Over.text (forall_mem_of_all (by decide))) rfl
    have hclose : Balanced [']'] :=
      Unquoted.balanced (Over.text (forall_mem_of_all (by decide))) rfl
    have hall := (balanced_append_iff hopen).mpr ((balanced_append_iff hstring).mpr hclose)
    simpa using hall

/-- A quote is punctuation, but no identifier is found there. -/
theorem balanced_identifier {cs : List Char} {n : Nat} (h : identifierLength? cs = some n) :
    Balanced (cs.take n) := by
  rcases (starts_identifier h).2 with hw | ⟨c, hc, he⟩
  · exact Unquoted.balanced
      (Over.mul (.oneOf isUnquoted_of_isWordStart) (.manyOf isUnquoted_of_isWordChar)) hw
  · rw [he]
    have hq : c ≠ '\'' := by
      rintro rfl
      obtain ⟨r, rfl⟩ : ∃ r, cs = '\'' :: r := by
        have hp := List.take_append_drop n cs
        rw [he] at hp
        exact ⟨_, hp.symm⟩
      cases h
    have hone : Unquoted ({[c]} : Language Char) := by
      rintro w rfl
      exact List.forall_mem_singleton.mpr (isUnquoted_of_isPunctuation hc hq)
    exact hone.balanced rfl

/-- No token ends inside a string. -/
theorem balanced_of_next? {cs : List Char} {kind : Kind} {n : Nat} (h : next? cs = some (kind, n)) :
    Balanced (cs.take n) := by
  obtain ⟨hk, -⟩ := next?_eq_some_iff.mp h
  have hmem := (Kind.starts_language hk).2
  cases kind with
  | null | bool | root => exact (unquoted_words _).balanced hmem
  | float => exact unquoted_float.balanced hmem
  | integer => exact unquoted_integer.balanced hmem
  | string => exact balanced_string hmem
  | whitespace => exact Unquoted.balanced (Over.someOf isUnquoted_of_isBlank) hmem
  | accessor => exact balanced_accessor hmem
  | operator => exact unquoted_operator.balanced hmem
  | not => exact Unquoted.balanced (Over.text (forall_mem_of_all (by decide))) hmem
  | identifier => exact balanced_identifier hk
  | endOfInput => cases hmem

/-- What is scanned is balanced, token by token. -/
theorem Scans.balanced {position : Nat} {cs rest : List Char} {tokens : List Token}
    (hs : Scans position cs tokens rest) : Balanced (texts tokens) := by
  induction hs with
  | refl => exact .nil
  | next h hs ih =>
    rw [texts_cons, String.toList_ofList]
    exact (balanced_append_iff (balanced_of_next? h)).mpr ih

/-! ## Progress -/

theorem next?_isSome (kind : Kind) {cs : List Char} {n : Nat} (h : kind.length? cs = some n) :
    (next? cs).isSome := by
  rw [next?, List.findSome?_isSome_iff]
  exact ⟨kind, Kind.mem_tried h, by rw [h]; rfl⟩

/-- Every visible character but a quote starts a word, a number, or a token of its own. -/
theorem next?_isSome_of_visible {c : Char} (hl : 0x21 ≤ c.toNat) (hu : c.toNat ≤ 0x7E)
    (hq : c ≠ '\'') (r : List Char) : (next? (c :: r)).isSome := by
  by_cases hw : isWordStart c
  · exact next?_isSome .identifier (identifierLength?_word hw r)
  · by_cases hd : c.isDigit
    · have hmem : [c] ∈ Kind.integer.language :=
        Language.mem_mul.mpr ⟨[], .inl rfl, [c], ⟨by simp, by simpa using hd⟩, rfl⟩
      obtain ⟨n, hn, -⟩ := exists_integerLength? hmem r
      exact next?_isSome .integer hn
    · have hp : isPunctuation c := by
        simp only [isWordStart, Bool.or_eq_true, not_or] at hw
        simp [isPunctuation, Char.isAlphanum, hl, hu, hw.1, hd]
      refine next?_isSome .identifier (n := 1) ?_
      show identifierLength? (c :: r) = some 1
      rw [identifierLength?, if_neg hw, hp, if_pos (by simpa using hq)]

/-- Every plain character but a quote starts a token. -/
theorem next?_isSome_of_isPlain {c : Char} (h : IsPlain c) (hq : c ≠ '\'') (r : List Char) :
    (next? (c :: r)).isSome := by
  rcases h with hp | hp | ⟨hl, hu⟩
  · exact absurd hp hq
  · have hmem : [c] ∈ Kind.whitespace.language := ⟨by simp, by simpa using hp⟩
    obtain ⟨n, hn, -⟩ := exists_whitespaceLength? hmem r
    exact next?_isSome .whitespace hn
  · exact next?_isSome_of_visible hl hu hq r

/-- No other character starts one. -/
theorem next?_of_not_isPlain {c : Char} (h : ¬ IsPlain c) (r : List Char) :
    next? (c :: r) = none := by
  by_contra hne
  obtain ⟨⟨kind, n⟩, hn⟩ := Option.ne_none_iff_exists'.mp hne
  have htake : (c :: r).take n = c :: r.take (n - 1) := List.take_cons (next?_pos hn)
  exact h ((balanced_of_next? hn).plain [] c _ htake ⟨0, rfl⟩)

/-- In front of balanced text there is a token. -/
theorem Balanced.next?_isSome {c : Char} {r : List Char} (h : Balanced (c :: r)) :
    (next? (c :: r)).isSome := by
  by_cases hq : c = '\''
  · subst hq
    have heven := h.even
    rw [even_count_quote_cons] at heven
    cases hc : closingLength? r with
    | none => exact absurd (quote_of_mem_quoted (mem_quoted_of_closingLength? hc)).1 heven
    | some n =>
      have hs : Kind.string.length? ('\'' :: r) = some (n + 1) := by
        show (closingLength? r).map (· + 1) = _
        rw [hc]
        rfl
      exact Token.next?_isSome .string hs
  · exact next?_isSome_of_isPlain (h.plain [] c r rfl ⟨0, rfl⟩) hq r

/-- A run ends in front of nothing, or in front of a character that would make the rest unbalanced.
-/
theorem exists_scanFrom_iff (position : Nat) (cs : List Char) :
    (∃ tokens, scanFrom position cs = .ok tokens) ↔ Balanced cs := by
  constructor
  · rintro ⟨result, h⟩
    obtain ⟨tokens, hs, -⟩ := scanFrom_eq_ok_iff.mp h
    have htexts := hs.texts_append
    rw [List.append_nil] at htexts
    rw [← htexts]
    exact hs.balanced
  · intro h
    obtain ⟨tokens, rest, hs, hr⟩ := exists_scans position cs
    rw [← hs.texts_append, balanced_append_iff hs.balanced] at h
    cases rest with
    | nil => exact ⟨_, scanFrom_eq_ok_iff.mpr ⟨tokens, hs, rfl⟩⟩
    | cons c rest =>
      -- The run stands in front of a character that starts no token.
      have hsome := h.next?_isSome
      rw [hr.resolve_left (List.cons_ne_nil c rest)] at hsome
      cases hsome

/-- A source can be scanned if and only if its single quotes come in pairs and the characters that
are not inside a pair are plain. -/
theorem exists_scan_iff (source : String) :
    (∃ tokens, scan source = .ok tokens) ↔
      Even (source.toList.count '\'') ∧
        ∀ before c after, source.toList = before ++ c :: after → Even (before.count '\'') →
          c = '\'' ∨ isBlank c ∨ 0x21 ≤ c.toNat ∧ c.toNat ≤ 0x7E := by
  rw [scan, exists_scanFrom_iff]
  exact ⟨fun h => ⟨h.even, h.plain⟩, fun h => ⟨h.1, h.2⟩⟩

end Token

end WorkflowCondition
