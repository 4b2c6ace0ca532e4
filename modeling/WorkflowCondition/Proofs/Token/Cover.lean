import Mathlib.Data.List.Chain
import WorkflowCondition.Proofs.Token.Munch

/-!
# The tokens of a source cover it

Every token of a run is the answer that was found in front of its own part of the text
(`Scans.found`), so what holds of an answer holds of all tokens: it has a text, it is no end of
input, and where it is whitespace no whitespace follows. `Covers` says how the tokens of a source
lie in it and `Spaced` how those lie in it that are not whitespace; `scan_covers` says that the
tokens of every source do.
-/

namespace WorkflowCondition

namespace Token

/-- How all tokens of a source lie in it. -/
structure Covers (tokens : List Token) (source : String) : Prop where
  /-- The texts of the tokens, one behind the other, are the source. -/
  texts_eq : texts tokens = source.toList
  /-- A token starts where the texts of the tokens before it end. -/
  position_eq : ∀ before t after, tokens = before ++ t :: after →
    t.position = utf8Length (texts before)
  /-- No token starts inside a character. -/
  boundary : ∀ t ∈ tokens, String.Pos.Raw.IsValid source ⟨t.position⟩
  /-- Only the last token is an end of input, and only it has no text. -/
  ends : ∃ content, tokens = content ++ [.endOfInput source.utf8ByteSize] ∧
    ∀ t ∈ content, t.kind ≠ .endOfInput ∧ t.text ≠ ""
  /-- Of two neighbours at most one is whitespace. -/
  apart : tokens.IsChain fun s t => ¬ (s.kind = .whitespace ∧ t.kind = .whitespace)

/-- How tokens lie in a source that has nothing but blanks between them. -/
structure Spaced (tokens : List Token) (source : String) : Prop where
  increasing : tokens.Pairwise fun s t => s.position < t.position
  /-- From the end of a token to the start of the next there are only blanks. -/
  blanks : ∀ before s t after, tokens = before ++ s :: t :: after →
    ∃ u gap v, source.toList = u ++ s.text.toList ++ gap ++ v ∧ s.position = utf8Length u ∧
      t.position = utf8Length (u ++ s.text.toList ++ gap) ∧ ∀ c ∈ gap, isBlank c

@[simp] theorem texts_append (tokens more : List Token) :
    texts (tokens ++ more) = texts tokens ++ texts more :=
  List.flatMap_append

/-! ## Single answers -/

theorem take_ne_nil_of_next? {cs : List Char} {kind : Kind} {n : Nat}
    (h : next? cs = some (kind, n)) : cs.take n ≠ [] := by
  have hpos := next?_pos h
  have hle := (Kind.starts_language (next?_eq_some_iff.mp h).1).1
  intro htake
  have hlen := congrArg List.length htake
  simp only [List.length_take, List.length_nil] at hlen
  omega

/-- The end is no token that is found; it is added behind all of them. -/
theorem kind_ne_of_next? {cs : List Char} {kind : Kind} {n : Nat}
    (h : next? cs = some (kind, n)) : kind ≠ .endOfInput := by
  rintro rfl
  cases (next?_eq_some_iff.mp h).1

/-- Whitespace goes on to the last blank. -/
theorem next?_drop_ne_whitespace {cs : List Char} {n m : Nat}
    (h : next? cs = some (.whitespace, n)) : next? (cs.drop n) ≠ some (.whitespace, m) := by
  intro h'
  cases hrest : cs.drop n with
  | nil =>
    rw [hrest, next?_nil] at h'
    cases h'
  | cons c r =>
    rw [hrest] at h'
    have hmem := (Kind.starts_language (next?_eq_some_iff.mp h').1).2
    rw [List.take_cons (next?_pos h')] at hmem
    exact (isMunch_of_next? h).not_isBlank c (by rw [hrest]; rfl) (hmem.2 c List.mem_cons_self)

/-! ## Runs -/

/-- A token of a run is the answer in front of its part of the text. -/
theorem Scans.found {position : Nat} {cs rest : List Char} {before after : List Token} {t : Token}
    (hs : Scans position cs (before ++ t :: after) rest) :
    ∃ mid n, next? mid = some (t.kind, n) ∧ t.text = .ofList (mid.take n) ∧
      t.position = position + utf8Length (texts before) ∧
      Scans (t.position + utf8Length t.text.toList) (mid.drop n) after rest := by
  obtain ⟨mid, -, hlast⟩ := hs.of_append
  rcases hlast with _ | @⟨_, n, _, _, kind, _, h, hrest⟩
  refine ⟨mid, n, h, rfl, rfl, ?_⟩
  rwa [String.toList_ofList]

section

variable {position : Nat} {cs rest : List Char} {tokens : List Token}

theorem Scans.content (hs : Scans position cs tokens rest) :
    ∀ t ∈ tokens, t.kind ≠ .endOfInput ∧ t.text ≠ "" := by
  intro t ht
  obtain ⟨before, after, rfl⟩ := List.append_of_mem ht
  obtain ⟨mid, n, h, htext, -, -⟩ := hs.found
  refine ⟨kind_ne_of_next? h, fun hempty => take_ne_nil_of_next? h ?_⟩
  rw [← String.toList_ofList (l := mid.take n), ← htext, hempty]
  rfl

theorem Scans.isBlank_of_whitespace (hs : Scans position cs tokens rest) {t : Token}
    (ht : t ∈ tokens) (hk : t.kind = .whitespace) : ∀ c ∈ t.text.toList, isBlank c := by
  obtain ⟨before, after, rfl⟩ := List.append_of_mem ht
  obtain ⟨mid, n, h, htext, -, -⟩ := hs.found
  rw [hk] at h
  rw [htext, String.toList_ofList]
  exact (Kind.starts_language (next?_eq_some_iff.mp h).1).2.2

/-- Whitespace is found in one piece, so that no two of these tokens are neighbours. -/
theorem Scans.apart (hs : Scans position cs tokens rest) :
    tokens.IsChain fun s t => ¬ (s.kind = .whitespace ∧ t.kind = .whitespace) := by
  induction hs with
  | refl => exact .nil
  | next h hs ih =>
    cases hs with
    | refl => exact .singleton _
    | next h' hs' =>
      refine List.isChain_cons_cons.mpr ⟨?_, ih⟩
      rintro ⟨rfl, rfl⟩
      exact next?_drop_ne_whitespace h h'

/-- Positions increase along a run, and stay inside the text that is consumed. -/
theorem Scans.increasing (hs : Scans position cs tokens rest) :
    tokens.Pairwise (fun s t => s.position < t.position) ∧
      ∀ t ∈ tokens, position ≤ t.position ∧ t.position < position + utf8Length (texts tokens) := by
  induction hs with
  | refl => exact ⟨.nil, by simp⟩
  | @next position n cs rest kind tokens h hs ih =>
    obtain ⟨hpair, hbound⟩ := ih
    have hpos : 0 < utf8Length (cs.take n) := by
      have hne := List.length_pos_iff.mpr (take_ne_nil_of_next? h)
      have hle := length_le_utf8Length (cs.take n)
      omega
    refine ⟨List.pairwise_cons.mpr ⟨fun t ht => ?_, hpair⟩, fun t ht => ?_⟩
    · have := hbound t ht
      show position < t.position
      omega
    · rw [texts_cons, String.toList_ofList, utf8Length_append]
      rcases List.mem_cons.mp ht with rfl | ht
      · show position ≤ position ∧ position < _
        omega
      · have := hbound t ht
        omega

end

/-! ## Whole sources -/

/-- What is left out of tokens between two that are kept. -/
theorem filter_eq_append_cons_cons {p : Token → Bool} {tokens before after : List Token}
    {s t : Token} (h : tokens.filter p = before ++ s :: t :: after) :
    ∃ u gap v, tokens = u ++ s :: (gap ++ t :: v) ∧ ∀ x ∈ gap, ¬ p x := by
  obtain ⟨u, v, rfl, -, hv⟩ := List.filter_eq_append_iff.mp h
  obtain ⟨u', w, rfl, -, -, hw⟩ := List.filter_eq_cons_iff.mp hv
  obtain ⟨gap, v', rfl, hgap, -, -⟩ := List.filter_eq_cons_iff.mp hw
  exact ⟨u ++ u', gap, v', by simp, hgap⟩

theorem isBlank_texts {tokens : List Token}
    (h : ∀ t ∈ tokens, ∀ c ∈ t.text.toList, isBlank c) : ∀ c ∈ texts tokens, isBlank c := by
  intro c hc
  obtain ⟨t, ht, hct⟩ := List.mem_flatMap.mp hc
  exact h t ht c hct

section

variable {source : String} {tokens : List Token}

theorem texts_of_scans (hs : Scans 0 source.toList tokens []) : texts tokens = source.toList := by
  have htexts := hs.texts_append
  rwa [List.append_nil] at htexts

/-- The position of a token is the length of all texts in front of it, whitespace included. -/
theorem position_eq_of_scans (hs : Scans 0 source.toList tokens []) {before after : List Token}
    {t : Token} (h : tokens ++ [endOfInput source.utf8ByteSize] = before ++ t :: after) :
    t.position = utf8Length (texts before) := by
  rcases List.eq_nil_or_concat' after with rfl | ⟨after, last, rfl⟩
  · obtain ⟨rfl, hend⟩ := List.append_inj' h rfl
    cases hend
    rw [texts_of_scans hs, utf8Length_toList]
    rfl
  · rw [← List.cons_append, ← List.append_assoc] at h
    obtain ⟨rfl, -⟩ := List.append_inj' h rfl
    obtain ⟨-, -, -, -, hposition, -⟩ := hs.found
    rw [hposition, Nat.zero_add]

/-- The end of a text is a boundary of what it is the start of. -/
theorem isValid_of_toList_eq {u v : List Char} (h : source.toList = u ++ v) :
    String.Pos.Raw.IsValid source ⟨utf8Length u⟩ := by
  have hsource : source = .ofList u ++ .ofList v := by
    rw [← String.ofList_append, ← h, String.ofList_toList]
  have hsize : (String.ofList u).utf8ByteSize = utf8Length u := by
    rw [← utf8Length_toList, String.toList_ofList]
  refine String.Pos.Raw.isValid_iff_exists_append.mpr ⟨_, _, hsource, ?_⟩
  rw [← hsize]
  rfl

theorem covers_of_scans (hs : Scans 0 source.toList tokens []) :
    Covers (tokens ++ [endOfInput source.utf8ByteSize]) source := by
  have htexts : texts (tokens ++ [endOfInput source.utf8ByteSize]) = source.toList := by
    rw [texts_append, texts_of_scans hs]
    exact List.append_nil _
  refine ⟨htexts, fun before t after => position_eq_of_scans hs, fun t ht => ?_,
    ⟨tokens, rfl, hs.content⟩, ?_⟩
  · obtain ⟨before, after, heq⟩ := List.append_of_mem ht
    rw [position_eq_of_scans hs heq]
    exact isValid_of_toList_eq (by rw [← htexts, heq, texts_append])
  · refine List.isChain_append.mpr ⟨hs.apart, .singleton _, ?_⟩
    rintro s - t ht ⟨-, hk⟩
    cases ht
    cases hk

/-- Positions increase, because no text is empty. -/
theorem increasing_of_scans (hs : Scans 0 source.toList tokens []) :
    (tokens ++ [endOfInput source.utf8ByteSize]).Pairwise fun s t => s.position < t.position := by
  obtain ⟨hpair, hbound⟩ := hs.increasing
  refine List.pairwise_append.mpr ⟨hpair, List.pairwise_singleton _ _, fun s hs' t ht => ?_⟩
  obtain rfl := List.mem_singleton.mp ht
  have hlt := (hbound s hs').2
  rwa [texts_of_scans hs, utf8Length_toList, Nat.zero_add] at hlt

theorem increasing_of_tokenize (h : tokenize source = .ok tokens) :
    tokens.Pairwise fun s t => s.position < t.position := by
  obtain ⟨found, hs, rfl⟩ := tokenize_eq_ok_iff.mp h
  have hincreasing := (increasing_of_scans hs).filter (·.kind != .whitespace)
  rw [List.filter_append] at hincreasing
  exact hincreasing

/-- Where the whitespace is left out, blanks are all that is missing between two tokens. -/
theorem spaced_of_scans (hs : Scans 0 source.toList tokens []) :
    Spaced ((tokens ++ [endOfInput source.utf8ByteSize]).filter fun t => t.kind != .whitespace)
      source := by
  refine ⟨(increasing_of_scans hs).filter _, fun before s t after h => ?_⟩
  obtain ⟨u, gap, v, heq, hgap⟩ := filter_eq_append_cons_cons h
  have heq' : tokens ++ [endOfInput source.utf8ByteSize] = (u ++ s :: gap) ++ t :: v := by
    rw [heq, List.append_assoc, List.cons_append]
  have hposition := position_eq_of_scans hs heq'
  refine ⟨texts u, texts gap, texts (t :: v), ?_, position_eq_of_scans hs heq, ?_, ?_⟩
  · rw [← (covers_of_scans hs).texts_eq, heq]
    simp
  · rw [hposition]
    simp
  · refine isBlank_texts fun x hx => ?_
    have hk : x.kind = .whitespace := by simpa using hgap x hx
    have hmem : x ∈ tokens ++ [endOfInput source.utf8ByteSize] := by
      rw [heq]
      simp [hx]
    rcases List.mem_append.mp hmem with hm | hm
    · exact hs.isBlank_of_whitespace hm hk
    · obtain rfl := List.mem_singleton.mp hm
      cases hk

end

/-- Scanning loses and invents nothing: the tokens of a source cover it, and what lies between those
that are not whitespace is blank. -/
theorem scan_covers {source : String} {tokens : List Token} (h : scan source = .ok tokens) :
    Covers tokens source ∧
      tokenize source = .ok (tokens.filter (·.kind != .whitespace)) ∧
      Spaced (tokens.filter (·.kind != .whitespace)) source := by
  obtain ⟨content, hs, rfl⟩ := scanFrom_eq_ok_iff.mp h
  rw [Nat.zero_add, utf8Length_toList] at h ⊢
  refine ⟨covers_of_scans hs, ?_, spaced_of_scans hs⟩
  rw [tokenize, h]
  rfl

/-- A no-break space takes two bytes, and so does the letter behind it. -/
theorem scan_covers_wide :
    scan "a\u00A0'é' " = .ok [⟨.identifier, "a", 0⟩, ⟨.whitespace, "\u00A0", 1⟩,
        ⟨.string, "'é'", 3⟩, ⟨.whitespace, " ", 7⟩, .endOfInput 8] ∧
      Spaced [⟨.identifier, "a", 0⟩, ⟨.string, "'é'", 3⟩, .endOfInput 8] "a\u00A0'é' " := by
  have hs : Scans 0 "a\u00A0'é' ".toList [⟨.identifier, "a", 0⟩, ⟨.whitespace, "\u00A0", 1⟩,
      ⟨.string, "'é'", 3⟩, ⟨.whitespace, " ", 7⟩] [] :=
    .next (n := 1) (by decide) (.next (n := 1) (by decide) (.next (n := 3) (by decide)
      (.next (n := 1) (by decide) .refl)))
  have h := scanFrom_eq_ok_iff.mpr ⟨_, hs, rfl⟩
  exact ⟨h, (scan_covers h).2.2⟩

end Token

end WorkflowCondition
