import WorkflowCondition.Proofs.Token.QuoteRuns
import WorkflowCondition.Proofs.Token.Separation

/-!
# Where a scan fails

What a scan has found stays as it is in front of a character that starts no token, and in front of
nothing: `next?_replace` for one token, `Scans.replace` for a run. So the text in front of the place
where a scan fails has just the tokens that are found in it, and the failure does not depend on what
stands behind the place, unless a string is open there. `scan_locates` puts together what is known
of the places between tokens.
-/

namespace WorkflowCondition

open scoped Computability

namespace Token

/-- The next character is one of the text between, or of what stands behind it. -/
theorem forall_head?_append {p : Char → Prop} {mid rest rest' : List Char}
    (h : ∀ c ∈ (mid ++ rest).head?, p c) (h' : ∀ c ∈ rest'.head?, p c) :
    ∀ c ∈ (mid ++ rest').head?, p c := by
  cases mid with
  | nil => exact h'
  | cons d mid => exact h

/-- What is behind a token can be replaced from any place on by what starts no token. -/
theorem next?_replace {kind : Kind} {w mid rest rest' : List Char}
    (h : next? (w ++ (mid ++ rest)) = some (kind, w.length))
    (hr : ∀ c ∈ rest'.head?, ¬ IsPlain c) :
    next? (w ++ (mid ++ rest')) = some (kind, w.length) := by
  have hmunch := isMunch_of_next? h
  have hne := take_ne_nil_of_next? h
  have halone := take_ne_quote_of_next? h
  rw [List.take_left] at hmunch hne halone
  rw [List.drop_left] at hmunch
  by_cases hstring : kind = .string
  · subst hstring
    obtain ⟨-, -, -, -, -, -, hend⟩ := endsAtOddRun_of_next? h
    rw [List.drop_left] at hend
    have hquote : ∀ c ∈ (mid ++ rest).head?, c ≠ '\'' := by
      rintro c hc rfl
      exact hend hc
    have hquote' : ∀ c ∈ rest'.head?, c ≠ '\'' := by
      rintro c hc rfl
      exact hr _ hc (.inl rfl)
    obtain ⟨s, rfl⟩ := mem_string_language_iff.mp hmunch.mem
    exact next?_quote_append s fun hq => forall_head?_append hquote hquote' _ hq rfl
  by_cases hwhite : kind = .whitespace
  · subst hwhite
    exact next?_blanks hne hmunch.mem.2 (forall_head?_append hmunch.not_isBlank
      fun c hc hblank => hr c hc (.inr (.inl hblank)))
  refine next?_of_longest hne hmunch.mem hmunch.first hstring hwhite halone fun kind' u hu hp => ?_
  have hvisible := Kind.over_isVisible hstring hwhite w hmunch.mem
  obtain ⟨c, v, rfl⟩ := List.exists_cons_of_ne_nil hne
  -- The text does not go past the place, and so it was there before.
  have hle : u.length ≤ (c :: (v ++ mid)).length := by
    refine length_le_of_isVisible (r := rest') (hvisible c List.mem_cons_self)
      (ne_quote_of_mem hmunch.mem hstring halone)
      (fun b hb hv => hr b hb (.inr (.inr hv))) hu ?_
    rwa [← List.cons_append, List.append_assoc]
  have hfront : u <+: c :: v ++ mid := by
    rw [← List.append_assoc] at hp
    exact List.prefix_of_prefix_length_le hp (List.prefix_append _ rest') hle
  refine hmunch.longest kind' u hu ?_
  rw [← List.append_assoc]
  exact hfront.trans (List.prefix_append _ rest)

/-- What a run has found stays as it is in front of what starts no token. -/
theorem Scans.replace {position : Nat} {cs rest rest' : List Char} {tokens : List Token}
    (hs : Scans position cs tokens rest) (hr : ∀ c ∈ rest'.head?, ¬ IsPlain c) :
    Scans position (texts tokens ++ rest') tokens rest' := by
  induction hs with
  | refl => exact .refl
  | @next position n cs rest kind tokens h hs ih =>
    have hle := (Kind.starts_language (next?_eq_some_iff.mp h).1).1
    have hlen : (cs.take n).length = n := by rw [List.length_take, Nat.min_eq_left hle]
    have hfound : next? (cs.take n ++ (texts tokens ++ rest)) =
        some (kind, (cs.take n).length) := by
      rw [hs.texts_append, List.take_append_drop, hlen]
      exact h
    rw [texts_cons, String.toList_ofList, List.append_assoc]
    exact .next_append (next?_replace hfound hr) ih

/-- The text in front of a place between tokens has the tokens that are found in it. -/
theorem Scans.scan_texts {cs rest : List Char} {tokens : List Token} (hs : Scans 0 cs tokens rest) :
    scan (.ofList (texts tokens)) = .ok (tokens ++ [.endOfInput (utf8Length (texts tokens))]) := by
  have hcut : Scans 0 (texts tokens ++ []) tokens [] := hs.replace (by simp)
  rw [List.append_nil] at hcut
  rw [scan, String.toList_ofList]
  exact scanFrom_eq_ok_iff.mpr ⟨tokens, hcut, by rw [Nat.zero_add]⟩

/-- A character that is not plain fails a scan at its place, whatever stands behind it. -/
theorem Scans.scan_not_isPlain {cs rest : List Char} {tokens : List Token} {c : Char}
    (hs : Scans 0 cs tokens rest) (hc : ¬ IsPlain c) (more : List Char) :
    scan (.ofList (texts tokens ++ c :: more)) =
      .error (.unexpectedCharacter c (utf8Length (texts tokens))) := by
  have hfail : Scans 0 (texts tokens ++ c :: more) tokens (c :: more) :=
    hs.replace (by rintro _ ⟨⟩; exact hc)
  rw [scan, String.toList_ofList]
  exact scanFrom_eq_error_iff.mpr
    ⟨tokens, c, more, hfail, next?_of_not_isPlain hc more, by rw [Nat.zero_add]⟩

/-- No token starts in two places: at a quote that opens a string without end, and at a character
that is part of no token outside of strings. -/
theorem stuck_of_next?_eq_none {c : Char} {rest : List Char} (h : next? (c :: rest) = none) :
    c = '\'' ∧ EvenRuns rest ∨ c ≠ '\'' ∧ ¬ IsPlain c := by
  by_cases hq : c = '\''
  · subst hq
    exact .inl ⟨rfl, evenRuns_of_next?_eq_none h⟩
  · refine .inr ⟨hq, fun hplain => ?_⟩
    have hsome := next?_isSome_of_isPlain hplain hq rest
    rw [h] at hsome
    cases hsome

/-- A scan that fails has a character left, which takes a byte at least. -/
theorem Scans.utf8Length_lt {source : String} {c : Char} {rest : List Char} {tokens : List Token}
    (hs : Scans 0 source.toList tokens (c :: rest)) :
    utf8Length (texts tokens) < source.utf8ByteSize := by
  have hlen := congrArg utf8Length hs.texts_append
  rw [utf8Length_append, utf8Length_cons, utf8Length_toList] at hlen
  have hpos := c.utf8Size_pos
  omega

/-- Each place between the tokens of a scan divides the source: the text in front of it has just the
tokens found there, the scan goes on with the rest, and no string goes past the first run of quotes
that does not come in pairs. A failure is at such a place, at a character that is part of no token
or at a quote that opens a string without end; the former is a failure whatever follows. -/
theorem scan_locates (source : String) :
    (∀ tokens rest, Scans 0 source.toList tokens rest →
      source.toList = texts tokens ++ rest ∧
      scan source = (scanFrom (utf8Length (texts tokens)) rest).map (tokens ++ ·) ∧
      scan (.ofList (texts tokens)) =
        .ok (tokens ++ [.endOfInput (utf8Length (texts tokens))])) ∧
    (∀ e, scan source = .error e → ∃ tokens c rest,
      Scans 0 source.toList tokens (c :: rest) ∧
      e = .unexpectedCharacter c (utf8Length (texts tokens)) ∧
      utf8Length (texts tokens) < source.utf8ByteSize ∧
      (c = '\'' ∧ EvenRuns rest ∨
        c ≠ '\'' ∧ ¬ isBlank c ∧ ¬ (0x21 ≤ c.toNat ∧ c.toNat ≤ 0x7E) ∧
          ∀ more, scan (.ofList (texts tokens ++ c :: more)) = .error e)) ∧
    ∀ tokens t rest, Scans 0 source.toList (tokens ++ [t]) rest → t.kind = .string →
      t.position = utf8Length (texts tokens) ∧ EndsAtOddRun t.text.toList rest := by
  refine ⟨fun tokens rest hs => ⟨hs.texts_append.symm, ?_, hs.scan_texts⟩, fun e he => ?_,
    fun tokens t rest hs hstring => ?_⟩
  · have hscan := hs.scanFrom_eq
    rwa [Nat.zero_add] at hscan
  · obtain ⟨tokens, c, rest, hs, hnone, rfl⟩ := scanFrom_eq_error_iff.mp he
    rw [Nat.zero_add]
    refine ⟨tokens, c, rest, hs, rfl, hs.utf8Length_lt, ?_⟩
    obtain hquote | ⟨hq, hplain⟩ := stuck_of_next?_eq_none hnone
    · exact .inl hquote
    · have hblank : ¬ isBlank c := fun h => hplain (.inr (.inl h))
      have hvisible : ¬ IsVisible c := fun h => hplain (.inr (.inr h))
      exact .inr ⟨hq, hblank, hvisible, hs.scan_not_isPlain hplain⟩
  · obtain ⟨mid, n, h, htext, hposition, hrest⟩ := hs.found
    cases hrest
    rw [hstring] at h
    rw [htext, String.toList_ofList]
    exact ⟨hposition.trans (Nat.zero_add _), endsAtOddRun_of_next? h⟩

/-- In `1 == 'it''s` the four tokens in front of the string are found, and behind the quote that
fails stand only two quotes in a row. -/
theorem scan_locates_unclosed :
    (∃ tokens, scan "1 == " = .ok (tokens ++ [.endOfInput 5]) ∧ tokens.length = 4) ∧
      scan "1 == 'it''s" = .error (.unexpectedCharacter '\'' 5) ∧
      ∃ before rest, "1 == 'it''s".toList = before ++ '\'' :: rest ∧ utf8Length before = 5 ∧
        EvenRuns rest := by
  have hs : Scans 0 "1 == 'it''s".toList [⟨.integer, "1", 0⟩, ⟨.whitespace, " ", 1⟩,
      ⟨.operator, "==", 2⟩, ⟨.whitespace, " ", 4⟩] "'it''s".toList :=
    .next (n := 1) (by decide) (.next (n := 1) (by decide)
      (.next (n := 2) (by decide) (.next (n := 1) (by decide) .refl)))
  have hfail : scan "1 == 'it''s" = .error (.unexpectedCharacter '\'' 5) :=
    scanFrom_eq_error_iff.mpr ⟨_, _, _, hs, by decide, rfl⟩
  obtain ⟨hplaces, herrors, -⟩ := scan_locates "1 == 'it''s"
  refine ⟨⟨_, (hplaces _ _ hs).2.2, rfl⟩, hfail, ?_⟩
  obtain ⟨tokens, c, rest, hrun, he, -, hcase⟩ := herrors _ hfail
  injection he with hc hposition
  subst hc
  obtain ⟨-, hruns⟩ | ⟨hq, -⟩ := hcase
  · exact ⟨texts tokens, rest, hrun.texts_append.symm, hposition.symm, hruns⟩
  · exact absurd rfl hq

end Token

end WorkflowCondition
