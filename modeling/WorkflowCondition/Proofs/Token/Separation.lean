import WorkflowCondition.Proofs.Token.Cover
import WorkflowCondition.Proofs.Token.Quotes
import WorkflowCondition.Proofs.Token.StringText

/-!
# Tokens between blanks

A text that a scan has found once is found again wherever a blank or nothing follows it
(`IsSeparable`, `isSeparable_of_next?`): only a string holds a blank, and a string ends at a quote.
So tokens can be written with any blanks between them: `Respaced.tokenize` gives the tokens of such
a text, which have the same kinds and texts.
-/

namespace WorkflowCondition

open scoped Computability

namespace Token

/-! ## Visible characters -/

/-- A visible ASCII character. -/
def IsVisible (c : Char) : Prop :=
  0x21 ≤ c.toNat ∧ c.toNat ≤ 0x7E

instance (c : Char) : Decidable (IsVisible c) :=
  inferInstanceAs (Decidable (_ ∧ _))

theorem IsVisible.not_isBlank {c : Char} (h : IsVisible c) : ¬ isBlank c := by
  intro hb
  have := toNat_of_isBlank hb
  have hl := h.1
  have hu := h.2
  omega

theorem isVisible_of_isDigit {c : Char} (h : c.isDigit) : IsVisible c := by
  have := toNat_of_isDigit h
  exact ⟨by omega, by omega⟩

theorem isVisible_of_isWordChar {c : Char} (h : isWordChar c) : IsVisible c := by
  rcases isWordStart_or_isDigit h with h | h
  · have := toNat_of_isWordStart h
    exact ⟨by omega, by omega⟩
  · exact isVisible_of_isDigit h

theorem isVisible_of_isKeyChar {c : Char} (h : isKeyChar c) : IsVisible c := by
  rcases Bool.or_eq_true_iff.mp h with h | h
  · exact isVisible_of_isWordChar h
  · rw [eq_of_beq h]
    decide

theorem isVisible_of_isPunctuation {c : Char} (h : isPunctuation c) : IsVisible c := by
  simp only [isPunctuation, Bool.and_eq_true, decide_eq_true_eq] at h
  exact h.1

/-- Only strings and whitespace have other characters. -/
theorem Kind.over_isVisible {kind : Kind} (hs : kind ≠ .string) (hw : kind ≠ .whitespace) :
    Over IsVisible kind.language := by
  cases kind with
  | null | bool | root =>
    exact Over.anyText fun _ hm c hc => isVisible_of_isWordChar (isWordChar_of_mem_words hm c hc)
  | float => exact Over.float isVisible_of_isDigit (forall_mem_of_all (by decide))
  | integer => exact Over.integer isVisible_of_isDigit (by decide)
  | string => exact absurd rfl hs
  | whitespace => exact absurd rfl hw
  | accessor =>
    have hpoint : Over IsVisible {['.']} := .text (forall_mem_of_all (by decide))
    have hopen : Over IsVisible {['[', '\'']} := .text (forall_mem_of_all (by decide))
    have hclose : Over IsVisible {['\'', ']']} := .text (forall_mem_of_all (by decide))
    have hkey : Over IsVisible (someOf isKeyChar) := .someOf isVisible_of_isKeyChar
    exact (hpoint.mul hkey).add (hopen.mul (hkey.mul hclose))
  | operator => exact Over.operator (by decide)
  | not => exact Over.text (forall_mem_of_all (by decide))
  | identifier =>
    exact Over.add
      (.mul (.oneOf fun h => isVisible_of_isWordChar (isWordChar_of_isWordStart h))
        (.manyOf isVisible_of_isWordChar))
      (.oneOf isVisible_of_isPunctuation)
  | endOfInput => rintro w ⟨⟩

/-! ## Separable texts -/

/-- In front of a blank, or of nothing, the text is found whole as a token of the kind. -/
def IsSeparable (kind : Kind) (w : List Char) : Prop :=
  ∀ r : List Char, (∀ c ∈ r.head?, isBlank c) → next? (w ++ r) = some (kind, w.length)

theorem head?_ne_quote {r : List Char} (hr : ∀ c ∈ r.head?, isBlank c) : r.head? ≠ some '\'' := by
  intro hq
  exact absurd (hr _ hq) (by decide)

/-- A text whose characters behind the first are all of a class does not go on with a character that
is not. -/
theorem length_le_of_tail {p : Char → Prop} {c : Char} {v r u : List Char}
    (hu : ∀ b ∈ u.tail, p b) (hr : ∀ b ∈ r.head?, ¬ p b) (hp : u <+: c :: v ++ r) :
    u.length ≤ (c :: v).length := by
  by_contra hlong
  have hstart := List.prefix_of_prefix_length_le (List.prefix_append (c :: v) r) hp (by omega)
  obtain ⟨x, rfl⟩ := hstart
  rw [List.prefix_append_right_inj] at hp
  cases x with
  | nil => simp at hlong
  | cons b x =>
    obtain ⟨r', rfl⟩ := hp
    exact hr b rfl (hu b (by simp))

/-- A text that starts with a visible character, but no quote, does not go on behind the next
character that is not visible. -/
theorem length_le_of_isVisible {kind : Kind} {c : Char} {v r u : List Char} (hc : IsVisible c)
    (hq : c ≠ '\'') (hr : ∀ b ∈ r.head?, ¬ IsVisible b) (hu : u ∈ kind.language)
    (hp : u <+: c :: v ++ r) : u.length ≤ (c :: v).length := by
  refine length_le_of_tail ?_ hr hp
  cases u with
  | nil => simp
  | cons d u =>
    obtain ⟨rfl, -⟩ := List.cons_prefix_cons.mp hp
    have hstring : kind ≠ .string := by
      rintro rfl
      exact hq (eq_quote_of_mem hu)
    have hwhite : kind ≠ .whitespace := by
      rintro rfl
      exact hc.not_isBlank (hu.2 d List.mem_cons_self)
    exact fun b hb => Kind.over_isVisible hstring hwhite _ hu b (List.mem_cons_of_mem d hb)

/-- A text is of one kind first. -/
theorem IsMunch.kind_eq {kind kind' : Kind} {w r : List Char} (h : IsMunch kind w r)
    (hw : w ∈ kind'.language)
    (hfirst : ∀ earlier : Kind, earlier.ctorIdx < kind'.ctorIdx → w ∉ earlier.language) :
    kind = kind' := by
  rcases Nat.lt_trichotomy kind.ctorIdx kind'.ctorIdx with hlt | heq | hgt
  · exact absurd h.mem (hfirst kind hlt)
  · rw [← Kind.ofNat_ctorIdx kind, heq, Kind.ofNat_ctorIdx]
  · exact absurd hw (h.first kind' hgt)

theorem isSeparable_quote (s : String) : IsSeparable .string (quote s).toList :=
  fun _ hr => next?_quote_append s (head?_ne_quote hr)

/-- Only a string starts with a quote, and a quote alone. -/
theorem ne_quote_of_mem {kind : Kind} {c : Char} {v : List Char} (hw : c :: v ∈ kind.language)
    (hstring : kind ≠ .string) (hquote : c :: v ≠ ['\'']) : c ≠ '\'' := by
  rintro rfl
  by_cases hi : kind = .identifier
  · subst hi
    rcases hw with hw | ⟨d, -, he⟩
    · obtain ⟨_, ⟨d, hd, rfl⟩, _, -, he⟩ := Language.mem_mul.mp hw
      cases he
      exact absurd hd (by decide)
    · cases he
      exact hquote rfl
  · have hlead : Kind.string = kind.lead := Kind.lead_eq hw hi
    cases kind with
    | string => exact hstring rfl
    | _ => cases hlead

/-- Where no text of any kind goes on behind a text, it is found whole. -/
theorem next?_of_longest {kind : Kind} {w r : List Char} (hne : w ≠ []) (hw : w ∈ kind.language)
    (hfirst : ∀ kind' : Kind, kind'.ctorIdx < kind.ctorIdx → w ∉ kind'.language)
    (hstring : kind ≠ .string) (hwhite : kind ≠ .whitespace) (hquote : w ≠ ['\''])
    (hlong : ∀ (kind' : Kind) (u : List Char), u ∈ kind'.language → u <+: w ++ r →
      u.length ≤ w.length) : next? (w ++ r) = some (kind, w.length) := by
  have hvisible := Kind.over_isVisible hstring hwhite w hw
  obtain ⟨c, v, rfl⟩ := List.exists_cons_of_ne_nil hne
  have hq : c ≠ '\'' := ne_quote_of_mem hw hstring hquote
  have hc := hvisible c List.mem_cons_self
  have hsome := next?_isSome_of_visible hc.1 hc.2 hq (v ++ r)
  obtain ⟨⟨found, n⟩, hn⟩ := Option.isSome_iff_exists.mp hsome
  rw [← List.cons_append] at hn
  have hmunch := isMunch_of_next? hn
  have htake := List.take_append_drop n (c :: v ++ r)
  have hlen : ((c :: v ++ r).take n).length = n := by
    rw [List.length_take, Nat.min_eq_left (Kind.starts_language (next?_eq_some_iff.mp hn).1).1]
  have hle := hmunch.longest kind _ hw (by rw [htake]; exact List.prefix_append _ _)
  have hge := hlong found _ hmunch.mem ⟨_, htake⟩
  obtain rfl : n = (c :: v).length := hlen.symm.trans (Nat.le_antisymm hge hle)
  rw [List.take_left] at hmunch
  rw [hn, hmunch.kind_eq hw hfirst]

/-- A text of a kind, but of no kind before it, is separable; a quote alone is no text. -/
theorem isSeparable_of_mem {kind : Kind} {w : List Char} (hne : w ≠ [])
    (hw : w ∈ kind.language) (hfirst : ∀ kind' : Kind, kind'.ctorIdx < kind.ctorIdx →
      w ∉ kind'.language) (hwhite : kind ≠ .whitespace) (hquote : w ≠ ['\'']) :
    IsSeparable kind w := by
  by_cases hstring : kind = .string
  · subst hstring
    obtain ⟨s, rfl⟩ := mem_string_language_iff.mp hw
    exact isSeparable_quote s
  intro r hr
  refine next?_of_longest hne hw hfirst hstring hwhite hquote fun kind' u hu hp => ?_
  have hvisible := Kind.over_isVisible hstring hwhite w hw
  obtain ⟨c, v, rfl⟩ := List.exists_cons_of_ne_nil hne
  exact length_le_of_isVisible (hvisible c List.mem_cons_self) (ne_quote_of_mem hw hstring hquote)
    (fun b hb hv => hv.not_isBlank (hr b hb)) hu hp

/-- A text is separable where no kind before its own starts like it. -/
theorem isSeparable_of_lead {kind : Kind} {w : List Char} (hne : w ≠ []) (hw : w ∈ kind.language)
    (hi : kind ≠ .identifier)
    (hlead : ∀ kind' : Kind, kind'.ctorIdx < kind.ctorIdx → kind'.lead ≠ kind.lead)
    (hwhite : kind ≠ .whitespace) (hstring : kind.lead ≠ .string) : IsSeparable kind w := by
  obtain ⟨c, v, rfl⟩ := List.exists_cons_of_ne_nil hne
  have hc := Kind.lead_eq hw hi
  refine isSeparable_of_mem hne hw (fun kind' hlt hw' => ?_) hwhite ?_
  · have hi' : kind' ≠ .identifier := by
      rintro rfl
      cases kind with
      | endOfInput => cases hw
      | _ => exact absurd hlt (by decide)
    exact hlead kind' hlt ((Kind.lead_eq hw' hi').symm.trans hc)
  · rintro ⟨⟩
    exact hstring hc.symm

/-- A punctuation character that no other kind starts with. -/
theorem isSeparable_mark {c : Char} (hp : isPunctuation c) (hc : leadOf c = .identifier) :
    IsSeparable .identifier [c] := by
  refine isSeparable_of_mem (List.cons_ne_nil c []) (.inr ⟨c, hp, rfl⟩) (fun kind hlt hw => ?_)
    (by decide) ?_
  · have hi : kind ≠ .identifier := by
      rintro rfl
      exact absurd hlt (Nat.lt_irrefl _)
    have hlead := Kind.lead_eq hw hi
    rw [hc] at hlead
    cases kind with
    | identifier => exact hi rfl
    | endOfInput => cases hw
    | _ => cases hlead
  · rintro ⟨⟩
    cases hc

/-- A quote alone is no token: it would be a string without its end. -/
theorem take_ne_quote_of_next? {cs : List Char} {kind : Kind} {n : Nat}
    (h : next? cs = some (kind, n)) : cs.take n ≠ ['\''] := by
  intro hq
  obtain ⟨r, rfl⟩ : ∃ r, cs = '\'' :: r := ⟨_, by rw [← List.take_append_drop n cs, hq]; rfl⟩
  obtain ⟨m, hm, rfl⟩ := Option.map_eq_some_iff.mp (next?_quote h)
  have hpos := closingLength?_pos hm
  have hle := (Kind.starts_language (next?_eq_some_iff.mp h).1).1
  have hlen := congrArg List.length hq
  rw [List.length_take, List.length_singleton] at hlen
  omega

/-- What is found in front of any text is found again in front of a blank. -/
theorem isSeparable_of_next? {cs : List Char} {kind : Kind} {n : Nat}
    (h : next? cs = some (kind, n)) (hwhite : kind ≠ .whitespace) :
    IsSeparable kind (cs.take n) :=
  have hmunch := isMunch_of_next? h
  isSeparable_of_mem (take_ne_nil_of_next? h) hmunch.mem hmunch.first hwhite
    (take_ne_quote_of_next? h)

/-- Blanks are found as one token up to what is no blank. -/
theorem next?_blanks {gap r : List Char} (hne : gap ≠ []) (hgap : ∀ c ∈ gap, isBlank c)
    (hr : ∀ c ∈ r.head?, ¬ isBlank c) : next? (gap ++ r) = some (.whitespace, gap.length) := by
  have hspan : spanLength isBlank (gap ++ r) = gap.length := by
    rw [spanLength_append hgap]
    cases r with
    | nil => rfl
    | cons c r => rw [spanLength_cons_of_neg (hr c rfl), Nat.add_zero]
  obtain ⟨c, v, rfl⟩ := List.exists_cons_of_ne_nil hne
  have hlength : whitespaceLength? (c :: v ++ r) = some (c :: v).length := by
    rw [whitespaceLength?, hspan]
    rfl
  refine next?_of_lead hlength ?_
  rw [leadOf_of_isBlank (hgap c List.mem_cons_self)]
  intro kind
  cases kind <;> decide

/-- No separable text but whitespace starts with a blank. -/
theorem IsSeparable.exists_cons {kind : Kind} {w : List Char} (h : IsSeparable kind w)
    (hwhite : kind ≠ .whitespace) : ∃ c v, w = c :: v ∧ ¬ isBlank c := by
  have hnext := h [] (by simp)
  rw [List.append_nil] at hnext
  cases w with
  | nil => rw [next?_nil] at hnext; cases hnext
  | cons c v =>
    refine ⟨c, v, rfl, ?_⟩
    have hmem := (Kind.starts_language (next?_eq_some_iff.mp hnext).1).2
    rw [List.take_length] at hmem
    by_cases hstring : kind = .string
    · subst hstring
      rw [eq_quote_of_mem hmem]
      decide
    · exact (Kind.over_isVisible hstring hwhite _ hmem c List.mem_cons_self).not_isBlank

/-! ## Texts with blanks -/

/-- What a token is without its position. -/
def entry (t : Token) : Kind × String :=
  (t.kind, t.text)

/-- Wherever the text stands at the end of a source, a scan finds these entries in it, and
whitespace. -/
def HasEntries (cs : List Char) (entries : List (Kind × String)) : Prop :=
  ∀ position, ∃ found, Scans position cs found [] ∧
    (found.filter (·.kind != .whitespace)).map entry = entries

/-- Blanks in front of a token make one token of whitespace, which counts for nothing. -/
theorem HasEntries.blanks {gap r : List Char} {entries : List (Kind × String)}
    (h : HasEntries r entries) (hgap : ∀ c ∈ gap, isBlank c) (hr : ∀ c ∈ r.head?, ¬ isBlank c) :
    HasEntries (gap ++ r) entries := by
  by_cases hne : gap = []
  · subst hne
    exact h
  · intro position
    obtain ⟨found, hs, hentries⟩ := h (position + utf8Length gap)
    exact ⟨⟨.whitespace, .ofList gap, position⟩ :: found,
      .next_append (next?_blanks hne hgap hr) hs, by rw [← hentries]; rfl⟩

/-- Blanks alone hold no entry. -/
theorem hasEntries_of_isBlank {gap : List Char} (hgap : ∀ c ∈ gap, isBlank c) :
    HasEntries gap [] := by
  have hnil : HasEntries [] [] := fun position => ⟨[], .refl, rfl⟩
  have hblanks := hnil.blanks hgap (by simp)
  rwa [List.append_nil] at hblanks

/-- A token in front of what has entries. -/
theorem HasEntries.next {kind : Kind} {w r : List Char} {entries : List (Kind × String)}
    (h : HasEntries r entries) (hw : next? (w ++ r) = some (kind, w.length))
    (hwhite : kind ≠ .whitespace) : HasEntries (w ++ r) ((kind, .ofList w) :: entries) := by
  intro position
  obtain ⟨found, hs, hentries⟩ := h (position + utf8Length w)
  refine ⟨⟨kind, .ofList w, position⟩ :: found, .next_append hw hs, ?_⟩
  rw [List.filter_cons_of_pos (by simpa using hwhite), List.map_cons, hentries]
  rfl

/-- The texts of the tokens in their order, with at least one blank between each two. -/
inductive Joined : List Token → List Char → Prop
  | nil : Joined [] []
  | single (t : Token) : Joined [t] t.text.toList
  | cons {t s : Token} {tokens : List Token} {gap rest : List Char} (hne : gap ≠ [])
      (hgap : ∀ c ∈ gap, isBlank c) (h : Joined (s :: tokens) rest) :
      Joined (t :: s :: tokens) (t.text.toList ++ (gap ++ rest))

/-- The source is written with the texts of the tokens and blanks: some between each two texts, and
any on both sides of all. -/
def Respaced (tokens : List Token) (source : String) : Prop :=
  ∃ lead body trail, source.toList = lead ++ (body ++ trail) ∧ (∀ c ∈ lead, isBlank c) ∧
    (∀ c ∈ trail, isBlank c) ∧ Joined tokens body

/-- A token that can be written between blanks. -/
def IsSpaceable (t : Token) : Prop :=
  IsSeparable t.kind t.text.toList ∧ t.kind ≠ .whitespace

/-- A token that can be set apart starts with no blank. -/
theorem Joined.head?_not_isBlank {t : Token} {tokens : List Token} {body : List Char}
    (h : Joined (t :: tokens) body) (ht : t.IsSpaceable) (trail : List Char) :
    ∀ c ∈ (body ++ trail).head?, ¬ isBlank c := by
  obtain ⟨d, v, hw, hd⟩ := ht.1.exists_cons ht.2
  obtain ⟨r, rfl⟩ : ∃ r, body = t.text.toList ++ r := by
    cases h with
    | single => exact ⟨[], (List.append_nil _).symm⟩
    | cons => exact ⟨_, rfl⟩
  rw [hw]
  rintro c ⟨⟩
  exact hd

/-- Tokens with blanks between them are found again, by induction on the tokens. -/
theorem Joined.hasEntries {tokens : List Token} {body trail : List Char} (h : Joined tokens body)
    (htokens : ∀ t ∈ tokens, t.IsSpaceable) (htrail : ∀ c ∈ trail, isBlank c) :
    HasEntries (body ++ trail) (tokens.map entry) := by
  have hend := hasEntries_of_isBlank htrail
  have hhead : ∀ {gap : List Char}, (∀ c ∈ gap, isBlank c) → ∀ c ∈ gap.head?, isBlank c :=
    fun hgap c hc => hgap c (List.mem_of_mem_head? hc)
  induction h with
  | nil => exact hend
  | single t =>
    obtain ⟨hsep, hwhite⟩ := htokens t List.mem_cons_self
    have htoken := hend.next (hsep trail (hhead htrail)) hwhite
    rwa [String.ofList_toList] at htoken
  | @cons t s tokens gap rest hne hgap h ih =>
    obtain ⟨⟨hsep, hwhite⟩, htokens⟩ := List.forall_mem_cons.mp htokens
    have hrest := (ih htokens).blanks hgap
      (h.head?_not_isBlank (htokens s List.mem_cons_self) trail)
    have htoken := hrest.next (hsep _ fun c hc => ?_) hwhite
    · rw [String.ofList_toList] at htoken
      rw [List.append_assoc, List.append_assoc]
      exact htoken
    · obtain ⟨b, gap, rfl⟩ := List.exists_cons_of_ne_nil hne
      cases hc
      exact hgap _ List.mem_cons_self

/-- A source of tokens and blanks has these tokens, and no others. -/
theorem Respaced.tokenize {tokens : List Token} {source : String} (h : Respaced tokens source)
    (htokens : ∀ t ∈ tokens, t.IsSpaceable) :
    ∃ content, Token.tokenize source = .ok (content ++ [.endOfInput source.utf8ByteSize]) ∧
      content.map entry = tokens.map entry := by
  obtain ⟨lead, body, trail, hsource, hlead, htrail, hbody⟩ := h
  have hentries : HasEntries source.toList (tokens.map entry) := by
    rw [hsource]
    cases tokens with
    | nil =>
      cases hbody
      have hblanks : ∀ c ∈ lead ++ trail, isBlank c := List.forall_mem_append.mpr ⟨hlead, htrail⟩
      exact Joined.nil.hasEntries htokens hblanks
    | cons t tokens =>
      exact (hbody.hasEntries htokens htrail).blanks hlead
        (hbody.head?_not_isBlank (htokens t List.mem_cons_self) trail)
  obtain ⟨found, hs, hkept⟩ := hentries 0
  exact ⟨_, tokenize_eq_ok_iff.mpr ⟨found, hs, rfl⟩, hkept⟩

/-- The tokens of every source can be written between blanks. -/
theorem Scans.isSpaceable {position : Nat} {cs rest : List Char} {tokens : List Token}
    (hs : Scans position cs tokens rest) :
    ∀ t ∈ tokens.filter (·.kind != .whitespace), t.IsSpaceable := by
  intro t ht
  obtain ⟨hm, hk⟩ := List.mem_filter.mp ht
  obtain ⟨before, after, rfl⟩ := List.append_of_mem hm
  obtain ⟨mid, n, h, htext, -, -⟩ := hs.found
  have hwhite : t.kind ≠ .whitespace := by simpa using hk
  refine ⟨?_, hwhite⟩
  rw [htext, String.toList_ofList]
  exact isSeparable_of_next? h hwhite

theorem isSpaceable_of_tokenize {source : String} {content : List Token} {n : Nat}
    (h : tokenize source = .ok (content ++ [.endOfInput n])) : ∀ t ∈ content, t.IsSpaceable := by
  obtain ⟨found, hs, hcontent⟩ := tokenize_eq_ok_iff.mp h
  rw [(List.append_inj' hcontent rfl).1]
  exact hs.isSpaceable

end Token

end WorkflowCondition
