import WorkflowCondition.Proofs.Expression.Adjacency
import WorkflowCondition.Proofs.Expression.Spelling

/-!
# The two forms of accessors

An accessor is written `.key` or `['key']`. `Token.respelled` writes the tokens of a source down
again with chosen accessors in their other form. In an expression no neighbour of an accessor can
merge with either form, so that the scan finds the same tokens but for these texts
(`Token.Scans.respell`), and the parser reads the same expression but for these texts: what it reads
has the accessors of the new tokens, and with keys in place of accessors the two expressions are one
(`Expression.parse_respelled`).
-/

namespace WorkflowCondition

open Grammar Token

/-! ## Accessors -/

/-- The other form of an accessor: `['key']` for `.key`, and `.key` for `['key']`. -/
def otherForm (accessor : String) : String :=
  match accessor.toList with
  | '.' :: key => .ofList ('[' :: '\'' :: (key ++ ['\'', ']']))
  | _ => .ofList ('.' :: (accessorKey accessor).toList)

section

variable {accessor : String} {key : List Char}

theorem otherForm_of_point (h : accessor.toList = '.' :: key) :
    otherForm accessor = .ofList ('[' :: '\'' :: (key ++ ['\'', ']'])) := by
  simp only [otherForm, h]

theorem otherForm_of_bracket (h : accessor.toList = '[' :: '\'' :: (key ++ ['\'', ']'])) :
    otherForm accessor = .ofList ('.' :: key) := by
  rw [otherForm]
  split
  · rename_i hpoint
    rw [h] at hpoint
    cases hpoint
  · rw [accessorKey_of_toList_eq (.inr h), String.toList_ofList]

end

theorem accessorKey_otherForm (accessor : String) :
    accessorKey (otherForm accessor) = accessorKey accessor := by
  rw [otherForm]
  split
  · rename_i key h
    rw [accessorKey_of_toList_eq (.inl h),
      accessorKey_of_toList_eq (.inr String.toList_ofList)]
  · rw [accessorKey_of_toList_eq (.inl String.toList_ofList), String.ofList_toList]

theorem isAccessorText_otherForm {accessor : String} (h : IsAccessorText accessor) :
    IsAccessorText (otherForm accessor) := by
  obtain ⟨key, hne, hkey, htext | htext⟩ := h
  · refine ⟨key, hne, hkey, .inr ?_⟩
    rw [otherForm_of_point htext, String.toList_ofList]
  · refine ⟨key, hne, hkey, .inl ?_⟩
    rw [otherForm_of_bracket htext, String.toList_ofList]

namespace Token

variable (chosen : Token → Bool)

/-- The token with its text in the other form, if it is a chosen accessor. -/
def respell (t : Token) : Token :=
  if t.kind = .accessor ∧ chosen t then { t with text := otherForm t.text } else t

/-- The source of the tokens with the chosen accessors in their other form. -/
def respelled (tokens : List Token) : String :=
  .ofList (texts (tokens.map (respell chosen)))

@[simp] theorem respell_kind (t : Token) : (t.respell chosen).kind = t.kind := by
  rw [respell]
  split <;> rfl

@[simp] theorem respell_position (t : Token) : (t.respell chosen).position = t.position := by
  rw [respell]
  split <;> rfl

theorem respell_of_ne {t : Token} (h : t.kind ≠ .accessor) : t.respell chosen = t :=
  if_neg fun hc => h hc.1

theorem respell_singleton {t : Token} {kind : Kind} (h : t.kind = kind)
    (hk : kind ≠ .accessor := by decide) : [t].map (respell chosen) = [t] := by
  rw [List.map_singleton, respell_of_ne chosen (by rwa [h])]

theorem accessorKey_respell (t : Token) :
    accessorKey (t.respell chosen).text = accessorKey t.text := by
  rw [respell]
  split
  · exact accessorKey_otherForm t.text
  · rfl

theorem IsSpaceable.respell {t : Token} (h : t.IsSpaceable) : (t.respell chosen).IsSpaceable := by
  rw [Token.respell]
  split
  · rename_i hc
    have hmem := (IsSeparable.munch h.1).mem
    rw [hc.1] at hmem
    refine ⟨?_, h.2⟩
    show IsSeparable t.kind (otherForm t.text).toList
    rw [hc.1]
    exact isSeparable_of_isAccessorText (isAccessorText_otherForm (isAccessorText_iff.mpr hmem))
  · exact h

end Token

namespace Grammar

/-! ## Neighbours in another form -/

variable (chosen : Token → Bool) {s t : Token}

theorem isPunct_respell {text : String} (h : t.isPunct text) : (t.respell chosen).isPunct text := by
  rwa [respell_of_ne chosen (ne_of_isPunct h)]

theorem IsHead.respell (h : IsHead t) : IsHead (t.respell chosen) := by
  rwa [respell_of_ne chosen h.ne]

/-- Which tokens can be neighbours does not depend on the form of accessors. -/
theorem Adjoins.respell (h : Adjoins s t) : Adjoins (s.respell chosen) (t.respell chosen) := by
  cases h with
  | mark ht =>
    exact .mark (ht.imp (isPunct_respell chosen)
      (Or.imp (isPunct_respell chosen) (isPunct_respell chosen)))
  | argument hs => exact .argument (hs.imp (isPunct_respell chosen) (isPunct_respell chosen))
  | accessor hs ht =>
    refine .accessor (hs.imp (fun h => ?_) (IsHead.respell chosen)) ?_
    · rw [respell_kind, h]
    · rw [respell_kind, ht]
  | operator hs ht =>
    refine .operator ?_ (by rw [respell_kind, ht])
    cases hs with
    | kind hk => exact .kind (by rwa [respell_kind])
    | head hh => exact .head (hh.respell chosen)
    | closing hc => exact .closing (isPunct_respell chosen hc)
  | operand hs ht =>
    exact .operand (by rw [respell_kind, hs]) (by rwa [respell_kind])

/-- What is found at a token in front of a neighbour is found there also when both are written in
another form, whatever is behind. -/
theorem next?_respell (h : Adjoins s t) (hs : s.IsSpaceable) (ht : t.IsSpaceable)
    {r : List Char} (hn : next? (s.text.toList ++ (t.text.toList ++ r)) =
      some (s.kind, s.text.toList.length)) (r' : List Char) :
    next? ((s.respell chosen).text.toList ++ ((t.respell chosen).text.toList ++ r')) =
      some (s.kind, (s.respell chosen).text.toList.length) := by
  by_cases hop : s.kind = .operator
  · -- An operator needs the first character behind it, which is the same as before.
    rw [respell_of_ne chosen (h.kind_ne hop), respell_of_ne chosen (by rw [hop]; decide), hop]
    rw [hop] at hn
    obtain ⟨c, v, hv, -⟩ := ht.1.exists_cons ht.2
    rw [hv, List.cons_append] at hn ⊢
    exact next?_operator_append hn
  · have hfound := IsSeparable.next?_append (r := (t.respell chosen).text.toList ++ r')
      (hs.respell chosen).1 (hs.respell chosen).2 fun d hd c hc => ?_
    · rwa [respell_kind] at hfound
    · obtain ⟨c', v, hv, -⟩ := (ht.respell chosen).1.exists_cons (ht.respell chosen).2
      have hc' : c ∈ (t.respell chosen).text.toList.head? := by
        rw [hv] at hc ⊢
        exact hc
      exact (h.respell chosen).not_goesOn (hs.respell chosen) (ht.respell chosen)
        (by rwa [respell_kind]) hd hc'

end Grammar

/-! ## The scan -/

namespace Token

variable (chosen : Token → Bool)

theorem Scans.first {position : Nat} {cs rest : List Char} {t : Token} {tokens : List Token}
    (hs : Scans position cs (t :: tokens) rest) :
    next? (t.text.toList ++ (texts tokens ++ rest)) = some (t.kind, t.text.toList.length) ∧
      ∃ r, Scans (position + utf8Length t.text.toList) r tokens rest := by
  have htexts := hs.texts_append
  rcases hs with _ | @⟨_, n, _, _, kind, _, h, hs⟩
  have hlen : (cs.take n).length = n := by
    rw [List.length_take, Nat.min_eq_left (Kind.starts_language (next?_eq_some_iff.mp h).1).1]
  rw [texts_cons, List.append_assoc] at htexts
  rw [htexts, String.toList_ofList, hlen]
  exact ⟨h, _, hs⟩

theorem map_respell_endOfInput (found : List Token) (n : Nat) :
    (found ++ [endOfInput n]).map (respell chosen) =
      found.map (respell chosen) ++ [endOfInput n] := by
  rw [List.map_append, respell_singleton chosen (show (endOfInput n).kind = .endOfInput from rfl)]

theorem toList_respelled (found : List Token) (n : Nat) :
    (respelled chosen (found ++ [endOfInput n])).toList = texts (found.map (respell chosen)) := by
  rw [respelled, String.toList_ofList, map_respell_endOfInput, texts_append]
  exact List.append_nil _

/-- With no accessor in another form, the source is the one that was scanned. -/
theorem respelled_of_none {source : String} {tokens : List Token}
    (h : scan source = .ok tokens) : respelled (fun _ => false) tokens = source := by
  obtain ⟨found, hs, rfl⟩ := scanFrom_eq_ok_iff.mp h
  have hid : respell (fun _ => false) = id := funext fun t => if_neg fun hc => nomatch hc.2
  rw [← String.toList_inj, toList_respelled, hid, List.map_id, texts_of_scans hs]

/-- What starts with whitespace that was scanned starts with a blank. -/
theorem Scans.isBlank_head {position : Nat} {cs rest : List Char} {tokens : List Token} {t : Token}
    (hs : Scans position cs tokens rest) (ht : t ∈ tokens) (hk : t.kind = .whitespace)
    (r : List Char) : t.text.toList ≠ [] ∧ ∀ c ∈ (t.text.toList ++ r).head?, isBlank c := by
  have hne : t.text.toList ≠ [] := fun hnil =>
    (hs.content t ht).2 (String.toList_eq_nil_iff.mp hnil)
  refine ⟨hne, ?_⟩
  have hblank := hs.isBlank_of_whitespace ht hk
  obtain ⟨b, v, hv⟩ := List.exists_cons_of_ne_nil hne
  rw [hv] at hblank ⊢
  intro c hc
  obtain rfl := Option.some.inj hc
  exact hblank b List.mem_cons_self

/-- What starts with another token starts with no blank. -/
theorem IsSpaceable.not_isBlank_head {t : Token} (h : t.IsSpaceable) (r : List Char) :
    ∀ c ∈ (t.text.toList ++ r).head?, ¬ isBlank c := by
  obtain ⟨d, v, hv, hd⟩ := h.1.exists_cons h.2
  rw [hv]
  intro c hc
  obtain rfl := Option.some.inj hc
  exact hd

/-- In a run of the tokens of an expression the first token is found also where it and the tokens
behind it are written in another form. -/
theorem next?_respelled {position : Nat} {cs : List Char} {t : Token} {tokens : List Token}
    (hs : Scans position cs (t :: tokens) [])
    (hchain : ((t :: tokens).filter (·.kind != .whitespace)).IsChain Adjoins) :
    next? ((t.respell chosen).text.toList ++ texts (tokens.map (respell chosen))) =
      some (t.kind, (t.respell chosen).text.toList.length) := by
  obtain ⟨hn, -⟩ := hs.first
  rw [List.append_nil] at hn
  have hspaceable : ∀ s ∈ t :: tokens, s.kind ≠ .whitespace → s.IsSpaceable := fun s hm hk =>
    hs.isSpaceable s (List.mem_filter.mpr ⟨hm, by simpa using hk⟩)
  by_cases hwhite : t.kind = .whitespace
  · -- Whitespace ends where no whitespace follows, and no two such tokens are neighbours.
    rw [respell_of_ne chosen (by rw [hwhite]; decide), hwhite]
    refine next?_blanks (hs.isBlank_head List.mem_cons_self hwhite []).1
      (hs.isBlank_of_whitespace List.mem_cons_self hwhite) ?_
    cases tokens with
    | nil => exact fun c hc => nomatch hc
    | cons s tokens =>
      have hk : s.kind ≠ .whitespace := fun hk =>
        (List.isChain_cons_cons.mp hs.apart).1 ⟨hwhite, hk⟩
      rw [List.map_cons, texts_cons]
      exact ((hspaceable s (by simp) hk).respell chosen).not_isBlank_head _
  · have ht := hspaceable t List.mem_cons_self hwhite
    have hbefore : (∀ c ∈ (texts (tokens.map (respell chosen))).head?, isBlank c) →
        next? ((t.respell chosen).text.toList ++ texts (tokens.map (respell chosen))) =
          some (t.kind, (t.respell chosen).text.toList.length) := fun hblank => by
      have hfound := (ht.respell chosen).1 _ hblank
      rwa [respell_kind] at hfound
    cases tokens with
    | nil => exact hbefore fun c hc => nomatch hc
    | cons s tokens =>
      by_cases hk : s.kind = .whitespace
      · rw [List.map_cons, respell_of_ne chosen (by rw [hk]; decide : s.kind ≠ .accessor),
          texts_cons] at hbefore ⊢
        exact hbefore (hs.isBlank_head (List.mem_cons_of_mem t List.mem_cons_self) hk _).2
      · have hadj : Adjoins t s := by
          rw [List.filter_cons_of_pos (by simpa using hwhite),
            List.filter_cons_of_pos (by simpa using hk)] at hchain
          exact (List.isChain_cons_cons.mp hchain).1
        exact next?_respell chosen hadj ht (hspaceable s (by simp) hk) hn _

/-- The scan of the tokens of an expression, written down with accessors in another form, finds
these tokens. -/
theorem Scans.respell {position : Nat} {cs : List Char} {tokens : List Token}
    (hs : Scans position cs tokens [])
    (hchain : (tokens.filter (·.kind != .whitespace)).IsChain Adjoins) (position' : Nat) :
    ∃ found, Scans position' (texts (tokens.map (Token.respell chosen))) found [] ∧
      found.map entry = (tokens.map (Token.respell chosen)).map entry := by
  induction tokens generalizing position cs position' with
  | nil => exact ⟨[], .refl, rfl⟩
  | cons t tokens ih =>
    have hnext := next?_respelled chosen hs hchain
    obtain ⟨-, r, hrest⟩ := hs.first
    have htail : (tokens.filter (·.kind != .whitespace)).IsChain Adjoins := by
      rw [List.filter_cons] at hchain
      split at hchain
      · exact hchain.tail
      · exact hchain
    obtain ⟨found, hfound, hentries⟩ :=
      ih hrest htail (position' + utf8Length (t.respell chosen).text.toList)
    refine ⟨_, .next_append hnext hfound, ?_⟩
    rw [List.map_cons, List.map_cons, List.map_cons, hentries, entry, entry, String.ofList_toList,
      respell_kind]

end Token

/-! ## Accessors in expressions -/

namespace Literal

mutual

/-- The literal with other texts for the accessors of its references. -/
def mapAccessors (f : String → String) : Literal → Literal
  | .call name args => .call name (mapAccessorsAll f args)
  | .reference head accessors => .reference head (accessors.map f)
  | a => a

/-- The arguments with all their accessors changed. -/
def mapAccessorsAll (f : String → String) : List Literal → List Literal
  | [] => []
  | arg :: args => arg.mapAccessors f :: mapAccessorsAll f args

end

mutual

/-- The accessors of all references in a literal, in the order in which they are written. -/
def accessors : Literal → List String
  | .call _ args => accessorsAll args
  | .reference _ accessors => accessors
  | _ => []

/-- The accessors in the arguments, from left to right. -/
def accessorsAll : List Literal → List String
  | [] => []
  | arg :: args => arg.accessors ++ accessorsAll args

end

mutual

/-- Accessors hold no calls. -/
theorem callDepth_mapAccessors (f : String → String) :
    ∀ a : Literal, (a.mapAccessors f).callDepth = a.callDepth
  | .call name args => by
    rw [mapAccessors, callDepth, callDepth, maxCallDepth_mapAccessorsAll f args]
  | .reference _ _ | .null | .string _ | .int _ | .float _ | .bool _ => rfl

theorem maxCallDepth_mapAccessorsAll (f : String → String) :
    ∀ args : List Literal, maxCallDepth (mapAccessorsAll f args) = maxCallDepth args
  | [] => rfl
  | arg :: args => by
    rw [mapAccessorsAll, maxCallDepth, maxCallDepth, callDepth_mapAccessors f arg,
      maxCallDepth_mapAccessorsAll f args]

end

end Literal

namespace Expression

/-- The expression with all its accessors changed. -/
def mapAccessors (f : String → String) (e : Expression) : Expression :=
  ⟨e.lhs.mapAccessors f, e.rhs.map fun right => (right.1, right.2.mapAccessors f)⟩

/-- The accessors of an expression, from left to right. -/
def accessors (e : Expression) : List String :=
  e.lhs.accessors ++ (e.rhs.map fun right => right.2.accessors).getD []

end Expression

namespace Token

/-- The texts of the accessors among tokens. -/
def accessorTexts (tokens : List Token) : List String :=
  (tokens.filter (·.kind = .accessor)).map text

theorem accessorTexts_append (u v : List Token) :
    accessorTexts (u ++ v) = accessorTexts u ++ accessorTexts v := by
  rw [accessorTexts, List.filter_append, List.map_append]
  rfl

theorem accessorTexts_cons_of_ne {t : Token} (ht : t.kind ≠ .accessor) (u : List Token) :
    accessorTexts (t :: u) = accessorTexts u := by
  rw [accessorTexts, List.filter_cons_of_neg (by simpa using ht)]
  rfl

end Token

namespace Grammar

/-! ## The parser -/

mutual

/-- The accessors of a literal are the accessors among its tokens. -/
theorem DerivesLiteral.accessors : ∀ {u : List Token} {a : Literal}, DerivesLiteral u a →
    a.accessors = accessorTexts u
  | _, _, .null hk | _, _, .string hk | _, _, .integer hk _ | _, _, .float hk _
  | _, _, .bool hk _ => by
    rw [accessorTexts_cons_of_ne (by rw [hk]; decide)]
    rfl
  | _, _, @DerivesLiteral.call name opening closing u args hn ho hu hc => by
    rw [accessorTexts_cons_of_ne (by rw [hn]; decide),
      accessorTexts_cons_of_ne (ne_of_isPunct ho), accessorTexts_append, ← hu.accessors,
      accessorTexts_cons_of_ne (ne_of_isPunct hc)]
    exact (List.append_nil _).symm
  | _, _, @DerivesLiteral.reference head accessors hh ha => by
    have hall : accessors.filter (·.kind = .accessor) = accessors :=
      List.filter_eq_self.mpr fun t ht => by simpa using ha t ht
    rw [accessorTexts_cons_of_ne hh.ne, accessorTexts, hall]
    rfl

theorem DerivesArguments.accessors : ∀ {u : List Token} {args : List Literal},
    DerivesArguments u args → Literal.accessorsAll args = accessorTexts u
  | _, _, .none => rfl
  | _, _, .some _ hu hv => by
    rw [Literal.accessorsAll, hu.accessors, hv.accessors, accessorTexts_append]

theorem DerivesMore.accessors : ∀ {u : List Token} {args : List Literal}, DerivesMore u args →
    Literal.accessorsAll args = accessorTexts u
  | _, _, .none => rfl
  | _, _, .some hc hu hv => by
    rw [Literal.accessorsAll, hu.accessors, hv.accessors,
      accessorTexts_cons_of_ne (ne_of_isPunct hc), accessorTexts_append]

end

/-- The accessors of an expression are the accessor tokens it is derived from, in order. -/
theorem Derives.accessors {u : List Token} {e : Expression} (h : Derives u e) :
    e.accessors = accessorTexts u := by
  cases h with
  | literal hu =>
    rw [← hu.accessors]
    exact List.append_nil _
  | binary hu _ ht _ hv =>
    rw [accessorTexts_append, accessorTexts_cons_of_ne (by rw [ht]; decide), ← hu.accessors,
      ← hv.accessors]
    rfl

section

variable (chosen : Token → Bool)

mutual

/-- Tokens in another form derive a literal with the same keys. -/
theorem DerivesLiteral.respell : ∀ {u : List Token} {a : Literal}, DerivesLiteral u a →
    ∃ a', DerivesLiteral (u.map (Token.respell chosen)) a' ∧
      a'.mapAccessors accessorKey = a.mapAccessors accessorKey
  | _, _, .null hk => ⟨_, by rw [respell_singleton chosen hk]; exact .null hk, rfl⟩
  | _, _, .string hk => ⟨_, by rw [respell_singleton chosen hk]; exact .string hk, rfl⟩
  | _, _, .integer hk hn => ⟨_, by rw [respell_singleton chosen hk]; exact .integer hk hn, rfl⟩
  | _, _, .float hk hx => ⟨_, by rw [respell_singleton chosen hk]; exact .float hk hx, rfl⟩
  | _, _, .bool hk hb => ⟨_, by rw [respell_singleton chosen hk]; exact .bool hk hb, rfl⟩
  | _, _, @DerivesLiteral.call name opening closing u args hn ho hu hc => by
    obtain ⟨args', hargs, hkeys⟩ := hu.respell
    refine ⟨.call name.text args', ?_, ?_⟩
    · simp only [List.map_cons, List.map_append, List.map_nil,
        respell_of_ne chosen (show name.kind ≠ .accessor by rw [hn]; decide),
        respell_of_ne chosen (ne_of_isPunct ho), respell_of_ne chosen (ne_of_isPunct hc)]
      exact .call hn ho hargs hc
    · rw [Literal.mapAccessors, hkeys, Literal.mapAccessors]
  | _, _, @DerivesLiteral.reference head accessors hh ha => by
    have hacc : ∀ t ∈ accessors.map (Token.respell chosen), t.kind = .accessor :=
      List.forall_mem_map.mpr fun t ht => by rw [respell_kind, ha t ht]
    refine ⟨_, by rw [List.map_cons, respell_of_ne chosen hh.ne]; exact .reference hh hacc, ?_⟩
    simp only [Literal.mapAccessors, List.map_map, Function.comp_def, accessorKey_respell]

theorem DerivesArguments.respell : ∀ {u : List Token} {args : List Literal},
    DerivesArguments u args →
    ∃ args', DerivesArguments (u.map (Token.respell chosen)) args' ∧
      Literal.mapAccessorsAll accessorKey args' = Literal.mapAccessorsAll accessorKey args
  | _, _, .none => ⟨[], .none, rfl⟩
  | _, _, @DerivesArguments.some t u v arg args ht hu hv => by
    obtain ⟨arg', harg, hkey⟩ := hu.respell
    obtain ⟨args', hargs, hkeys⟩ := hv.respell
    have hne : ¬ (t.respell chosen).isPunct ")" := by
      rwa [respell_of_ne chosen (hu.head_kind_ne t rfl)]
    refine ⟨arg' :: args', ?_, ?_⟩
    · rw [List.map_append]
      exact .some hne harg hargs
    · rw [Literal.mapAccessorsAll, hkey, hkeys, Literal.mapAccessorsAll]

theorem DerivesMore.respell : ∀ {u : List Token} {args : List Literal}, DerivesMore u args →
    ∃ args', DerivesMore (u.map (Token.respell chosen)) args' ∧
      Literal.mapAccessorsAll accessorKey args' = Literal.mapAccessorsAll accessorKey args
  | _, _, .none => ⟨[], .none, rfl⟩
  | _, _, @DerivesMore.some comma u v arg args hc hu hv => by
    obtain ⟨arg', harg, hkey⟩ := hu.respell
    obtain ⟨args', hargs, hkeys⟩ := hv.respell
    refine ⟨arg' :: args', ?_, ?_⟩
    · rw [List.map_cons, List.map_append, respell_of_ne chosen (ne_of_isPunct hc)]
      exact .some hc harg hargs
    · rw [Literal.mapAccessorsAll, hkey, hkeys, Literal.mapAccessorsAll]

end

/-- The tokens in another form derive an expression with the same keys. -/
theorem Derives.respell {u : List Token} {e : Expression} (h : Derives u e) :
    ∃ e', Derives (u.map (Token.respell chosen)) e' ∧
      e'.mapAccessors accessorKey = e.mapAccessors accessorKey := by
  have hdepth {a a' : Literal} (ha : a.callDepth ≤ 64)
      (hkey : a'.mapAccessors accessorKey = a.mapAccessors accessorKey) : a'.callDepth ≤ 64 := by
    rw [← Literal.callDepth_mapAccessors accessorKey a', hkey,
      Literal.callDepth_mapAccessors accessorKey a]
    exact ha
  cases h with
  | literal hu ha =>
    obtain ⟨a', ha', hkey⟩ := hu.respell chosen
    exact ⟨_, .literal ha' (hdepth ha hkey), by simp only [Expression.mapAccessors, hkey]⟩
  | binary hu ha ht ho hv hb =>
    obtain ⟨a', ha', hkey⟩ := hu.respell chosen
    obtain ⟨b', hb', hkey'⟩ := hv.respell chosen
    rw [List.map_append, List.map_cons, respell_of_ne chosen (by rw [ht]; decide)]
    refine ⟨_, .binary ha' (hdepth ha hkey) ht ho hb' (hdepth hb hkey'), ?_⟩
    simp only [Expression.mapAccessors, hkey, Option.map_some, hkey']

end

end Grammar

/-! ## Sources -/

namespace Token

/-- What is left without the whitespace of some tokens in another form. -/
theorem filter_map_respell (chosen : Token → Bool) (tokens : List Token) :
    (tokens.map (Token.respell chosen)).filter (·.kind != .whitespace) =
      (tokens.filter (·.kind != .whitespace)).map (Token.respell chosen) := by
  simp only [List.filter_map, Function.comp_def, respell_kind]

theorem map_entry_filter {tokens found : List Token} (h : found.map entry = tokens.map entry) :
    (found.filter (·.kind != .whitespace)).map entry =
      (tokens.filter (·.kind != .whitespace)).map entry := by
  have hentry : ∀ u : List Token, (u.filter (·.kind != .whitespace)).map entry =
      (u.map entry).filter (·.1 != .whitespace) := fun u => by
    rw [List.filter_map]
    rfl
  rw [hentry, hentry, h]

/-- Whitespace and the end of input are no accessors. -/
theorem accessorTexts_filter (tokens : List Token) (n : Nat) :
    accessorTexts (tokens ++ [endOfInput n]) =
      accessorTexts (tokens.filter (·.kind != .whitespace)) := by
  have hkept : ∀ t : Token, (decide (t.kind = .accessor) && (t.kind != .whitespace)) =
      decide (t.kind = .accessor) := fun t => by
    cases t.kind <;> rfl
  rw [accessorTexts_append, accessorTexts, accessorTexts, accessorTexts, List.filter_filter]
  simp only [hkept]
  exact List.append_nil _

end Token

namespace Expression

/-- A source stands for what tokens with the kinds and texts of its tokens stand for. -/
theorem parse_of_entries {source : String} {e : Expression} {found : List Token}
    (tokens : List Token) (h : ofTokens tokens = .ok e) (hfound : tokenize source = .ok found)
    (hentries : found.map entry = tokens.map entry)
    (hpositions : tokens.Pairwise fun s t => s.position < t.position)
    (hend : ∃ t ∈ tokens, t.kind = .endOfInput) : parse source = .ok e := by
  obtain ⟨g, rfl⟩ := exists_relocate hentries hpositions
  rw [parse, hfound]
  show ofTokens (tokens.map (Token.relocate g)) = .ok e
  rw [ofTokens_relocate g hend, h]
  rfl

/-- A source that stands for an expression can be written with any of its accessors in their other
form. Then it has the same tokens but for these texts, and it stands for the same expression but for
these texts, with the same keys. -/
theorem parse_respelled {source : String} {e : Expression} (h : parse source = .ok e) :
    ∃ tokens, Token.scan source = .ok tokens ∧ ∀ chosen : Token → Bool, ∃ found e',
      Token.scan (respelled chosen tokens) = .ok found ∧
      found.map entry = (tokens.map (Token.respell chosen)).map entry ∧
      parse (respelled chosen tokens) = .ok e' ∧
      e'.mapAccessors accessorKey = e.mapAccessors accessorKey ∧
      e.accessors = accessorTexts tokens ∧
      e'.accessors = accessorTexts (tokens.map (Token.respell chosen)) := by
  obtain ⟨found, hs, hd⟩ := exists_derives_of_parse h
  have hincreasing := (increasing_of_scans hs).filter (·.kind != .whitespace)
  refine ⟨_, scanFrom_eq_ok_iff.mpr ⟨found, hs, rfl⟩, fun chosen => ?_⟩
  rw [Nat.zero_add, utf8Length_toList]
  generalize source.utf8ByteSize = n at hincreasing
  rw [List.filter_append] at hincreasing
  -- The scan finds the tokens at other positions, which the parser does not see.
  obtain ⟨found', hs', hentries⟩ := hs.respell chosen hd.isChain 0
  rw [← toList_respelled chosen found n] at hs'
  obtain ⟨e', hd', hkeys⟩ := hd.respell chosen
  refine ⟨_, e', scanFrom_eq_ok_iff.mpr ⟨found', hs', rfl⟩, ?_, ?_, hkeys, ?_, ?_⟩
  · rw [map_respell_endOfInput, List.map_append, List.map_append, hentries]
    rfl
  · refine parse_of_entries ((found.filter (·.kind != .whitespace) ++ [endOfInput n]).map
      (Token.respell chosen)) ?_ (tokenize_eq_ok_iff.mpr ⟨found', hs', rfl⟩) ?_ ?_ ?_
    · have hend : AtEnd [endOfInput n] := rfl
      rw [map_respell_endOfInput]
      refine ofTokens_of_derives ?_
      rwa [beforeEnd_append hd'.noEnd hend]
    · rw [map_respell_endOfInput, List.map_append, List.map_append, map_entry_filter hentries,
        filter_map_respell]
      rfl
    · refine List.pairwise_map.mpr (hincreasing.imp fun hlt => ?_)
      rwa [respell_position, respell_position]
    · rw [map_respell_endOfInput]
      exact ⟨_, List.mem_append_right _ (List.mem_singleton_self _), rfl⟩
  · rw [hd.accessors, accessorTexts_filter]
  · rw [map_respell_endOfInput, hd'.accessors, accessorTexts_filter, filter_map_respell]

end Expression

end WorkflowCondition
