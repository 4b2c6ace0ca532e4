import WorkflowCondition.Proofs.Evaluation.StringLiteral
import WorkflowCondition.Proofs.Evaluation.Swap
import WorkflowCondition.Proofs.Expression.Respelling
import WorkflowCondition.Proofs.Text.Utf8Order

/-!
# Comparison of strings

Two strings always have an order. It is a total order in which only equal strings are equal, and it
is the order of their bytes in UTF-8 and that of their code points alike. A source that compares the
literals of two texts, with any blanks around them, has the answer of this order for its value
(`evaluate_compared`). `compare_strings` puts this together.
-/

namespace WorkflowCondition

open Grammar Token

/-! ## The order of two strings -/

/-- The first string is not greater than the other. -/
def StringLe (s t : String) : Prop :=
  ∃ o, (Value.string s).compare? (.string t) = some o ∧ o ≠ .gt

theorem stringLe_iff {s t : String} : StringLe s t ↔ s ≤ t := by
  have hgt : compare s t = .gt ↔ t < s := (isLexOrder_toList s t).gt_iff
  constructor
  · rintro ⟨_, ⟨⟩, hne⟩ hlt
    exact hne (hgt.mpr hlt)
  · exact fun hle => ⟨_, rfl, fun ho => hle (hgt.mp ho)⟩

theorem Operator.lt_holds_string {s t : String} :
    Operator.lt.holds (.string s) (.string t) = true ↔ utf8Bytes s < utf8Bytes t := by
  rw [← (isLexOrder_utf8Bytes s t).lt_iff]
  simp [holds, Value.compare?]

theorem Operator.gt_holds_string {s t : String} :
    Operator.gt.holds (.string s) (.string t) = true ↔ utf8Bytes t < utf8Bytes s := by
  rw [← (isLexOrder_utf8Bytes s t).gt_iff]
  simp [holds, Value.compare?]

theorem Operator.le_holds_string {s t : String} :
    Operator.le.holds (.string s) (.string t) = true ↔ ¬ utf8Bytes t < utf8Bytes s := by
  rw [le_holds (.inr ⟨s, t, rfl, rfl⟩), Bool.not_eq_true', ← Bool.not_eq_true, gt_holds_string]

theorem Operator.ge_holds_string {s t : String} :
    Operator.ge.holds (.string s) (.string t) = true ↔ ¬ utf8Bytes s < utf8Bytes t := by
  rw [ge_holds (.inr ⟨s, t, rfl, rfl⟩), Bool.not_eq_true', ← Bool.not_eq_true, lt_holds_string]

/-! ## Sources that compare two texts -/

/-- The source is an operator between the literals of two texts, with blanks or nothing around each
of the three. -/
def Compared (s : String) (op : Operator) (t source : String) : Prop :=
  ∃ lead gap gap' trail : List Char, (∀ cs ∈ [lead, gap, gap', trail], ∀ c ∈ cs, isBlank c) ∧
    source.toList = lead ++ ((quote s).toList ++ (gap ++ (op.symbol.toList ++
      (gap' ++ ((quote t).toList ++ trail)))))

/-- What is true of all of a text and of the first character behind it is true of the first of both.
-/
theorem forall_mem_head?_append {gap r : List Char} {p : Char → Prop} (hgap : ∀ c ∈ gap, p c)
    (hr : ∀ c ∈ r.head?, p c) : ∀ c ∈ (gap ++ r).head?, p c := by
  cases gap with
  | nil => exact hr
  | cons d gap =>
    rintro c ⟨⟩
    exact hgap d List.mem_cons_self

theorem head?_quote_append {s : String} {r : List Char} :
    ∀ c ∈ ((quote s).toList ++ r).head?, c = '\'' := by
  rw [toList_quote]
  rintro c ⟨⟩
  rfl

theorem head?_symbol_append {op : Operator} {r : List Char} :
    ∀ c ∈ (op.symbol.toList ++ r).head?, leadOf c = .operator := by
  cases op <;>
  · rintro c ⟨⟩
    decide

theorem not_isBlank_of_operator {c : Char} (h : leadOf c = .operator) : ¬ isBlank c := by
  intro hb
  rw [leadOf_of_isBlank hb] at h
  cases h

/-- The literal of a text is one token, unless a quote follows. -/
theorem hasEntries_quote {s : String} {r : List Char} {entries : List (Kind × String)}
    (h : HasEntries r entries) (hr : ∀ c ∈ r.head?, c ≠ '\'') :
    HasEntries ((quote s).toList ++ r) ((.string, quote s) :: entries) := by
  have hnext := h.next (next?_quote_append s fun hq => hr _ hq rfl) (by decide)
  rwa [String.ofList_toList] at hnext

/-- No operator goes on with a blank or a quote. -/
theorem hasEntries_symbol {op : Operator} {r : List Char} {entries : List (Kind × String)}
    (h : HasEntries r entries) (hr : ∀ c ∈ r.head?, isBlank c ∨ c = '\'') :
    HasEntries (op.symbol.toList ++ r) ((.operator, op.symbol) :: entries) := by
  have hnext := (isSeparable_operator op).next?_append (r := r) (by decide)
    fun d hd c hc hgoes => by
    have hlead : leadOf d = .operator :=
      head?_symbol_append (r := []) d (by rwa [List.append_nil])
    rw [hlead] at hgoes
    have hall : ∀ c ∈ ['=', '&', '|'], ¬ (isBlank c ∨ c = '\'') := forall_mem_of_all (by decide)
    exact hall c (of_decide_eq_true hgoes) (hr c hc)
  have hentries := h.next hnext (by decide)
  rwa [String.ofList_toList] at hentries

/-- The three tokens of such a source, found from behind. -/
theorem Compared.hasEntries {s t source : String} {op : Operator} (h : Compared s op t source) :
    HasEntries source.toList [(.string, quote s), (.operator, op.symbol), (.string, quote t)] := by
  obtain ⟨lead, gap, gap', trail, hblank, hsource⟩ := h
  simp only [List.forall_mem_cons] at hblank
  obtain ⟨hlead, hgap, hgap', htrail, -⟩ := hblank
  have hblankQuote : ¬ isBlank '\'' := by decide
  have hquote : ∀ {gap : List Char}, (∀ c ∈ gap, isBlank c) → ∀ c ∈ gap, c ≠ '\'' := by
    rintro gap hgap c hc rfl
    exact hblankQuote (hgap _ hc)
  have hright : HasEntries (gap' ++ ((quote t).toList ++ trail)) [(.string, quote t)] :=
    (hasEntries_quote (hasEntries_of_isBlank htrail) fun c hc =>
      hquote htrail c (List.mem_of_mem_head? hc)).blanks hgap' fun c hc =>
        head?_quote_append c hc ▸ hblankQuote
  have hmiddle : HasEntries (gap ++ (op.symbol.toList ++ (gap' ++ ((quote t).toList ++ trail))))
      [(.operator, op.symbol), (.string, quote t)] :=
    (hasEntries_symbol hright (forall_mem_head?_append (fun c hc => .inl (hgap' c hc)) fun c hc =>
      .inr (head?_quote_append c hc))).blanks hgap fun c hc =>
        not_isBlank_of_operator (head?_symbol_append c hc)
  rw [hsource]
  refine (hasEntries_quote hmiddle ?_).blanks hlead fun c hc =>
    head?_quote_append c hc ▸ hblankQuote
  refine forall_mem_head?_append (hquote hgap) fun c hc => ?_
  rintro rfl
  exact absurd (head?_symbol_append _ hc) (by decide)

theorem Compared.parse {s t source : String} {op : Operator} (h : Compared s op t source) :
    Expression.parse source = .ok ⟨.string (quote s), some (op, .string (quote t))⟩ := by
  obtain ⟨found, hs, hentries⟩ := h.hasEntries 0
  let tokens : List Token := [⟨.string, quote s, 0⟩, ⟨.operator, op.symbol, 1⟩,
    ⟨.string, quote t, 2⟩, .endOfInput 3]
  have hderives : Derives (beforeEnd tokens) ⟨.string (quote s), some (op, .string (quote t))⟩ :=
    .binary (u := [⟨.string, quote s, 0⟩]) (.string rfl) (Nat.zero_le _) rfl rfl (.string rfl)
      (Nat.zero_le _)
  refine Expression.parse_of_entries tokens (Expression.ofTokens_of_derives hderives)
    (tokenize_eq_ok_iff.mpr ⟨found, hs, rfl⟩) ?_ (by simp [tokens, endOfInput])
    ⟨.endOfInput 3, by simp [tokens], rfl⟩
  rw [List.map_append, hentries]
  rfl

/-- Such a source has the answer of the operator for its value. -/
theorem evaluate_compared {s t source : String} {op : Operator} (h : Compared s op t source)
    (c : Context) : evaluate source c = .ok (.bool (op.holds (.string s) (.string t))) := by
  rw [evaluate, h.parse]
  simp only [Expression.evaluate, Literal.evaluate_string_quote]

/-- Two strings have the order of their bytes in UTF-8 and of their characters, which is a total
order in which only equal strings are equal. The value of a source that compares their literals says
whether the operator holds of this order. -/
theorem compare_strings :
    (∀ s t, ∃ o, (Value.string s).compare? (.string t) = some o ∧
      IsLexOrder o (utf8Bytes s) (utf8Bytes t) ∧ IsLexOrder o (codePoints s) (codePoints t) ∧
      (o = .eq ↔ (Value.string s).equal (.string t))) ∧
    (∀ s t u, StringLe s t → StringLe t u → StringLe s u) ∧
    (∀ s t, StringLe s t → StringLe t s → s = t) ∧ (∀ s t, StringLe s t ∨ StringLe t s) ∧
    ∀ s op t source c, Compared s op t source → ∃ b, evaluate source c = .ok (.bool b) ∧
      (op = .lt → (b ↔ utf8Bytes s < utf8Bytes t)) ∧
      (op = .le → (b ↔ ¬ utf8Bytes t < utf8Bytes s)) ∧
      (op = .gt → (b ↔ utf8Bytes t < utf8Bytes s)) ∧
      (op = .ge → (b ↔ ¬ utf8Bytes s < utf8Bytes t)) := by
  refine ⟨fun s t => ⟨compare s t, rfl, isLexOrder_utf8Bytes s t, isLexOrder_codePoints s t, ?_⟩,
    fun s t u => ?_, fun s t => ?_, fun s t => ?_, fun s op t source c h => ?_⟩
  · rw [(isLexOrder_toList s t).eq_iff, String.toList_inj]
    exact beq_iff_eq.symm
  · simp only [stringLe_iff]
    exact String.le_trans
  · simp only [stringLe_iff]
    exact String.le_antisymm
  · simp only [stringLe_iff]
    exact String.le_total s t
  · refine ⟨_, evaluate_compared h c, ?_, ?_, ?_, ?_⟩
    · rintro rfl
      exact Operator.lt_holds_string
    · rintro rfl
      exact Operator.le_holds_string
    · rintro rfl
      exact Operator.gt_holds_string
    · rintro rfl
      exact Operator.ge_holds_string

/-- A character of four bytes comes behind one of three, also where pairs of 16-bit units would be
in the other order; a quote inside a literal is one character of its text. -/
theorem compare_strings_supplementary :
    StringLe "it's" "～" ∧ StringLe "～" "😀" ∧ StringLe "it's" "😀" ∧
      Compared "～" .lt "😀" "'～'<'😀'" ∧ Compared "～" .le "～" "'～' <= '～'" ∧
      Compared "～" .gt "😀" "'～'>'😀'" ∧ Compared "it's" .ge "～" " 'it''s'  >= '～'" ∧
      ∀ c, evaluate "'～'<'😀'" c = .ok (.bool true) ∧
        evaluate "'～' <= '～'" c = .ok (.bool true) ∧
        evaluate "'～'>'😀'" c = .ok (.bool false) ∧
        evaluate " 'it''s'  >= '～'" c = .ok (.bool false) := by
  have hfirst : StringLe "it's" "～" := stringLe_iff.mpr (by decide)
  have hsecond : StringLe "～" "😀" := stringLe_iff.mpr (by decide)
  have hblank : isBlank ' ' := by decide
  have hlt : Compared "～" .lt "😀" "'～'<'😀'" :=
    ⟨[], [], [], [], by simp, by decide⟩
  have hle : Compared "～" .le "～" "'～' <= '～'" :=
    ⟨[], [' '], [' '], [], by simp [hblank], by decide⟩
  have hgt : Compared "～" .gt "😀" "'～'>'😀'" :=
    ⟨[], [], [], [], by simp, by decide⟩
  have hge : Compared "it's" .ge "～" " 'it''s'  >= '～'" :=
    ⟨[' '], [' ', ' '], [' '], [], by simp [hblank], by decide⟩
  have hbytes : utf8Bytes "～" < utf8Bytes "😀" := utf8Bytes_lt (by decide)
  have hbytes' : utf8Bytes "it's" < utf8Bytes "～" := utf8Bytes_lt (by decide)
  refine ⟨hfirst, hsecond, compare_strings.2.1 _ _ _ hfirst hsecond, hlt, hle, hgt, hge,
    fun c => ⟨?_, ?_, ?_, ?_⟩⟩
  · obtain ⟨b, hb, hless, -⟩ := compare_strings.2.2.2.2 _ _ _ _ c hlt
    rw [hb, (hless rfl).mpr hbytes]
  · obtain ⟨b, hb, -, hnot, -⟩ := compare_strings.2.2.2.2 _ _ _ _ c hle
    rw [hb, (hnot rfl).mpr (List.lt_irrefl _)]
  · obtain ⟨b, hb, -, -, hgreater, -⟩ := compare_strings.2.2.2.2 _ _ _ _ c hgt
    have hfalse : ¬ b := fun h => List.lt_asymm hbytes ((hgreater rfl).mp h)
    rw [hb, Bool.eq_false_iff.mpr hfalse]
  · obtain ⟨b, hb, -, -, -, hnot⟩ := compare_strings.2.2.2.2 _ _ _ _ c hge
    have hfalse : ¬ b := fun h => (hnot rfl).mp h hbytes'
    rw [hb, Bool.eq_false_iff.mpr hfalse]

end WorkflowCondition
