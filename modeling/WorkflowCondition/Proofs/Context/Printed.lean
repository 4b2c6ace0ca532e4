import WorkflowCondition.Command.Outcome
import WorkflowCondition.Proofs.Context.History
import WorkflowCondition.Proofs.Json.RoundTrip

/-!
# Printed contexts can be loaded

A context that is read from a JSON text has its mappings in order and nested no deeper than a text
may be (`Context.ofJson_within`). So what is printed for it, if it has no floats, is read as the
same context again (`Context.ofJson_toJson`), and contexts without floats that are printed in the
same way are equal. `Context.printed_faithful` puts this together, down to the line that a run
prints.
-/

namespace WorkflowCondition

namespace Value

/-! ## Equality without floats -/

/-- By induction on the elements, with the hypothesis for each of them. -/
theorem eq_of_equalElements {as : List Value} (h : ∀ a ∈ as, ∀ b : Value, a.equal b → a = b) :
    ∀ {bs : List Value}, equalElements as bs → as = bs := by
  induction as with
  | nil =>
    intro bs he
    cases bs with
    | nil => rfl
    | cons => cases he
  | cons a as ih =>
    intro bs he
    obtain ⟨ha, has⟩ := List.forall_mem_cons.mp h
    cases bs with
    | nil => cases he
    | cons b bs =>
      rw [equalElements, Bool.and_eq_true] at he
      rw [ha b he.1, ih has he.2]

theorem eq_of_equalFields {as : List (String × Value)}
    (h : ∀ p ∈ as, ∀ b : Value, p.2.equal b → p.2 = b) :
    ∀ {bs : List (String × Value)}, equalFields as bs → as = bs := by
  induction as with
  | nil =>
    intro bs he
    cases bs with
    | nil => rfl
    | cons => cases he
  | cons p as ih =>
    intro bs he
    obtain ⟨hp, has⟩ := List.forall_mem_cons.mp h
    obtain ⟨key, a⟩ := p
    cases bs with
    | nil => cases he
    | cons q bs =>
      obtain ⟨key', b⟩ := q
      rw [equalFields, Bool.and_eq_true, Bool.and_eq_true] at he
      obtain rfl : key = key' := eq_of_beq he.1.1
      obtain rfl : a = b := hp b he.1.2
      rw [ih has he.2]

/-- The values of different identity that are equal are floats. -/
theorem eq_of_equal {a : Value} (ha : a.NoFloat) : ∀ b : Value, a.equal b → a = b := by
  induction ha with
  | null => intro b h; cases b <;> first | rfl | cases h
  | bool x => intro b h; cases b <;> first | exact congrArg _ (eq_of_beq h) | cases h
  | int n hn =>
    intro b h
    cases b with
    | number m =>
      cases m with
      | int m hm =>
        obtain rfl : n = m := eq_of_beq h
        rfl
      | float => cases h
    | _ => cases h
  | string s => intro b h; cases b <;> first | exact congrArg _ (eq_of_beq h) | cases h
  | array _ ih =>
    intro b h
    cases b with
    | array bs => rw [eq_of_equalElements ih h]
    | _ => cases h
  | object _ ih =>
    intro b h
    cases b with
    | object bs => rw [eq_of_equalFields ih h]
    | _ => cases h

end Value

namespace Json

/-! ## Mappings -/

variable {α : Type} {read : Reader α}

theorem readObject_gives {P : α → Prop} (h : Gives read P) :
    Gives (readObject read) fun xs => ∀ m ∈ xs, P m.2 := by
  intro cs xs rest he
  rw [readObject] at he
  split at he
  · exact readMembers_gives h he
  · cases he
  · split at he <;> cases he

/-- A mapping of a context uses one of the levels of nesting. -/
theorem readRoot_within : Gives readRoot fun fields => (Value.object fields).Within 126 := by
  intro cs fields rest he
  rw [readRoot] at he
  obtain ⟨⟨members, r⟩, hmembers, he⟩ := bind_eq_ok_iff.mp he
  cases he
  exact object_within (readObject_gives (readValue_within (maxNesting - 2)) hmembers)

theorem readObject_chars {fields : List (String × Value)} {xs : List (String × α)}
    (hread : List.Forall₂ (MemberReadsBack read) fields xs) (rest : List Char) :
    readObject read (chars (.object fields) ++ rest) = .ok (xs, rest) := by
  obtain ⟨cs, hchars, hcs⟩ := exists_readMembers hread
  rw [hchars, List.cons_append, readObject, skipSpace_of_not_isSpace (by decide)]
  exact hcs rest

theorem readsBack_readRoot {fields : Fields Value} (hv : (Value.object fields).Within 126)
    (hf : (Value.object fields).NoFloat) : ReadsBack readRoot (.object fields) fields := by
  intro rest _
  cases hv with
  | object hs hv =>
    cases hf with
    | object hf =>
      have hfields : List.Forall₂ (MemberReadsBack (readValue (maxNesting - 2))) fields fields :=
        List.forall₂_same.mpr fun p hp => ⟨rfl, readsBack_readValue (hv p hp) (hf p hp)⟩
      rw [readRoot, readObject_chars hfields]
      simp only [bind, Except.bind, hs.ofList_eq]

end Json

namespace Context

/-- Nothing but space may follow the object. -/
theorem ofJson_eq_ok_iff {text : String} {c : Context} :
    ofJson text = .ok c ↔ ∃ roots rest,
      Json.readObject Json.readRoot text.toList = .ok (roots, rest) ∧ Json.skipSpace rest = [] ∧
        c = ofList roots := by
  rw [ofJson, Json.map_eq_ok_iff]
  constructor
  · rintro ⟨roots, hroots, rfl⟩
    obtain ⟨rest, hread, hrest⟩ := Json.readDocument_eq_ok_iff.mp hroots
    exact ⟨roots, rest, hread, hrest, rfl⟩
  · rintro ⟨roots, rest, hread, hrest, rfl⟩
    exact ⟨roots, Json.readDocument_eq_ok_iff.mpr ⟨rest, hread, hrest⟩, rfl⟩

/-- What a context has that is read from a text. -/
theorem ofJson_within {text : String} {c : Context} (h : ofJson text = .ok c) :
    ∀ root ∈ c.roots, (Value.object root.2).Within 126 := by
  obtain ⟨roots, rest, hread, -, rfl⟩ := ofJson_eq_ok_iff.mp h
  exact fun root hroot =>
    Json.readObject_gives Json.readRoot_within hread root (Fields.mem_of_mem_ofList hroot)

/-- A context without floats is read back, if it is nested no deeper than a reader allows. -/
theorem ofJson_toJson {c : Context} (hc : ∀ root ∈ c.roots, (Value.object root.2).Within 126)
    (hf : c.toValue.NoFloat) : ofJson c.toValue.toJson = .ok c := by
  cases hf with
  | object hf =>
    have hroots : List.Forall₂ (Json.MemberReadsBack Json.readRoot) (c.roots.map member) c.roots :=
      List.forall₂_map_left_iff.mpr (List.forall₂_same.mpr fun root hroot =>
        ⟨rfl, Json.readsBack_readRoot (hc root hroot) (hf _ (List.mem_map_of_mem hroot))⟩)
    have hread := Json.readObject_chars hroots []
    rw [List.append_nil] at hread
    refine ofJson_eq_ok_iff.mpr ⟨c.roots, [], ?_, rfl, c.ofList_roots.symm⟩
    rw [Value.toJson, String.toList_ofList]
    exact hread

end Context

/-- The line with the context that a run prints. -/
theorem Command.runIn_output {source : Context.Source} {read : String → Option ByteArray}
    {c : Context} (condition : String) (h : source.load read = .ok c) (hs : ¬ source.isEmpty) :
    ∃ rest, (runIn source read condition).output = "Running:  " ++ condition ++ "\n" ++
      "Including context " ++ c.toValue.toJson ++ "\n" ++ rest := by
  simp only [runIn, h, if_neg hs]
  split
  · exact ⟨_, by
      rw [Outcome.success, String.append_assoc, String.append_assoc, String.append_assoc]⟩
  · exact ⟨_, by rw [Outcome.failure, String.append_assoc]⟩

namespace Context

/-- A context without floats that is read from a JSON text is read again from what is printed for
it, and two of them are printed alike if and only if they are equal. This text is what a run prints
for the context that it was given. -/
theorem printed_faithful :
    (∀ text c, ofJson text = .ok c → c.toValue.NoFloat →
      ∃ c', ofJson c.toValue.toJson = .ok c' ∧ c' = c ∧ c'.equal c) ∧
    (∀ text text' c c', ofJson text = .ok c → ofJson text' = .ok c' → c.toValue.NoFloat →
      c'.toValue.NoFloat → (c.toValue.toJson = c'.toValue.toJson ↔ c.equal c')) ∧
    ∀ (source : Source) read condition c, source.load read = .ok c → ¬ source.isEmpty →
      ∃ rest, (Command.runIn source read condition).output = "Running:  " ++ condition ++ "\n" ++
        "Including context " ++ c.toValue.toJson ++ "\n" ++ rest := by
  refine ⟨fun text c h hf => ⟨c, ofJson_toJson (ofJson_within h) hf, rfl, c.toValue.equal_self⟩,
    fun text text' c c' h h' hf hf' => ⟨fun hprinted => ?_, fun hequal => ?_⟩,
    fun source read condition c => Command.runIn_output condition⟩
  · have hread := ofJson_toJson (ofJson_within h) hf
    rw [hprinted, ofJson_toJson (ofJson_within h') hf'] at hread
    cases hread
    exact c.toValue.equal_self
  · rw [Value.eq_of_equal hf _ hequal]

/-- Fields come back in order, a control character as an escape, the largest integer as it is. -/
theorem printed_faithful_fields :
    ∃ c text, ofJson "\x7b\"env\": \x7b\"b\": 18446744073709551615, \"a\": \"\\u0007\"\x7d\x7d" =
        .ok c ∧
      text = "\x7b\"env\":\x7b\"a\":\"\\u0007\",\"b\":18446744073709551615\x7d\x7d" ∧
      c.toValue.toJson = text ∧ ofJson text = .ok c ∧
      ∃ rest, (Command.runIn (.inline text) (fun _ => none) "env.a").output =
        "Running:  " ++ "env.a" ++ "\n" ++ "Including context " ++ text ++ "\n" ++ rest := by
  let c : Context := ⟨[("env", [("a", .string "\x07"),
    ("b", .number (.int 18446744073709551615 (by decide)))])], by simp [Fields.Sorted]⟩
  have hread :
      ofJson "\x7b\"env\": \x7b\"b\": 18446744073709551615, \"a\": \"\\u0007\"\x7d\x7d" =
        .ok c := by decide +kernel
  have hf : c.toValue.NoFloat :=
    .object (List.forall_mem_singleton.mpr (.object (List.forall_mem_cons.mpr
      ⟨.string _, List.forall_mem_singleton.mpr (.int _ _)⟩)))
  have hprinted : c.toValue.toJson =
      "\x7b\"env\":\x7b\"a\":\"\\u0007\",\"b\":18446744073709551615\x7d\x7d" := by
    decide +kernel
  obtain ⟨c', hc, rfl, -⟩ := printed_faithful.1 _ _ hread hf
  have hload : (Source.inline c.toValue.toJson).load (fun _ => none) = .ok c := by
    rw [Source.load, Source.loadJson, hc]
    rfl
  exact ⟨c, c.toValue.toJson, hread, hprinted, rfl, hc,
    printed_faithful.2.2 _ _ "env.a" c hload (by decide)⟩

end Context

end WorkflowCondition
