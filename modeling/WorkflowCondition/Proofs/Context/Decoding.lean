import WorkflowCondition.Proofs.Context.History
import WorkflowCondition.Proofs.Json.Checked

/-!
# Two ways from a text to a context

A context is read from a JSON text with its types checked on the way, or else the text is read as a
value first, of which the context is made. Both see the same members (`Json.members`), but the first
checks each of them and the other only those that no later member with the same name replaces. So
they agree unless a member that is no mapping is replaced (`Context.ReplacesOther`), and then the
first way finds the wrong type: `Context.ofJson_agrees`.
-/

namespace WorkflowCondition

namespace Json

/-- The members of the object that a text stands for, as they are written: those that a later one
with the same name replaces are still there. -/
def members (text : String) : Except Fault (List (String × Value)) :=
  readDocument (readObject (readValue (maxNesting - 1))) text

/-- A text stands for the object of its members. -/
theorem ofJson_eq_object_iff {text : String} {fields : Fields Value} :
    Value.ofJson text = .ok (.object fields) ↔
      ∃ ms, members text = .ok ms ∧ fields = Fields.ofList ms := by
  have hchecks := checks_readMapping (maxNesting - 1)
  have hmapping := readDocument_map (readObject (readValue (maxNesting - 1))) Fields.ofList text
  constructor
  · intro h
    have hfields := hchecks.of_readDocument h
    rw [hmapping] at hfields
    obtain ⟨ms, hms, heq⟩ := map_eq_ok_iff.mp hfields
    exact ⟨ms, hms, heq.symm⟩
  · rintro ⟨ms, hms, rfl⟩
    obtain ⟨v, hv, hfields⟩ := hchecks.exists_readDocument
      (hmapping.trans (map_eq_ok_iff.mpr ⟨ms, hms, rfl⟩))
    rw [← Value.fields?_eq_some_iff.mp hfields]
    exact hv

end Json

namespace Context

theorem checkMember_fields? : Json.checkMember Value.fields? = rootOfValue? := by
  funext ⟨name, v⟩
  cases v <;> rfl

/-- The roots of a context are read with their types as the members of any object without. -/
theorem checks_roots : Json.Checks (Json.readObject (Json.readValue (Json.maxNesting - 1)))
    (List.mapM rootOfValue?) (Json.readObject Json.readRoot) := by
  rw [← checkMember_fields?]
  exact Json.checks_readRoot.readObject

/-- The roots of a context are the members of its text. -/
theorem ofJson_eq_ok_iff_members {text : String} {c : Context} :
    ofJson text = .ok c ↔
      ∃ roots, Json.members text = .ok (roots.map member) ∧ c = ofList roots := by
  rw [ofJson, Json.map_eq_ok_iff]
  constructor
  · rintro ⟨roots, hroots, rfl⟩
    obtain ⟨ms, hms, hcheck⟩ := checks_roots.exists_readDocument hroots
    rw [mapM_rootOfValue?_eq_some_iff] at hcheck
    exact ⟨roots, hcheck ▸ hms, rfl⟩
  · rintro ⟨roots, hms, rfl⟩
    have hroots := checks_roots.of_readDocument hms
    rw [mapM_member] at hroots
    exact ⟨roots, hroots, rfl⟩

/-- One member that is no object is enough for an error. -/
theorem ofJson_of_mem {text : String} {ms : List (String × Value)}
    (hms : Json.members text = .ok ms) {m : String × Value} (hm : m ∈ ms)
    (hother : ∀ fields, m.2 ≠ .object fields) : ofJson text = .error .mistyped := by
  have hnone : ms.mapM rootOfValue? = none := by
    rw [Option.eq_none_iff_forall_ne_some]
    intro roots hroots
    rw [mapM_rootOfValue?_eq_some_iff.mp hroots] at hm
    obtain ⟨root, -, rfl⟩ := List.mem_map.mp hm
    exact hother _ rfl
  have hroots := checks_roots.of_readDocument hms
  rw [hnone] at hroots
  rw [ofJson, hroots]
  rfl

theorem toValue_ofList (roots : List (String × Fields Value)) :
    (ofList roots).toValue = .object (Fields.ofList (roots.map member)) :=
  congrArg Value.object (Fields.ofList_map Value.object roots).symm

/-- Some member that is no object is not the last one with its name. -/
def ReplacesOther (ms : List (String × Value)) : Prop :=
  ∃ before m after, ms = before ++ m :: after ∧ m.1 ∈ after.map (·.1) ∧
    ∀ fields, m.2 ≠ .object fields

/-- If what is left of the members are objects, all of them are, unless one is replaced that is
not. -/
theorem forall_mem_object {ms : List (String × Value)} {c : Context}
    (h : ofValue (.object (Fields.ofList ms)) = .ok c) (hother : ¬ ReplacesOther ms) :
    ∀ m ∈ ms, ∃ fields, m.2 = .object fields := by
  intro m hm
  obtain ⟨before, after, rfl⟩ := List.append_of_mem hm
  by_cases hlater : m.1 ∈ after.map (·.1)
  · by_contra hnone
    exact hother ⟨before, m, after, rfl, hlater, not_exists.mp hnone⟩
  · obtain ⟨_, hmembers, hall⟩ := exists_ofValue_iff.mp ⟨c, h⟩
    cases hmembers
    exact hall m (Fields.mem_ofList_of_not_mem hlater)

/-- A context that is read from a text is made of the value of this text and has this value. If a
context is made of the value of a text, it is read from the text, unless the text replaces a member
that is no object; then the type of this member is wrong. -/
theorem ofJson_agrees :
    (∀ text c, ofJson text = .ok c → ∃ v c', Value.ofJson text = .ok v ∧ ofValue v = .ok c' ∧
      c' = c ∧ c'.equal c ∧ c.toValue = v) ∧
    ∀ text v c, Value.ofJson text = .ok v → ofValue v = .ok c →
      ∃ ms, Json.members text = .ok ms ∧ v = .object (Fields.ofList ms) ∧
        (¬ ReplacesOther ms → ∃ c', ofJson text = .ok c' ∧ c' = c ∧ c'.equal c) ∧
        (ReplacesOther ms → ofJson text = .error .mistyped) := by
  refine ⟨fun text c h => ?_, fun text v c hv hc => ?_⟩
  · obtain ⟨roots, hms, rfl⟩ := ofJson_eq_ok_iff_members.mp h
    have hvalue := Json.ofJson_eq_object_iff.mpr ⟨_, hms, rfl⟩
    rw [← toValue_ofList] at hvalue
    exact ⟨_, _, hvalue, ofValue_toValue _, rfl, Value.equal_self _, rfl⟩
  · obtain ⟨fields, rfl, -⟩ := exists_ofValue_iff.mp ⟨c, hc⟩
    obtain ⟨ms, hms, rfl⟩ := Json.ofJson_eq_object_iff.mp hv
    refine ⟨ms, hms, rfl, fun hother => ?_, ?_⟩
    · obtain ⟨roots, rfl⟩ := exists_map_member (forall_mem_object hc hother)
      rw [← toValue_ofList, ofValue_toValue] at hc
      cases hc
      exact ⟨_, ofJson_eq_ok_iff_members.mpr ⟨roots, hms, rfl⟩, rfl, Value.equal_self _⟩
    · rintro ⟨before, m, after, rfl, -, hm⟩
      exact ofJson_of_mem hms (by simp) hm

/-- A mapping that is replaced is read on both ways, an array that is replaced on one of them. -/
theorem ofJson_agrees_replaced :
    (∃ c, Value.ofJson "\x7b\"env\": \x7b\"A\": true\x7d, \"env\": \x7b\"B\": null\x7d\x7d" =
        .ok (.object [("env", .object [("B", .null)])]) ∧
      ofValue (.object [("env", .object [("B", .null)])]) = .ok c ∧
      ofJson "\x7b\"env\": \x7b\"A\": true\x7d, \"env\": \x7b\"B\": null\x7d\x7d" = .ok c) ∧
    (∃ c, Value.ofJson "\x7b\"env\": [], \"env\": \x7b\x7d\x7d" =
        .ok (.object [("env", .object [])]) ∧
      ofValue (.object [("env", .object [])]) = .ok c) ∧
    ofJson "\x7b\"env\": [], \"env\": \x7b\x7d\x7d" = .error .mistyped := by
  have hmembers :
      Json.members "\x7b\"env\": \x7b\"A\": true\x7d, \"env\": \x7b\"B\": null\x7d\x7d" =
        .ok [("env", .object [("A", .bool true)]), ("env", .object [("B", .null)])] := by
    decide +kernel
  have hread : ofJson "\x7b\"env\": \x7b\"A\": true\x7d, \"env\": \x7b\"B\": null\x7d\x7d" =
      .ok ⟨[("env", [("B", .null)])], by simp [Fields.Sorted]⟩ := by decide +kernel
  obtain ⟨v, c, hv, hc, rfl, -, rfl⟩ := ofJson_agrees.1 _ _ hread
  obtain ⟨ms, hms, -, hall, -⟩ := ofJson_agrees.2 _ _ _ hv hc
  rw [hmembers] at hms
  cases hms
  obtain ⟨c, hboth, rfl, -⟩ := hall <| by
    rintro ⟨before, m, after, heq, -, hother⟩
    have hm : m ∈ [("env", Value.object [("A", .bool true)]), ("env", .object [("B", .null)])] :=
      heq ▸ by simp
    obtain rfl | rfl := List.mem_pair.mp hm <;> exact hother _ rfl
  have hmembers : Json.members "\x7b\"env\": [], \"env\": \x7b\x7d\x7d" =
      .ok [("env", .array []), ("env", .object [])] := by decide +kernel
  have hvalue : Value.ofJson "\x7b\"env\": [], \"env\": \x7b\x7d\x7d" =
      .ok (.object [("env", .object [])]) := by decide +kernel
  obtain ⟨c', hc'⟩ := exists_ofValue_iff.mpr
    ⟨[("env", Value.object [])], rfl, List.forall_mem_singleton.mpr ⟨[], rfl⟩⟩
  obtain ⟨ms, hms, -, -, hother⟩ := ofJson_agrees.2 _ _ _ hvalue hc'
  rw [hmembers] at hms
  cases hms
  exact ⟨⟨_, hv, hc, hboth⟩, ⟨c', hvalue, hc'⟩,
    hother ⟨[], ("env", .array []), [("env", .object [])], rfl, by simp, nofun⟩⟩

end Context

end WorkflowCondition
