import WorkflowCondition.Evaluation
import WorkflowCondition.Proofs.Evaluation.Congruence
import WorkflowCondition.Proofs.Value.Fields

/-!
# Contexts by what has been written into them

A context that is built up by writing mappings under names holds under each name the mapping that
was written last, and that is all it is (`Context.Built.eq_ofList`): the order in which names were
written and the mappings that were replaced are lost. As an object of objects it is faithful, since
just the objects of objects are accepted as contexts (`Context.exists_ofValue_iff`) and come back
from them (`Context.toValue_of_ofValue`, `Context.ofValue_toValue`). `Context.built_faithful` puts
this together.
-/

namespace WorkflowCondition

namespace Context

/-! ## Objects of objects -/

/-- A root of a context as a member of an object. -/
def member (root : String × Fields Value) : String × Value :=
  (root.1, .object root.2)

theorem rootOfValue?_eq_some_iff {m : String × Value} {root : String × Fields Value} :
    rootOfValue? m = some root ↔ m = member root := by
  obtain ⟨name, fields⟩ := root
  obtain ⟨key, v⟩ := m
  cases v <;> simp [rootOfValue?, member]

theorem mapM_member (roots : List (String × Fields Value)) :
    (roots.map member).mapM rootOfValue? = some roots := by
  induction roots with
  | nil => rfl
  | cons root roots ih =>
    rw [List.map_cons, List.mapM_cons, rootOfValue?_eq_some_iff.mpr rfl, ih]
    rfl

/-- All members are mappings, and the mappings are in the order of the members. -/
theorem mapM_rootOfValue?_eq_some_iff {members : List (String × Value)}
    {roots : List (String × Fields Value)} :
    members.mapM rootOfValue? = some roots ↔ members = roots.map member := by
  refine ⟨fun h => ?_, by rintro rfl; exact mapM_member roots⟩
  induction members generalizing roots with
  | nil => cases h; rfl
  | cons m members ih =>
    rw [List.mapM_cons] at h
    obtain ⟨root, hroot, h⟩ := Option.bind_eq_some_iff.mp h
    obtain ⟨rest, hrest, h⟩ := Option.bind_eq_some_iff.mp h
    cases h
    rw [List.map_cons, ← ih hrest, rootOfValue?_eq_some_iff.mp hroot]

theorem exists_map_member {members : List (String × Value)}
    (h : ∀ m ∈ members, ∃ fields, m.2 = .object fields) :
    ∃ roots : List (String × Fields Value), members = roots.map member := by
  induction members with
  | nil => exact ⟨[], rfl⟩
  | cons m members ih =>
    obtain ⟨⟨fields, hm⟩, hall⟩ := List.forall_mem_cons.mp h
    obtain ⟨roots, rfl⟩ := ih hall
    exact ⟨(m.1, fields) :: roots, by rw [List.map_cons, member, ← hm]⟩

/-- What is accepted as a context are the objects of objects. -/
theorem ofValue_eq_ok_iff {v : Value} {c : Context} :
    ofValue v = .ok c ↔ ∃ roots, v = .object (roots.map member) ∧ c = ofList roots := by
  cases v with
  | object members =>
    simp only [ofValue, Value.object.injEq]
    cases h : members.mapM rootOfValue? with
    | none =>
      refine iff_of_false (by rintro ⟨⟩) ?_
      rintro ⟨roots, hmembers, -⟩
      rw [mapM_rootOfValue?_eq_some_iff.mpr hmembers] at h
      cases h
    | some roots =>
      simp only [Except.ok.injEq]
      constructor
      · rintro rfl
        exact ⟨roots, mapM_rootOfValue?_eq_some_iff.mp h, rfl⟩
      · rintro ⟨roots', hmembers, rfl⟩
        rw [mapM_rootOfValue?_eq_some_iff.mpr hmembers] at h
        cases h
        rfl
  | _ => simp [ofValue]

/-- Objects of objects are accepted, and nothing else is. -/
theorem exists_ofValue_iff {v : Value} :
    (∃ c, ofValue v = .ok c) ↔
      ∃ members, v = .object members ∧ ∀ m ∈ members, ∃ fields, m.2 = .object fields := by
  constructor
  · rintro ⟨c, hc⟩
    obtain ⟨roots, rfl, -⟩ := ofValue_eq_ok_iff.mp hc
    exact ⟨_, rfl, List.forall_mem_map.mpr fun root _ => ⟨root.2, rfl⟩⟩
  · rintro ⟨members, rfl, hall⟩
    obtain ⟨roots, rfl⟩ := exists_map_member hall
    exact ⟨_, ofValue_eq_ok_iff.mpr ⟨roots, rfl, rfl⟩⟩

theorem ofList_roots (c : Context) : ofList c.roots = c := by
  obtain ⟨roots, hroots⟩ := c
  rw [ofList]
  congr
  exact hroots.ofList_eq

theorem ofValue_toValue (c : Context) : ofValue c.toValue = .ok c :=
  ofValue_eq_ok_iff.mpr ⟨c.roots, rfl, c.ofList_roots.symm⟩

theorem toValue_of_ofValue {members : List (String × Value)} {c : Context}
    (hsorted : Fields.Sorted members) (h : ofValue (.object members) = .ok c) :
    c.toValue = .object members := by
  obtain ⟨roots, hmembers, rfl⟩ := ofValue_eq_ok_iff.mp h
  cases hmembers
  have hroots : Fields.Sorted roots := (List.pairwise_map (f := member)).mp hsorted
  exact congrArg (fun roots => Value.object (roots.map member)) hroots.ofList_eq

/-! ## Histories -/

/-- A context with all mappings that were written into it under their names, the first one first. It
starts empty or as a value that is accepted, whose members are then written in their order. Whether
a root is set in place or by the builder, it is written by `insert`. -/
inductive Built : Context → List (String × Fields Value) → Prop
  | empty : Built empty []
  | ofValue {members : List (String × Value)} {c : Context}
      (h : ofValue (.object members) = .ok c) : Built c (members.filterMap rootOfValue?)
  | insert {c : Context} {written : List (String × Fields Value)} (h : Built c written)
      (name : String) (fields : Fields Value) :
      Built (c.insert name fields) (written ++ [(name, fields)])

variable {c c' : Context} {written written' : List (String × Fields Value)}

theorem filterMap_member (roots : List (String × Fields Value)) :
    (roots.map member).filterMap rootOfValue? = roots := by
  have hid : rootOfValue? ∘ member = some := funext fun _ => rootOfValue?_eq_some_iff.mpr rfl
  rw [List.filterMap_map, hid, List.filterMap_some]

/-- A context is what has been written. -/
theorem Built.eq_ofList (h : Built c written) : c = ofList written := by
  induction h with
  | empty => rfl
  | ofValue h =>
    obtain ⟨roots, hmembers, rfl⟩ := ofValue_eq_ok_iff.mp h
    cases hmembers
    rw [filterMap_member]
  | @insert c written _ name fields ih =>
    subst ih
    simp only [Context.insert, ofList, Fields.ofList_concat]

/-- What was written last under a name is found there. -/
theorem Built.get? (h : Built c written) (name : String) :
    c.get? name = Fields.lastWritten written name := by
  rw [h.eq_ofList]
  exact Fields.get?_ofList written name

theorem Built.mem_names (h : Built c written) {name : String} :
    name ∈ c.names ↔ name ∈ written.map (·.1) := by
  rw [h.eq_ofList]
  exact Fields.mem_names_ofList

theorem isEmpty_iff (c : Context) : c.isEmpty ↔ c.names = [] := by
  rw [isEmpty, List.isEmpty_iff, names, Fields.names, List.map_eq_nil_iff]

/-- Two contexts into which the same was written last under each name are one. -/
theorem Built.eq (h : Built c written) (h' : Built c' written')
    (hlast : ∀ name, Fields.lastWritten written name = Fields.lastWritten written' name) :
    c = c' := by
  have hroots : c.roots = c'.roots := c.sorted.ext c'.sorted fun name => by
    rw [← Context.get?, ← Context.get?, h.get?, h'.get?, hlast]
  rw [← c.ofList_roots, hroots, c'.ofList_roots]

/-- A context holds under each name what was written last, and its names are those that were
written, each once. It is accepted back from its object of objects; no other values are accepted,
and all of these are kept. What was written last under each name determines the context, its object
and the values of all conditions in it. -/
theorem built_faithful :
    (∀ c written, Built c written →
      (∀ name, c.get? name = Fields.lastWritten written name) ∧
      (∀ name, c.get? name = none ↔ name ∉ written.map (·.1)) ∧
      (∀ name, name ∈ c.names ↔ name ∈ written.map (·.1)) ∧ c.names.Nodup ∧
      (c.isEmpty ↔ c.names = []) ∧
      ∃ c', ofValue c.toValue = .ok c' ∧ c' = c ∧ c'.equal c) ∧
    (∀ v, (∃ c, ofValue v = .ok c) ↔
      ∃ members, v = .object members ∧ ∀ m ∈ members, ∃ fields, m.2 = .object fields) ∧
    (∀ v c, v.Sorted → ofValue v = .ok c → c.toValue = v) ∧
    ∀ c c' written written', Built c written → Built c' written' →
      (∀ name, Fields.lastWritten written name = Fields.lastWritten written' name) →
      c = c' ∧ c.equal c' ∧ c.toValue = c'.toValue ∧
        ∀ source, evaluate source c = evaluate source c' := by
  refine ⟨fun c written h => ⟨h.get?, fun name => ?_, fun name => h.mem_names,
    c.sorted.nodup_names, c.isEmpty_iff, c, c.ofValue_toValue, rfl, c.toValue.equal_self⟩,
    fun v => exists_ofValue_iff, fun v c hsorted h => ?_,
    fun c c' written written' h h' hlast => ?_⟩
  · rw [h.get?, Fields.lastWritten_eq_none_iff]
  · obtain ⟨roots, rfl, -⟩ := ofValue_eq_ok_iff.mp h
    exact toValue_of_ofValue hsorted.1 h
  · obtain rfl := h.eq h' hlast
    exact ⟨rfl, c.toValue.equal_self, rfl, fun _ => rfl⟩

/-- Neither the order in which two roots are written nor a root that is written anew makes a
difference to the same roots in one object. -/
theorem built_faithful_replaced :
    ∃ c, ofValue (.object [("env", .object [("A", .bool true)]), ("github", .object [])]) = .ok c ∧
      c.toValue = .object [("env", .object [("A", .bool true)]), ("github", .object [])] ∧
      ((empty.insert "github" []).insert "env" [("A", .null)]).insert "env" [("A", .bool true)] =
        c := by
  obtain ⟨c, hc⟩ := (built_faithful.2.1 _).mpr
    ⟨[("env", .object [("A", .bool true)]), ("github", .object [])], rfl, by simp⟩
  have hsorted : (Value.object
      [("env", .object [("A", .bool true)]), ("github", .object [])]).Sorted :=
    ⟨List.pairwise_cons.mpr ⟨List.forall_mem_singleton.mpr (by decide),
      List.pairwise_singleton _ _⟩, ⟨List.pairwise_singleton _ _, trivial, trivial⟩,
      ⟨List.Pairwise.nil, trivial⟩, trivial⟩
  have hbuilt := ((Built.empty.insert "github" []).insert "env" [("A", .null)]).insert "env"
    [("A", .bool true)]
  refine ⟨c, hc, built_faithful.2.2.1 _ c hsorted hc,
    (built_faithful.2.2.2 _ _ _ _ hbuilt (.ofValue hc) fun name => ?_).1⟩
  have hmembers : [("env", Value.object [("A", .bool true)]), ("github", .object [])].filterMap
      rootOfValue? = [] ++ [("env", [("A", .bool true)])] ++ [("github", [])] := rfl
  rw [hmembers]
  simp only [Fields.lastWritten_concat]
  by_cases henv : "env" = name
  · subst henv
    rfl
  · rw [if_neg henv, if_neg henv, if_neg henv]

end Context

end WorkflowCondition
