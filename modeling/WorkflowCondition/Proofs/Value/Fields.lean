import Mathlib.Data.List.Induction
import Mathlib.Data.List.Nodup
import WorkflowCondition.Value.Fields

/-!
# Mappings by what stands under a name

A mapping is given by what stands under each name: two lists in order that agree on all names are
one list (`Fields.Sorted.ext`). What stands under a name in a mapping that is given by pairs is what
the last of these pairs with the name says (`Fields.get?_ofList`), and a list in order is the
mapping that it gives (`Fields.Sorted.ofList_eq`).
-/

namespace WorkflowCondition

namespace Fields

variable {α : Type} {fields fields' : Fields α} {name : String} {x : α}

/-! ## Names -/

theorem get?_eq_none_iff : fields.get? name = none ↔ name ∉ fields.names := by
  induction fields with
  | nil => simp [get?, names]
  | cons p rest ih =>
    obtain ⟨key, y⟩ := p
    rw [get?, names, List.map_cons, List.mem_cons, not_or, ← names, ← ih]
    by_cases h : key = name
    · simp [h]
    · simp [h, Ne.symm h]

theorem mem_of_get? (h : fields.get? name = some x) : (name, x) ∈ fields := by
  induction fields with
  | nil => cases h
  | cons p rest ih =>
    obtain ⟨key, y⟩ := p
    rw [get?] at h
    split at h
    · rename_i hkey
      cases h
      exact hkey ▸ List.mem_cons_self
    · exact List.mem_cons_of_mem _ (ih h)

theorem Sorted.nodup_names (h : fields.Sorted) : fields.names.Nodup :=
  List.pairwise_map.mpr (h.imp Std.ne_of_lt)

/-- Names that increase occur once, so that every field is found. -/
theorem Sorted.get?_of_mem (h : fields.Sorted) (hm : (name, x) ∈ fields) :
    fields.get? name = some x := by
  induction fields with
  | nil => cases hm
  | cons p rest ih =>
    obtain ⟨key, y⟩ := p
    obtain ⟨hlt, hrest⟩ := List.pairwise_cons.mp h
    rw [get?]
    rcases List.mem_cons.mp hm with he | hm
    · cases he
      rw [if_pos rfl]
    · have hne : key ≠ name := fun he => String.lt_irrefl _ (he ▸ hlt _ hm)
      rw [if_neg hne]
      exact ih hrest hm

theorem Sorted.mem_iff (h : fields.Sorted) : (name, x) ∈ fields ↔ fields.get? name = some x :=
  ⟨h.get?_of_mem, mem_of_get?⟩

/-- Agreement on all names makes one list a permutation of the other, and both are in order. -/
theorem Sorted.ext (h : fields.Sorted) (h' : fields'.Sorted)
    (hget : ∀ name, fields.get? name = fields'.get? name) : fields = fields' := by
  have hperm : fields.Perm fields' :=
    (List.perm_ext_iff_of_nodup (List.Nodup.of_map _ h.nodup_names)
      (List.Nodup.of_map _ h'.nodup_names)).mpr fun (name, x) => by
        rw [h.mem_iff, h'.mem_iff, hget]
  exact hperm.eq_of_pairwise (fun a b _ _ hab hba => absurd hba (String.lt_asymm hab)) h h'

/-! ## Pairs -/

/-- What the last pair with the name says. -/
def lastWritten (pairs : List (String × α)) (name : String) : Option α :=
  pairs.reverse.lookup name

/-- The newest pair hides those with its name. -/
theorem lastWritten_concat (pairs : List (String × α)) (key : String) (x : α) (name : String) :
    lastWritten (pairs ++ [(key, x)]) name =
      if key = name then some x else lastWritten pairs name := by
  rw [lastWritten, List.reverse_concat, List.lookup_cons]
  by_cases h : key = name
  · rw [h, beq_self_eq_true, if_pos rfl]
  · rw [beq_false_of_ne (Ne.symm h), if_neg h, lastWritten]

theorem lastWritten_eq_none_iff {pairs : List (String × α)} :
    lastWritten pairs name = none ↔ name ∉ pairs.map (·.1) := by
  simp only [lastWritten, List.lookup_eq_none_iff, List.mem_reverse, bne_iff_ne, List.mem_map,
    not_exists, not_and]
  exact forall₂_congr fun p hp => ⟨Ne.symm, Ne.symm⟩

/-- The newest pair is the last that is inserted. -/
theorem ofList_concat (pairs : List (String × α)) (p : String × α) :
    ofList (pairs ++ [p]) = (ofList pairs).insert p.1 p.2 := by
  rw [ofList, List.foldl_append]
  rfl

/-- Of several pairs with one name the last counts. -/
theorem get?_ofList (pairs : List (String × α)) (name : String) :
    (ofList pairs).get? name = lastWritten pairs name := by
  induction pairs using List.reverseRecOn with
  | nil => rfl
  | append_singleton pairs p ih => rw [ofList_concat, get?_insert, lastWritten_concat, ih]

theorem mem_names_ofList {pairs : List (String × α)} :
    name ∈ (ofList pairs).names ↔ name ∈ pairs.map (·.1) := by
  rw [← not_iff_not, ← get?_eq_none_iff, get?_ofList, lastWritten_eq_none_iff]

theorem insert_of_lt (h : ∀ p ∈ fields, p.1 < name) :
    fields.insert name x = fields ++ [(name, x)] := by
  induction fields with
  | nil => rfl
  | cons p rest ih =>
    obtain ⟨key, y⟩ := p
    obtain ⟨hlt, hrest⟩ := List.forall_mem_cons.mp h
    have hne : ¬ name = key := fun he => String.lt_irrefl _ (he ▸ hlt)
    rw [insert, if_neg (String.lt_asymm hlt), if_neg hne, ih hrest, List.cons_append]

/-- Fields in order are what is made of them, by induction from behind. -/
theorem Sorted.ofList_eq (h : fields.Sorted) : ofList fields = fields := by
  induction fields using List.reverseRecOn with
  | nil => rfl
  | append_singleton fields p ih =>
    obtain ⟨hfields, -, hlt⟩ := List.pairwise_append.mp h
    rw [ofList_concat, ih hfields]
    exact insert_of_lt fun q hq => hlt q hq p (List.mem_singleton_self p)

theorem mem_of_mem_ofList {pairs : List (String × α)} {p : String × α} (h : p ∈ ofList pairs) :
    p ∈ pairs := by
  induction pairs using List.reverseRecOn with
  | nil => cases h
  | append_singleton pairs q ih =>
    rw [ofList_concat] at h
    rcases mem_insert h with rfl | h
    · exact List.mem_append_right _ (List.mem_singleton_self _)
    · exact List.mem_append_left _ (ih h)

/-- A pair that no later one replaces is kept. -/
theorem mem_ofList_of_not_mem {before after : List (String × α)} {p : String × α}
    (h : p.1 ∉ after.map (·.1)) : p ∈ ofList (before ++ p :: after) := by
  refine mem_of_get? ?_
  have hnone : after.reverse.lookup p.1 = none := lastWritten_eq_none_iff.mpr h
  rw [get?_ofList, lastWritten, List.reverse_append, List.reverse_cons, List.append_assoc,
    List.lookup_append, hnone, Option.none_or, List.singleton_append, List.lookup_cons_self]

/-! ## Maps -/

variable {β : Type} (f : α → β)

/-- Inserting looks at names only. -/
theorem insert_map (fields : Fields α) (name : String) (x : α) :
    insert (fields.map fun p => (p.1, f p.2)) name (f x) =
      (fields.insert name x).map fun p => (p.1, f p.2) := by
  induction fields with
  | nil => rfl
  | cons p rest ih =>
    rw [List.map_cons, insert, insert]
    split
    · rfl
    · split
      · rfl
      · rw [List.map_cons, ih]

theorem ofList_map (pairs : List (String × α)) :
    ofList (pairs.map fun p => (p.1, f p.2)) = (ofList pairs).map fun p => (p.1, f p.2) := by
  induction pairs using List.reverseRecOn with
  | nil => rfl
  | append_singleton pairs p ih =>
    rw [List.map_append, List.map_singleton, ofList_concat, ofList_concat, ih, insert_map]

end Fields

end WorkflowCondition
