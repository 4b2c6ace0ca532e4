/-!
# Fields

A mapping from names to things is a list of pairs in increasing order of names, so that equal
mappings are equal lists and are printed in one way. `Fields.insert` keeps the order
(`Fields.Sorted.insert`) and replaces what stood under the name; `Fields.get?` reads it back
(`Fields.get?_insert`).
-/

namespace WorkflowCondition

/-- A mapping from names, as pairs. Only a list that is `Fields.Sorted` stands for a mapping. -/
abbrev Fields (α : Type) :=
  List (String × α)

namespace Fields

variable {α : Type}

/-- What stands under a name. -/
def get? (fields : Fields α) (name : String) : Option α :=
  match fields with
  | [] => none
  | (key, x) :: rest => if key = name then some x else get? rest name

/-- The fields with `x` under `name`, in place of what stood there. -/
def insert (fields : Fields α) (name : String) (x : α) : Fields α :=
  match fields with
  | [] => [(name, x)]
  | (key, y) :: rest =>
    if name < key then (name, x) :: (key, y) :: rest
    else if name = key then (name, x) :: rest
    else (key, y) :: insert rest name x

/-- The fields given by a list of pairs; of two pairs with one name the later counts. -/
def ofList (pairs : List (String × α)) : Fields α :=
  pairs.foldl (fun fields pair => fields.insert pair.1 pair.2) []

/-- The names of the fields, in order. -/
def names (fields : Fields α) : List String :=
  fields.map (·.1)

/-- The names increase from each pair to the next. -/
def Sorted (fields : Fields α) : Prop :=
  fields.Pairwise fun a b => a.1 < b.1

theorem Sorted.nil : Sorted ([] : Fields α) :=
  List.Pairwise.nil

theorem get?_insert (fields : Fields α) (name : String) (x : α) (key : String) :
    (fields.insert name x).get? key = if name = key then some x else fields.get? key := by
  induction fields with
  | nil => simp [insert, get?]
  | cons pair rest ih =>
    obtain ⟨k, y⟩ := pair
    rw [insert]
    split
    · simp [get?]
    · split
      · rename_i h
        subst h
        by_cases hk : name = key <;> simp [get?, hk]
      · rename_i h
        by_cases hk : k = key
        · have hn : name ≠ key := fun e => h (e.trans hk.symm)
          simp [get?, hk, hn]
        · simp [get?, hk, ih]

theorem mem_insert {fields : Fields α} {name : String} {x : α} {pair : String × α}
    (h : pair ∈ fields.insert name x) : pair = (name, x) ∨ pair ∈ fields := by
  induction fields with
  | nil => simpa [insert] using h
  | cons p rest ih =>
    rw [insert] at h
    split at h
    · simpa using h
    · split at h
      · rcases List.mem_cons.mp h with h | h
        · exact .inl h
        · exact .inr (List.mem_cons_of_mem _ h)
      · rcases List.mem_cons.mp h with rfl | h
        · exact .inr List.mem_cons_self
        · exact (ih h).imp id (List.mem_cons_of_mem _)

/-- Insertion keeps the names in order. -/
theorem Sorted.insert {fields : Fields α} (h : fields.Sorted) (name : String) (x : α) :
    (fields.insert name x).Sorted := by
  induction fields with
  | nil => exact List.pairwise_singleton _ _
  | cons p rest ih =>
    obtain ⟨key, y⟩ := p
    have hc := List.pairwise_cons.mp h
    rw [Fields.insert]
    split
    · rename_i hlt
      refine List.pairwise_cons.mpr ⟨fun q hq => ?_, h⟩
      rcases List.mem_cons.mp hq with rfl | hq
      · exact hlt
      · exact String.lt_trans hlt (hc.1 q hq)
    · rename_i hnlt
      split
      · rename_i he
        subst he
        exact List.pairwise_cons.mpr ⟨hc.1, hc.2⟩
      · rename_i hne
        refine List.pairwise_cons.mpr ⟨fun q hq => ?_, ih hc.2⟩
        rcases mem_insert hq with rfl | hq
        · exact Std.lt_of_le_of_ne (Std.not_lt.mp hnlt) fun e => hne e.symm
        · exact hc.1 q hq

/-- Inserting keeps the order, so that any list of pairs gives fields in order. -/
theorem sorted_ofList (pairs : List (String × α)) : (ofList pairs).Sorted := by
  suffices h : ∀ fields : Fields α, fields.Sorted →
      (pairs.foldl (fun fields pair => fields.insert pair.1 pair.2) fields).Sorted from
    h [] Sorted.nil
  induction pairs with
  | nil => exact fun _ h => h
  | cons pair rest ih => exact fun fields h => ih _ (h.insert pair.1 pair.2)

end Fields

end WorkflowCondition
