import WorkflowCondition.Context.Basic
import WorkflowCondition.Proofs.Json.RoundTrip

/-!
# Readers that check types

A typed reader may be compared with a reader that takes any value and a check that is made
afterwards (`Json.Checks`): it reads what the other reads and the check accepts, and where the check
refuses what was read, the type is wrong. If this holds of two readers of values, it holds of the
readers of members and of objects that are made of them (`Json.Checks.readObject`), where the check
goes through the members from the first one on. A mapping of a context is read as the values that
are objects are (`Json.checks_readRoot`).
-/

namespace WorkflowCondition

/-- The fields of an object; no other value has any. -/
def Value.fields? : Value → Option (Fields Value)
  | .object fields => some fields
  | _ => none

theorem Value.fields?_eq_some_iff {v : Value} {fields : Fields Value} :
    v.fields? = some fields ↔ v = .object fields := by
  cases v <;> simp [fields?]

namespace Json

variable {α β γ δ : Type} {check : α → Option β} {check' : γ → Option δ}

/-! ## Answers -/

/-- The answer with what a check gives, of the wrong type if it gives nothing. -/
def checked : Option β → List Char → Except Fault (β × List Char)
  | some y, rest => .ok (y, rest)
  | none, _ => .error .mistyped

/-- An answer with any value, and the answer of a typed reader in its place. If there is no value,
the typed reader may have found another fault before. -/
structure Agrees (check : α → Option β) (reply : Except Fault (α × List Char))
    (typed : Except Fault (β × List Char)) : Prop where
  of_ok : ∀ {x rest}, reply = .ok (x, rest) → typed = checked (check x) rest
  exists_ok : ∀ {y rest}, typed = .ok (y, rest) → ∃ x, reply = .ok (x, rest) ∧ check x = some y

theorem Agrees.error (fault fault' : Fault) : Agrees check (.error fault) (.error fault') :=
  ⟨nofun, nofun⟩

theorem Agrees.ok {x : α} {y : β} (h : check x = some y) (rest : List Char) :
    Agrees check (.ok (x, rest)) (.ok (y, rest)) where
  of_ok he := by
    cases he
    rw [h]
    rfl
  exists_ok he := by
    cases he
    exact ⟨x, rfl, h⟩

theorem Agrees.mistyped {x : α} (h : check x = none) (rest : List Char) :
    Agrees check (.ok (x, rest)) (.error .mistyped) where
  of_ok he := by
    cases he
    rw [h]
    rfl
  exists_ok := nofun

/-- Readers go on in the same way behind a value, as long as a value that is refused is refused as a
part too. -/
theorem Agrees.bind {reply : Except Fault (α × List Char)} {typed : Except Fault (β × List Char)}
    {f : α × List Char → Except Fault (γ × List Char)}
    {g : β × List Char → Except Fault (δ × List Char)} (h : Agrees check reply typed)
    (hsome : ∀ x y rest, check x = some y → Agrees check' (f (x, rest)) (g (y, rest)))
    (hnone : ∀ x rest z rest', check x = none → f (x, rest) = .ok (z, rest') → check' z = none) :
    Agrees check' (reply >>= f) (typed >>= g) where
  of_ok he := by
    obtain ⟨⟨x, rest⟩, hx, hf⟩ := bind_eq_ok_iff.mp he
    rw [h.of_ok hx]
    cases hcheck : check x with
    | none =>
      rw [hnone x rest _ _ hcheck hf]
      rfl
    | some y => exact (hsome x y rest hcheck).of_ok hf
  exists_ok he := by
    obtain ⟨⟨y, rest⟩, hy, hg⟩ := bind_eq_ok_iff.mp he
    obtain ⟨x, hx, hcheck⟩ := h.exists_ok hy
    obtain ⟨z, hz, hcheck'⟩ := (hsome x y rest hcheck).exists_ok hg
    exact ⟨z, bind_eq_ok_iff.mpr ⟨(x, rest), hx, hz⟩, hcheck'⟩

/-! ## Readers -/

/-- The typed reader is the other one with the check behind it. -/
def Checks (read : Reader α) (check : α → Option β) (typed : Reader β) : Prop :=
  ∀ cs, Agrees check (read cs) (typed cs)

variable {read : Reader α} {typed : Reader β}

/-- A value in front of others. The check goes through them in the same order as the reader. -/
theorem Checks.cons {more : Reader (List α)} {moreTyped : Reader (List β)}
    (h : Checks read check typed) (hmore : Checks more (List.mapM check) moreTyped) :
    Checks (fun cs => do
        let (x, rest) ← read cs
        let (xs, rest) ← more rest
        .ok (x :: xs, rest)) (List.mapM check) (fun cs => do
        let (y, rest) ← typed cs
        let (ys, rest) ← moreTyped rest
        .ok (y :: ys, rest)) := by
  intro cs
  refine (h cs).bind (fun x y rest hx => ?_) fun x rest z rest' hx he => ?_
  · refine (hmore rest).bind (fun xs ys rest hxs => .ok ?_ rest) fun xs rest z rest' hxs he => ?_
    · rw [List.mapM_cons, hx, hxs]
      rfl
    · cases he
      rw [List.mapM_cons, hx, hxs]
      rfl
  · obtain ⟨⟨xs, r⟩, -, he⟩ := bind_eq_ok_iff.mp he
    cases he
    rw [List.mapM_cons, hx]
    rfl

/-- The check of a member, which keeps its name. -/
def checkMember (check : α → Option β) (m : String × α) : Option (String × β) :=
  (check m.2).map (m.1, ·)

theorem mapM_checkMember_nil : List.mapM (checkMember check) [] = some [] :=
  rfl

/-- The name is read in the same way by both. -/
theorem Checks.readMember (h : Checks read check typed) :
    Checks (readMember read) (checkMember check) (readMember typed) := by
  intro cs
  rw [Json.readMember.eq_def, Json.readMember.eq_def]
  split
  · rename_i rest
    cases readString rest with
    | error fault => exact .error fault fault
    | ok reply =>
      obtain ⟨key, r⟩ := reply
      simp only [Except.bind, Bind.bind]
      split
      · rename_i r' hr
        refine (h r').bind (fun x y rest hx => .ok ?_ rest) fun x rest z rest' hx he => ?_
        · rw [checkMember, hx]
          rfl
        · cases he
          rw [checkMember, hx]
          rfl
      · exact .error _ _
  · exact .error _ _

/-- By induction on the number of members that may follow. -/
theorem Checks.moreMembers (h : Checks read check typed) (n : Nat) :
    Checks (moreMembers read n) (List.mapM (checkMember check)) (moreMembers typed n) := by
  induction n with
  | zero => exact fun cs => .error _ _
  | succ n ih =>
    intro cs
    rw [Json.moreMembers, Json.moreMembers]
    split
    · exact .ok mapM_checkMember_nil _
    · exact h.readMember.cons ih _
    · exact .error _ _

theorem Checks.readMembers (h : Checks read check typed) :
    Checks (readMembers read) (List.mapM (checkMember check)) (readMembers typed) := by
  have hmore : Checks (fun rest => Json.moreMembers read rest.length rest)
      (List.mapM (checkMember check)) (fun rest => Json.moreMembers typed rest.length rest) :=
    fun rest => h.moreMembers rest.length rest
  intro cs
  rw [Json.readMembers, Json.readMembers]
  split
  · exact .ok mapM_checkMember_nil _
  · exact h.readMember.cons hmore _

/-- A check of members makes one of objects. -/
theorem Checks.readObject (h : Checks read check typed) :
    Checks (readObject read) (List.mapM (checkMember check)) (readObject typed) := by
  intro cs
  rw [Json.readObject, Json.readObject]
  split
  · exact h.readMembers _
  · exact .error _ _
  · split <;> exact .error _ _

/-! ## Mappings -/

/-- No scalar is an object. -/
theorem fields?_of_readScalar {cs rest : List Char} {v : Value}
    (h : readScalar cs = .ok (v, rest)) : v.fields? = none := by
  cases readScalar_within 0 h <;> rfl

/-- An object is read as the mapping of its members, and no other value is. -/
theorem checks_readMapping (room : Nat) :
    Checks (readValue (room + 1)) Value.fields? (fun cs => do
      let (members, rest) ← readObject (readValue room) cs
      .ok (Fields.ofList members, rest)) := by
  intro cs
  simp only [readValue, readObject]
  split
  · rename_i rest hcs
    rw [hcs]
    cases readElements (readValue room) rest with
    | error fault => exact .error _ _
    | ok reply => exact .mistyped rfl _
  · rename_i rest hcs
    rw [hcs]
    show Agrees Value.fields? _ (readMembers (readValue room) rest >>= _)
    cases readMembers (readValue room) rest with
    | error fault => exact .error _ _
    | ok reply =>
      have hfields : (Value.object (Fields.ofList reply.1)).fields? =
        some (Fields.ofList reply.1) := rfl
      exact .ok hfields reply.2
  · rename_i harray hobject
    split
    · rename_i hcs
      exact absurd hcs (hobject _)
    · rename_i hcs
      exact absurd hcs (harray _)
    · cases hv : readScalar (skipSpace cs) with
      | error fault => exact .error _ _
      | ok reply => exact .mistyped (fields?_of_readScalar hv) _

theorem checks_readRoot : Checks (readValue (maxNesting - 1)) Value.fields? readRoot :=
  checks_readMapping (maxNesting - 2)

/-! ## Documents -/

theorem Checks.of_readDocument (h : Checks read check typed) {text : String} {x : α}
    (hx : readDocument read text = .ok x) : readDocument typed text =
      match check x with
      | some y => .ok y
      | none => .error .mistyped := by
  obtain ⟨rest, hread, hrest⟩ := readDocument_eq_ok_iff.mp hx
  rw [readDocument, (h text.toList).of_ok hread]
  cases check x with
  | none => rfl
  | some y => exact if_pos hrest

/-- What is read with its types can be read without them. -/
theorem Checks.exists_readDocument (h : Checks read check typed) {text : String} {y : β}
    (hy : readDocument typed text = .ok y) :
    ∃ x, readDocument read text = .ok x ∧ check x = some y := by
  obtain ⟨rest, htyped, hrest⟩ := readDocument_eq_ok_iff.mp hy
  obtain ⟨x, hread, hcheck⟩ := (h text.toList).exists_ok htyped
  exact ⟨x, readDocument_eq_ok_iff.mpr ⟨rest, hread, hrest⟩, hcheck⟩

/-- What is made of what is read can be made at the end. -/
theorem readDocument_map (read : Reader α) (f : α → β) (text : String) :
    readDocument (fun cs => do
      let (x, rest) ← read cs
      .ok (f x, rest)) text = (readDocument read text).map f := by
  simp only [readDocument]
  cases read text.toList with
  | error fault => rfl
  | ok reply =>
    simp only [bind, Except.bind]
    split <;> rfl

end Json

end WorkflowCondition
