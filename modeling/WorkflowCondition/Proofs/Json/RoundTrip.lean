import Mathlib.Data.List.Forall2
import WorkflowCondition.Json.Decoder
import WorkflowCondition.Proofs.Json.Scalar
import WorkflowCondition.Proofs.Value.Fields

/-!
# Printed values are read back

`Value.Within room` are the values that a reader with that much room gives
(`Json.readValue_within`): their objects are in order and nested no deeper than the room. Those
without floats are read back from what is printed for them (`Json.readsBack_readValue`). Arrays and
objects are treated for any reader of their parts (`Json.exists_readElements`,
`Json.exists_readMembers`), so that the same lemmas serve for objects of objects.
-/

namespace WorkflowCondition

namespace Value

/-- No number in the value is a float. -/
inductive NoFloat : Value → Prop
  | null : NoFloat .null
  | bool (b : Bool) : NoFloat (.bool b)
  | int (n : Int) (h : IsNumberInt n) : NoFloat (.number (.int n h))
  | string (s : String) : NoFloat (.string s)
  | array {elements : List Value} (h : ∀ v ∈ elements, NoFloat v) : NoFloat (.array elements)
  | object {fields : List (String × Value)} (h : ∀ p ∈ fields, NoFloat p.2) :
      NoFloat (.object fields)

/-- There are no more than `room` arrays and objects around any part of the value, itself included,
and the names of each object increase. -/
inductive Within : Nat → Value → Prop
  | null {room : Nat} : Within room .null
  | bool {room : Nat} (b : Bool) : Within room (.bool b)
  | number {room : Nat} (n : Number) : Within room (.number n)
  | string {room : Nat} (s : String) : Within room (.string s)
  | array {room : Nat} {elements : List Value} (h : ∀ v ∈ elements, Within room v) :
      Within (room + 1) (.array elements)
  | object {room : Nat} {fields : List (String × Value)} (hs : Fields.Sorted fields)
      (h : ∀ p ∈ fields, Within room p.2) : Within (room + 1) (.object fields)

end Value

namespace Json

variable {α β : Type} {read : Reader α}

theorem bind_eq_ok_iff {x : Except Fault α} {f : α → Except Fault β} {b : β} :
    (x >>= f) = .ok b ↔ ∃ a, x = .ok a ∧ f a = .ok b := by
  cases x <;> simp [bind, Except.bind]

theorem map_eq_ok_iff {x : Except Fault α} {f : α → β} {b : β} :
    x.map f = .ok b ↔ ∃ a, x = .ok a ∧ f a = b := by
  cases x <;> simp [Except.map]

/-- Nothing but space may follow the value. -/
theorem readDocument_eq_ok_iff {text : String} {x : α} : readDocument read text = .ok x ↔
    ∃ rest, read text.toList = .ok (x, rest) ∧ skipSpace rest = [] := by
  rw [readDocument, bind_eq_ok_iff]
  constructor
  · rintro ⟨⟨x', rest⟩, hread, hend⟩
    simp only at hend
    split at hend
    · cases hend
      exact ⟨rest, hread, ‹_›⟩
    · cases hend
  · rintro ⟨rest, hread, hrest⟩
    exact ⟨(x, rest), hread, if_pos hrest⟩

/-! ## What a reader gives -/

/-- All that is read has the property. -/
def Gives (read : Reader α) (P : α → Prop) : Prop :=
  ∀ {cs x rest}, read cs = .ok (x, rest) → P x

variable {P : α → Prop}

/-- A list that is read element by element has a property throughout if all that is read has it. -/
theorem forall_mem_of_read_cons {f : Reader (List α)} {cs rest : List Char} {xs : List α}
    (he : (do
      let (x, rest) ← read cs
      let (xs, rest) ← f rest
      .ok (x :: xs, rest)) = .ok (xs, rest))
    (h : Gives read P) (hmore : Gives f fun xs => ∀ x ∈ xs, P x) : ∀ x ∈ xs, P x := by
  obtain ⟨⟨x, r⟩, hx, he⟩ := bind_eq_ok_iff.mp he
  obtain ⟨⟨xs, r'⟩, hxs, he⟩ := bind_eq_ok_iff.mp he
  cases he
  exact List.forall_mem_cons.mpr ⟨h hx, hmore hxs⟩

/-- By induction on the number of elements that may follow. -/
theorem moreElements_gives (h : Gives read P) (n : Nat) :
    Gives (moreElements read n) fun xs => ∀ x ∈ xs, P x := by
  induction n with
  | zero => intro cs xs rest he; cases he
  | succ n ih =>
    intro cs xs rest he
    rw [moreElements] at he
    split at he
    · cases he; exact List.forall_mem_nil _
    · split at he
      · cases he
      · exact forall_mem_of_read_cons he h ih
    · cases he

theorem readElements_gives (h : Gives read P) :
    Gives (readElements read) fun xs => ∀ x ∈ xs, P x := by
  intro cs xs rest he
  rw [readElements] at he
  split at he
  · cases he; exact List.forall_mem_nil _
  · exact forall_mem_of_read_cons (f := fun rest => moreElements read rest.length rest) he h
      (moreElements_gives h _)

theorem readMember_gives (h : Gives read P) : Gives (readMember read) fun m => P m.2 := by
  intro cs m rest he
  rw [readMember.eq_def] at he
  split at he
  · obtain ⟨⟨key, r⟩, -, he⟩ := bind_eq_ok_iff.mp he
    simp only at he
    split at he
    · obtain ⟨⟨x, r'⟩, hx, he⟩ := bind_eq_ok_iff.mp he
      cases he
      exact h hx
    · cases he
  · cases he

theorem moreMembers_gives (h : Gives read P) (n : Nat) :
    Gives (moreMembers read n) fun xs => ∀ m ∈ xs, P m.2 := by
  induction n with
  | zero => intro cs xs rest he; cases he
  | succ n ih =>
    intro cs xs rest he
    rw [moreMembers] at he
    split at he
    · cases he; exact List.forall_mem_nil _
    · exact forall_mem_of_read_cons he (readMember_gives h) ih
    · cases he

theorem readMembers_gives (h : Gives read P) :
    Gives (readMembers read) fun xs => ∀ m ∈ xs, P m.2 := by
  intro cs xs rest he
  rw [readMembers] at he
  split at he
  · cases he; exact List.forall_mem_nil _
  · exact forall_mem_of_read_cons (f := fun rest => moreMembers read rest.length rest) he
      (readMember_gives h) (moreMembers_gives h _)

/-- Scalars need no room. -/
theorem readScalar_within (room : Nat) : Gives readScalar (Value.Within room) := by
  intro cs v rest he
  rw [readScalar.eq_def] at he
  split at he
  · obtain ⟨r, -, he⟩ := bind_eq_ok_iff.mp he
    cases he
    exact .null
  · obtain ⟨r, -, he⟩ := bind_eq_ok_iff.mp he
    cases he
    exact .bool true
  · obtain ⟨r, -, he⟩ := bind_eq_ok_iff.mp he
    cases he
    exact .bool false
  · obtain ⟨⟨s, r⟩, -, he⟩ := bind_eq_ok_iff.mp he
    cases he
    exact .string _
  · split at he
    · obtain ⟨⟨n, r⟩, -, he⟩ := bind_eq_ok_iff.mp he
      cases he
      exact .number n
    · cases he
  · cases he

/-- The members of an object take one level of the room. -/
theorem object_within {room : Nat} {members : List (String × Value)}
    (h : ∀ m ∈ members, m.2.Within room) :
    (Value.object (Fields.ofList members)).Within (room + 1) :=
  .object (Fields.sorted_ofList members) fun m hm => h m (Fields.mem_of_mem_ofList hm)

/-- What is read is nested no deeper than there is room for. -/
theorem readValue_within (room : Nat) : Gives (readValue room) (Value.Within room) := by
  induction room with
  | zero =>
    intro cs v rest he
    rw [readValue] at he
    split at he
    · cases he
    · cases he
    · exact readScalar_within 0 he
  | succ room ih =>
    intro cs v rest he
    rw [readValue] at he
    split at he
    · obtain ⟨⟨elements, r⟩, helements, he⟩ := bind_eq_ok_iff.mp he
      cases he
      exact .array (readElements_gives ih helements)
    · obtain ⟨⟨members, r⟩, hmembers, he⟩ := bind_eq_ok_iff.mp he
      cases he
      exact object_within (readMembers_gives ih hmembers)
    · exact readScalar_within (room + 1) he

/-! ## What is printed is read -/

/-- What is printed for the value is read as `x`. -/
def ReadsBack (read : Reader α) (v : Value) (x : α) : Prop :=
  ∀ rest, EndsNumber rest → read (chars v ++ rest) = .ok (x, rest)

/-- A character that is no space and closes nothing. -/
def StartsValue (cs : List Char) : Prop :=
  ∃ c rest, cs = c :: rest ∧ ¬ isSpace c ∧ c ≠ ']'

theorem skipSpace_of_not_isSpace {c : Char} (hc : ¬ isSpace c) (cs : List Char) :
    skipSpace (c :: cs) = c :: cs :=
  List.dropWhile_cons_of_neg hc

theorem StartsValue.append {cs : List Char} (h : StartsValue cs) (rest : List Char) :
    StartsValue (cs ++ rest) := by
  obtain ⟨c, r, rfl, hc⟩ := h
  exact ⟨c, r ++ rest, rfl, hc⟩

/-- What starts a value does not close the array, so that an element is read. -/
theorem readElements_of_startsValue {cs : List Char} (h : StartsValue cs) :
    readElements read cs = (do
      let (x, rest) ← read cs
      let (xs, rest) ← moreElements read rest.length rest
      .ok (x :: xs, rest)) := by
  obtain ⟨c, r, rfl, hc, hclose⟩ := h
  rw [readElements, skipSpace_of_not_isSpace hc]
  split
  · rename_i he
    exact absurd (List.cons.inj he).1 hclose
  · rfl

theorem moreElements_of_startsValue {cs : List Char} (h : StartsValue cs) (n : Nat) :
    moreElements read (n + 1) (',' :: cs) = (do
      let (x, rest) ← read cs
      let (xs, rest) ← moreElements read n rest
      .ok (x :: xs, rest)) := by
  obtain ⟨c, r, rfl, hc, hclose⟩ := h
  rw [moreElements, skipSpace_of_not_isSpace (by decide)]
  split
  · rename_i he
    exact absurd (List.cons.inj he).1 (by decide)
  · rename_i he
    cases he
    rw [skipSpace_of_not_isSpace hc]
    split
    · rename_i he
      exact absurd (List.cons.inj he).1 hclose
    · rfl
  · rename_i hcomma
    exact absurd rfl (hcomma _)

theorem not_isDigit_of_mem {c : Char}
    (hc : c ∈ [' ', '\t', '\n', '\r', '[', ']', '{', 'n', 't', 'f', '"']) :
    ¬ (c = '-' ∨ c.isDigit) := by
  simp only [List.mem_cons, List.not_mem_nil, or_false] at hc
  rcases hc with rfl | rfl | rfl | rfl | rfl | rfl | rfl | rfl | rfl | rfl | rfl <;> decide

theorem not_isSpace_of_isDigit {c : Char} (hc : c = '-' ∨ c.isDigit) : ¬ isSpace c := by
  intro hspace
  simp only [isSpace, Bool.or_eq_true, beq_iff_eq] at hspace
  exact not_isDigit_of_mem (by simp; tauto) hc

/-- A number starts with its sign or a digit. -/
theorem exists_numberChars {n : Int} (h : IsNumberInt n) :
    ∃ c rest, numberChars (.int n h) = c :: rest ∧ (c = '-' ∨ c.isDigit) := by
  rw [numberChars]
  by_cases hn : n < 0
  · exact ⟨'-', _, by rw [if_pos hn]; rfl, .inl rfl⟩
  · obtain ⟨c, rest, hdigits⟩ := List.exists_cons_of_ne_nil (Nat.toDigits_ne_nil (b := 10)
      (n := n.natAbs))
    refine ⟨c, rest, by rw [if_neg hn, List.nil_append, hdigits], .inr ?_⟩
    exact isDigit_of_mem_toDigits c (hdigits ▸ List.mem_cons_self)

/-- A printed value starts with none of the marks of its surroundings. -/
theorem startsValue_chars {v : Value} (h : v.NoFloat) : StartsValue (chars v) := by
  cases h with
  | null => exact ⟨'n', _, rfl, by decide, by decide⟩
  | bool b => cases b <;> exact ⟨_, _, rfl, by decide, by decide⟩
  | int n hn =>
    obtain ⟨c, rest, hchars, hc⟩ := exists_numberChars hn
    refine ⟨c, rest, hchars, not_isSpace_of_isDigit hc, ?_⟩
    rintro rfl
    exact not_isDigit_of_mem (by decide) hc
  | string s => exact ⟨'"', _, rfl, by decide, by decide⟩
  | @array elements _ => cases elements <;> exact ⟨'[', _, rfl, by decide, by decide⟩
  | @object fields _ => cases fields <;> exact ⟨'{', _, rfl, by decide, by decide⟩

theorem endsNumber_cons {c : Char} (hc : c = ',' ∨ c = ']' ∨ c = '}') (rest : List Char) :
    EndsNumber (c :: rest) := by
  rintro d ⟨⟩
  obtain rfl | rfl | rfl := hc <;> decide

theorem endsNumber_elementsChars (vs : List Value) (rest : List Char) :
    EndsNumber (elementsChars vs ++ rest) := by
  cases vs with
  | nil => exact endsNumber_cons (.inr (.inl rfl)) rest
  | cons v vs => exact endsNumber_cons (.inl rfl) _

theorem endsNumber_fieldsChars (fields : List (String × Value)) (rest : List Char) :
    EndsNumber (fieldsChars fields ++ rest) := by
  cases fields with
  | nil => exact endsNumber_cons (.inr (.inr rfl)) rest
  | cons p fields => exact endsNumber_cons (.inl rfl) _

/-- Every element takes a character at least, and so does the bracket. -/
theorem length_lt_elementsChars (vs : List Value) : vs.length < (elementsChars vs).length := by
  induction vs with
  | nil => exact Nat.one_pos
  | cons v vs ih =>
    rw [elementsChars, List.length_append, List.length_cons, List.length_cons]
    omega

theorem length_lt_fieldsChars (fields : List (String × Value)) :
    fields.length < (fieldsChars fields).length := by
  induction fields with
  | nil => exact Nat.one_pos
  | cons p fields ih =>
    obtain ⟨key, v⟩ := p
    simp only [fieldsChars, List.length_append, List.length_cons]
    omega

/-- Elements that are read back one by one are read back together, by induction on them. -/
theorem moreElements_elementsChars {vs : List Value} {xs : List α}
    (hread : List.Forall₂ (ReadsBack read) vs xs) (hstart : ∀ v ∈ vs, StartsValue (chars v))
    {n : Nat} (hn : vs.length < n) (rest : List Char) :
    moreElements read n (elementsChars vs ++ rest) = .ok (xs, rest) := by
  induction hread generalizing n with
  | nil =>
    obtain ⟨n, rfl⟩ : ∃ n', n = n' + 1 := ⟨n - 1, by omega⟩
    rfl
  | @cons v x vs xs hx _ ih =>
    obtain ⟨n, rfl⟩ : ∃ n', n = n' + 1 := ⟨n - 1, by omega⟩
    obtain ⟨hs, hss⟩ := List.forall_mem_cons.mp hstart
    rw [elementsChars, List.cons_append, List.cons_append, List.append_assoc,
      moreElements_of_startsValue (hs.append _), hx _ (endsNumber_elementsChars vs rest)]
    simp only [bind, Except.bind, ih hss (Nat.lt_of_succ_lt_succ hn)]

/-- The elements of an array are read back if each of them is. -/
theorem exists_readElements {vs : List Value} {xs : List α}
    (hread : List.Forall₂ (ReadsBack read) vs xs) (hstart : ∀ v ∈ vs, StartsValue (chars v)) :
    ∃ cs, chars (.array vs) = '[' :: cs ∧
      ∀ rest, readElements read (cs ++ rest) = .ok (xs, rest) := by
  cases hread with
  | nil => exact ⟨[']'], rfl, fun rest => rfl⟩
  | @cons v x vs xs hx hxs =>
    obtain ⟨hs, hss⟩ := List.forall_mem_cons.mp hstart
    refine ⟨chars v ++ elementsChars vs, rfl, fun rest => ?_⟩
    have hlength : vs.length < (elementsChars vs ++ rest).length := by
      have := length_lt_elementsChars vs
      rw [List.length_append]
      omega
    rw [List.append_assoc, readElements_of_startsValue (hs.append _),
      hx _ (endsNumber_elementsChars vs rest)]
    simp only [bind, Except.bind, moreElements_elementsChars hxs hss hlength]

/-! ## Objects -/

/-- The same of a member, which keeps its name. -/
def MemberReadsBack (read : Reader α) (m : String × Value) (x : String × α) : Prop :=
  m.1 = x.1 ∧ ReadsBack read m.2 x.2

theorem stringChars_append (s : String) (rest : List Char) :
    stringChars s ++ rest = '"' :: (s.toList.flatMap escape ++ '"' :: rest) := by
  simp [stringChars]

/-- A printed member is read back, if its value is. -/
theorem readMember_stringChars {m : String × Value} {x : String × α}
    (hx : MemberReadsBack read m x) {rest : List Char} (hr : EndsNumber rest) :
    readMember read ('"' :: (m.1.toList.flatMap escape ++ '"' :: ':' :: (chars m.2 ++ rest))) =
      .ok (x, rest) := by
  obtain ⟨hname, hvalue⟩ := hx
  rw [readMember, readString_flatMap_escape]
  simp only [bind, Except.bind, skipSpace_of_not_isSpace (c := ':') (by decide), hvalue rest hr,
    String.ofList_toList, hname]

theorem fieldsChars_append (m : String × Value) (fields : List (String × Value))
    (rest : List Char) : fieldsChars (m :: fields) ++ rest =
      ',' :: '"' :: (m.1.toList.flatMap escape ++
        '"' :: ':' :: (chars m.2 ++ (fieldsChars fields ++ rest))) := by
  simp [fieldsChars, stringChars]

/-- Behind a comma a member is read, and then those behind it. -/
theorem moreMembers_comma (n : Nat) (cs : List Char) :
    moreMembers read (n + 1) (',' :: '"' :: cs) = (do
      let (m, rest) ← readMember read ('"' :: cs)
      let (ms, rest) ← moreMembers read n rest
      .ok (m :: ms, rest)) :=
  rfl

theorem readMembers_quote (cs : List Char) :
    readMembers read ('"' :: cs) = (do
      let (m, rest) ← readMember read ('"' :: cs)
      let (ms, rest) ← moreMembers read rest.length rest
      .ok (m :: ms, rest)) :=
  rfl

/-- Members that are read back one by one are read back together, by induction on them. -/
theorem moreMembers_fieldsChars {fields : List (String × Value)} {xs : List (String × α)}
    (hread : List.Forall₂ (MemberReadsBack read) fields xs) {n : Nat} (hn : fields.length < n)
    (rest : List Char) : moreMembers read n (fieldsChars fields ++ rest) = .ok (xs, rest) := by
  induction hread generalizing n with
  | nil =>
    obtain ⟨n, rfl⟩ : ∃ n', n = n' + 1 := ⟨n - 1, by omega⟩
    rfl
  | @cons m x fields xs hx _ ih =>
    obtain ⟨n, rfl⟩ : ∃ n', n = n' + 1 := ⟨n - 1, by omega⟩
    rw [fieldsChars_append, moreMembers_comma,
      readMember_stringChars hx (endsNumber_fieldsChars fields rest)]
    simp only [bind, Except.bind, ih (Nat.lt_of_succ_lt_succ hn)]

/-- The members of an object are read back if each of them is. -/
theorem exists_readMembers {fields : List (String × Value)} {xs : List (String × α)}
    (hread : List.Forall₂ (MemberReadsBack read) fields xs) :
    ∃ cs, chars (.object fields) = '{' :: cs ∧
      ∀ rest, readMembers read (cs ++ rest) = .ok (xs, rest) := by
  cases hread with
  | nil => exact ⟨['}'], rfl, fun rest => rfl⟩
  | @cons m x fields xs hx hxs =>
    refine ⟨'"' :: (m.1.toList.flatMap escape ++ '"' :: ':' :: (chars m.2 ++ fieldsChars fields)),
      by simp [chars, stringChars], fun rest => ?_⟩
    have hlength : fields.length < (fieldsChars fields ++ rest).length := by
      have := length_lt_fieldsChars fields
      rw [List.length_append]
      omega
    rw [List.cons_append, List.append_assoc, List.cons_append, List.cons_append,
      List.append_assoc, readMembers_quote,
      readMember_stringChars hx (endsNumber_fieldsChars fields rest)]
    simp only [bind, Except.bind, moreMembers_fieldsChars hxs hlength]

/-! ## Values -/

/-- A value that starts with no bracket and no brace is a scalar. -/
theorem readValue_of_scalar {room : Nat} {c : Char} (hc : ¬ isSpace c) (hne : c ∉ ['[', '{'])
    (cs : List Char) : readValue room (c :: cs) = readScalar (c :: cs) := by
  simp only [List.mem_cons, List.not_mem_nil, or_false, not_or] at hne
  cases room <;>
  · rw [readValue, skipSpace_of_not_isSpace hc]
    split
    · rename_i he
      exact absurd (List.cons.inj he).1 hne.1
    · rename_i he
      exact absurd (List.cons.inj he).1 hne.2
    · rfl

theorem readScalar_of_isDigit {c : Char} (hc : c = '-' ∨ c.isDigit) (cs : List Char) :
    readScalar (c :: cs) = (do
      let (n, rest) ← readNumber (c :: cs)
      .ok (.number n, rest)) := by
  rw [readScalar.eq_def]
  split
  case h_5 he =>
    cases he
    rw [if_pos hc]
  case h_6 he => cases he
  all_goals
    rename_i he
    cases he
    exact absurd hc (not_isDigit_of_mem (by decide))

theorem readsBack_int {room : Nat} {n : Int} (h : IsNumberInt n) :
    ReadsBack (readValue room) (.number (.int n h)) (.number (.int n h)) := by
  intro rest hr
  obtain ⟨c, cs, hchars, hc⟩ := exists_numberChars h
  have hread := readNumber_int h hr
  have hne : c ∉ ['[', '{'] := fun hm => not_isDigit_of_mem (by simp at hm ⊢; tauto) hc
  rw [chars, hchars, List.cons_append] at *
  rw [readValue_of_scalar (not_isSpace_of_isDigit hc) hne, readScalar_of_isDigit hc, hread]
  rfl

/-- A string is read back; its quote tells where it ends. -/
theorem readsBack_string {room : Nat} (s : String) :
    ReadsBack (readValue room) (.string s) (.string s) := by
  intro rest _
  rw [chars, stringChars_append, readValue_of_scalar (by decide) (by decide), readScalar,
    readString_flatMap_escape]
  simp only [bind, Except.bind, String.ofList_toList]

/-- What is printed for a value without floats is read as this value, where there is room. -/
theorem readsBack_readValue {room : Nat} {v : Value} (hv : v.Within room) (hf : v.NoFloat) :
    ReadsBack (readValue room) v v := by
  induction hv with
  | null => exact fun rest _ => readValue_of_scalar (by decide) (by decide) _
  | bool b =>
    cases b <;> exact fun rest _ => readValue_of_scalar (by decide) (by decide) _
  | number n =>
    cases hf
    exact readsBack_int _
  | string s => exact readsBack_string s
  | @array room elements _ ih =>
    cases hf with
    | array hf =>
      intro rest _
      have helements : List.Forall₂ (ReadsBack (readValue room)) elements elements :=
        List.forall₂_same.mpr fun v hv => ih v hv (hf v hv)
      obtain ⟨cs, hchars, hread⟩ := exists_readElements helements
        fun v hv => startsValue_chars (hf v hv)
      rw [hchars, List.cons_append, readValue, skipSpace_of_not_isSpace (by decide)]
      simp only [bind, Except.bind, hread]
  | @object room fields hs _ ih =>
    cases hf with
    | object hf =>
      intro rest _
      have hfields : List.Forall₂ (MemberReadsBack (readValue room)) fields fields :=
        List.forall₂_same.mpr fun p hp => ⟨rfl, ih p hp (hf p hp)⟩
      obtain ⟨cs, hchars, hread⟩ := exists_readMembers hfields
      rw [hchars, List.cons_append, readValue, skipSpace_of_not_isSpace (by decide)]
      simp only [bind, Except.bind, hread, hs.ofList_eq]

end Json

end WorkflowCondition
