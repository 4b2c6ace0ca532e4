import WorkflowCondition.Proofs.Token.Language

/-!
# Texts of a kind are recognised

A text of a kind, in front of any other text, is found by the recogniser of the kind, which measures
off at least that much. The lemmas here are those of the kinds for which this holds as it stands. A
word of `Token.Kind.words` is not found in front of more letters, and a string may be without an end
when quotes follow it.
-/

namespace WorkflowCondition

namespace Token

/-! ## Parts -/

theorem spanLength_append {p : Char → Bool} {w : List Char} (h : ∀ c ∈ w, p c) (r : List Char) :
    spanLength p (w ++ r) = w.length + spanLength p r := by
  rw [spanLength, List.takeWhile_append_of_pos h, List.length_append]
  rfl

theorem spanLength_cons_of_neg {p : Char → Bool} {c : Char} (h : ¬ p c) (r : List Char) :
    spanLength p (c :: r) = 0 := by
  rw [spanLength, List.takeWhile_cons_of_neg h]
  rfl

/-- A digit at the start of a text is no sign. -/
def StartsWithDigit (cs : List Char) : Prop :=
  ∃ c rest, cs = c :: rest ∧ c.isDigit

theorem StartsWithDigit.append {cs : List Char} (h : StartsWithDigit cs) (r : List Char) :
    StartsWithDigit (cs ++ r) := by
  obtain ⟨c, rest, rfl, hc⟩ := h
  exact ⟨c, rest ++ r, rfl, hc⟩

theorem startsWithDigit_of_mem_someOf {w : List Char} (hw : w ∈ someOf Char.isDigit) :
    StartsWithDigit w := by
  obtain ⟨c, rest, rfl⟩ := List.exists_cons_of_ne_nil hw.1
  exact ⟨c, rest, rfl, hw.2 c List.mem_cons_self⟩

theorem startsWithDigit_of_mem_whole {w : List Char} (hw : w ∈ whole) : StartsWithDigit w := by
  rcases hw with rfl | hw
  · exact ⟨'0', [], rfl, by decide⟩
  · obtain ⟨_, ⟨c, hc, rfl⟩, v, _, rfl⟩ := Language.mem_mul.mp hw
    exact ⟨c, v, rfl, (of_decide_eq_true hc).1⟩

/-- A digit is no sign, so that a sign is found exactly where one is written. -/
theorem signLength_append {signs s cs : List Char} (hsigns : signs.any Char.isDigit = false)
    (hs : s ∈ sign signs) (hd : StartsWithDigit cs) : signLength signs (s ++ cs) = s.length := by
  obtain ⟨c, rest, rfl, hc⟩ := hd
  rcases hs with rfl | ⟨d, hd, rfl⟩
  · exact if_neg fun hm => List.any_eq_false.mp hsigns c hm hc
  · exact if_pos (of_decide_eq_true hd)

/-- The point ends the digits. -/
theorem wholeLength_append {w : List Char} (hw : w ∈ whole) (r : List Char) :
    wholeLength (w ++ '.' :: r) = w.length := by
  rcases hw with rfl | hw
  · rfl
  · obtain ⟨_, ⟨c, hc, rfl⟩, v, hv, rfl⟩ := Language.mem_mul.mp hw
    obtain ⟨hd, h0⟩ := of_decide_eq_true hc
    have hall : ∀ d ∈ c :: v, d.isDigit := List.forall_mem_cons.mpr ⟨hd, hv⟩
    show wholeLength (c :: (v ++ '.' :: r)) = (c :: v).length
    rw [wholeLength, if_neg h0, ← List.cons_append, spanLength_append hall,
      spanLength_cons_of_neg (by decide), Nat.add_zero]

theorem le_exponentLength {w : List Char} (hw : w ∈ exponent) (r : List Char) :
    w.length ≤ exponentLength (w ++ r) := by
  obtain ⟨_, ⟨c, hc, rfl⟩, v, hv, rfl⟩ := Language.mem_mul.mp hw
  obtain ⟨s, hs, d, hd, rfl⟩ := Language.mem_mul.mp hv
  have hpos : 0 < d.length := List.length_pos_iff.mpr hd.1
  have hsign := signLength_append (by decide) hs ((startsWithDigit_of_mem_someOf hd).append r)
  show _ ≤ exponentLength (c :: ((s ++ d) ++ r))
  rw [List.append_assoc]
  simp only [exponentLength, if_pos (of_decide_eq_true hc), hsign, List.drop_left,
    spanLength_append hd.2, List.length_append, List.length_cons, List.length_nil]
  rw [if_neg (by omega)]
  omega

/-! ## Kinds -/

/-- A written float is found, whatever is behind it. -/
theorem exists_floatLength? {w : List Char} (hw : w ∈ Kind.float.language) (r : List Char) :
    ∃ n, floatLength? (w ++ r) = some n ∧ w.length ≤ n := by
  obtain ⟨s, hs, w₁, hw₁, rfl⟩ := Language.mem_mul.mp hw
  obtain ⟨d, hd, w₂, hw₂, rfl⟩ := Language.mem_mul.mp hw₁
  obtain ⟨_, rfl, w₃, hw₃, rfl⟩ := Language.mem_mul.mp hw₂
  obtain ⟨f, hf, e, he, rfl⟩ := Language.mem_mul.mp hw₃
  have hwhole := startsWithDigit_of_mem_whole hd
  have hpos : d.length ≠ 0 := by
    obtain ⟨c, rest, rfl, -⟩ := hwhole
    simp
  have hsign := signLength_append (by decide) hs (hwhole.append ('.' :: (f ++ (e ++ r))))
  have hcs : s ++ (d ++ (['.'] ++ (f ++ e))) ++ r = s ++ (d ++ '.' :: (f ++ (e ++ r))) := by simp
  rw [hcs, floatLength?]
  simp only [hsign, List.drop_left, wholeLength_append hd, if_neg hpos, ← List.drop_drop,
    spanLength_append hf.2]
  have hfpos : 0 < f.length := List.length_pos_iff.mpr hf.1
  rw [if_neg (by omega)]
  refine ⟨_, rfl, ?_⟩
  rcases he with rfl | he
  · simp only [List.length_append, List.length_cons, List.length_nil]
    omega
  · obtain ⟨_, ⟨c, hc, rfl⟩, v, hv, rfl⟩ := Language.mem_mul.mp he
    have hmark : ¬ c.isDigit := by
      rcases of_decide_eq_true hc with rfl | rfl <;> decide
    have hspan : spanLength Char.isDigit ([c] ++ v ++ r) = 0 := spanLength_cons_of_neg hmark _
    have hle := le_exponentLength he r
    rw [hspan, List.drop_zero]
    simp only [List.length_append, List.length_cons, List.length_nil] at hle ⊢
    omega

theorem exists_integerLength? {w : List Char} (hw : w ∈ Kind.integer.language) (r : List Char) :
    ∃ n, integerLength? (w ++ r) = some n ∧ w.length ≤ n := by
  obtain ⟨s, hs, d, hd, rfl⟩ := Language.mem_mul.mp hw
  have hsign := signLength_append (by decide) hs ((startsWithDigit_of_mem_someOf hd).append r)
  have hpos : 0 < d.length := List.length_pos_iff.mpr hd.1
  rw [List.append_assoc, integerLength?]
  simp only [hsign, List.drop_left, spanLength_append hd.2]
  rw [if_neg (by omega)]
  refine ⟨_, rfl, ?_⟩
  rw [List.length_append]
  omega

theorem exists_spanLength {p : Char → Bool} {w : List Char} (hw : w ∈ someOf p) (r : List Char) :
    ∃ m, spanLength p (w ++ r) = m + 1 ∧ w.length ≤ m + 1 := by
  have hpos : 0 < w.length := List.length_pos_iff.mpr hw.1
  rw [spanLength_append hw.2]
  exact ⟨w.length + spanLength p r - 1, by omega, by omega⟩

theorem exists_whitespaceLength? {w : List Char} (hw : w ∈ Kind.whitespace.language)
    (r : List Char) : ∃ n, whitespaceLength? (w ++ r) = some n ∧ w.length ≤ n := by
  obtain ⟨m, hm, hle⟩ := exists_spanLength hw r
  exact ⟨m + 1, by rw [whitespaceLength?, hm]; rfl, hle⟩

theorem exists_accessorLength? {w : List Char} (hw : w ∈ Kind.accessor.language) (r : List Char) :
    ∃ n, accessorLength? (w ++ r) = some n ∧ w.length ≤ n := by
  rcases hw with hw | hw
  · obtain ⟨_, rfl, k, hk, rfl⟩ := Language.mem_mul.mp hw
    obtain ⟨m, hm, hle⟩ := exists_spanLength hk r
    refine ⟨1 + (m + 1), ?_, by rw [List.length_append, List.length_singleton]; omega⟩
    show accessorLength? ('.' :: (k ++ r)) = _
    simp only [accessorLength?, hm]
  · obtain ⟨_, rfl, v, hv, rfl⟩ := Language.mem_mul.mp hw
    obtain ⟨k, hk, _, rfl, rfl⟩ := Language.mem_mul.mp hv
    have hspan : spanLength isKeyChar (k ++ '\'' :: ']' :: r) = k.length := by
      rw [spanLength_append hk.2, spanLength_cons_of_neg (by decide), Nat.add_zero]
    have hclose : ['\'', ']'].isPrefixOf ('\'' :: ']' :: r) := rfl
    obtain ⟨m, hm⟩ : ∃ m, k.length = m + 1 :=
      Nat.exists_eq_add_one_of_ne_zero (List.length_pos_iff.mpr hk.1).ne'
    refine ⟨2 + (m + 1) + 2, ?_, by simp [hm]; omega⟩
    have hcs : ['[', '\''] ++ (k ++ ['\'', ']']) ++ r = '[' :: '\'' :: (k ++ '\'' :: ']' :: r) := by
      simp
    rw [hcs]
    simp only [accessorLength?, hspan, hm]
    rw [← hm, List.drop_left, if_pos hclose]

theorem symbols_subset : Operator.all.map Operator.symbol ⊆ operators := by
  decide

/-- No operator is looked for behind a shorter one. -/
theorem operators_pairwise : operators.Pairwise fun a b => b.length ≤ a.length := by
  decide

/-- The longer operators are asked for first. -/
theorem exists_operatorLength? {w : List Char} (hw : w ∈ Kind.operator.language) (r : List Char) :
    ∃ n, operatorLength? (w ++ r) = some n ∧ w.length ≤ n := by
  obtain ⟨op, hop, rfl⟩ := hw
  have hmem := symbols_subset hop
  have hp : op.toList.isPrefixOf (op.toList ++ r) := List.isPrefixOf_iff_prefix.mpr ⟨r, rfl⟩
  rw [operatorLength?]
  cases h : operators.find? fun op' => op'.toList.isPrefixOf (op.toList ++ r) with
  | none => exact absurd hp (List.find?_eq_none.mp h op hmem)
  | some found =>
    refine ⟨found.length, rfl, ?_⟩
    obtain ⟨-, before, after, heq, hbefore⟩ := List.find?_eq_some_iff_append.mp h
    have hpair := heq ▸ operators_pairwise
    rw [heq] at hmem
    rw [String.length_toList]
    rcases List.mem_append.mp hmem with hm | hm
    · have hnot := hbefore op hm
      rw [hp] at hnot
      cases hnot
    · rcases List.mem_cons.mp hm with rfl | hm
      · exact Nat.le_refl _
      · exact (List.pairwise_cons.mp (List.pairwise_append.mp hpair).2.1).1 op hm

theorem exists_notLength? {w : List Char} (hw : w ∈ Kind.not.language) (r : List Char) :
    ∃ n, notLength? (w ++ r) = some n ∧ w.length ≤ n := by
  obtain rfl : w = ['!'] := hw
  exact ⟨1, rfl, Nat.le_refl _⟩

end Token

end WorkflowCondition
