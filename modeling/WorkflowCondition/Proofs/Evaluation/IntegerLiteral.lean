import WorkflowCondition.Evaluation
import WorkflowCondition.Proofs.Expression.Expectation
import WorkflowCondition.Proofs.Expression.Image
import WorkflowCondition.Proofs.Expression.Visit
import WorkflowCondition.Proofs.Value.NumberOrder

/-!
# Integer literals

An integer token is a numeral, of any length and with any leading zeros. Where the parser reads a
literal it takes the token for the integer of the numeral, or fails there if the integer has more
than 64 bits (`Parser.literal_of_fitsInt64`, `Parser.literal_of_not_fitsInt64`). What it has taken
stands in the expression, is the value of the literal and is compared as the integer that it is:
`evaluate_integer` puts this together.
-/

namespace WorkflowCondition

open Grammar Token

/-! ## Reading -/

namespace Parser

variable {p : Parser} {n : Int}

theorem literal_of_integer (hk : p.peek.kind = .integer) :
    p.literal = p.readNext .integer fun text => (readInteger? text).map .int := by
  rw [literal, (Reads.advance hk).rest, List.length_append, Nat.add_comm, List.length_singleton,
    literalWithin, hk]

theorem literal_of_fitsInt64 (hk : p.peek.kind = .integer) (hn : IsNumeral n p.peek.text)
    (hfits : FitsInt64 n) : ∃ i : Int64, i.toInt = n ∧ p.literal = (.ok (.int i), p.advance) := by
  obtain ⟨i, hi⟩ := exists_toInt_eq hfits
  refine ⟨i, hi, ?_⟩
  rw [literal_of_integer hk, readNext, (readInteger?_eq_some_iff hn).mpr hi, Option.map_some]

/-- Also a token that is refused is taken. -/
theorem literal_of_not_fitsInt64 (hk : p.peek.kind = .integer) (hn : IsNumeral n p.peek.text)
    (hfits : ¬ FitsInt64 n) :
    p.literal = (.error (.unexpectedToken .integer p.peek), p.advance) := by
  rw [literal_of_integer hk, readNext, (readInteger?_eq_none_iff hn).mpr hfits, Option.map_none]

end Parser

/-! ## Integers in an expression -/

namespace Grammar

theorem kind_ne_integer_of_isPunct {t : Token} {text : String} (h : t.isPunct text) :
    t.kind ≠ .integer := by
  rw [(Token.isPunct_iff.mp h).1]
  decide

theorem IsHead.kind_ne_integer {t : Token} (h : IsHead t) : t.kind ≠ .integer := by
  rcases h with h | ⟨h, -⟩ <;> rw [h] <;> decide

mutual

/-- Every integer token of a literal is one of its parts. -/
theorem DerivesLiteral.int_mem : ∀ {u : List Token} {a : Literal}, DerivesLiteral u a →
    ∀ t ∈ u, t.kind = .integer → ∃ i, readInteger? t.text = some i ∧ .int i ∈ a.parts
  | _, _, .null ht | _, _, .string ht | _, _, .float ht _ | _, _, .bool ht _ =>
    List.forall_mem_singleton.mpr fun hk => by rw [ht] at hk; cases hk
  | _, _, .integer _ hn => List.forall_mem_singleton.mpr fun _ => ⟨_, hn, List.mem_cons_self⟩
  | _, _, .call hn ho hu hc => by
    refine List.forall_mem_cons.mpr ⟨fun hk => ?_, List.forall_mem_cons.mpr ⟨fun hk => ?_,
      List.forall_mem_append.mpr ⟨fun t ht hk => ?_, List.forall_mem_singleton.mpr fun hk => ?_⟩⟩⟩
    · rw [hn] at hk
      cases hk
    · exact absurd hk (kind_ne_integer_of_isPunct ho)
    · obtain ⟨i, hi, hm⟩ := hu.int_mem t ht hk
      exact ⟨i, hi, List.mem_cons_of_mem _ hm⟩
    · exact absurd hk (kind_ne_integer_of_isPunct hc)
  | _, _, .reference hh ha => by
    refine List.forall_mem_cons.mpr ⟨fun hk => absurd hk hh.kind_ne_integer, fun t ht hk => ?_⟩
    rw [ha t ht] at hk
    cases hk

theorem DerivesArguments.int_mem : ∀ {u : List Token} {args : List Literal},
    DerivesArguments u args → ∀ t ∈ u, t.kind = .integer →
      ∃ i, readInteger? t.text = some i ∧ .int i ∈ Literal.partsAll args
  | _, _, .none => by simp
  | _, _, .some _ hu hv => by
    refine List.forall_mem_append.mpr ⟨fun t ht hk => ?_, fun t ht hk => ?_⟩
    · obtain ⟨i, hi, hm⟩ := hu.int_mem t ht hk
      exact ⟨i, hi, List.mem_append_left _ hm⟩
    · obtain ⟨i, hi, hm⟩ := hv.int_mem t ht hk
      exact ⟨i, hi, List.mem_append_right _ hm⟩

theorem DerivesMore.int_mem : ∀ {u : List Token} {args : List Literal}, DerivesMore u args →
    ∀ t ∈ u, t.kind = .integer →
      ∃ i, readInteger? t.text = some i ∧ .int i ∈ Literal.partsAll args
  | _, _, .none => by simp
  | _, _, .some hc hu hv => by
    refine List.forall_mem_cons.mpr ⟨fun hk => absurd hk (kind_ne_integer_of_isPunct hc),
      List.forall_mem_append.mpr ⟨fun t ht hk => ?_, fun t ht hk => ?_⟩⟩
    · obtain ⟨i, hi, hm⟩ := hu.int_mem t ht hk
      exact ⟨i, hi, List.mem_append_left _ hm⟩
    · obtain ⟨i, hi, hm⟩ := hv.int_mem t ht hk
      exact ⟨i, hi, List.mem_append_right _ hm⟩

end

/-- No integer token is lost: each is a part of the expression. -/
theorem Derives.int_mem {u : List Token} {e : Expression} (h : Derives u e) :
    ∀ t ∈ u, t.kind = .integer → ∃ i, readInteger? t.text = some i ∧ .int i ∈ e.parts := by
  cases h with
  | literal hu => exact hu.int_mem
  | binary hu _ ho _ hv =>
    refine List.forall_mem_append.mpr ⟨fun t ht hk => ?_, List.forall_mem_cons.mpr
      ⟨fun hk => ?_, fun t ht hk => ?_⟩⟩
    · obtain ⟨i, hi, hm⟩ := hu.int_mem t ht hk
      exact ⟨i, hi, List.mem_append_left _ hm⟩
    · rw [ho] at hk
      cases hk
    · obtain ⟨i, hi, hm⟩ := hv.int_mem t ht hk
      exact ⟨i, hi, List.mem_append_right _ hm⟩

end Grammar

theorem Expression.int_mem_of_parse {source : String} {tokens : List Token} {e : Expression}
    (htokens : tokenize source = .ok tokens) (h : parse source = .ok e) {t : Token}
    (ht : t ∈ tokens) (hk : t.kind = .integer) :
    ∃ i, readInteger? t.text = some i ∧ .int i ∈ e.parts := by
  obtain ⟨found, hs, hderives⟩ := exists_derives_of_parse h
  rw [tokenize_eq_ok_iff.mpr ⟨found, hs, rfl⟩] at htokens
  cases htokens
  obtain ht | ht := List.mem_append.mp ht
  · exact hderives.int_mem t ht hk
  · obtain rfl := List.mem_singleton.mp ht
    cases hk

/-! ## Values -/

theorem Literal.evaluate_int (i : Int64) (c : Context) :
    ∃ h, (Literal.int i).evaluate c = .ok (.number (.int i.toInt h)) :=
  ⟨_, by rw [Literal.evaluate, Number.ofInt64]⟩

/-- Integers of literals are compared exactly. -/
theorem Number.compare_ofInt64 (i j : Int64) :
    (ofInt64 i).compare (ofInt64 j) = Ord.compare i.toInt j.toInt :=
  (compare_of_isInt64 (a := ofInt64 i) (b := ofInt64 j) i.toInt_lt j.toInt_lt).trans
    (compare_mul_one i.toInt j.toInt)

namespace Expression

theorem evaluate_int_eq (i j : Int64) (c : Context) :
    evaluate ⟨.int i, some (.eq, .int j)⟩ c = .ok (.bool (decide (i.toInt = j.toInt))) := by
  rw [← beq_eq_decide]
  rfl

theorem evaluate_int_lt (i j : Int64) (c : Context) :
    evaluate ⟨.int i, some (.lt, .int j)⟩ c = .ok (.bool (decide (i.toInt < j.toInt))) := by
  have hlt : some ((Number.ofInt64 i).compare (.ofInt64 j)) = some .lt ↔ i.toInt < j.toInt := by
    rw [Option.some_inj, Number.compare_ofInt64, Int.compare_eq_lt]
  simp only [evaluate, Literal.evaluate, Operator.holds, Value.compare?, beq_eq_decide, hlt]

end Expression

/-! ## Sources -/

namespace Expression

variable {m n : Int} {a b : String} {i j : Int64}

theorem parse_of_isNumeral (ha : IsNumeral i.toInt a) : parse a = .ok ⟨.int i, none⟩ := by
  have hderives : Derives [⟨.integer, a, 0⟩] ⟨.int i, none⟩ :=
    .literal (.integer rfl ((readInteger?_eq_some_iff ha).mpr rfl)) (Nat.zero_le _)
  refine parse_of_respaced hderives
    (List.forall_mem_singleton.mpr (isSpaceable_of_isNumeral ha)) ?_
  exact ⟨[], _, [], by simp, by simp, by simp, .single _⟩

theorem parse_comparison (op : Operator) (ha : IsNumeral i.toInt a) (hb : IsNumeral j.toInt b) :
    parse (a ++ (" " ++ op.symbol ++ " ") ++ b) = .ok ⟨.int i, some (op, .int j)⟩ := by
  have hderives : Derives [⟨.integer, a, 0⟩, ⟨.operator, op.symbol, 0⟩, ⟨.integer, b, 0⟩]
      ⟨.int i, some (op, .int j)⟩ :=
    .binary (u := [⟨.integer, a, 0⟩]) (.integer rfl ((readInteger?_eq_some_iff ha).mpr rfl))
      (Nat.zero_le _) rfl rfl (.integer rfl ((readInteger?_eq_some_iff hb).mpr rfl))
      (Nat.zero_le _)
  refine parse_of_respaced hderives ?_ ?_
  · exact List.forall_mem_cons.mpr ⟨isSpaceable_of_isNumeral ha, List.forall_mem_cons.mpr
      ⟨isSpaceable_mk (isSeparable_operator op), List.forall_mem_singleton.mpr
        (isSpaceable_of_isNumeral hb)⟩⟩
  · have hblank : ∀ c ∈ [' '], isBlank c := forall_mem_of_all (by decide)
    refine ⟨[], _, [], ?_, by simp, by simp, .cons (List.cons_ne_nil _ _) hblank
      (.cons (List.cons_ne_nil _ _) hblank (.single _))⟩
    simp

end Expression

theorem evaluate_of_parse {source : String} {e : Expression} (h : Expression.parse source = .ok e)
    (c : Context) : evaluate source c = e.evaluate c := by
  rw [evaluate, h]

theorem evaluate_of_parse_eq {source : String} {i j : Int64} (c : Context)
    (h : Expression.parse source = .ok ⟨.int i, some (.eq, .int j)⟩) :
    evaluate source c = .ok (.bool (decide (i.toInt = j.toInt))) := by
  rw [evaluate_of_parse h, Expression.evaluate_int_eq]

theorem evaluate_of_parse_lt {source : String} {i j : Int64} (c : Context)
    (h : Expression.parse source = .ok ⟨.int i, some (.lt, .int j)⟩) :
    evaluate source c = .ok (.bool (decide (i.toInt < j.toInt))) := by
  rw [evaluate_of_parse h, Expression.evaluate_int_lt]

/-- Integers are exact up to the limits of 64 bits. An integer token where a literal is read is a
numeral; if its integer fits, the literal is that integer, a part of the expression and the value of
the literal, and otherwise the source is refused at this token. So every text of an integer that
fits has the integer for its value, and two integer literals compare as their integers do. -/
theorem evaluate_integer :
    (∀ source tokens p, tokenize source = .ok tokens → Parser.Visits tokens p →
      p.peek.kind = .integer → ∃ n, IsNumeral n p.peek.text ∧
        (FitsInt64 n → ∃ i : Int64, i.toInt = n ∧ p.literal = (.ok (.int i), p.advance) ∧
          (∀ c, ∃ h, (Literal.int i).evaluate c = .ok (.number (.int n h))) ∧
          ∀ e, Expression.parse source = .ok e → .int i ∈ e.parts) ∧
        (¬ FitsInt64 n → ∃ err, Expression.parse source = .error err ∧
          err = .unexpectedToken .integer p.peek ∧ err.position? = some p.peek.position ∧
          Expected.integer.text = "an integer in the 64-bit range")) ∧
    (∀ n, IsNumeral n (toString n)) ∧
    (∀ n a, IsNumeral n a → FitsInt64 n → ∀ c, ∃ h, evaluate a c = .ok (.number (.int n h))) ∧
    (∀ source i j c,
      (Expression.parse source = .ok ⟨.int i, some (.eq, .int j)⟩ →
        evaluate source c = .ok (.bool (decide (i.toInt = j.toInt)))) ∧
      (Expression.parse source = .ok ⟨.int i, some (.lt, .int j)⟩ →
        evaluate source c = .ok (.bool (decide (i.toInt < j.toInt))))) ∧
    ∀ m n a b, IsNumeral m a → IsNumeral n b → FitsInt64 m → FitsInt64 n → ∀ c,
      evaluate (a ++ " == " ++ b) c = .ok (.bool (decide (m = n))) ∧
      evaluate (a ++ " < " ++ b) c = .ok (.bool (decide (m < n))) := by
  refine ⟨fun source tokens p htokens hp hk => ?_, isNumeral_toString, fun n a ha hfits c => ?_,
    fun source i j c => ⟨evaluate_of_parse_eq c, evaluate_of_parse_lt c⟩,
    fun m n a b ha hb hm hn c => ?_⟩
  · have hm := hp.peek_mem (by rw [hk]; decide)
    obtain ⟨n, hn, -⟩ := (isReadable_of_tokenize htokens _ hm).integer hk
    refine ⟨n, hn, fun hfits => ?_, fun hfits => ?_⟩
    · obtain ⟨i, rfl, hi⟩ := Parser.literal_of_fitsInt64 hk hn hfits
      refine ⟨i, rfl, hi, Literal.evaluate_int i, fun e he => ?_⟩
      obtain ⟨j, hj, hmem⟩ := Expression.int_mem_of_parse htokens he hm hk
      rw [(readInteger?_eq_some_iff hn).mpr rfl] at hj
      cases hj
      exact hmem
    · refine ⟨_, ?_, rfl, rfl, rfl⟩
      rw [Expression.parse_of_tokenize htokens]
      exact hp.ofTokens_error (Parser.literal_of_not_fitsInt64 hk hn hfits)
  · obtain ⟨i, rfl⟩ := exists_toInt_eq hfits
    obtain ⟨h, hi⟩ := Literal.evaluate_int i c
    refine ⟨h, ?_⟩
    rw [evaluate_of_parse (Expression.parse_of_isNumeral ha)]
    simp only [Expression.evaluate, hi]
  · obtain ⟨i, rfl⟩ := exists_toInt_eq hm
    obtain ⟨j, rfl⟩ := exists_toInt_eq hn
    exact ⟨evaluate_of_parse_eq c (Expression.parse_comparison .eq ha hb),
      evaluate_of_parse_lt c (Expression.parse_comparison .lt ha hb)⟩

/-- The second argument of a call is one below the least integer, and is refused; the least integer
is not, and zeros in front of a numeral have no meaning. -/
theorem evaluate_integer_limits :
    (∃ err, Expression.parse "f(1, -9223372036854775809)" = .error err ∧
      err = .unexpectedToken .integer ⟨.integer, "-9223372036854775809", 5⟩) ∧
    (∀ c, ∃ h, evaluate (toString (-2 ^ 63 : Int)) c = .ok (.number (.int (-2 ^ 63) h))) ∧
    ∀ c, evaluate ("007" ++ " < " ++ toString (8 : Int)) c = .ok (.bool true) := by
  let tokens : List Token := [⟨.identifier, "f", 0⟩, ⟨.identifier, "(", 1⟩, ⟨.integer, "1", 2⟩,
    ⟨.identifier, ",", 3⟩, ⟨.integer, "-9223372036854775809", 5⟩, ⟨.identifier, ")", 25⟩,
    .endOfInput 26]
  have hs : Scans 0 "f(1, -9223372036854775809)".toList [⟨.identifier, "f", 0⟩,
      ⟨.identifier, "(", 1⟩, ⟨.integer, "1", 2⟩, ⟨.identifier, ",", 3⟩, ⟨.whitespace, " ", 4⟩,
      ⟨.integer, "-9223372036854775809", 5⟩, ⟨.identifier, ")", 25⟩] [] :=
    .next (n := 1) (by decide) (.next (n := 1) (by decide) (.next (n := 1) (by decide)
      (.next (n := 1) (by decide) (.next (n := 1) (by decide) (.next (n := 20) (by decide)
        (.next (n := 1) (by decide) .refl))))))
  have htokens : tokenize "f(1, -9223372036854775809)" = .ok tokens :=
    tokenize_eq_ok_iff.mpr ⟨_, hs, rfl⟩
  have hfirst : Parser.Visits tokens ⟨tokens.drop 2, 1, by decide⟩ :=
    .first (p := .ofTokens tokens) .lhs rfl rfl (by decide) (by decide)
  obtain ⟨i, -, hone⟩ := Parser.literal_of_fitsInt64 (p := ⟨tokens.drop 2, 1, by decide⟩) rfl
    (isNumeral_toString 1) (by decide)
  have hvisits : Parser.Visits tokens ⟨tokens.drop 4, 1, by decide⟩ :=
    .later hfirst Nat.one_pos hone rfl
  obtain ⟨n, hn, -, herror⟩ := evaluate_integer.1 _ _ _ htokens hvisits rfl
  have hvalue : IsNumeral (-9223372036854775809) "-9223372036854775809" :=
    ⟨"9223372036854775809".toList, by decide, forall_mem_of_all (by decide),
      .inr ⟨by decide, by decide⟩⟩
  obtain rfl := hn.eq hvalue
  obtain ⟨err, hparse, herr, -⟩ := herror (by decide)
  have hseven : IsNumeral 7 "007" :=
    ⟨"007".toList, by decide, forall_mem_of_all (by decide), .inl ⟨rfl, by decide⟩⟩
  exact ⟨⟨err, hparse, herr⟩,
    evaluate_integer.2.2.1 _ _ (evaluate_integer.2.1 _) (by decide),
    fun c => (evaluate_integer.2.2.2.2 7 8 _ _ hseven (evaluate_integer.2.1 8) (by decide)
      (by decide) c).2⟩

end WorkflowCondition
