import Mathlib.Data.Nat.Digits.Defs
import WorkflowCondition.Numeral.Reading
import WorkflowCondition.Proofs.Token.Recognised

/-!
# Number tokens are read

What the scan takes for a number is accepted by the readers of numerals. `IsNumeral` says by the
places of the digits, and without a word about how they are read, which integer a text stands for.
Every integer has a numeral (`isNumeral_toString`) and every integer token is one
(`exists_isNumeral`); reading gives the integer or refuses it as out of range
(`readInteger?_eq_some_iff`, `readInteger?_eq_none_iff`). Every float token is read as a number,
which may be infinite but is no NaN (`exists_readBinary64?`).
-/

namespace WorkflowCondition

open scoped Computability

open Token

/-! ## Integers -/

/-- The number that decimal digits stand for: the last digit counts ones, the one before it tens,
and so on. -/
def placeValue (digits : List Char) : Nat :=
  Nat.ofDigits 10 (digits.reverse.map fun c => c.toNat - '0'.toNat)

/-- The text is a decimal numeral for `n`: digits, with a minus sign before them or not, and with
any number of leading zeros. -/
def IsNumeral (n : Int) (text : String) : Prop :=
  ∃ digits, digits ≠ [] ∧ (∀ c ∈ digits, c.isDigit) ∧
    (text.toList = digits ∧ n = placeValue digits ∨
      text.toList = '-' :: digits ∧ n = -(placeValue digits : Int))

/-- Taking up digits from the first one on gives every digit its place. -/
theorem decimalValue_eq_placeValue (digits : List Char) :
    decimalValue digits = placeValue digits := by
  induction digits using List.reverseRecOn with
  | nil => rfl
  | append_singleton digits c ih =>
    have hfold : decimalValue (digits ++ [c]) =
        10 * decimalValue digits + (c.toNat - '0'.toNat) := by
      rw [decimalValue, List.foldl_append]
      rfl
    rw [hfold, ih, placeValue, placeValue, List.reverse_append, List.reverse_singleton,
      List.singleton_append, List.map_cons, Nat.ofDigits_cons, Nat.add_comm]

theorem isDigits_iff {digits : List Char} :
    isDigits digits ↔ digits ≠ [] ∧ ∀ c ∈ digits, c.isDigit := by
  rw [isDigits, Bool.and_eq_true, Bool.not_eq_true', List.isEmpty_eq_false_iff, List.all_eq_true]

theorem splitSign_digits {digits : List Char} (h : ∀ c ∈ digits, c.isDigit) :
    splitSign digits = (false, digits) := by
  unfold splitSign
  split
  · exact absurd (h '-' List.mem_cons_self) (by decide)
  · exact absurd (h '+' List.mem_cons_self) (by decide)
  · rfl

/-- A numeral is read as its integer, whatever zeros are in front. -/
theorem integerValue?_of_isNumeral {n : Int} {text : String} (h : IsNumeral n text) :
    integerValue? text.toList = some n := by
  obtain ⟨digits, hne, hall, ⟨htext, rfl⟩ | ⟨htext, rfl⟩⟩ := h
  · have hdigits := isDigits_iff.mpr ⟨hne, hall⟩
    simp only [htext, integerValue?, splitSign_digits hall, if_pos hdigits,
      decimalValue_eq_placeValue, Bool.false_eq_true, if_false]
  · have hdigits := isDigits_iff.mpr ⟨hne, hall⟩
    simp only [htext, integerValue?, splitSign, if_pos hdigits, decimalValue_eq_placeValue, if_true]

/-- A numeral stands for one integer. -/
theorem IsNumeral.eq {m n : Int} {text : String} (hm : IsNumeral m text)
    (hn : IsNumeral n text) : m = n := by
  have hvalue := integerValue?_of_isNumeral hm
  rw [integerValue?_of_isNumeral hn] at hvalue
  exact (Option.some.inj hvalue).symm

theorem isDigit_of_mem_toDigits {n : Nat} : ∀ c ∈ Nat.toDigits 10 n, c.isDigit :=
  fun _ hc => Nat.isDigit_of_mem_toDigits (by decide) (by decide) hc

theorem toList_toString (n : Int) :
    (toString n).toList = (if n < 0 then ['-'] else []) ++ Nat.toDigits 10 n.natAbs := by
  cases n with
  | ofNat m =>
    have hn : ¬ Int.ofNat m < 0 := Int.not_lt.mpr (Int.natCast_nonneg m)
    rw [if_neg hn]
    exact String.toList_ofList
  | negSucc m =>
    rw [if_pos (Int.negSucc_lt_zero m)]
    show ("-" ++ Nat.repr (m + 1)).toList = _
    exact String.toList_append.trans (congrArg _ String.toList_ofList)

theorem decimalValue_toDigits (n : Nat) : decimalValue (Nat.toDigits 10 n) = n :=
  Nat.ofDigitChars_toDigits (by decide) (by decide)

/-- The decimal text of an integer is a numeral for it. -/
theorem isNumeral_toString (n : Int) : IsNumeral n (toString n) := by
  refine ⟨Nat.toDigits 10 n.natAbs, Nat.toDigits_ne_nil, isDigit_of_mem_toDigits, ?_⟩
  rw [← decimalValue_eq_placeValue, decimalValue_toDigits, toList_toString]
  split
  · exact .inr ⟨rfl, by omega⟩
  · exact .inl ⟨rfl, by omega⟩

theorem exists_isNumeral {text : String} (h : text.toList ∈ Kind.integer.language) :
    ∃ n, IsNumeral n text := by
  obtain ⟨s, hs, digits, hd, htext⟩ := Language.mem_mul.mp h
  rcases hs with rfl | ⟨c, hc, rfl⟩
  · exact ⟨_, digits, hd.1, hd.2, .inl ⟨htext.symm, rfl⟩⟩
  · obtain rfl : c = '-' := by simpa using hc
    exact ⟨_, digits, hd.1, hd.2, .inr ⟨htext.symm, rfl⟩⟩

theorem IsNumeral.mem_language {n : Int} {text : String} (h : IsNumeral n text) :
    text.toList ∈ Kind.integer.language := by
  obtain ⟨digits, hne, hall, ⟨htext, -⟩ | ⟨htext, -⟩⟩ := h
  · exact Language.mem_mul.mpr ⟨[], .inl rfl, digits, ⟨hne, hall⟩, htext.symm⟩
  · exact Language.mem_mul.mpr ⟨['-'], .inr ⟨'-', by decide, rfl⟩, digits, ⟨hne, hall⟩, htext.symm⟩

theorem readInteger?_eq_some_iff {n : Int} {text : String} (h : IsNumeral n text) {i : Int64} :
    readInteger? text = some i ↔ i.toInt = n := by
  rw [readInteger?, integerValue?_of_isNumeral h]
  constructor
  · intro hi
    simp only at hi
    split at hi
    · cases hi
      exact Int64.toInt_ofIntLE
    · cases hi
  · rintro rfl
    simp only [dif_pos (And.intro i.minValue_le_toInt i.toInt_le), Int64.ofIntLE_toInt]

/-- The integers of 64 signed bits. -/
def FitsInt64 (n : Int) : Prop :=
  -2 ^ 63 ≤ n ∧ n ≤ 2 ^ 63 - 1

instance (n : Int) : Decidable (FitsInt64 n) :=
  inferInstanceAs (Decidable (_ ∧ _))

theorem exists_toInt_eq {n : Int} (h : FitsInt64 n) : ∃ i : Int64, i.toInt = n :=
  ⟨Int64.ofIntLE n h.1 h.2, Int64.toInt_ofIntLE⟩

/-- A numeral is refused for its size alone. -/
theorem readInteger?_eq_none_iff {n : Int} {text : String} (h : IsNumeral n text) :
    readInteger? text = none ↔ ¬ FitsInt64 n := by
  have hrange : Int64.minValue.toInt ≤ n ∧ n ≤ Int64.maxValue.toInt ↔ FitsInt64 n := Iff.rfl
  rw [readInteger?, integerValue?_of_isNumeral h, ← hrange]
  by_cases hn : Int64.minValue.toInt ≤ n ∧ n ≤ Int64.maxValue.toInt
  · exact iff_of_false (by simp only [dif_pos hn, reduceCtorEq, not_false_eq_true]) (not_not.mpr hn)
  · exact iff_of_true (by simp only [dif_neg hn]) hn

/-! ## Floats -/

/-- A sign in front of digits is split off. -/
theorem exists_splitSign {signs s cs : List Char} (hsigns : signs ⊆ ['+', '-'])
    (hs : s ∈ sign signs) (hd : StartsWithDigit cs) :
    ∃ negative, splitSign (s ++ cs) = (negative, cs) := by
  rcases hs with rfl | ⟨c, hc, rfl⟩
  · obtain ⟨c, rest, rfl, hc⟩ := hd
    refine ⟨false, ?_⟩
    show splitSign (c :: rest) = _
    unfold splitSign
    split
    · rename_i he
      cases he
      exact absurd hc (by decide)
    · rename_i he
      cases he
      exact absurd hc (by decide)
    · rfl
  · rcases List.mem_pair.mp (hsigns (of_decide_eq_true hc)) with rfl | rfl
    · exact ⟨false, rfl⟩
    · exact ⟨true, rfl⟩

theorem exists_exponent? {w : List Char} (hw : w ∈ optional exponent) :
    ∃ e, exponent? w = some e := by
  rcases hw with rfl | hw
  · exact ⟨0, rfl⟩
  · obtain ⟨_, ⟨c, hc, rfl⟩, v, hv, rfl⟩ := Language.mem_mul.mp hw
    obtain ⟨s, hs, digits, hd, rfl⟩ := Language.mem_mul.mp hv
    have hdigits := isDigits_iff.mpr hd
    have hmark : (c = 'e' || c = 'E') = true := by simpa using hc
    obtain ⟨negative, hsplit⟩ :=
      exists_splitSign (fun _ hc => hc) hs (startsWithDigit_of_mem_someOf hd)
    refine ⟨if negative then -(decimalValue digits : Int) else decimalValue digits, ?_⟩
    show exponent? (c :: (s ++ digits)) = _
    simp only [exponent?, if_pos hmark, integerValue?, hsplit, if_pos hdigits]

/-- What stands in front of something that is no digit is taken up to there. -/
theorem span_isDigit {digits r : List Char} (hd : ∀ c ∈ digits, c.isDigit)
    (hr : ∀ c ∈ r.head?, ¬ c.isDigit) :
    (digits ++ r).takeWhile Char.isDigit = digits ∧ (digits ++ r).dropWhile Char.isDigit = r := by
  rw [List.takeWhile_append_of_pos hd, List.dropWhile_append_of_pos hd]
  cases r with
  | nil => simp
  | cons c r =>
    have hc := hr c rfl
    rw [List.takeWhile_cons_of_neg hc, List.dropWhile_cons_of_neg hc, List.append_nil]
    exact ⟨rfl, rfl⟩

theorem isDigit_of_mem_whole {w : List Char} (hw : w ∈ whole) : ∀ c ∈ w, c.isDigit := by
  rcases hw with rfl | hw
  · exact forall_mem_of_all (by decide)
  · obtain ⟨_, ⟨c, hc, rfl⟩, v, hv, rfl⟩ := Language.mem_mul.mp hw
    exact List.forall_mem_cons.mpr ⟨(of_decide_eq_true hc).1, hv⟩

/-- No digit follows the digits in front of an exponent. -/
theorem not_isDigit_of_mem_exponent {w : List Char} (hw : w ∈ optional exponent) :
    ∀ c ∈ w.head?, ¬ c.isDigit := by
  rcases hw with rfl | hw
  · simp
  · obtain ⟨_, ⟨c, hc, rfl⟩, v, -, rfl⟩ := Language.mem_mul.mp hw
    rintro d ⟨⟩
    rcases of_decide_eq_true hc with rfl | rfl <;> decide

theorem exists_decimal? {w : List Char}
    (hw : w ∈ whole * ({['.']} * (someOf Char.isDigit * optional exponent))) :
    ∃ decimal, decimal? w = some decimal := by
  obtain ⟨d, hd, v, hv, rfl⟩ := Language.mem_mul.mp hw
  obtain ⟨_, rfl, x, hx, rfl⟩ := Language.mem_mul.mp hv
  obtain ⟨f, hf, e, he, rfl⟩ := Language.mem_mul.mp hx
  have hwhole := span_isDigit (isDigit_of_mem_whole hd) (r := '.' :: (f ++ e))
    (by rintro c ⟨⟩; decide)
  have hfraction := span_isDigit hf.2 (not_isDigit_of_mem_exponent he)
  obtain ⟨n, hn⟩ := exists_exponent? he
  have hne : (d.isEmpty && f.isEmpty) = false := by
    rw [List.isEmpty_eq_false_iff.mpr hf.1, Bool.and_false]
  refine ⟨(decimalValue (d ++ f), n - f.length), ?_⟩
  show decimal? (d ++ '.' :: (f ++ e)) = _
  simp only [decimal?, hwhole, hfraction, hne, hn, Bool.false_eq_true, if_false, Option.map_some]

/-- Reading rounds to a number or to an infinity. -/
theorem Binary64.ofCode_ne_nan (negative : Bool) (code : Nat) : ofCode negative code ≠ .nan := by
  rw [ofCode]
  split <;> exact Binary64.noConfusion

/-- A decimal with digits on both sides of its point is read as a number, perhaps as an infinite
one. -/
theorem exists_readBinary64? {text : String} (h : text.toList ∈ Kind.float.language) :
    ∃ x, readBinary64? text = some x ∧ x ≠ .nan := by
  obtain ⟨s, hs, w, hw, htext⟩ := Language.mem_mul.mp h
  obtain ⟨⟨digits, exponent⟩, hdecimal⟩ := exists_decimal? hw
  have hstart : StartsWithDigit w := by
    obtain ⟨d, hd, v, -, rfl⟩ := Language.mem_mul.mp hw
    exact (startsWithDigit_of_mem_whole hd).append v
  obtain ⟨negative, hsplit⟩ := exists_splitSign (by decide) hs hstart
  refine ⟨_, ?_, Binary64.ofCode_ne_nan negative (Binary64.nearestDecimal digits exponent)⟩
  simp only [readBinary64?, ← htext, hsplit, hdecimal]

end WorkflowCondition
