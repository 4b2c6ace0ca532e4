import WorkflowCondition.Json.Printer
import WorkflowCondition.Json.Scalar
import WorkflowCondition.Proofs.Token.Numeral

/-!
# Printed scalars are read back

What is printed for a string is read as that string, whatever characters it has
(`Json.readString_escape`): every escape stands for the character that it was printed for
(`Json.escape_cases`). What is printed for an integer is read as that integer, in front of anything
that does not go on with the number (`Json.readNumber_int`).
-/

namespace WorkflowCondition

namespace Json

/-! ## Strings -/

theorem hexValue?_digitChar : ∀ d < 16, hexValue? (Nat.digitChar d) = some d := by
  decide

theorem readHex_hexDigits {n : Nat} (hn : n < 0x10000) (cs : List Char) :
    readHex (hexDigits n ++ cs) = .ok (n, cs) := by
  have hdigit : ∀ m, m % 16 < 16 := fun m => Nat.mod_lt m (by decide)
  have hsize : ¬ utf8Length (hexDigits n) < 4 :=
    Nat.not_lt.mpr (length_le_utf8Length (hexDigits n))
  have hvalue : (hexDigits n).mapM hexValue? =
      some [n / 4096 % 16, n / 256 % 16, n / 16 % 16, n % 16] := by
    simp only [hexDigits, List.map_cons, List.map_nil, List.mapM_cons, List.mapM_nil,
      hexValue?_digitChar _ (hdigit _)]
    rfl
  have htake : (hexDigits n ++ cs).take 4 = hexDigits n := rfl
  have hdrop : (hexDigits n ++ cs).drop 4 = cs := rfl
  rw [readHex, htake, hdrop, if_neg hsize, hvalue]
  simp only [Except.ok.injEq, Prod.mk.injEq, and_true]
  omega

/-- A character below the surrogates is one escape. -/
theorem readUnicode_hexDigits {c : Char} (hc : c.toNat < 0xD800) (cs : List Char) :
    readUnicode (hexDigits c.toNat ++ cs) = .ok (c, cs) := by
  have hlow : ¬ isLowSurrogate c.toNat := by
    simp only [isLowSurrogate, Bool.and_eq_true, decide_eq_true_eq]
    omega
  have hhigh : ¬ isHighSurrogate c.toNat := by
    simp only [isHighSurrogate, Bool.and_eq_true, decide_eq_true_eq]
    omega
  rw [readUnicode, readHex_hexDigits (by omega)]
  simp only [bind, Except.bind, if_neg hlow, if_neg hhigh, Char.ofNat_toNat]

/-- A character is printed as an escape that is read as it, or as itself, and then it is none of
those that end a string or are not allowed in one. -/
theorem escape_cases (c : Char) :
    (∃ r, escape c = '\\' :: r ∧ ∀ cs, readEscape (r ++ cs) = .ok (c, cs)) ∨
      escape c = [c] ∧ c ≠ '"' ∧ c ≠ '\\' ∧ ¬ c.toNat < 0x20 := by
  unfold escape
  split_ifs with hquote hslash hb hf hn hr ht hlow
  any_goals
    subst c
    exact .inl ⟨_, rfl, fun cs => rfl⟩
  · exact .inl ⟨_, rfl, readUnicode_hexDigits (by omega)⟩
  · exact .inr ⟨rfl, hquote, hslash, hlow⟩

theorem readString_of_readEscape {c : Char} {r cs s rest : List Char}
    (hread : readEscape r = .ok (c, cs)) (h : readString cs = .ok (s, rest)) :
    readString ('\\' :: r) = .ok (c :: s, rest) := by
  rw [readString, if_neg (by decide), if_pos rfl]
  split
  · rename_i he
    rw [hread] at he
    cases he
  · rename_i he
    rw [hread] at he
    cases he
    rw [h]

/-- Escaped or not, a character is read back as one. -/
theorem readString_escape (c : Char) {cs s rest : List Char} (h : readString cs = .ok (s, rest)) :
    readString (escape c ++ cs) = .ok (c :: s, rest) := by
  obtain ⟨r, hescape, hread⟩ | ⟨hescape, hquote, hslash, hlow⟩ := escape_cases c
  · rw [hescape, List.cons_append]
    exact readString_of_readEscape (hread cs) h
  · rw [hescape, List.singleton_append, readString, if_neg hquote, if_neg hslash, if_neg hlow, h]

/-- The string ends at the first quote that is not escaped. -/
theorem readString_flatMap_escape (s rest : List Char) :
    readString (s.flatMap escape ++ '"' :: rest) = .ok (s, rest) := by
  induction s with
  | nil => rw [List.flatMap_nil, List.nil_append, readString, if_pos rfl]
  | cons c s ih =>
    rw [List.flatMap_cons, List.append_assoc]
    exact readString_escape c ih

/-! ## Integers -/

/-- What can stand behind a number without going on with it. -/
def EndsNumber (rest : List Char) : Prop :=
  ∀ c ∈ rest.head?, ¬ c.isDigit ∧ c ≠ '.' ∧ c ≠ 'e' ∧ c ≠ 'E'

theorem digitChar_ne_zero : ∀ d < 10, 0 < d → Nat.digitChar d ≠ '0' := by
  decide

/-- A positive number is printed without leading zeros. -/
theorem head?_toDigits_ne {n : Nat} (hn : 0 < n) : (Nat.toDigits 10 n).head? ≠ some '0' := by
  induction n using Nat.strongRecOn with
  | ind n ih =>
    rw [Nat.toDigits_eq_if (by decide)]
    split_ifs with hlt
    · rw [List.head?_singleton]
      exact fun h => digitChar_ne_zero n hlt hn (Option.some.inj h)
    · rw [List.head?_append_of_ne_nil _ Nat.toDigits_ne_nil]
      exact ih (n / 10) (by omega) (by omega)

/-- Printed digits do not start with a zero, unless there is one digit. -/
theorem readWhole_toDigits (n : Nat) {rest : List Char} (hr : EndsNumber rest) :
    readWhole (Nat.toDigits 10 n ++ rest) = .ok (Nat.toDigits 10 n, rest) := by
  obtain ⟨htake, hdrop⟩ := span_isDigit isDigit_of_mem_toDigits fun c hc => (hr c hc).1
  have hdigits : readDigits (Nat.toDigits 10 n ++ rest) = .ok (Nat.toDigits 10 n, rest) := by
    rw [readDigits, htake, hdrop]
    split
    · rename_i hnil
      exact absurd hnil Nat.toDigits_ne_nil
    · rfl
  have hzero : ¬ ((Nat.toDigits 10 n).head? = some '0' ∧ Nat.toDigits 10 n ≠ ['0']) := by
    rintro ⟨hhead, hne⟩
    obtain rfl | hn := Nat.eq_zero_or_pos n
    · exact hne (Nat.toDigits_zero 10)
    · exact head?_toDigits_ne hn hhead
  rw [readWhole, hdigits]
  simp only [bind, Except.bind, if_neg hzero]

theorem readFraction_of_endsNumber {rest : List Char} (hr : EndsNumber rest) :
    readFraction rest = .ok (none, rest) := by
  cases rest with
  | nil => rfl
  | cons c rest =>
    have hpoint := (hr c rfl).2.1
    unfold readFraction
    split
    · rename_i he
      cases he
      exact absurd rfl hpoint
    · rfl

theorem readExponent_of_endsNumber {rest : List Char} (hr : EndsNumber rest) :
    readExponent rest = .ok (none, rest) := by
  cases rest with
  | nil => rfl
  | cons c rest =>
    obtain ⟨-, -, hsmall, hlarge⟩ := hr c rfl
    rw [readExponent, if_neg (by simp [hsmall, hlarge])]

/-- The parts of the text of an integer. -/
def NumberText.ofInt (n : Int) : NumberText :=
  ⟨decide (n < 0), Nat.toDigits 10 n.natAbs, none, none⟩

theorem toDigits_append_ne_dash (n : Nat) (rest cs : List Char) :
    Nat.toDigits 10 n ++ rest ≠ '-' :: cs := by
  intro he
  have hhead : '-' ∈ (Nat.toDigits 10 n).head? := by
    rw [← List.head?_append_of_ne_nil _ Nat.toDigits_ne_nil, he]
    rfl
  exact absurd (isDigit_of_mem_toDigits '-' (List.mem_of_mem_head? hhead)) (by decide)

/-- The parts of a printed integer are its sign and its digits. -/
theorem readNumberText_int (n : Int) {rest : List Char} (hr : EndsNumber rest) :
    readNumberText ((if n < 0 then ['-'] else []) ++ Nat.toDigits 10 n.natAbs ++ rest) =
      .ok (.ofInt n, rest) := by
  rw [NumberText.ofInt]
  by_cases hn : n < 0
  · rw [if_pos hn, decide_eq_true hn, List.singleton_append, List.cons_append, readNumberText]
    simp only [bind, Except.bind, readWhole_toDigits _ hr, readFraction_of_endsNumber hr,
      readExponent_of_endsNumber hr]
  · rw [if_neg hn, decide_eq_false hn, List.nil_append, readNumberText]
    · simp only [bind, Except.bind, readWhole_toDigits _ hr, readFraction_of_endsNumber hr,
        readExponent_of_endsNumber hr]
    · exact toDigits_append_ne_dash _ _

/-- Minus zero is a float, but no integer is printed so. -/
theorem NumberText.number?_ofInt {n : Int} (h : IsNumberInt n) :
    (ofInt n).number? = some (.int n h) := by
  have hinteger : (ofInt n).integer? = some n := by
    simp only [integer?, ofInt, decimalValue_toDigits, decide_eq_true_eq]
    split_ifs
    · omega
    · exact congrArg some (by omega)
    · exact congrArg some (by omega)
  simp only [number?, hinteger, dif_pos h]

theorem readNumber_int {n : Int} (h : IsNumberInt n) {rest : List Char} (hr : EndsNumber rest) :
    readNumber (numberChars (.int n h) ++ rest) = .ok (.int n h, rest) := by
  rw [readNumber, numberChars, readNumberText_int n hr]
  simp only [bind, Except.bind, NumberText.number?_ofInt h]

end Json

end WorkflowCondition
