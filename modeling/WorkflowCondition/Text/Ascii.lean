/-!
# Character classes of words and punctuation

Words, numbers and punctuation of a condition are ASCII: a letter or a digit outside ASCII is in
none of these classes.
-/

namespace WorkflowCondition

/-- A letter or `_`. -/
def isWordStart (c : Char) : Bool :=
  c.isAlpha || c == '_'

/-- A letter, a digit or `_`. -/
def isWordChar (c : Char) : Bool :=
  c.isAlphanum || c == '_'

/-- A character of a key behind `.` or inside `['` and `']`. -/
def isKeyChar (c : Char) : Bool :=
  isWordChar c || c == '-'

/-- The visible ASCII characters that are neither letters nor digits. -/
def isPunctuation (c : Char) : Bool :=
  0x21 ≤ c.toNat && c.toNat ≤ 0x7E && !c.isAlphanum

theorem isWordChar_of_isWordStart {c : Char} (h : isWordStart c) : isWordChar c := by
  simp only [isWordStart, isWordChar, Char.isAlphanum, Bool.or_eq_true] at *
  rcases h with h | h <;> simp [h]

end WorkflowCondition
