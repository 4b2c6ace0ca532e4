/-!
# Blank characters

The characters of the Unicode property `White_Space`. They separate the tokens of a condition, and a
text of blanks alone counts as no text at all.
-/

namespace WorkflowCondition

/-- The property `White_Space`, as ranges of code points, both ends included. -/
def blankRanges : List (Nat × Nat) :=
  [(0x09, 0x0D), (0x20, 0x20), (0x85, 0x85), (0xA0, 0xA0), (0x1680, 0x1680), (0x2000, 0x200A),
    (0x2028, 0x2029), (0x202F, 0x202F), (0x205F, 0x205F), (0x3000, 0x3000)]

/-- The character has the property `White_Space`. -/
def isBlank (c : Char) : Bool :=
  blankRanges.any fun r => r.1 ≤ c.toNat && c.toNat ≤ r.2

/-- A text of blanks alone, the empty text included. -/
def isBlankText (s : String) : Bool :=
  s.toList.all isBlank

end WorkflowCondition
