/-!
# Places in a text

YAML tells what belongs together by lines and columns, so the characters of a text are read along
with their places. Line ends have several spellings, which are made one before anything else, and
characters that no text may hold are refused here.
-/

namespace WorkflowCondition

namespace Yaml

/-! ## Characters -/

/-- The byte order mark. It is skipped where a line starts. -/
def orderMark : Char := '\uFEFF'

/-- The characters that a text may hold: no controls but tabs and line ends. -/
def isAllowed (c : Char) : Bool :=
  let n := c.toNat
  n == 0x09 || n == 0x0A || n == 0x0D || (0x20 ≤ n && n ≤ 0x7E) || n == 0x85 ||
    (0xA0 ≤ n && n != 0xFFFE && n != 0xFFFF)

/-- A blank or a tab. -/
def isGap (c : Char) : Bool :=
  c == ' ' || c == '\t'

/-- A line end of a text with one spelling for them, or one of the separators of lines and
paragraphs, which keep theirs. -/
def isLineEnd (c : Char) : Bool :=
  c == '\n' || c == '\u2028' || c == '\u2029'

/-- What stands between words. -/
def isSpace (c : Char) : Bool :=
  isGap c || isLineEnd c

/-- The text with one spelling for line ends. A carriage return and a line feed are one of them. -/
def unifyLineEnds : List Char → List Char
  | [] => []
  | '\r' :: '\n' :: rest => '\n' :: unifyLineEnds rest
  | c :: rest => (if c == '\r' || c == '\u0085' then '\n' else c) :: unifyLineEnds rest

/-! ## Placed characters -/

/-- A character and its place. The offset counts the bytes in front of it. -/
structure Placed where
  char : Char
  line : Nat
  column : Nat
  offset : Nat
deriving DecidableEq, Repr

/-- The characters of a text from the place of the first of them. -/
def placeFrom (line column offset : Nat) : List Char → List Placed
  | [] => []
  | c :: rest =>
    ⟨c, line, column, offset⟩ ::
      if isLineEnd c then placeFrom (line + 1) 0 (offset + c.utf8Size) rest
      else placeFrom line (column + 1) (offset + c.utf8Size) rest

/-- The characters of a text with their places, without a byte order mark at its start. -/
def place? (text : String) : Option (List Placed) :=
  let cs := text.toList
  let cs := if cs.head? = some orderMark then cs.tail else cs
  if cs.all isAllowed then some (placeFrom 0 0 0 (unifyLineEnds cs)) else none

/-- Nothing, or something that separates words. -/
def endsWord (text : List Placed) : Bool :=
  text.head?.all fun c => isSpace c.char

/-- Whether a line in the first column marks the start or the end of a document: three dashes or
three points that are a word. -/
def atMarker (mark : Char) : List Placed → Bool
  | a :: b :: c :: rest =>
    a.column == 0 && a.char == mark && b.char == mark && c.char == mark && endsWord rest
  | _ => false

/-- Whether a document starts or ends here. -/
def atBoundary (text : List Placed) : Bool :=
  atMarker '-' text || atMarker '.' text

end Yaml

end WorkflowCondition
