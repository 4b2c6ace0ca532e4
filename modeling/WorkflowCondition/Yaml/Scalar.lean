import WorkflowCondition.Yaml.Basic
import WorkflowCondition.Yaml.Placed

/-!
# YAML scalars

Scalars in quotes, plain scalars and blocks of text. A reader takes a scalar from the front of a
text and gives the rest; a text that it cannot read has no result. A scalar may go over several
lines: `Gap.text` says what stands between its words, and `foldEnds` what becomes of line ends.

The readers collect the characters that they have met last one first.
-/

namespace WorkflowCondition

namespace Yaml

/-! ## Lines run together -/

/-- Line ends between two lines that are run together. A single one becomes a blank, and of several
the first does not count. Separators of lines and paragraphs are kept. -/
def foldEnds : List Char → List Char
  | ['\n'] => [' ']
  | '\n' :: more => more
  | ends => ends

/-- What was met since the last other character of a scalar, last character first. -/
inductive Gap where
  | inLine (blanks : List Char)
  /-- Over the ends of lines. Blanks around them do not count. -/
  | overLines (ends : List Char)
  /-- Behind the end of a line that does not count itself, with the line ends that follow it. -/
  | continued (ends : List Char)

namespace Gap

/-- Nothing since the last character. -/
def empty : Gap :=
  .inLine []

/-- The gap with one more blank or line end. -/
def push (c : Char) : Gap → Gap
  | .inLine blanks => if isLineEnd c then .overLines [c] else .inLine (c :: blanks)
  | .overLines ends => .overLines (if isLineEnd c then c :: ends else ends)
  | .continued ends => .continued (if isLineEnd c then c :: ends else ends)

/-- What the gap stands for, from first to last. -/
def text : Gap → List Char
  | .inLine blanks => blanks.reverse
  | .overLines ends => foldEnds ends.reverse
  | .continued ends => ends.reverse

/-- Whether nothing was met at all. -/
def isEmpty : Gap → Bool
  | .inLine [] => true
  | _ => false

/-- Whether the gap holds the end of a line. -/
def leavesLine : Gap → Bool
  | .inLine _ => false
  | _ => true

end Gap

/-- The characters met so far, with a gap behind them. -/
def appendGap (before : List Char) (gap : Gap) : List Char :=
  gap.text.reverse ++ before

/-! ## Scalars in quotes -/

/-- The rest of a scalar in single quotes. A quote is written twice. -/
def singleQuoted (before : List Char) (gap : Gap) :
    List Placed → Option (List Char × List Placed)
  | [] => none
  | c :: rest =>
    if isSpace c.char then singleQuoted before (gap.push c.char) rest
    else if atBoundary (c :: rest) then none
    else if c.char ≠ '\'' then singleQuoted (c.char :: appendGap before gap) .empty rest
    else
      match rest with
      | d :: more =>
        if d.char = '\'' then singleQuoted ('\'' :: appendGap before gap) .empty more
        else some ((appendGap before gap).reverse, rest)
      | [] => some ((appendGap before gap).reverse, [])

/-- The escapes of one letter. -/
def escapes : List (Char × Char) :=
  [('0', '\x00'), ('a', '\x07'), ('b', '\x08'), ('t', '\t'), ('\t', '\t'), ('n', '\n'),
    ('v', '\x0b'), ('f', '\x0c'), ('r', '\r'), ('e', '\x1b'), (' ', ' '), ('"', '"'), ('/', '/'),
    ('\\', '\\'), ('N', '\u0085'), ('_', '\u00a0'), ('L', '\u2028'), ('P', '\u2029')]

/-- How many hexadecimal digits follow the letter of an escape. -/
def escapeWidth? (c : Char) : Option Nat :=
  if c = 'x' then some 2 else if c = 'u' then some 4 else if c = 'U' then some 8 else none

/-- The character that an escape stands for, whose letter and what follows it are given, and how
many digits belong to it. -/
def escaped? (letter : Char) (rest : List Placed) : Option (Char × Nat) :=
  match escapeWidth? letter with
  | some width => do
    let digits := (rest.take width).map Placed.char
    let n ← natural? 16 digits
    if digits.length = width ∧ n.isValidChar then return (.ofNat n, width) else none
  | none => (escapes.lookup letter).map fun c => (c, 0)

/-- The rest of a scalar in double quotes. A backslash starts an escape; at the end of a line it
joins the next line without a blank. -/
def doubleQuoted (before : List Char) (gap : Gap) (text : List Placed) :
    Option (List Char × List Placed) :=
  match text with
  | [] => none
  | c :: rest =>
    if isSpace c.char then doubleQuoted before (gap.push c.char) rest
    else if atBoundary (c :: rest) then none
    else if c.char = '"' then some ((appendGap before gap).reverse, rest)
    else if c.char ≠ '\\' then doubleQuoted (c.char :: appendGap before gap) .empty rest
    else
      match rest with
      | [] => none
      | d :: rest =>
        if isLineEnd d.char then doubleQuoted (appendGap before gap) (.continued []) rest
        else
          match escaped? d.char rest with
          | some (e, width) => doubleQuoted (e :: appendGap before gap) .empty (rest.drop width)
          | none => none
termination_by text.length
decreasing_by all_goals simp only [List.length_cons, List.length_drop]; omega

/-! ## Plain scalars -/

/-- The characters that end an item of a flow collection. -/
def isFlowMark (c : Char) : Bool :=
  c == ',' || c == '[' || c == ']' || c == '{' || c == '}'

/-- Whether a plain scalar can start here. Of the marks with a meaning `-` can if something follows
it, and so can `?` and `:` where no flow collection is open. -/
def startsPlain (inFlow : Bool) : List Placed → Bool
  | [] => false
  | c :: rest =>
    if c.char == '-' then !rest.head?.any fun d => isGap d.char
    else if c.char == '?' || c.char == ':' then !inFlow && !endsWord rest
    else !isSpace c.char && !isFlowMark c.char && !"#&*!|>'\"%@".toList.contains c.char &&
      c.char.toNat != 0x60

/-- Whether a colon stands here that ends a key. -/
def isKeyEnd : List Placed → Bool
  | c :: rest => c.char == ':' && endsWord rest
  | [] => false

/-- Whether a colon stands here that is refused in a flow collection: a plain key and a collection
or mark behind its colon have to be kept apart. -/
def isTightColon : List Placed → Bool
  | c :: d :: _ => c.char == ':' && (isFlowMark d.char || d.char == '?')
  | _ => false

/-- Whether a plain scalar ends in front of these characters, which follow a gap. `least` is the
column that the lines of the scalar have to reach. -/
def endsPlain (inFlow : Bool) (least : Nat) (gap : Gap) (text : List Placed) : Bool :=
  isKeyEnd text || atBoundary text ||
    text.head?.any fun c =>
      (inFlow && isFlowMark c.char) || (!gap.isEmpty && c.char == '#') ||
        (!inFlow && gap.leavesLine && c.column < least)

/-- The rest of a plain scalar, without the gap behind it, and whether that gap leaves its line. A
tab cannot take the place of blanks in front of column `least`. -/
def plain (inFlow : Bool) (least : Nat) (before : List Char) (gap : Gap) :
    List Placed → Option (List Char × Bool × List Placed)
  | [] => some (before.reverse, gap.leavesLine, [])
  | c :: rest =>
    if isSpace c.char then
      if c.char = '\t' ∧ gap.leavesLine ∧ c.column < least then none
      else plain inFlow least before (gap.push c.char) rest
    else if endsPlain inFlow least gap (c :: rest) then
      some (before.reverse, gap.leavesLine, c :: rest)
    else if inFlow && isTightColon (c :: rest) then none
    else plain inFlow least (c.char :: appendGap before gap) .empty rest

/-! ## Blocks of text -/

/-- How the end of a block of text is written: without line end, with one, or with all there are. -/
inductive Chomp where
  | strip
  | clip
  | keep
deriving DecidableEq, Repr

/-- The mark at the front of a text that tells how the end of a block is written. -/
def takeChomp : List Placed → Chomp × List Placed
  | [] => (.clip, [])
  | c :: rest =>
    if c.char = '-' then (.strip, rest) else if c.char = '+' then (.keep, rest)
    else (.clip, c :: rest)

/-- The digit at the front of a text that tells how far the lines of a block are indented. -/
def takeWidth? : List Placed → Option (Option Nat × List Placed)
  | [] => some (none, [])
  | c :: rest =>
    if c.char = '0' then none
    else if c.char.isDigit then some (some (c.char.toNat - '0'.toNat), rest)
    else some (none, c :: rest)

/-- What stands in the first line of a block of text, behind its mark. The two parts come in any
order, and only blanks and a comment follow them. -/
def blockHeader? (text : List Placed) : Option (Chomp × Option Nat × List Placed) := do
  let (chomp, text) := takeChomp text
  let (width, text) ← takeWidth? text
  let (chomp, text) := if chomp = .clip then takeChomp text else (chomp, text)
  let text := text.dropWhile fun c => isGap c.char
  let text :=
    if text.head?.any fun c => c.char == '#' then text.dropWhile fun c => !isLineEnd c.char
    else text
  match text with
  | [] => return (chomp, width, [])
  | c :: rest => if isLineEnd c.char then return (chomp, width, rest) else none

/-- The column in which a block of text starts if its first line does not tell it: that of the first
line that holds text, unless a line before it has more blanks. It is `least` at least. -/
def blockColumn? (least : Nat) : List Placed → Option Nat
  | [] => some least
  | c :: rest =>
    if c.char = '\t' then none
    else if c.char = ' ' then blockColumn? (max least (c.column + 1)) rest
    else if isLineEnd c.char then blockColumn? least rest
    else some least

/-- What was read of a block of text. -/
structure Block where
  /-- The text up to the last character of the last line, last character first. -/
  before : List Char
  /-- Whether the last line starts with a gap, if there is a line. -/
  line : Option Bool
  /-- The line ends behind it, last one first. -/
  ends : List Char

namespace Block

/-- No line yet. -/
def empty : Block :=
  ⟨[], none, []⟩

/-- The block with the first character of a line. If the lines are run together, only those are that
start with no gap. -/
def startLine (folded : Bool) (c : Char) (b : Block) : Block :=
  let ends := b.ends.reverse
  let joint := if folded && b.line = some false && !isGap c then foldEnds ends else ends
  ⟨c :: (joint.reverse ++ b.before), some (isGap c), []⟩

/-- The block with one more character in its last line. -/
def push (c : Char) (b : Block) : Block :=
  { b with before := c :: b.before }

/-- The block with one more line end behind it. -/
def endLine (c : Char) (b : Block) : Block :=
  { b with ends := c :: b.ends }

/-- The text of the block. -/
def text (chomp : Chomp) (b : Block) : List Char :=
  let ends := b.ends.reverse
  b.before.reverse ++
    match chomp with
    | .strip => []
    | .clip => if b.line.isSome then ends.take 1 else []
    | .keep => ends

end Block

/-- The lines of a block of text in column `column`, where `inLine` tells that a line is being read.
Tabs do not indent. -/
def blockLines (folded : Bool) (column : Nat) (inLine : Bool) (b : Block) :
    List Placed → Option (Block × List Placed)
  | [] => some (b, [])
  | c :: rest =>
    if isLineEnd c.char then blockLines folded column false (b.endLine c.char) rest
    else if inLine then blockLines folded column true (b.push c.char) rest
    else if column ≤ c.column then
      blockLines folded column true (b.startLine folded c.char) rest
    else if c.char = ' ' then blockLines folded column false b rest
    else if c.char = '\t' then none
    else some (b, c :: rest)

/-- A block of text, behind its mark, in a structure in column `above`. -/
def block (folded : Bool) (above : Option Nat) (text : List Placed) :
    Option (List Char × List Placed) := do
  let (chomp, width, text) ← blockHeader? text
  let column ← match width with
    | some width => some (above.getD 0 + width)
    | none => blockColumn? (max 1 ((above.map (· + 1)).getD 0)) text
  let (b, text) ← blockLines folded column false .empty text
  return (b.text chomp, text)

end Yaml

end WorkflowCondition
