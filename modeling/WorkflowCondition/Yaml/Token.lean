import WorkflowCondition.Yaml.Scalar

/-!
# YAML tokens

A text is read as scalars and marks. The structure of blocks is told by columns: where a deeper
column starts a collection, and where a lesser column ends it, the tokens say so. A key needs no
mark of its own, so that a token is known to be a key only when the colon behind it is met; what
marks the key is then put in front of that token.

`tokens?` gives all tokens of a text. Tags, anchors, aliases and directives are not read.
-/

namespace WorkflowCondition

namespace Yaml

/-- What a document is made of: scalars, marks, and the starts and ends of collections. -/
inductive Token where
  | scalar (text : String) (isPlain : Bool)
  | openBracket
  | closeBracket
  | openBrace
  | closeBrace
  | comma
  /-- A dash in front of an item of a sequence. -/
  | item
  /-- A key follows. -/
  | key
  /-- The value of a key follows. -/
  | value
  /-- A sequence starts whose items stand in a column. -/
  | sequenceStart
  /-- A mapping starts whose keys stand in a column. -/
  | mappingStart
  /-- A collection ends whose parts stand in a column. -/
  | blockEnd
  | documentStart
  | documentEnd
deriving DecidableEq, Repr

/-! ## State -/

/-- The place of a token that is a key if a colon follows it. -/
structure KeyStart where
  /-- How many tokens are in front of it. -/
  index : Nat
  line : Nat
  column : Nat
  offset : Nat
  /-- Whether nothing but a key can stand there. -/
  isRequired : Bool
deriving DecidableEq, Repr

/-- A text that is read up to some place. -/
structure Progress where
  /-- What is ahead. -/
  text : List Placed
  tokens : Array Token
  /-- The columns of the open block collections, innermost first. -/
  columns : List Nat
  /-- Where a key may have started in the innermost collection. -/
  keyStart : Option KeyStart
  /-- The same for the collections around it, as many as there are open flow collections. -/
  outerKeyStarts : List (Option KeyStart)
  /-- Whether a key without a mark can start here. -/
  keyAllowed : Bool

namespace Progress

/-- Nothing is read yet. -/
def ofText (text : List Placed) : Progress :=
  ⟨text, #[], [], none, [], true⟩

/-- Whether a collection in brackets or braces is open. -/
def inFlow (s : Progress) : Bool :=
  !s.outerKeyStarts.isEmpty

/-- The column of the innermost block collection. -/
def column? (s : Progress) : Option Nat :=
  s.columns.head?

/-- The column in which text of the innermost block collection starts at the least. -/
def least (s : Progress) : Nat :=
  (s.column?.map (· + 1)).getD 0

/-- Adds a token whose text ends in front of `rest`. -/
def push (t : Token) (rest : List Placed) (s : Progress) : Progress :=
  { s with tokens := s.tokens.push t, text := rest }

/-- Says whether a key without a mark can start here. -/
def allowKey (allowed : Bool) (s : Progress) : Progress :=
  { s with keyAllowed := allowed }

/-! ## Keys -/

/-- How many bytes a key can have together with its colon. -/
def keyLimit : Nat := 1024

/-- What is left of the start of a key at a later place. A key stands in one line, and its colon
comes soon. -/
def laterKeyStart? (c : Placed) : Option KeyStart → Option (Option KeyStart)
  | none => some none
  | some k =>
    if k.line < c.line ∨ k.offset + keyLimit < c.offset then
      if k.isRequired then none else some none
    else some (some k)

/-- Gives up the starts of keys that are too far behind. -/
def dropKeyStarts? (c : Placed) (s : Progress) : Option Progress := do
  let keyStart ← laterKeyStart? c s.keyStart
  let outer ← s.outerKeyStarts.mapM (laterKeyStart? c)
  return { s with keyStart := keyStart, outerKeyStarts := outer }

/-- Gives up the start of a key, where no key can be any more. -/
def noKey? (s : Progress) : Option Progress :=
  if s.keyStart.any KeyStart.isRequired then none else some { s with keyStart := none }

/-- Notes that a key may start at a place. -/
def noteKey? (c : Placed) (s : Progress) : Option Progress :=
  if s.keyAllowed then do
    let s ← s.noKey?
    let isRequired := !s.inFlow && s.column? = some c.column
    return { s with keyStart := some ⟨s.tokens.size, c.line, c.column, c.offset, isRequired⟩ }
  else some s

/-! ## Block collections -/

/-- Opens a block collection in a column unless one is open there, with its token in front of those
from `index` on. -/
def openBlock (column index : Nat) (t : Token) (s : Progress) : Progress :=
  if s.inFlow || s.column?.any (column ≤ ·) then s
  else
    { s with
      columns := column :: s.columns
      tokens := s.tokens.insertIdxIfInBounds index t }

/-- Ends the block collections whose columns pass a test, from the innermost on. -/
def closeBlocks (test : Nat → Bool) (s : Progress) : Progress :=
  if s.inFlow then s
  else
    { s with
      columns := s.columns.dropWhile test
      tokens := s.tokens ++ (s.columns.takeWhile test).map fun _ => Token.blockEnd }

/-! ## Tokens -/

/-- Skips blanks, line ends and comments. A tab is skipped only where no key can start. The flag
`inComment` tells that a comment is open. -/
def skipFrom (inFlow inComment keyAllowed : Bool) : List Placed → Bool × List Placed
  | [] => (keyAllowed, [])
  | c :: rest =>
    if isLineEnd c.char then skipFrom inFlow false (keyAllowed || !inFlow) rest
    else if inComment || c.char == ' ' || (c.char == '\t' && (inFlow || !keyAllowed)) ||
        (c.char == orderMark && c.column == 0) then
      skipFrom inFlow inComment keyAllowed rest
    else if c.char == '#' then skipFrom inFlow true keyAllowed rest
    else (keyAllowed, c :: rest)

/-- Goes to the next token. -/
def skip (s : Progress) : Progress :=
  let (keyAllowed, text) := skipFrom s.inFlow false s.keyAllowed s.text
  { s with keyAllowed := keyAllowed, text := text }

/-- The mark that starts or ends a document. -/
def boundary? (t : Token) (s : Progress) : Option Progress := do
  let s ← (s.closeBlocks fun _ => true).noKey?
  return (s.push t (s.text.drop 3)).allowKey false

/-- The bracket or brace that opens a flow collection. The collection may be taken for a key. -/
def openFlow? (t : Token) (c : Placed) (rest : List Placed) (s : Progress) : Option Progress := do
  let s ← s.noteKey? c
  return { s.push t rest with
    keyStart := none
    outerKeyStarts := s.keyStart :: s.outerKeyStarts
    keyAllowed := true }

/-- Closes the innermost collection in brackets or braces. -/
def closeFlow? (t : Token) (rest : List Placed) (s : Progress) : Option Progress := do
  let s ← s.noKey?
  let s := (s.push t rest).allowKey false
  match s.outerKeyStarts with
  | [] => return s
  | keyStart :: outer => return { s with keyStart := keyStart, outerKeyStarts := outer }

/-- A comma between items in brackets or braces. -/
def comma? (rest : List Placed) (s : Progress) : Option Progress := do
  return ((← s.noKey?).push .comma rest).allowKey true

/-- Opens the block collection that a mark belongs to. -/
def openAt? (t : Token) (c : Placed) (s : Progress) : Option Progress :=
  if s.inFlow then some s
  else if s.keyAllowed then some (s.openBlock c.column s.tokens.size t)
  else none

/-- The mark of an item. -/
def item? (c : Placed) (rest : List Placed) (s : Progress) : Option Progress := do
  let s ← (← s.openAt? .sequenceStart c).noKey?
  return (s.push .item rest).allowKey true

/-- The mark of a key. -/
def key? (c : Placed) (rest : List Placed) (s : Progress) : Option Progress := do
  let s ← (← s.openAt? .mappingStart c).noKey?
  return (s.push .key rest).allowKey !s.inFlow

/-- The colon behind a key. -/
def value? (c : Placed) (rest : List Placed) (s : Progress) : Option Progress :=
  match s.keyStart with
  | some k =>
    let s := { s with
      tokens := s.tokens.insertIdxIfInBounds k.index .key
      keyStart := none }
    some (((s.openBlock k.column k.index .mappingStart).push .value rest).allowKey false)
  | none => do
    let s ← s.openAt? .mappingStart c
    return (s.push .value rest).allowKey !s.inFlow

/-- A scalar in quotes, which was read with the result `read`. -/
def quoted? (c : Placed) (read : Option (List Char × List Placed)) (s : Progress) :
    Option Progress := do
  let s ← s.noteKey? c
  let (cs, rest) ← read
  return (s.push (.scalar (.ofList cs) false) rest).allowKey false

/-- A block of text. No key is in front of it, and one can start behind it. -/
def block? (folded : Bool) (rest : List Placed) (s : Progress) : Option Progress := do
  let s ← s.noKey?
  let (cs, rest) ← block folded s.column? rest
  return (s.push (.scalar (.ofList cs) false) rest).allowKey true

/-- A plain scalar. A key can start behind it in another line. -/
def plain? (c : Placed) (s : Progress) : Option Progress := do
  let s ← s.noteKey? c
  let (cs, leavesLine, rest) ← plain s.inFlow s.least [] .empty s.text
  return (s.push (.scalar (.ofList cs) true) rest).allowKey leavesLine

/-- The token that starts with character `c`. -/
def token? (c : Placed) (rest : List Placed) (s : Progress) : Option Progress :=
  let isMark := endsWord rest
  if c.column = 0 ∧ c.char = '%' then none
  else if atMarker '-' s.text then s.boundary? .documentStart
  else if atMarker '.' s.text then s.boundary? .documentEnd
  else if c.char = '[' then s.openFlow? .openBracket c rest
  else if c.char = '{' then s.openFlow? .openBrace c rest
  else if c.char = ']' then s.closeFlow? .closeBracket rest
  else if c.char = '}' then s.closeFlow? .closeBrace rest
  else if c.char = ',' then s.comma? rest
  else if c.char = '-' ∧ isMark then s.item? c rest
  else if c.char = '?' ∧ (s.inFlow ∨ isMark) then s.key? c rest
  else if c.char = ':' ∧ (s.inFlow ∨ isMark) then s.value? c rest
  else if c.char = '|' ∧ !s.inFlow then s.block? false rest
  else if c.char = '>' ∧ !s.inFlow then s.block? true rest
  else if c.char = '\'' then s.quoted? c (singleQuoted [] .empty rest)
  else if c.char = '"' then s.quoted? c (doubleQuoted [] .empty rest)
  else if startsPlain s.inFlow s.text then s.plain? c
  else none

/-- The tokens of what is ahead, in a text of at most `n` characters. -/
def run? : (n : Nat) → Progress → Option (Array Token)
  | n, s =>
    let s := s.skip
    match s.text, n with
    | [], _ => do
      let s ← (s.closeBlocks fun _ => true).noKey?
      return s.tokens
    | c :: rest, n + 1 => do
      let s ← s.dropKeyStarts? c
      run? n (← (s.closeBlocks (c.column < ·)).token? c rest)
    | _ :: _, 0 => none

end Progress

/-- The tokens of a text. -/
def tokens? (text : List Placed) : Option (List Token) :=
  ((Progress.ofText text).run? text.length).map Array.toList

end Yaml

end WorkflowCondition
