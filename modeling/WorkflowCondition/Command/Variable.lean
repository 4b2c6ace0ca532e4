import WorkflowCondition.Text.Ascii
import WorkflowCondition.Text.Blank

/-!
# Variables in a file

Variables of the environment can be given in a file, one `NAME='value'` a line, with or without the
word `export` in front. Blank lines and comments, which start with `#`, are skipped; a line that is
none of these ends what counts of the file, and so does one that is no text.

A value may be quoted. Outside of single quotes a backslash takes the meaning from the character
behind it, and `$` and a name stand for the value of a variable of an earlier line.
-/

namespace WorkflowCondition

namespace Variable

/-! ## Values -/

/-- Where in a value a character stands. The flag `quoted` tells that double quotes are open. -/
inductive Place where
  | plain (quoted : Bool)
  | singleQuoted
  /-- Behind a backslash. -/
  | escaped (quoted : Bool)
  /-- In the name of a variable, whose characters so far are given last one first. -/
  | name (quoted braced : Bool) (chars : List Char)
  /-- Behind the value. -/
  | done
deriving DecidableEq, Repr

/-- What a backslash and a character stand for. -/
def escaped? (c : Char) : Option Char :=
  if c = 'n' then some '\n'
  else if c = '\\' ∨ c = '\'' ∨ c = '"' ∨ c = '$' ∨ c = ' ' then some c
  else none

/-- The value of the variable with a name, empty if there is none. -/
def substitute (known : List (String × String)) (name : List Char) : List Char :=
  ((known.lookup (.ofList name.reverse)).getD "").toList

/-- The value at the start of the rest of a line, where the variables of earlier lines are known.
Blanks count only in quotes and behind a backslash; elsewhere nothing but a comment follows them. -/
def value? (known : List (String × String)) : Place → List Char → Option (List Char)
  | .plain false, [] | .escaped false, [] | .done, [] => some []
  | .name false false name, [] => some (substitute known name)
  | _, [] => none
  | .done, c :: cs =>
    if c = ' ' ∨ c = '\t' then value? known .done cs
    else if c = '#' then some []
    else none
  | .escaped quoted, c :: cs =>
    match escaped? c with
    | some e => (value? known (.plain quoted) cs).map (e :: ·)
    | none => none
  | .singleQuoted, c :: cs =>
    if c = '\'' then value? known (.plain false) cs
    else (value? known .singleQuoted cs).map (c :: ·)
  | .name quoted braced name, c :: cs =>
    if c.isAlphanum then value? known (.name quoted braced (c :: name)) cs
    else if braced then
      if c = '}' then (value? known (.plain quoted) cs).map (substitute known name ++ ·)
      else value? known (.name quoted braced (c :: name)) cs
    else if c = '{' ∧ name.isEmpty then value? known (.name quoted true []) cs
    else if c = '$' then
      (value? known (.name quoted false []) cs).map (substitute known name ++ ·)
    else (value? known (.plain quoted) cs).map (substitute known name ++ c :: ·)
  | .plain quoted, c :: cs =>
    if c = '$' then value? known (.name quoted false []) cs
    else if c = '\\' then value? known (.escaped quoted) cs
    else if c = '"' then value? known (.plain !quoted) cs
    else if c = '\'' ∧ !quoted then value? known .singleQuoted cs
    else if (c = ' ' ∨ c = '\t') ∧ !quoted then value? known .done cs
    else (value? known (.plain quoted) cs).map (c :: ·)

/-! ## Lines -/

/-- A character of a name that does not start it. -/
def isNameChar (c : Char) : Bool :=
  isWordChar c || c == '.'

/-- The text behind the blanks at its start. -/
def skipBlank (cs : List Char) : List Char :=
  cs.dropWhile isBlank

/-- A name, and what follows it without blanks. -/
def name? (line : List Char) : Option (String × List Char) :=
  if line.head?.any isWordStart then
    some (.ofList (line.takeWhile isNameChar), skipBlank (line.dropWhile isNameChar))
  else none

/-- The name and the value of a variable that a line gives. The word `export` is a name itself if
`=` follows it. -/
def ofLine? (known : List (String × String)) (line : List Char) : Option (String × String) := do
  let (name, rest) ← name? line
  let (name, rest) ←
    if name = "export" ∧ rest.head? ≠ some '=' then name? rest else some (name, rest)
  match rest with
  | '=' :: rest =>
    let rest := skipBlank rest
    let value ← if rest.head? = some '#' then some [] else value? known (.plain false) rest
    return (name, .ofList value)
  | _ => none

/-- The line without blanks around it. -/
def trim (line : String) : List Char :=
  skipBlank ((skipBlank line.toList.reverse).reverse)

/-- The variables of lines, up to the first faulty line, behind those that are known. -/
def ofLines (known : List (String × String)) : List (Option String) → List (String × String)
  | some line :: lines =>
    let line := trim line
    if line.isEmpty ∨ line.head? = some '#' then ofLines known lines
    else
      match ofLine? known line with
      | some entry => ofLines (known ++ [entry]) lines
      | none => known
  | _ => known

/-! ## Files -/

/-- The pieces between line feeds. -/
def splitLines : List UInt8 → List (List UInt8)
  | [] => [[]]
  | byte :: rest =>
    if byte = 0x0A then [] :: splitLines rest
    else
      match splitLines rest with
      | [] => [[byte]]
      | line :: lines => (byte :: line) :: lines

/-- The value of a variable in the contents of a file. Of two values the first counts. -/
def find? (name : String) (contents : ByteArray) : Option String :=
  let lines := (splitLines contents.data.toList).map fun line => String.fromUTF8? ⟨line.toArray⟩
  (ofLines [] lines).lookup name

end Variable

end WorkflowCondition
