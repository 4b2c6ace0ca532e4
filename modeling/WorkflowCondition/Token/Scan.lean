import WorkflowCondition.Error
import WorkflowCondition.Root
import WorkflowCondition.Text.Ascii
import WorkflowCondition.Text.Blank
import WorkflowCondition.Text.Utf8

/-!
# From text to tokens

A recogniser for each kind gives the length of a token of the kind at the start of a text, if there
is one. `next?` asks them in the order of the kinds and takes the first answer. Where one kind of
text can start another the longer is asked for first, so that the answer is also the longest: a
float before the integer that it starts with, an operator before the `!` in it. Keywords and roots
answer only where the word ends: `trueish` and `environment` are identifiers.

`Token.scan` gives all tokens of a source and `Token.tokenize` those that are not whitespace.
-/

namespace WorkflowCondition

namespace Token

/-! ## Recognisers -/

/-- The length of a word, where it is not the start of a longer word. -/
def wordLength? (word cs : List Char) : Option Nat :=
  if word.isPrefixOf cs && !(cs.drop word.length).head?.any isWordChar then some word.length
  else none

/-- How many characters at the start are in a class. -/
def spanLength (p : Char → Bool) (cs : List Char) : Nat :=
  (cs.takeWhile p).length

/-- One if the text starts with one of the characters, else zero. -/
def signLength (signs : List Char) : List Char → Nat
  | [] => 0
  | c :: _ => if c ∈ signs then 1 else 0

/-- Digits before the point: a zero alone, or digits that do not start with a zero. -/
def wholeLength : List Char → Nat
  | [] => 0
  | c :: rest => if c = '0' then 1 else spanLength Char.isDigit (c :: rest)

/-- An exponent, if it is complete. -/
def exponentLength : List Char → Nat
  | [] => 0
  | c :: rest =>
    if c = 'e' ∨ c = 'E' then
      let sign := signLength ['+', '-'] rest
      let digits := spanLength Char.isDigit (rest.drop sign)
      if digits = 0 then 0 else 1 + sign + digits
    else 0

/-- Digits on both sides of a point, with a minus sign before them or not, and with an exponent
behind them or not. -/
def floatLength? (cs : List Char) : Option Nat :=
  let sign := signLength ['-'] cs
  let whole := wholeLength (cs.drop sign)
  if whole = 0 then none
  else
    match cs.drop (sign + whole) with
    | '.' :: rest =>
      let fraction := spanLength Char.isDigit rest
      if fraction = 0 then none
      else some (sign + whole + 1 + fraction + exponentLength (rest.drop fraction))
    | _ => none

/-- Digits, with a minus sign before them or not. -/
def integerLength? (cs : List Char) : Option Nat :=
  let sign := signLength ['-'] cs
  let digits := spanLength Char.isDigit (cs.drop sign)
  if digits = 0 then none else some (sign + digits)

/-- The rest of a string up to and with the closing quote; a quote written twice does not close it.
-/
def closingLength? : List Char → Option Nat
  | [] => none
  | '\'' :: '\'' :: rest => (closingLength? rest).map (· + 2)
  | c :: rest => if c = '\'' then some 1 else (closingLength? rest).map (· + 1)

/-- A string with both its quotes. -/
def stringLength? : List Char → Option Nat
  | '\'' :: rest => (closingLength? rest).map (· + 1)
  | _ => none

/-- As many blanks as there are. -/
def whitespaceLength? (cs : List Char) : Option Nat :=
  match spanLength isBlank cs with
  | 0 => none
  | n => some n

/-- A key behind a point, or between `['` and `']`. -/
def accessorLength? : List Char → Option Nat
  | '.' :: rest =>
    match spanLength isKeyChar rest with
    | 0 => none
    | n => some (1 + n)
  | '[' :: '\'' :: rest =>
    match spanLength isKeyChar rest with
    | 0 => none
    | n => if ['\'', ']'].isPrefixOf (rest.drop n) then some (2 + n + 2) else none
  | _ => none

/-- The operators, those of two characters first. -/
def operators : List String :=
  ["<=", ">=", "==", "!=", "&&", "||", "<", ">"]

/-- The first of the operators that the text starts with. -/
def operatorLength? (cs : List Char) : Option Nat :=
  (operators.find? fun op => op.toList.isPrefixOf cs).map String.length

/-- A single `!`. It is a token, but no operator. -/
def notLength? : List Char → Option Nat
  | '!' :: _ => some 1
  | _ => none

/-- A word, or a single punctuation character. A quote is none: it opens a string or nothing. -/
def identifierLength? : List Char → Option Nat
  | [] => none
  | c :: rest =>
    if isWordStart c then some (1 + spanLength isWordChar rest)
    else if isPunctuation c && c != '\'' then some 1
    else none

/-- The length of a token of the kind at the start of a text. -/
def Kind.length? : Kind → List Char → Option Nat
  | .null, cs => wordLength? "null".toList cs
  | .bool, cs => ["false", "true"].findSome? fun word => wordLength? word.toList cs
  | .float, cs => floatLength? cs
  | .integer, cs => integerLength? cs
  | .string, cs => stringLength? cs
  | .whitespace, cs => whitespaceLength? cs
  | .root, cs => Root.all.findSome? fun root => wordLength? root.name.toList cs
  | .accessor, cs => accessorLength? cs
  | .operator, cs => operatorLength? cs
  | .not, cs => notLength? cs
  | .identifier, cs => identifierLength? cs
  | .endOfInput, _ => none

/-- The kinds with a recogniser, in the order in which they are tried. -/
def Kind.tried : List Kind :=
  [.null, .bool, .float, .integer, .string, .whitespace, .root, .accessor, .operator, .not,
    .identifier]

/-- The kind and the length of the token at the start of a text. -/
def next? (cs : List Char) : Option (Kind × Nat) :=
  Kind.tried.findSome? fun kind => (kind.length? cs).map (kind, ·)

/-! ## No token is empty -/

theorem wordLength?_pos {word cs : List Char} {n : Nat} (hw : word ≠ [])
    (h : wordLength? word cs = some n) : 0 < n := by
  unfold wordLength? at h
  split at h
  · cases h; exact List.length_pos_iff.mpr hw
  · cases h

theorem operators_length_pos : ∀ op ∈ operators, 0 < op.length := by
  decide

theorem Kind.length?_pos {kind : Kind} {cs : List Char} {n : Nat} (h : kind.length? cs = some n) :
    0 < n := by
  cases kind <;> simp only [Kind.length?] at h
  case null => exact wordLength?_pos (by decide) h
  case bool =>
    obtain ⟨word, hm, hl⟩ := List.exists_of_findSome?_eq_some h
    refine wordLength?_pos ?_ hl
    rcases List.mem_cons.mp hm with rfl | hm
    · decide
    · cases List.mem_singleton.mp hm; decide
  case float => grind [floatLength?]
  case integer => grind [integerLength?]
  case string =>
    unfold stringLength? at h
    split at h
    · obtain ⟨m, _, rfl⟩ := Option.map_eq_some_iff.mp h; omega
    · cases h
  case whitespace => grind [whitespaceLength?]
  case root =>
    obtain ⟨root, _, hl⟩ := List.exists_of_findSome?_eq_some h
    refine wordLength?_pos ?_ hl
    cases root <;> decide
  case accessor =>
    unfold accessorLength? at h
    split at h
    · grind
    · grind
    · cases h
  case operator =>
    obtain ⟨op, ho, rfl⟩ := Option.map_eq_some_iff.mp h
    exact operators_length_pos op (List.mem_of_find?_eq_some ho)
  case not =>
    unfold notLength? at h
    split at h <;> grind
  case identifier =>
    unfold identifierLength? at h
    split at h <;> grind
  case endOfInput => cases h

/-- Every token takes a character at least, so that a scan comes to its end. -/
theorem next?_pos {cs : List Char} {kind : Kind} {n : Nat} (h : next? cs = some (kind, n)) :
    0 < n := by
  obtain ⟨kind', _, hk⟩ := List.exists_of_findSome?_eq_some h
  obtain ⟨m, hm, he⟩ := Option.map_eq_some_iff.mp hk
  cases he
  exact Kind.length?_pos hm

/-! ## The whole text -/

/-- The tokens of the text `cs`, which starts at `position` of its source. -/
def scanFrom (position : Nat) (cs : List Char) : Except Error (List Token) :=
  match cs with
  | [] => .ok [.endOfInput position]
  | c :: rest =>
    match _h : next? (c :: rest) with
    | none => .error (.unexpectedCharacter c position)
    | some (kind, n) =>
      let text := (c :: rest).take n
      match scanFrom (position + utf8Length text) ((c :: rest).drop n) with
      | .error e => .error e
      | .ok tokens => .ok (⟨kind, .ofList text, position⟩ :: tokens)
termination_by cs.length
decreasing_by
  have := next?_pos _h
  simp only [List.length_drop, List.length_cons]
  omega

/-- All tokens of a source, whitespace included. The last one is the end of input. -/
def scan (source : String) : Except Error (List Token) :=
  scanFrom 0 source.toList

/-- The tokens of a source that are not whitespace. -/
def tokenize (source : String) : Except Error (List Token) :=
  (scan source).map (List.filter fun t => t.kind != .whitespace)

end Token

end WorkflowCondition
