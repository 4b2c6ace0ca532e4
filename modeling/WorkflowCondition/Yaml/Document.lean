import WorkflowCondition.Yaml.Token

/-!
# YAML documents

The tree of the tokens of a document. A reader takes a node from the front of the tokens and gives
the rest. Keys are scalars. Where nothing is written a node is an empty plain scalar, and
collections are nested up to a limit.
-/

namespace WorkflowCondition

namespace Yaml

/-- Reads something off the front of the tokens and leaves the rest. -/
abbrev Reader (α : Type) :=
  List Token → Option (α × List Token)

/-- What stands where a node is left out. -/
def Node.empty : Node :=
  .plain ""

/-- The node of a scalar token. -/
def Node.ofScalar (text : String) (isPlain : Bool) : Node :=
  if isPlain then .plain text else .text text

/-- A node, or none in front of the tokens that pass a test. -/
def orEmpty (ends : Token → Bool) (node : Reader Node) : Reader Node := fun tokens =>
  if tokens.head?.any ends then some (.empty, tokens) else node tokens

/-- The text of a key behind its mark. It is empty in front of the tokens that pass a test. -/
def readKey (ends : Token → Bool) : Reader String := fun tokens =>
  if tokens.head?.any ends then some ("", tokens)
  else
    match tokens with
    | .scalar text _ :: rest => some (text, rest)
    | _ => none

/-- The value behind a key. It is empty without a mark and in front of the tokens that pass a test.
-/
def readValue (ends : Token → Bool) (node : Reader Node) : Reader Node
  | .value :: rest => orEmpty ends node rest
  | tokens => some (.empty, tokens)

/-! ## Flow collections -/

/-- The parts of a flow collection up to its end `close`, with commas between them. The number
bounds the count of the tokens. -/
def readParts {α : Type} (close : Token) (part : Reader α) : Nat → Reader (List α)
  | 0, _ => none
  | n + 1, tokens =>
    match tokens with
    | [] => none
    | t :: rest =>
      if t = close then some ([], rest)
      else do
        let (x, rest) ← part (t :: rest)
        match rest with
        | [] => none
        | t :: more =>
          if t = .comma then do
            let (xs, rest) ← readParts close part n more
            return (x :: xs, rest)
          else if t = close then return ([x], more)
          else none

/-- An entry of a flow mapping. What is not known to be a key is one without a value. -/
def flowEntry (node : Reader Node) : Reader (String × Node)
  | .key :: rest => do
    let (key, rest) ← readKey (fun t => t = .value ∨ t = .comma ∨ t = .closeBrace) rest
    let (value, rest) ← readValue (fun t => t = .comma ∨ t = .closeBrace) node rest
    return ((key, value), rest)
  | tokens => do
    let (key, rest) ← readKey (fun _ => false) tokens
    return ((key, .empty), rest)

/-- A key and its value among the items of a flow sequence, behind the mark of the key. A colon,
comma or bracket that follows the mark at once is taken along with it. -/
def flowPair (node : Reader Node) : Reader Node := fun tokens => do
  let isEmpty (t : Token) : Bool := t = .value ∨ t = .comma ∨ t = .closeBracket
  let (key, rest) ← readKey isEmpty tokens
  let rest := if tokens.head?.any isEmpty then rest.drop 1 else rest
  let (value, rest) ← readValue (fun t => t = .comma ∨ t = .closeBracket) node rest
  return (.mapping [(key, value)], rest)

/-- A scalar or a flow collection, where at most `room` collections are nested. -/
def flowNode : (room : Nat) → Reader Node
  | room, tokens =>
    match tokens, room with
    | .scalar text isPlain :: rest, _ => some (.ofScalar text isPlain, rest)
    | .openBracket :: rest, room + 1 =>
      let item : Reader Node
        | .key :: rest =>
          match room with
          | 0 => none
          | room + 1 => flowPair (flowNode room) rest
        | tokens => flowNode room tokens
      (readParts .closeBracket item (rest.length + 1) rest).map fun (items, rest) =>
        (.sequence items, rest)
    | .openBrace :: rest, room + 1 =>
      (readParts .closeBrace (flowEntry (flowNode room)) (rest.length + 1) rest).map
        fun (entries, rest) => (.mapping entries, rest)
    | _, _ => none

/-! ## Block collections -/

/-- The items of a sequence. Those of a sequence in the column of the keys around it have no end of
their own. The number bounds the count of the tokens. -/
def blockItems (hasEnd : Bool) (node : Reader Node) : Nat → Reader (List Node)
  | 0, _ => none
  | n + 1, tokens =>
    match tokens with
    | .item :: rest => do
      let endsItem (t : Token) : Bool :=
        t = .item ∨ t = .blockEnd ∨ (!hasEnd ∧ (t = .key ∨ t = .value))
      let (item, rest) ← orEmpty endsItem node rest
      let (items, rest) ← blockItems hasEnd node n rest
      return (item :: items, rest)
    | .blockEnd :: rest => some ([], if hasEnd then rest else .blockEnd :: rest)
    | tokens => if hasEnd then none else some ([], tokens)

/-- The entries of a mapping. The number bounds the count of the tokens. -/
def blockEntries (node : Reader Node) : Nat → Reader (List (String × Node))
  | 0, _ => none
  | n + 1, tokens =>
    match tokens with
    | .blockEnd :: rest => some ([], rest)
    | .key :: rest => do
      let endsPart (t : Token) : Bool := t = .key ∨ t = .value ∨ t = .blockEnd
      let (key, rest) ← readKey endsPart rest
      let (value, rest) ← readValue endsPart node rest
      let (entries, rest) ← blockEntries node n rest
      return ((key, value) :: entries, rest)
    | _ => none

/-- A node, where at most `room` collections are nested. As the value of a key, `isValue`, a
sequence may start in the column of the keys. -/
def blockNode : (room : Nat) → (isValue : Bool) → Reader Node
  | room, isValue, tokens =>
    match tokens, room with
    | .item :: _, room + 1 =>
      if isValue then
        (blockItems false (blockNode room false) (tokens.length + 1) tokens).map
          fun (items, rest) => (.sequence items, rest)
      else none
    | .sequenceStart :: rest, room + 1 =>
      (blockItems true (blockNode room false) (rest.length + 1) rest).map fun (items, rest) =>
        (.sequence items, rest)
    | .mappingStart :: rest, room + 1 =>
      (blockEntries (blockNode room true) (rest.length + 1) rest).map fun (entries, rest) =>
        (.mapping entries, rest)
    | tokens, room => flowNode room tokens

/-! ## Documents -/

/-- How many collections can be nested. -/
def nestingLimit : Nat := 128

/-- The tree of the tokens of a text that holds at most one document. Behind the document only marks
of its end may follow. -/
def Node.ofTokens? (tokens : List Token) : Option Node := do
  let node := blockNode nestingLimit false
  let (tree, rest) ← match tokens with
    | [] => some (.empty, [])
    | [.documentStart] => some (.empty, [])
    | .documentStart :: rest =>
      orEmpty (fun t => t = .documentStart ∨ t = .documentEnd) node rest
    | tokens => node tokens
  if rest.all (· = .documentEnd) then return tree else none

/-- The tree of a text that holds a single document. -/
def document? (text : String) : Option Node := do
  Node.ofTokens? (← tokens? (← place? text))

end Yaml

end WorkflowCondition
