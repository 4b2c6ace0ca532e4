import WorkflowCondition.Json.Scalar
import WorkflowCondition.Value.Basic

/-!
# Decoding JSON

Reading of arrays and objects around the scalars, and of whole documents. The readers of elements
and members take the reader of a single value as an argument: `readValue` ties the knot by the
number of arrays and objects that may still be opened, and other readers of objects use the same
parts.
-/

namespace WorkflowCondition

namespace Json

/-- A reader takes a value from the front of a text and gives the rest. -/
abbrev Reader (α : Type) :=
  List Char → Except Fault (α × List Char)

variable {α : Type}

/-- The elements behind an element, and the end of the array. The number bounds the length of the
text: each round takes a comma at least. -/
def moreElements (read : Reader α) : Nat → Reader (List α)
  | 0, _ => .error .truncated
  | n + 1, cs =>
    match skipSpace cs with
    | ']' :: rest => .ok ([], rest)
    | ',' :: rest =>
      match skipSpace rest with
      | ']' :: _ => .error .malformed
      | rest => do
        let (x, rest) ← read rest
        let (xs, rest) ← moreElements read n rest
        .ok (x :: xs, rest)
    | rest => .error (unexpected rest)

/-- The elements of an array and its end; the opening bracket is read already. -/
def readElements (read : Reader α) : Reader (List α) := fun cs =>
  match skipSpace cs with
  | ']' :: rest => .ok ([], rest)
  | rest => do
    let (x, rest) ← read rest
    let (xs, rest) ← moreElements read rest.length rest
    .ok (x :: xs, rest)

/-- A name, a colon and a value. -/
def readMember (read : Reader α) : Reader (String × α)
  | '"' :: rest => do
    let (key, rest) ← readString rest
    match skipSpace rest with
    | ':' :: rest => do
      let (x, rest) ← read rest
      .ok ((.ofList key, x), rest)
    | rest => .error (unexpected rest)
  | cs => .error (unexpected cs)

/-- The members behind a member, and the end of the object. The number bounds the length of the
text. -/
def moreMembers (read : Reader α) : Nat → Reader (List (String × α))
  | 0, _ => .error .truncated
  | n + 1, cs =>
    match skipSpace cs with
    | '}' :: rest => .ok ([], rest)
    | ',' :: rest => do
      let (x, rest) ← readMember read (skipSpace rest)
      let (xs, rest) ← moreMembers read n rest
      .ok (x :: xs, rest)
    | rest => .error (unexpected rest)

/-- The members of an object and its end; the opening brace is read already. -/
def readMembers (read : Reader α) : Reader (List (String × α)) := fun cs =>
  match skipSpace cs with
  | '}' :: rest => .ok ([], rest)
  | rest => do
    let (x, rest) ← readMember read rest
    let (xs, rest) ← moreMembers read rest.length rest
    .ok (x :: xs, rest)

/-- A scalar, as far as its first character can start one. -/
def readScalar : Reader Value
  | 'n' :: rest => do .ok (.null, ← readWord ['u', 'l', 'l'] rest)
  | 't' :: rest => do .ok (.bool true, ← readWord ['r', 'u', 'e'] rest)
  | 'f' :: rest => do .ok (.bool false, ← readWord ['a', 'l', 's', 'e'] rest)
  | '"' :: rest => do
    let (s, rest) ← readString rest
    .ok (.string (.ofList s), rest)
  | c :: rest =>
    if c = '-' ∨ c.isDigit then do
      let (n, rest) ← readNumber (c :: rest)
      .ok (.number n, rest)
    else .error .malformed
  | [] => .error .truncated

/-- A value with at most `room` arrays and objects around any part of it. -/
def readValue (room : Nat) : Reader Value := fun cs =>
  match skipSpace cs with
  | '[' :: rest =>
    match room with
    | 0 => .error .malformed
    | room + 1 => do
      let (elements, rest) ← readElements (readValue room) rest
      .ok (.array elements, rest)
  | '{' :: rest =>
    match room with
    | 0 => .error .malformed
    | room + 1 => do
      let (members, rest) ← readMembers (readValue room) rest
      .ok (.object (Fields.ofList members), rest)
  | rest => readScalar rest

/-- How deep arrays and objects may be nested. -/
def maxNesting : Nat :=
  127

/-- A whole text, with nothing but space behind what is read. -/
def readDocument (read : Reader α) (text : String) : Except Fault α := do
  let (x, rest) ← read text.toList
  if skipSpace rest = [] then .ok x else .error .malformed

end Json

/-- The value that a JSON text stands for. -/
def Value.ofJson (text : String) : Except Json.Fault Value :=
  Json.readDocument (Json.readValue Json.maxNesting) text

end WorkflowCondition
