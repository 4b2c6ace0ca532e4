import WorkflowCondition.Error
import WorkflowCondition.Expression.Basic
import WorkflowCondition.Numeral.Reading
import WorkflowCondition.Text.Ascii
import WorkflowCondition.Token.Scan

/-!
# From tokens to expressions

A parser for the grammar

    expression = literal [operator literal] end
    literal    = null | string | integer | float | bool | call | reference
    call       = identifier "(" [literal {"," literal}] ")"
    reference  = (root | identifier) {accessor}

An identifier in front of a parenthesis is the name of a call, whatever its text; in front of
anything else it has to be a word and starts a reference. All other literals are told by their first
token. `Parser` is the state between two tokens. Every step gives the state after it also when it
fails, so that a parser can be used again, and the state holds how many calls are open, never more
than `maxCalls`.
-/

namespace WorkflowCondition

/-- How deep calls may be nested. -/
def maxCalls : Nat :=
  64

/-- A parser in front of the tokens `rest`, inside `depth` calls. -/
structure Parser where
  rest : List Token
  depth : Nat
  depth_le : depth ≤ maxCalls

namespace Parser

/-- What a step of a parser gives: an answer or an error, and the parser after the step. -/
abbrev Reply (α : Type) :=
  Except Error α × Parser

variable {α : Type}

/-- A parser in front of all tokens, inside no call. -/
def ofTokens (tokens : List Token) : Parser :=
  ⟨tokens, 0, Nat.zero_le _⟩

/-- The token that every look behind the last token sees. -/
def pastEnd : Token :=
  .endOfInput 0

/-- The next token. -/
def peek (p : Parser) : Token :=
  p.rest.headD pastEnd

/-- The token behind the next one. -/
def peekSecond (p : Parser) : Token :=
  p.rest.tail.headD pastEnd

/-- Behind the next token; at the end this changes nothing. -/
def advance (p : Parser) : Parser :=
  { p with rest := p.rest.tail }

/-- The parser inside one more call. -/
def enter (p : Parser) (h : p.depth < maxCalls) : Parser :=
  { p with depth := p.depth + 1, depth_le := h }

/-- The parser outside of the innermost open call. -/
def leave (p : Parser) : Parser :=
  { p with depth := p.depth - 1, depth_le := Nat.le_trans (Nat.sub_le _ _) p.depth_le }

/-- The next token is not what was expected; it is not consumed. -/
def refuse (p : Parser) (expected : Expected) : Reply α :=
  (.error (.unexpectedToken expected p.peek), p)

/-- Consumes the next token and reads its text. -/
def readNext (p : Parser) (expected : Expected) (read : String → Option α) : Reply α :=
  match read p.peek.text with
  | some x => (.ok x, p.advance)
  | none => (.error (.unexpectedToken expected p.peek), p.advance)

/-- Consumes a token that `expected` describes and that has the text of a punctuation mark. -/
def expectPunct (p : Parser) (text : String) (expected : Expected) : Reply Unit :=
  if p.peek.isPunct text then (.ok (), p.advance) else p.refuse expected

/-- A reference into the context; its head is the next token. -/
def reference (p : Parser) : Reply Literal :=
  let isAccessor (t : Token) : Bool := t.kind == .accessor
  let q := p.advance
  let accessors := (q.rest.takeWhile isAccessor).map Token.text
  (.ok (.reference p.peek.text accessors), { q with rest := q.rest.dropWhile isAccessor })

/-- The arguments behind an argument, up to what is no comma. The number bounds the tokens that are
left: each round takes a comma at least. -/
def moreArguments (literal : Parser → Reply Literal) : Nat → Parser → Reply (List Literal)
  | 0, p => (.ok [], p)
  | n + 1, p =>
    if p.peek.isPunct "," then
      match literal p.advance with
      | (.error e, p) => (.error e, p)
      | (.ok arg, p) =>
        match moreArguments literal n p with
        | (.error e, p) => (.error e, p)
        | (.ok args, p) => (.ok (arg :: args), p)
    else (.ok [], p)

/-- The arguments of a call and its closing parenthesis; the opening one is consumed already. -/
def arguments (literal : Parser → Reply Literal) (p : Parser) : Reply (List Literal) :=
  let reply : Reply (List Literal) :=
    if p.peek.isPunct ")" then (.ok [], p)
    else
      match literal p with
      | (.error e, p) => (.error e, p)
      | (.ok arg, p) =>
        match moreArguments literal p.rest.length p with
        | (.error e, p) => (.error e, p)
        | (.ok args, p) => (.ok (arg :: args), p)
  match reply with
  | (.error e, p) => (.error e, p)
  | (.ok args, p) =>
    match p.expectPunct ")" .closeParen with
    | (.error e, p) => (.error e, p)
    | (.ok (), p) => (.ok args, p)

/-- A call; its name is the next token. -/
def call (literal : Parser → Reply Literal) (p : Parser) : Reply Literal :=
  let name := p.peek
  let p := p.advance
  if h : p.depth < maxCalls then
    if p.peek.isPunct "(" then
      match arguments literal (p.advance.enter h) with
      | (.error e, p) => (.error e, p.leave)
      | (.ok args, p) => (.ok (.call name.text args), p.leave)
    else p.refuse .openParen
  else (.error (.unexpectedToken (.nesting maxCalls) name), p)

/-- A literal, where at most `n` tokens are left. -/
def literalWithin : (n : Nat) → Parser → Reply Literal
  | 0, p => p.refuse .literal
  | n + 1, p =>
    match p.peek.kind with
    | .null => (.ok .null, p.advance)
    | .string => (.ok (.string p.peek.text), p.advance)
    | .integer => p.readNext .integer fun text => (readInteger? text).map .int
    | .float => p.readNext .float fun text => (readBinary64? text).map .float
    | .bool => (.ok (.bool (p.peek.text == "true")), p.advance)
    | .root => p.reference
    | .identifier =>
      if p.peekSecond.isPunct "(" then p.call (literalWithin n)
      else if p.peek.text.toList.head?.any isWordStart then p.reference
      else p.refuse .literal
    | .not => (.error (.unsupported p.peek), p)
    | _ => p.refuse .literal

/-- Reads an operand. Every call in it takes tokens, so that their number limits the nesting. -/
def literal (p : Parser) : Reply Literal :=
  literalWithin p.rest.length p

/-- The expression that has been read, if nothing follows it. The end of input is not consumed. -/
def finish (p : Parser) (e : Expression) : Reply Expression :=
  if p.peek.kind == .endOfInput then (.ok e, p) else p.refuse .endOfInput

/-- A whole expression. -/
def expression (p : Parser) : Reply Expression :=
  match p.literal with
  | (.error e, p) => (.error e, p)
  | (.ok lhs, p) =>
    if p.peek.kind == .operator then
      match p.readNext .operator Operator.ofSymbol? with
      | (.error e, p) => (.error e, p)
      | (.ok op, p) =>
        match p.literal with
        | (.error e, p) => (.error e, p)
        | (.ok rhs, p) => p.finish ⟨lhs, some (op, rhs)⟩
    else p.finish ⟨lhs, none⟩

end Parser

namespace Expression

/-- The expression that tokens stand for. Tokens behind an end of input are not looked at. -/
def ofTokens (tokens : List Token) : Except Error Expression :=
  (Parser.ofTokens tokens).expression.1

/-- The expression that a source stands for. -/
def parse (source : String) : Except Error Expression :=
  match Token.tokenize source with
  | .error e => .error e
  | .ok tokens => ofTokens tokens

theorem parse_of_tokenize {source : String} {tokens : List Token}
    (h : Token.tokenize source = .ok tokens) : parse source = ofTokens tokens := by
  rw [parse, h]

end Expression

end WorkflowCondition
