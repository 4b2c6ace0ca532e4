/-!
# Quoted strings

In a condition a string stands between single quotes, and a single quote inside it is written twice.
`quote` writes a text in this form and `unquote` reads it back: `unquote_quote`.
-/

namespace WorkflowCondition

/-- Each single quote written twice. -/
def doubleQuotes : List Char → List Char
  | [] => []
  | c :: rest => if c = '\'' then '\'' :: '\'' :: doubleQuotes rest else c :: doubleQuotes rest

/-- Two single quotes in a row read as one, from the left; a quote that stands alone stays. -/
def mergeQuotes : List Char → List Char
  | '\'' :: '\'' :: rest => '\'' :: mergeQuotes rest
  | c :: rest => c :: mergeQuotes rest
  | [] => []

/-- The string literal for a text. -/
def quote (s : String) : String :=
  .ofList ('\'' :: doubleQuotes s.toList ++ ['\''])

/-- What stands between an opening and a closing quote. -/
def stripQuotes? : List Char → Option (List Char)
  | '\'' :: rest => if rest.getLast? = some '\'' then some rest.dropLast else none
  | _ => none

/-- The text of a string literal. A text without both delimiters is taken as it stands, and its
double quotes are merged all the same. -/
def unquote (raw : String) : String :=
  .ofList (mergeQuotes ((stripQuotes? raw.toList).getD raw.toList))

theorem mergeQuotes_cons {c : Char} (h : c ≠ '\'') (rest : List Char) :
    mergeQuotes (c :: rest) = c :: mergeQuotes rest := by
  rw [mergeQuotes]
  intro rest' hc
  exact absurd hc h

theorem mergeQuotes_doubleQuotes (cs : List Char) : mergeQuotes (doubleQuotes cs) = cs := by
  induction cs with
  | nil => rfl
  | cons c rest ih =>
    by_cases h : c = '\''
    · simp [doubleQuotes, h, mergeQuotes, ih]
    · simp [doubleQuotes, h, mergeQuotes_cons h, ih]

theorem stripQuotes?_quote (cs : List Char) :
    stripQuotes? ('\'' :: cs ++ ['\'']) = some cs := by
  simp [stripQuotes?]

/-- Reading a literal gives back the text that it was written for. -/
theorem unquote_quote (s : String) : unquote (quote s) = s := by
  rw [unquote, quote, String.toList_ofList, stripQuotes?_quote]
  simp [mergeQuotes_doubleQuotes]

end WorkflowCondition
