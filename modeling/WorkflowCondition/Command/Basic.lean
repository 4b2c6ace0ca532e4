/-!
# Commands

What the program is asked to do by its arguments. The first argument names the command, and the rest
are the condition and, for `run`, options with a value: `-c` or `--context` for a context in JSON
and `--context-file` for the name of a file that holds one. Options and condition stand in any
order, and behind `--` nothing is an option. `Command.ofArguments?` refuses all that does not follow
these rules.
-/

namespace WorkflowCondition

/-- What the program can be asked to do. -/
inductive Command where
  | version
  /-- Evaluate a condition in a context that is given as a text, as the name of a file, or not here.
  -/
  | run (condition : String) (context contextFile : Option String)
  /-- List the tokens of a condition. -/
  | tokens (condition : String)
  /-- Show the syntax tree of a condition. -/
  | parse (condition : String)
deriving DecidableEq, Repr

/-! ## Single arguments -/

/-- The options of a command. Both take a value. -/
inductive Setting where
  | context
  | contextFile
deriving DecidableEq, Repr

/-- What an argument behind the name of the command is by its form. -/
inductive Argument where
  | plain (text : String)
  /-- An option, with its value if that is part of the argument. -/
  | setting (setting : Setting) (value : Option String)
  /-- The argument behind which all are plain. -/
  | separator
  | unknown
deriving DecidableEq, Repr

namespace Argument

/-- What stands behind the first `=`, if there is one. -/
def attached? (cs : List Char) : Option String :=
  match cs.dropWhile (· != '=') with
  | [] => none
  | _ :: value => some (.ofList value)

/-- An option by its long name. -/
def ofLong (cs : List Char) : Argument :=
  let name := String.ofList (cs.takeWhile (· != '='))
  if name = "context" then .setting .context (attached? cs)
  else if name = "context-file" then .setting .contextFile (attached? cs)
  else .unknown

/-- The value that follows the letter of an option at once, with or without `=`. -/
def afterLetter? : List Char → Option String
  | [] => none
  | '=' :: value => some (.ofList value)
  | value => some (.ofList value)

/-- The form of an argument. A dash alone is plain. -/
def ofString (text : String) : Argument :=
  match text.toList with
  | ['-', '-'] => .separator
  | '-' :: '-' :: cs => ofLong cs
  | '-' :: 'c' :: cs => .setting .context (afterLetter? cs)
  | '-' :: _ :: _ => .unknown
  | _ => .plain text

end Argument

/-! ## All arguments -/

/-- What the arguments behind the name of a command say. -/
structure Arguments where
  plain : List String
  context : Option String
  contextFile : Option String
deriving DecidableEq, Repr

namespace Arguments

/-- Takes the value of an option. An option is given at most once, and no file has an empty name. -/
def set? (a : Arguments) (setting : Setting) (value : String) : Option Arguments :=
  match setting with
  | .context => if a.context.isSome then none else some { a with context := some value }
  | .contextFile =>
    if a.contextFile.isSome ∨ value = "" then none else some { a with contextFile := some value }

/-- Reads arguments from left to right. The value of an option may be the argument behind it, if
that is plain. -/
def read? (a : Arguments) : List String → Option Arguments
  | [] => some a
  | text :: rest =>
    match Argument.ofString text, rest with
    | .plain text, rest => read? { a with plain := a.plain ++ [text] } rest
    | .separator, rest => some { a with plain := a.plain ++ rest }
    | .setting setting (some value), rest =>
      match a.set? setting value with
      | some a => a.read? rest
      | none => none
    | .setting setting none, value :: rest =>
      match Argument.ofString value with
      | .plain value =>
        match a.set? setting value with
        | some a => a.read? rest
        | none => none
      | _ => none
    | .setting _ none, [] => none
    | .unknown, _ => none

end Arguments

namespace Command

/-- An argument that asks for the version, whatever follows it. -/
def isVersionFlag (text : String) : Bool :=
  text == "--version" || ['-', 'V'].isPrefixOf text.toList

/-- The command with a name and what the other arguments say. -/
def ofName? (name : String) (a : Arguments) : Option Command :=
  match name, a with
  | "run", ⟨[condition], context, contextFile⟩ => some (.run condition context contextFile)
  | "tokens", ⟨[condition], none, none⟩ => some (.tokens condition)
  | "parse", ⟨[condition], none, none⟩ => some (.parse condition)
  | _, _ => none

/-- The command that the arguments of the program give. -/
def ofArguments? : List String → Option Command
  | [] => none
  | name :: rest =>
    if isVersionFlag name then some .version
    else (Arguments.read? ⟨[], none, none⟩ rest).bind (ofName? name)

end Command

end WorkflowCondition
