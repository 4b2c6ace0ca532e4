import WorkflowCondition.Command.Basic
import WorkflowCondition.Command.Variable
import WorkflowCondition.Context.Source
import WorkflowCondition.Evaluation
import WorkflowCondition.Expression.Outline
import WorkflowCondition.Json.Printer

/-!
# Outcomes of commands

What a command prints and the exit code that it ends with. A command depends on one variable of the
environment and on the files that it reads; both are given to `Command.outcome` as they are.
-/

namespace WorkflowCondition

/-- What a run of the program shows to its caller. -/
structure Outcome where
  exitCode : UInt32
  output : String
deriving DecidableEq, Repr

namespace Outcome

/-- What is printed by a run without an error. -/
def success (output : String) : Outcome :=
  ⟨0, output⟩

/-- A condition or a context that is faulty. -/
def failure (output : String) : Outcome :=
  ⟨1, output⟩

/-- Arguments that give no command. -/
def misuse : Outcome :=
  ⟨2, ""⟩

end Outcome

/-! ## Columns -/

/-- The text, with blanks before it if it is shorter than `width`. -/
def padLeft (width : Nat) (text : String) : String :=
  .ofList (List.replicate (width - text.length) ' ') ++ text

/-- The text, with blanks behind it if it is shorter than `width`. -/
def padRight (width : Nat) (text : String) : String :=
  text ++ .ofList (List.replicate (width - text.length) ' ')

/-- The line that lists a token. -/
def Token.line (t : Token) : String :=
  padLeft 4 (toString t.position) ++ "  " ++ padRight 16 t.kind.name ++ " " ++ t.text ++ "\n"

/-! ## Commands -/

namespace Command

/-- The name and the version of the program. -/
def banner : String :=
  "actions-expr 0.1.0"

/-- The variable that holds a context in JSON, where the arguments give none. -/
def contextVariable : String :=
  "ACTIONS_EXPR_CONTEXT"

/-- The file that gives variables which the environment does not set. -/
def variableFile : String :=
  ".env"

/-- The last line of a run that ends with an error. -/
def errorLine (e : Error) : String :=
  "An error occurred: " ++ e.message ++ "\n"

/-- The variable's value by the environment, or else by the file. -/
def environmentContext? (env : Option String) (read : String → Option ByteArray) :
    Option String :=
  match env with
  | some json => some json
  | none => do Variable.find? contextVariable (← read variableFile)

/-- Evaluates a condition in the context of a source. -/
def runIn (source : Context.Source) (read : String → Option ByteArray) (condition : String) :
    Outcome :=
  let heading := "Running:  " ++ condition ++ "\n"
  match source.load read with
  | .error _ => .failure heading
  | .ok c =>
    let heading :=
      if source.isEmpty then heading
      else heading ++ "Including context " ++ c.toValue.toJson ++ "\n"
    match WorkflowCondition.evaluate condition c with
    | .ok v => .success (heading ++ "Output:   " ++ v.toJson ++ "\n")
    | .error e => .failure (heading ++ errorLine e ++ "Output:   null\n")

/-- What a command prints, where `env` is the variable of the environment, if it is set, and `read`
gives the contents of files. -/
def outcome (env : Option String) (read : String → Option ByteArray) : Command → Outcome
  | .version => .success (banner ++ "\n")
  | .run condition context contextFile =>
    runIn (.choose context contextFile (environmentContext? env read)) read condition
  | .tokens condition =>
    match Token.tokenize condition with
    | .ok listed => .success (String.join (listed.map Token.line))
    | .error e => .failure (errorLine e)
  | .parse condition =>
    match Expression.parse condition with
    | .ok e => .success (e.outline.render 0 ++ "\n")
    | .error e => .failure (errorLine e)

/-- The files that a command may read. -/
def files : Command → List String
  | .run _ _ (some contextFile) => [variableFile, contextFile]
  | .run _ _ none => [variableFile]
  | _ => []

end Command

/-- The outcome of a run with these arguments. -/
def Outcome.ofArguments (arguments : List String) (env : Option String)
    (read : String → Option ByteArray) : Outcome :=
  match Command.ofArguments? arguments with
  | some command => command.outcome env read
  | none => .misuse

end WorkflowCondition
