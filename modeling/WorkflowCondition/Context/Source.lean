import WorkflowCondition.Context.Yaml
import WorkflowCondition.Text.Blank

/-!
# Where a context comes from

A context is given as a text, as a file or by the environment, in this order of precedence. Texts
are JSON; the name of a file tells whether it is YAML.
-/

namespace WorkflowCondition

namespace Context

/-- Where the context of a run comes from. -/
inductive Source where
  /-- A JSON text that is given directly. -/
  | inline (json : String)
  /-- The name of a file. -/
  | file (path : String)
  /-- A JSON text from the environment. -/
  | env (json : String)
  | empty
deriving DecidableEq, Repr

/-- What can go wrong when a context is loaded. -/
inductive LoadError where
  /-- A file that is not there or is no text. -/
  | unreadable
  | json (fault : Json.Fault)
  | yaml
deriving DecidableEq, Repr

namespace Source

/-- The source that counts. Blanks in the environment count as nothing. -/
def choose (inline file env : Option String) : Source :=
  match inline, file, env with
  | some json, _, _ => .inline json
  | none, some path, _ => .file path
  | none, none, some json => if isBlankText json then .empty else .env json
  | none, none, none => .empty

/-- Whether there is no source; an empty text is one all the same. -/
def isEmpty : Source → Bool
  | .empty => true
  | _ => false

/-- The name of the file that a path ends with, if it names one. -/
def fileName? (path : String) : Option String :=
  let parts := (path.splitOn "/").reverse.dropWhile fun part => part == "" || part == "."
  match parts with
  | [] => none
  | name :: _ => if name == ".." then none else some name

/-- What stands behind the last point of a file's name, unless the name starts with that point. -/
def extension? (path : String) : Option String := do
  let name := (← fileName? path).toList.reverse
  match name.dropWhile (· != '.') with
  | [] => none
  | [_] => none
  | _ => return .ofList (name.takeWhile (· != '.')).reverse

/-- The context of a JSON text. -/
def loadJson (text : String) : Except LoadError Context :=
  (Context.ofJson text).mapError .json

/-- The context of a file with the given name and contents. -/
def loadFile (path : String) (contents : ByteArray) : Except LoadError Context :=
  match String.fromUTF8? contents with
  | none => .error .unreadable
  | some text =>
    if extension? path = some "yaml" ∨ extension? path = some "yml" then
      match Context.ofYaml? text with
      | some c => .ok c
      | none => .error .yaml
    else loadJson text

/-- The context of a source, where `read` gives the contents of files. -/
def load (read : String → Option ByteArray) : Source → Except LoadError Context
  | .inline json => loadJson json
  | .env json => loadJson json
  | .file path =>
    match read path with
    | some contents => loadFile path contents
    | none => .error .unreadable
  | .empty => .ok Context.empty

end Source

end Context

end WorkflowCondition
