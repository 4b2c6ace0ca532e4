import WorkflowCondition.Json.Decoder
import WorkflowCondition.Value.Decidable

/-!
# Contexts

A context holds the mappings that a condition can read, each under the name of a root. It is the
JSON object of these mappings: `Context.toValue` gives the object and `Context.ofValue` takes it
back. `Context.ofJson` reads a context from a text and checks the types on the way, so that a wrong
type is found before anything behind it is read.
-/

namespace WorkflowCondition

/-- Mappings by their names. Each name has one, and the names increase. -/
structure Context where
  roots : Fields (Fields Value)
  sorted : roots.Sorted
deriving DecidableEq

namespace Context

/-- The context without any mapping. -/
def empty : Context :=
  ⟨[], Fields.Sorted.nil⟩

instance : Inhabited Context :=
  ⟨empty⟩

/-- The context with a mapping under a name, in place of what stood there. -/
def insert (c : Context) (name : String) (fields : Fields Value) : Context :=
  ⟨c.roots.insert name fields, c.sorted.insert name fields⟩

/-- The mapping under a name. -/
def get? (c : Context) (name : String) : Option (Fields Value) :=
  c.roots.get? name

/-- The names of the mappings, in order. -/
def names (c : Context) : List String :=
  c.roots.names

/-- Whether there is no mapping at all. -/
def isEmpty (c : Context) : Bool :=
  c.roots.isEmpty

/-- The context with these mappings; of two with one name the later counts. -/
def ofList (roots : List (String × Fields Value)) : Context :=
  ⟨Fields.ofList roots, Fields.sorted_ofList roots⟩

/-- The context as an object of objects. -/
def toValue (c : Context) : Value :=
  .object (c.roots.map fun root => (root.1, .object root.2))

/-- The same names, with equal values under each of them. -/
def equal (a b : Context) : Bool :=
  a.toValue.equal b.toValue

/-! ## Decoding -/

/-- The mapping that a member of a context has to be. -/
def rootOfValue? : String × Value → Option (String × Fields Value)
  | (name, .object fields) => some (name, fields)
  | _ => none

/-- The context that an object of objects stands for. -/
def ofValue : Value → Except Json.Fault Context
  | .object members =>
    match members.mapM rootOfValue? with
    | some roots => .ok (ofList roots)
    | none => .error .mistyped
  | _ => .error .mistyped

end Context

namespace Json

variable {α : Type}

/-- An object and nothing else. An array is refused at its bracket; any other value of a wrong type
is read first and may be faulty by itself. -/
def readObject (read : Reader α) : Reader (List (String × α)) := fun cs =>
  match skipSpace cs with
  | '{' :: rest => readMembers read rest
  | '[' :: _ => .error .mistyped
  | rest =>
    match readScalar rest with
    | .error fault => .error fault
    | .ok _ => .error .mistyped

/-- A mapping of a context; it stands two objects deep already when its members are read. -/
def readRoot : Reader (Fields Value) := fun cs => do
  let (members, rest) ← readObject (readValue (maxNesting - 2)) cs
  .ok (Fields.ofList members, rest)

end Json

namespace Context

/-- The context that a JSON text stands for. -/
def ofJson (text : String) : Except Json.Fault Context :=
  (Json.readDocument (Json.readObject Json.readRoot) text).map ofList

end Context

end WorkflowCondition
