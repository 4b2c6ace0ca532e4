import WorkflowCondition.Context.Basic
import WorkflowCondition.Yaml.Document

/-!
# Contexts in YAML

A context is written as a mapping of mappings. Where nothing is written in place of a mapping, it is
empty.
-/

namespace WorkflowCondition

namespace Yaml

/-- The entries of a mapping, none if nothing is written. -/
def Node.entries? : Node → Option (List (String × Node))
  | .mapping entries => some entries
  | .plain "" => some []
  | _ => none

/-- The mapping under the name of a root. -/
def rootFields? : String × Node → Option (String × Fields Value)
  | (name, node) => do
    let fields ← entryValues? (← node.entries?)
    return (name, Fields.ofList fields)

end Yaml

namespace Context

/-- The context that a YAML document stands for. -/
def ofYaml? (text : String) : Option Context := do
  let node ← Yaml.document? text
  let roots ← (← node.entries?).mapM Yaml.rootFields?
  return ofList roots

end Context

end WorkflowCondition
