/-!
# Context roots

The fixed names that a condition can refer to. A context may hold other names; no condition reads
them.
-/

namespace WorkflowCondition

/-- The mappings of a context that have a name of their own in the language. -/
inductive Root where
  | github
  | env
  | job
  | steps
  | runner
  | secrets
  | strategy
  | matrix
  | needs
deriving DecidableEq, Repr

namespace Root

/-- Every root, in the order in which a name is looked up. -/
def all : List Root :=
  [.github, .env, .job, .steps, .runner, .secrets, .strategy, .matrix, .needs]

/-- The name as it is written in a condition. -/
def name : Root → String
  | .github => "github"
  | .env => "env"
  | .job => "job"
  | .steps => "steps"
  | .runner => "runner"
  | .secrets => "secrets"
  | .strategy => "strategy"
  | .matrix => "matrix"
  | .needs => "needs"

/-- The root of that name. -/
def ofName? (text : String) : Option Root :=
  all.find? fun root => root.name == text

theorem mem_all (root : Root) : root ∈ all := by
  cases root <;> decide

theorem ofName?_name (root : Root) : ofName? root.name = some root := by
  cases root <;> decide

theorem name_of_ofName? {text : String} {root : Root} (h : ofName? text = some root) :
    root.name = text := by
  have := List.find?_some h
  simpa using this

end Root

end WorkflowCondition
