import WorkflowCondition.Builtin
import WorkflowCondition.Context.Basic
import WorkflowCondition.Expression.Parser
import WorkflowCondition.Text.Quoted

/-!
# Evaluation

The value of an expression in a context. Everything is evaluated, from left to right, also what an
operator would not need; the first error that is met is the result.
-/

namespace WorkflowCondition

namespace Operator

/-- Whether the operator holds of two values. No order holds of values that have none. -/
def holds (op : Operator) (a b : Value) : Bool :=
  match op with
  | .eq => a.equal b
  | .ne => !a.equal b
  | .lt => a.compare? b == some .lt
  | .le => a.compare? b == some .lt || a.compare? b == some .eq
  | .gt => a.compare? b == some .gt
  | .ge => a.compare? b == some .gt || a.compare? b == some .eq
  | .and => a.isTruthy && b.isTruthy
  | .or => a.isTruthy || b.isTruthy

end Operator

/-- The value under a path of keys. A missing key gives null, and all keys of null are missing. -/
def Value.follow (v : Value) : List String → Except Error Value
  | [] => .ok v
  | key :: keys =>
    match v with
    | .object fields => follow ((Fields.get? fields key).getD .null) keys
    | .null => follow .null keys
    | _ => .error (.malformedContext key)

/-- The value of a reference. Only the fixed roots are ever looked up. -/
def Context.resolve (c : Context) (head : String) (keys : List String) : Except Error Value :=
  match Root.ofName? head with
  | none => .error (.unknownContext head)
  | some root =>
    match c.get? root.name with
    | none => .error (.unknownContext head)
    | some fields => (Value.object fields).follow keys

/-- The value of a float; what is not finite has none. -/
def Binary64.toValue : Binary64 → Value
  | .finite x => .number (.float x)
  | _ => .null

namespace Literal

mutual

/-- The value of a literal. A call is checked for its name and the number of its arguments before
these are evaluated. -/
def evaluate (c : Context) : Literal → Except Error Value
  | .null => .ok .null
  | .string raw => .ok (.string (unquote raw))
  | .int n => .ok (.number (.ofInt64 n))
  | .float x => .ok x.toValue
  | .bool b => .ok (.bool b)
  | .call name args =>
    match Builtin.ofName? name with
    | none => .error (.unknownFunction name)
    | some f =>
      if args.length = Builtin.arity then
        match evaluateAll c args with
        | .error e => .error e
        | .ok values => f.call values
      else .error (.arityMismatch name Builtin.arity args.length)
  | .reference head accessors => c.resolve head (accessors.map accessorKey)

/-- The values of literals, or the error of the first that has none. -/
def evaluateAll (c : Context) : List Literal → Except Error (List Value)
  | [] => .ok []
  | arg :: args =>
    match evaluate c arg with
    | .error e => .error e
    | .ok v =>
      match evaluateAll c args with
      | .error e => .error e
      | .ok vs => .ok (v :: vs)

end

end Literal

namespace Expression

/-- The value of an expression. -/
def evaluate (e : Expression) (c : Context) : Except Error Value :=
  match e.lhs.evaluate c with
  | .error e => .error e
  | .ok a =>
    match e.rhs with
    | none => .ok a
    | some (op, rhs) =>
      match rhs.evaluate c with
      | .error e => .error e
      | .ok b => .ok (.bool (op.holds a b))

end Expression

/-- The value of a condition in a context. -/
def evaluate (source : String) (c : Context) : Except Error Value :=
  match Expression.parse source with
  | .error e => .error e
  | .ok e => e.evaluate c

end WorkflowCondition
