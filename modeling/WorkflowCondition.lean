import WorkflowCondition.Main
import WorkflowCondition.Proofs.Token.Language
import WorkflowCondition.Proofs.Token.Run
import WorkflowCondition.Proofs.Token.Munch
import WorkflowCondition.Proofs.Token.Numeral
import WorkflowCondition.Proofs.Token.Quotes
import WorkflowCondition.Proofs.Token.Cover
import WorkflowCondition.Proofs.Expression.Grammar
import WorkflowCondition.Proofs.Expression.Recognition
import WorkflowCondition.Proofs.Expression.Bracketing
import WorkflowCondition.Proofs.Expression.Failure
import WorkflowCondition.Proofs.Expression.Rejection
import WorkflowCondition.Proofs.Expression.ParseError
import WorkflowCondition.Proofs.Expression.Image
import WorkflowCondition.Proofs.Expression.Reuse
import WorkflowCondition.Proofs.Evaluation.PathStep
import WorkflowCondition.Proofs.Evaluation.Fault
import WorkflowCondition.Proofs.Evaluation.StringLiteral
import WorkflowCondition.Proofs.Evaluation.Spacing
import WorkflowCondition.Proofs.Evaluation.Respelling
import WorkflowCondition.Proofs.Evaluation.Dependency
import WorkflowCondition.Proofs.Evaluation.Swap
import WorkflowCondition.Proofs.Binary64.Nearest
import WorkflowCondition.Proofs.Value.NumberOrder
import WorkflowCondition.Proofs.Expression.Nesting
import WorkflowCondition.Proofs.Token.ScanError
import WorkflowCondition.Proofs.Evaluation.Congruence
import WorkflowCondition.Proofs.Evaluation.Builtin
import WorkflowCondition.Proofs.Expression.Expectation
import WorkflowCondition.Proofs.Expression.Visit
import WorkflowCondition.Proofs.Evaluation.IntegerLiteral
import WorkflowCondition.Proofs.Value.Fields
import WorkflowCondition.Proofs.Context.History
import WorkflowCondition.Proofs.Json.RoundTrip
import WorkflowCondition.Proofs.Context.Printed
import WorkflowCondition.Proofs.Evaluation.StringComparison
import WorkflowCondition.Proofs.Json.Checked
import WorkflowCondition.Proofs.Context.Decoding
import WorkflowCondition.Proofs.Text.Utf8Order
