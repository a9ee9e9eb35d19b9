import PathQuery.Settings.Error

/-!
# Error — why a query could not be described, compiled or run
-/

namespace PathQuery

/-- The cause of a failure, with what its message names. -/
inductive Error where
  | unknownEntity (entity : String)
  | unknownProperty (entity property : String)
  | nonNavigable (entity property : String)
  | unsupportedExpression (reason : String)
  | invalidSequence (reason : String)
  | negativeArgument (argument : String) (value : Int)
  | unsupportedProjection (path reason : String)
  | unimplementedKind (kind path : String)
  | operandConversion (path expected found : String)
  | operandShape (kind expected : String)
  | engine (operation message : String)
  | resultMapping (target message : String)
  | settings (e : SettingsError)
deriving DecidableEq

namespace Error

def message : Error → String
  | .unknownEntity entity => s!"Unknown entity type: {entity}"
  | .unknownProperty entity property =>
    s!"Unable to find property '{property}' on entity type '{entity}'"
  | .nonNavigable entity property =>
    s!"Property '{property}' on '{entity}' is not a relationship and cannot be navigated through"
  | .unsupportedExpression reason => s!"Unsupported path expression: {reason}"
  | .invalidSequence reason => s!"Invalid condition sequence: {reason}"
  | .negativeArgument argument value => s!"{argument} value cannot be negative (got {value})"
  | .unsupportedProjection path reason =>
    s!"Unsupported projection shape for '{path}': {reason}"
  | .unimplementedKind kind path =>
    s!"Condition kind '{kind}' is not yet implemented for '{path}'"
  | .operandConversion path expected found =>
    s!"Cannot convert operand {found} to {expected} for '{path}'"
  | .operandShape kind expected => s!"Condition kind '{kind}' expects {expected}"
  | .engine operation message => s!"Execution engine error during {operation}: {message}"
  | .resultMapping target message => s!"Failed to map result row into {target}: {message}"
  | .settings e => e.message

/-- The failures that belong to the insertion of a condition. -/
def isInsertion : Error → Bool
  | .invalidSequence _ | .negativeArgument _ _ | .unknownProperty _ _ | .nonNavigable _ _
  | .unsupportedExpression _ | .unsupportedProjection _ _ => true
  | _ => false

end Error

end PathQuery
