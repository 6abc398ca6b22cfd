import DecisionRules.GroupKind

/-! What can be wrong with a rule or a part of one. -/
namespace DecisionRules

inductive RuleError where
  | invalidArgument (argument reason : String)
  | incompleteRule (missing : String)
  | conflictingConstraint (kind : GroupKind) (reason : String)
deriving DecidableEq, Repr

def RuleError.message : RuleError → String
  | .invalidArgument argument reason => "invalid " ++ argument ++ ": " ++ reason
  | .incompleteRule missing => "incomplete rule: " ++ missing ++ " is not set"
  | .conflictingConstraint kind reason =>
    "conflicting " ++ kind.label ++ " constraint: " ++ reason

end DecisionRules
