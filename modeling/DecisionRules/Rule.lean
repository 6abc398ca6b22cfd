import DecisionRules.Action
import DecisionRules.ConstraintGroup
import DecisionRules.MembershipGroup
import DecisionRules.Status

/-! Rules: what has to hold, what is then done, and what each branch writes. -/
namespace DecisionRules

structure Rule where
  name : String
  nodeKind : NodeKind
  agendaGroup : Option String
  activationGroup : Option String
  focusedAgendaGroup : Option String
  statusConstraint : Option String
  constraints : PerConnective (Option ConstraintGroup)
  memberships : PerMembership (Option MembershipGroup)
  breakClause : Option BreakClause
  action : Action
  status : BranchStatus
deriving DecidableEq, BEq, Repr

namespace Rule

def constraintGroup? (r : Rule) (c : Connective) : Option ConstraintGroup := r.constraints.get c

def membership? (r : Rule) (k : MembershipKind) : Option MembershipGroup := r.memberships.get k

def breakPresence (r : Rule) : BreakPresence := .ofBool r.breakClause.isSome

def groupCount (r : Rule) : Nat :=
  r.constraints.toList.countP (·.isSome) + r.memberships.toList.countP (·.isSome)

def summary (r : Rule) : String :=
  "RuleDescriptor(" ++ r.name ++ ", "
    ++ (match r.nodeKind with | .leaf => "leaf" | .nonLeaf => "non-leaf") ++ ", "
    ++ r.groupCount.repr ++ " constraint groups, break: "
    ++ (if r.breakClause.isSome then "yes" else "no") ++ ")"

end Rule
end DecisionRules
