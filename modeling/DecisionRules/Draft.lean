import DecisionRules.Rule

/-! Drafts of rules. Settings are taken as they come, each in place of the one before
it; all checks are made when the rule is built. -/
namespace DecisionRules

structure Draft where
  name : Option String := none
  statusToSet : Option String := none
  outputs : List OutputField := []
  agendaGroup : Option String := none
  activationGroup : Option String := none
  focusedAgendaGroup : Option String := none
  statusConstraint : Option String := none
  predicates : PerConnective (Option (List Predicate)) := .const none
  memberships : PerMembership (Option (List MembershipEntry)) := .const none
  breakPredicate : Option Predicate := none
  resultCode : Option ResultCode := none
  result : Option Value := none
deriving DecidableEq, Repr

inductive Setting where
  | name (text : String)
  | statusToSet (text : String)
  | outputs (fields : List OutputField)
  | agendaGroup (text : String)
  | activationGroup (text : String)
  | focusedAgendaGroup (text : String)
  | statusConstraint (text : String)
  | predicates (connective : Connective) (ps : List Predicate)
  | membership (kind : MembershipKind) (entries : List MembershipEntry)
  | breakOn (p : Predicate)
  | resultCode (code : ResultCode)
  | result (v : Value)
deriving DecidableEq, Repr

namespace Draft

def empty : Draft := {}

def set (d : Draft) : Setting → Draft
  | .name text => { d with name := some text }
  | .statusToSet text => { d with statusToSet := some text }
  | .outputs fields => { d with outputs := fields }
  | .agendaGroup text => { d with agendaGroup := some text }
  | .activationGroup text => { d with activationGroup := some text }
  | .focusedAgendaGroup text => { d with focusedAgendaGroup := some text }
  | .statusConstraint text => { d with statusConstraint := some text }
  | .predicates c ps => { d with predicates := d.predicates.set (some ps) c }
  | .membership k entries => { d with memberships := d.memberships.set (some entries) k }
  | .breakOn p => { d with breakPredicate := some p }
  | .resultCode code => { d with resultCode := some code }
  | .result v => { d with result := some v }

def setAll (d : Draft) (settings : List Setting) : Draft := settings.foldl set d

theorem setAll_append (d : Draft) (xs ys : List Setting) :
    d.setAll (xs ++ ys) = (d.setAll xs).setAll ys := List.foldl_append

def requireText (argument text : String) : Except RuleError Unit :=
  if Text.isBlankText text then .error (.invalidArgument argument "must not be empty")
  else .ok ()

def start (name statusToSet : String) (outputs : List OutputField) : Except RuleError Draft := do
  requireText "name" name
  requireText "status_to_set" statusToSet
  return { name := some name, statusToSet := some statusToSet, outputs }

def requireSet (what : String) : Option String → Except RuleError String
  | some text => if Text.isBlankText text then .error (.incompleteRule what) else .ok text
  | none => .error (.incompleteRule what)

def checkSome {α β : Type} (f : α → Except RuleError β) :
    Option α → Except RuleError (Option β)
  | none => .ok none
  | some a => some <$> f a

def checkedBreak (p : Predicate) : Except RuleError BreakClause := do
  p.check "break clause"
  return ⟨p⟩

/-- The rule for a node of the given kind. Of several faults the first in the order of
the checks is reported: name, status, the groups by connective, the membership groups,
the break clause. -/
def build (d : Draft) (kind : NodeKind) : Except RuleError Rule := do
  let name ← requireSet "name" d.name
  let statusToSet ← requireSet "status_to_set" d.statusToSet
  let constraints ← d.predicates.mapExcept fun c => checkSome (ConstraintGroup.checked c)
  let memberships ← d.memberships.mapExcept fun k => checkSome (MembershipGroup.checked k)
  let breakClause ← checkSome checkedBreak d.breakPredicate
  return {
    name, nodeKind := kind
    agendaGroup := d.agendaGroup, activationGroup := d.activationGroup
    focusedAgendaGroup := d.focusedAgendaGroup, statusConstraint := d.statusConstraint
    constraints, memberships, breakClause
    action := ⟨statusToSet, d.resultCode, d.result, d.outputs⟩
    status := .resolve kind (.ofBool breakClause.isSome) statusToSet }

end Draft
end DecisionRules
