import DecisionRules.Draft
import DecisionRules.Serial.Encode
import DecisionRules.Serial.Shape
import DecisionRules.Text.Literal

/-! Rules and their parts from JSON. What decodes has passed the checks that building a
rule makes; a decoded rule is in fact built again. -/
namespace DecisionRules

open Serial

def Comparison.ofJson : Decoder Comparison := asVariant all variantName

theorem Comparison.ofJson_toJson (x : Comparison) : Comparison.ofJson x.toJson = .ok x := by
  cases x <;> rfl

def GroupKind.ofJson : Decoder GroupKind := asVariant all variantName

theorem GroupKind.ofJson_toJson (x : GroupKind) : GroupKind.ofJson x.toJson = .ok x := by
  rcases x with c | k
  · cases c <;> rfl
  · cases k <;> rfl

def NodeKind.ofJson : Decoder NodeKind := asVariant all name

theorem NodeKind.ofJson_toJson (x : NodeKind) : NodeKind.ofJson x.toJson = .ok x := by
  cases x <;> rfl

def BreakPresence.ofJson : Decoder BreakPresence := asVariant all name

theorem BreakPresence.ofJson_toJson (x : BreakPresence) :
    BreakPresence.ofJson x.toJson = .ok x := by
  cases x <;> rfl

def ResultCode.ofJson : Decoder ResultCode := asVariant all variantName

theorem ResultCode.ofJson_toJson (x : ResultCode) : ResultCode.ofJson x.toJson = .ok x := by
  cases x <;> rfl

def Value.ofJson : Decoder Value :=
  asTagged [
    ("Int", fun j => Value.int <$> asInt64 j),
    ("Float", fun j => Value.float <$> asBinary64 j),
    ("Bool", fun j => Value.bool <$> asBool j),
    ("String", fun j => Value.string <$> asText j)]

def Predicate.shape : Shape Predicate :=
  Predicate.mk <$> .required "field" asText <*> .required "op" Comparison.ofJson
    <*> .required "value" Value.ofJson

def Predicate.ofJson : Decoder Predicate :=
  checking Predicate.shape.decode fun p => Predicate.checked p.field p.comparison p.value

def BreakClause.shape : Shape BreakClause :=
  BreakClause.mk <$> .required "predicate" Predicate.ofJson

def BreakClause.ofJson : Decoder BreakClause := BreakClause.shape.decode

/-- A group of predicates holds no membership entries. -/
def ConstraintGroup.ofParts : GroupKind × List Predicate → Except RuleError ConstraintGroup
  | (.predicates c, ps) => ConstraintGroup.checked c ps
  | (.membership k, _) =>
    .error (.invalidArgument (k.label ++ " constraint")
      "membership groups hold field-to-values entries")

def ConstraintGroup.partsShape : Shape (GroupKind × List Predicate) :=
  Prod.mk <$> .required "kind" GroupKind.ofJson
    <*> .required "predicates" (asList Predicate.ofJson)

def ConstraintGroup.ofJson : Decoder ConstraintGroup :=
  checking ConstraintGroup.partsShape.decode ConstraintGroup.ofParts

def MembershipEntry.shape : Shape MembershipEntry :=
  MembershipEntry.mk <$> .required "field" asText <*> .required "values" (asList Value.ofJson)

def MembershipEntry.ofJson : Decoder MembershipEntry := MembershipEntry.shape.decode

def MembershipGroup.ofParts :
    GroupKind × List MembershipEntry → Except RuleError MembershipGroup
  | (.membership k, entries) => MembershipGroup.checked k entries
  | (.predicates c, _) =>
    .error (.invalidArgument (c.label ++ " constraint") "expected an IN or NOT IN group")

def MembershipGroup.partsShape : Shape (GroupKind × List MembershipEntry) :=
  Prod.mk <$> .required "kind" GroupKind.ofJson
    <*> .required "entries" (asList MembershipEntry.ofJson)

def MembershipGroup.ofJson : Decoder MembershipGroup :=
  checking MembershipGroup.partsShape.decode MembershipGroup.ofParts

def OutputField.shape : Shape OutputField :=
  OutputField.mk <$> .required "name" asText <*> .required "value" Value.ofJson

def OutputField.ofJson : Decoder OutputField := OutputField.shape.decode

def Action.shape : Shape Action :=
  Action.mk <$> .required "status_to_set" asText
    <*> .optional "result_code" ResultCode.ofJson
    <*> .optional "result" Value.ofJson
    <*> .required "output_fields" (asList OutputField.ofJson)

def Action.ofJson : Decoder Action := Action.shape.decode

def BranchStatus.shape : Shape BranchStatus :=
  BranchStatus.mk <$> .optional "default_then" asText <*> .optional "break_match" asText

def BranchStatus.ofJson : Decoder BranchStatus := BranchStatus.shape.decode

def Rule.constraintsShape : Shape (PerConnective (Option ConstraintGroup)) :=
  PerConnective.mk <$> .optional "and_constraints" ConstraintGroup.ofJson
    <*> .optional "or_constraints" ConstraintGroup.ofJson
    <*> .optional "xor_constraints" ConstraintGroup.ofJson
    <*> .optional "not_constraints" ConstraintGroup.ofJson

def Rule.membershipsShape : Shape (PerMembership (Option MembershipGroup)) :=
  PerMembership.mk <$> .optional "in_constraints" MembershipGroup.ofJson
    <*> .optional "not_in_constraints" MembershipGroup.ofJson

def Rule.shape : Shape Rule :=
  Rule.mk <$> .required "name" asText
    <*> .required "node_kind" NodeKind.ofJson
    <*> .optional "agenda_group" asText
    <*> .optional "activation_group" asText
    <*> .optional "focused_agenda_group" asText
    <*> .optional "status_constraint" asText
    <*> constraintsShape
    <*> membershipsShape
    <*> .optional "if_break" BreakClause.ofJson
    <*> .required "rhs" Action.ofJson
    <*> .required "status" BranchStatus.ofJson

def Rule.checkPlace (place : GroupKind) : Option GroupKind → Except RuleError Unit
  | some kind =>
    if kind = place then .ok ()
    else .error (.invalidArgument (place.label ++ " constraint")
      ("holds a " ++ kind.label ++ " group"))
  | none => .ok ()

def Rule.checkPlaces (r : Rule) : Except RuleError Unit := do
  let _ ← r.constraints.mapExcept fun c g =>
    checkPlace c (g.map fun g => .predicates g.connective)
  let _ ← r.memberships.mapExcept fun k g =>
    checkPlace k (g.map fun g => .membership g.kind)

def Draft.ofRule (r : Rule) : Draft where
  name := some r.name
  statusToSet := some r.action.statusToSet
  outputs := r.action.outputs
  agendaGroup := r.agendaGroup
  activationGroup := r.activationGroup
  focusedAgendaGroup := r.focusedAgendaGroup
  statusConstraint := r.statusConstraint
  predicates := r.constraints.map (·.map (·.predicates))
  memberships := r.memberships.map (·.map (·.entries))
  breakPredicate := r.breakClause.map (·.predicate)
  resultCode := r.action.resultCode
  result := r.action.result

def Rule.describeStatus (claimed : BranchStatus) (r : Rule) : String :=
  "then=" ++ Text.optionLiteral claimed.ordinary
    ++ ", then[match]=" ++ Text.optionLiteral claimed.onBreak
    ++ " does not match a " ++ r.nodeKind.name ++ " rule "
    ++ (if r.breakClause.isSome then "with" else "without") ++ " a break clause"

/-- The rule built from what a rule says of itself, if the status it claims is the
status it gets. -/
def Rule.rebuild (claimed : Rule) : Except RuleError Rule := do
  claimed.checkPlaces
  let r ← (Draft.ofRule claimed).build claimed.nodeKind
  if r.status = claimed.status then return r
  else throw (.invalidArgument "status" (r.describeStatus claimed.status))

def Rule.ofJson : Decoder Rule := checking Rule.shape.decode Rule.rebuild

end DecisionRules
