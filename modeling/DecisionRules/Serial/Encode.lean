import DecisionRules.Rule
import DecisionRules.Serial.Json

/-! Rules and their parts as JSON. Every member of a record is written, an absent one as
null; a number that is not finite has no JSON form and is written as null. -/
namespace DecisionRules

namespace Serial

def ofOption {α : Type} (encode : α → Json) : Option α → Json
  | none => .null
  | some a => encode a

end Serial

open Serial (ofOption)

def Comparison.variantName : Comparison → String
  | .eq => "Eq"
  | .ne => "Neq"
  | .gt => "Gt"
  | .ge => "Gte"
  | .lt => "Lt"
  | .le => "Lte"

def GroupKind.variantName : GroupKind → String
  | .predicates .allOf => "AllOf"
  | .predicates .anyOf => "AnyOf"
  | .predicates .oneOf => "OneOf"
  | .predicates .noneOf => "NoneOf"
  | .membership .memberOf => "MemberOf"
  | .membership .notMemberOf => "NotMemberOf"

def ResultCode.variantName : ResultCode → String
  | .ok => "Ok"
  | .fail => "Fail"

def Comparison.toJson (c : Comparison) : Json := .string c.variantName

def GroupKind.toJson (k : GroupKind) : Json := .string k.variantName

def NodeKind.toJson (k : NodeKind) : Json := .string k.name

def BreakPresence.toJson (p : BreakPresence) : Json := .string p.name

def ResultCode.toJson (c : ResultCode) : Json := .string c.variantName

def Value.toJson : Value → Json
  | .int n => .object [("Int", .integer n.toInt)]
  | .float x => .object [("Float", if x.isFinite then .float x else .null)]
  | .bool b => .object [("Bool", .bool b)]
  | .string s => .object [("String", .string s)]

def Predicate.toJson (p : Predicate) : Json :=
  .object [("field", .string p.field), ("op", p.comparison.toJson), ("value", p.value.toJson)]

def BreakClause.toJson (b : BreakClause) : Json := .object [("predicate", b.predicate.toJson)]

def ConstraintGroup.toJson (g : ConstraintGroup) : Json :=
  .object [("kind", (GroupKind.predicates g.connective).toJson),
    ("predicates", .array (g.predicates.map Predicate.toJson))]

def MembershipEntry.toJson (e : MembershipEntry) : Json :=
  .object [("field", .string e.field), ("values", .array (e.values.map Value.toJson))]

def MembershipGroup.toJson (g : MembershipGroup) : Json :=
  .object [("kind", (GroupKind.membership g.kind).toJson),
    ("entries", .array (g.entries.map MembershipEntry.toJson))]

def OutputField.toJson (o : OutputField) : Json :=
  .object [("name", .string o.name), ("value", o.value.toJson)]

def Action.toJson (a : Action) : Json :=
  .object [("status_to_set", .string a.statusToSet),
    ("result_code", ofOption ResultCode.toJson a.resultCode),
    ("result", ofOption Value.toJson a.result),
    ("output_fields", .array (a.outputs.map OutputField.toJson))]

def BranchStatus.toJson (s : BranchStatus) : Json :=
  .object [("default_then", ofOption .string s.ordinary),
    ("break_match", ofOption .string s.onBreak)]

def Rule.toJson (r : Rule) : Json :=
  .object [("name", .string r.name),
    ("node_kind", r.nodeKind.toJson),
    ("agenda_group", ofOption .string r.agendaGroup),
    ("activation_group", ofOption .string r.activationGroup),
    ("focused_agenda_group", ofOption .string r.focusedAgendaGroup),
    ("status_constraint", ofOption .string r.statusConstraint),
    ("and_constraints", ofOption ConstraintGroup.toJson r.constraints.allOf),
    ("or_constraints", ofOption ConstraintGroup.toJson r.constraints.anyOf),
    ("xor_constraints", ofOption ConstraintGroup.toJson r.constraints.oneOf),
    ("not_constraints", ofOption ConstraintGroup.toJson r.constraints.noneOf),
    ("in_constraints", ofOption MembershipGroup.toJson r.memberships.memberOf),
    ("not_in_constraints", ofOption MembershipGroup.toJson r.memberships.notMemberOf),
    ("if_break", ofOption BreakClause.toJson r.breakClause),
    ("rhs", r.action.toJson),
    ("status", r.status.toJson)]

end DecisionRules
