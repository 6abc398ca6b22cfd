import DecisionRules.Predicate

/-! Predicates joined by a connective, and the patterns that a rule tests for them. -/
namespace DecisionRules

structure ConstraintGroup where
  connective : Connective
  predicates : List Predicate
deriving DecidableEq, BEq, Repr

inductive Joiner where
  | and | or | single
deriving DecidableEq, Repr

structure Pattern where
  field : String
  predicates : List Predicate
  joiner : Joiner
  negated : Bool
deriving DecidableEq, BEq, Repr

namespace ConstraintGroup

def checked (connective : Connective) (predicates : List Predicate) :
    Except RuleError ConstraintGroup := do
  if predicates.isEmpty then
    throw (.conflictingConstraint connective "no predicates supplied")
  predicates.forM (Predicate.check (connective.label ++ " predicate"))
  return ⟨connective, predicates⟩

def fields (g : ConstraintGroup) : List String := (g.predicates.map (·.field)).eraseDups

def forField (g : ConstraintGroup) (field : String) : List Predicate :=
  g.predicates.filter (·.field = field)

def singlePattern (p : Predicate) : Pattern := ⟨p.field, [p], .single, false⟩

/-- The predicates on one field, tested together. Alternatives are enough one at a time,
predicates to exclude are excluded together. -/
def fieldPattern (g : ConstraintGroup) (field : String) : Pattern :=
  let predicates := g.forField field
  let joiner := if g.connective = .anyOf then Joiner.or else .and
  ⟨field, predicates, if predicates.length = 1 then .single else joiner,
    g.connective = .noneOf⟩

/-- A pattern for each field; in an exclusive choice a pattern for each predicate. -/
def patterns (g : ConstraintGroup) : List Pattern :=
  match g.connective with
  | .oneOf => g.predicates.map singlePattern
  | _ => g.fields.map g.fieldPattern

end ConstraintGroup
end DecisionRules
