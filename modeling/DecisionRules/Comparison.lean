import DecisionRules.Value

/-! The six comparisons and their spellings. -/
namespace DecisionRules

inductive Comparison where
  | eq | ne | gt | ge | lt | le
deriving DecidableEq, Repr

namespace Comparison

def all : List Comparison := [.eq, .ne, .gt, .ge, .lt, .le]

def symbol : Comparison → String
  | .eq => "=="
  | .ne => "!="
  | .gt => ">"
  | .ge => ">="
  | .lt => "<"
  | .le => "<="

def isOrdering : Comparison → Bool
  | .eq | .ne => false
  | _ => true

/-- Truth values have no order; all other values can be compared in every way. -/
def accepts (c : Comparison) : Value → Bool
  | .bool _ => !c.isOrdering
  | _ => true

/-- The symbols and words that stand in front of a value, a spelling before any beginning of it. -/
def spellings : List (String × Comparison) := [
  (">=", .ge), (">", .gt), ("<=", .le), ("<", .lt), ("==", .eq), ("!=", .ne),
  ("greaterOrEqual", .ge), ("greaterThan", .gt), ("lessOrEqual", .le), ("lessThan", .lt),
  ("notEqual", .ne), ("equal", .eq)]

end Comparison
end DecisionRules
