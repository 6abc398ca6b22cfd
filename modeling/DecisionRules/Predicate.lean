import DecisionRules.Comparison
import DecisionRules.RuleError
import DecisionRules.Text.Blank

/-! Predicates: a field compared with a value. -/
namespace DecisionRules

namespace FieldName

def isStart (c : Char) : Bool := c.isAlpha || c == '_'

def isPart (c : Char) : Bool := c.isAlphanum || c == '_' || c == '.'

/-- The names that need no quotes: letters, digits, `_` and `.` of ASCII, with a letter
or `_` in front. -/
def isBare : List Char → Bool
  | [] => false
  | c :: cs => isStart c && cs.all isPart

def spelling (cs : List Char) : List Char := if isBare cs then cs else Text.quote cs

end FieldName

structure Predicate where
  field : String
  comparison : Comparison
  value : Value
deriving DecidableEq, Repr

inductive PredicateFault where
  | blankField
  | nonFiniteValue
  | refusedComparison
deriving DecidableEq, Repr

namespace Predicate

instance : BEq Predicate :=
  ⟨fun p q => p.field == q.field && p.comparison == q.comparison && p.value == q.value⟩

def spelling (p : Predicate) : List Char :=
  FieldName.spelling p.field.toList ++ ' ' :: p.comparison.symbol.toList ++ ' ' :: p.value.spelling

def text (p : Predicate) : String := String.ofList p.spelling

/-- The first fault of a predicate: a field without a name, a value that is no finite
number, a comparison its value does not allow. -/
def fault? (p : Predicate) : Option PredicateFault :=
  if Text.isBlankText p.field then some .blankField
  else if !p.value.isFinite then some .nonFiniteValue
  else if !p.comparison.accepts p.value then some .refusedComparison
  else none

def describe (p : Predicate) : PredicateFault → String
  | .blankField => "field name is empty"
  | .nonFiniteValue => "field '" ++ p.field ++ "' is compared with a non-finite float"
  | .refusedComparison =>
    "operator '" ++ p.comparison.symbol ++ "' cannot compare field '" ++ p.field
      ++ "' with a " ++ p.value.kindName ++ " value"

def check (argument : String) (p : Predicate) : Except RuleError Unit :=
  match p.fault? with
  | some fault => .error (.invalidArgument argument (p.describe fault))
  | none => .ok ()

def checked (field : String) (comparison : Comparison) (value : Value) :
    Except RuleError Predicate := do
  let p : Predicate := ⟨field, comparison, value⟩
  p.check "predicate"
  return p

theorem check_eq_ok_iff {argument : String} {p : Predicate} :
    p.check argument = .ok () ↔ p.fault? = none := by
  unfold check
  split <;> simp_all

end Predicate

/-- A predicate that ends the descent below its node when it holds. -/
structure BreakClause where
  predicate : Predicate
deriving DecidableEq, BEq, Repr

def BreakClause.text (b : BreakClause) : String := "break when " ++ b.predicate.text

end DecisionRules
