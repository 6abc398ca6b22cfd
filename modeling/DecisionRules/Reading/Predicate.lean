import DecisionRules.Reading.ParseError
import DecisionRules.Reading.Sequence
import DecisionRules.Reading.Token

/-! The notation of comparisons, of predicates and of lists of predicates. -/
namespace DecisionRules

namespace Reading

/-- A predicate, filler before it. Once the field is read the rest has to follow. -/
def predicate : Reader Predicate := do
  filler
  let field ← fieldName
  filler
  let comparison ← comparison.commit
  filler
  let value ← value.commit
  return ⟨field, comparison, value⟩

def onePredicate : Reader Predicate := do
  let p ← predicate
  filler
  return p

def listOf {α : Type} (item : Reader α) : Reader (List α) := do
  let items ← separated item
  optionalComma
  filler
  return items

end Reading

def Comparison.parse (text : String) : Except ParseError Comparison :=
  match String.ofList (Text.trimBlank text.toList) with
  | "==" | "equal" => .ok .eq
  | "!=" | "notEqual" => .ok .ne
  | ">" | "greaterThan" => .ok .gt
  | ">=" | "greaterOrEqual" => .ok .ge
  | "<" | "lessThan" => .ok .lt
  | "<=" | "lessOrEqual" => .ok .le
  | other => .error (.unknownComparison other)

def Predicate.parse (text : String) : Except ParseError Predicate :=
  Reading.onePredicate.parse text

def Predicate.parseList (text : String) : Except ParseError (List Predicate) :=
  (Reading.listOf Reading.predicate).parse text

end DecisionRules
