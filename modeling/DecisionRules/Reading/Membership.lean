import DecisionRules.MembershipGroup
import DecisionRules.Reading.Predicate

/-! The notation of membership entries, `INPUT1 in (-5, 0.5), INPUT2 in (3)`. -/
namespace DecisionRules

namespace Reading

/-- Values between parentheses, filler before them. A comma needs a value behind it. -/
def valueList : Reader (List Value) := do
  filler
  symbol '('
  let values ← separated (do filler; value)
  filler
  (symbol ')').commit
  return values

def membershipWord : Reader Unit :=
  ((Reader.word "isIn" ()).orElse (Reader.word "in" ())).commit.expecting .membershipWord

def membershipEntry : Reader MembershipEntry := do
  filler
  let field ← fieldName
  filler
  membershipWord
  let values ← valueList.commit.expecting .valueList
  return ⟨field, values⟩

end Reading

def MembershipEntry.parseList (text : String) : Except ParseError (List MembershipEntry) :=
  (Reading.listOf Reading.membershipEntry).parse text

end DecisionRules
