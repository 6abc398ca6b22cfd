/-! The status that a rule writes on each of its two branches. -/
namespace DecisionRules

inductive NodeKind where
  | leaf | nonLeaf
deriving DecidableEq, Repr

namespace NodeKind

def all : List NodeKind := [.leaf, .nonLeaf]

def name : NodeKind → String
  | .leaf => "Leaf"
  | .nonLeaf => "NonLeaf"

end NodeKind

inductive BreakPresence where
  | present | absent
deriving DecidableEq, Repr

namespace BreakPresence

def ofBool : Bool → BreakPresence
  | true => .present
  | false => .absent

def all : List BreakPresence := [.present, .absent]

def name : BreakPresence → String
  | .present => "Present"
  | .absent => "Absent"

end BreakPresence

structure BranchStatus where
  ordinary : Option String
  onBreak : Option String
deriving DecidableEq, BEq, Repr

namespace BranchStatus

def done : String := "DONE"

/-- A leaf writes its status on the ordinary branch, and its break clause only marks the
node as finished. The status of an inner node counts when its break clause cuts the
descent short, and the ordinary branch marks the node as finished; without a break
clause an inner node writes nothing. -/
def resolve (kind : NodeKind) (presence : BreakPresence) (status : String) : BranchStatus :=
  match kind, presence with
  | .leaf, .absent => ⟨some status, none⟩
  | .leaf, .present => ⟨some status, some done⟩
  | .nonLeaf, .absent => ⟨none, none⟩
  | .nonLeaf, .present => ⟨some done, some status⟩

def isNoop (s : BranchStatus) : Bool := s.ordinary.isNone && s.onBreak.isNone

end BranchStatus
end DecisionRules
