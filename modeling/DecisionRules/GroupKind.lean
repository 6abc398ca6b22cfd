/-! The connectives that join predicates and the two kinds of membership test. -/
namespace DecisionRules

inductive Connective where
  | allOf | anyOf | oneOf | noneOf
deriving DecidableEq, Repr

inductive MembershipKind where
  | memberOf | notMemberOf
deriving DecidableEq, Repr

inductive GroupKind where
  | predicates (connective : Connective)
  | membership (kind : MembershipKind)
deriving DecidableEq, Repr

def Connective.label : Connective → String
  | .allOf => "AND"
  | .anyOf => "OR"
  | .oneOf => "XOR"
  | .noneOf => "NOT"

def MembershipKind.label : MembershipKind → String
  | .memberOf => "IN"
  | .notMemberOf => "NOT IN"

def GroupKind.all : List GroupKind :=
  [.predicates .allOf, .predicates .anyOf, .predicates .oneOf, .predicates .noneOf,
    .membership .memberOf, .membership .notMemberOf]

def GroupKind.label : GroupKind → String
  | .predicates c => c.label
  | .membership m => m.label

def GroupKind.isMembership : GroupKind → Bool
  | .predicates _ => false
  | .membership _ => true

instance : Coe Connective GroupKind := ⟨.predicates⟩
instance : Coe MembershipKind GroupKind := ⟨.membership⟩

structure PerConnective (α : Type) where
  allOf : α
  anyOf : α
  oneOf : α
  noneOf : α
deriving DecidableEq, BEq, Repr

namespace PerConnective

variable {α β : Type}

def const (a : α) : PerConnective α := ⟨a, a, a, a⟩

def get (s : PerConnective α) : Connective → α
  | .allOf => s.allOf
  | .anyOf => s.anyOf
  | .oneOf => s.oneOf
  | .noneOf => s.noneOf

def set (s : PerConnective α) (a : α) : Connective → PerConnective α
  | .allOf => { s with allOf := a }
  | .anyOf => { s with anyOf := a }
  | .oneOf => { s with oneOf := a }
  | .noneOf => { s with noneOf := a }

def map (f : α → β) (s : PerConnective α) : PerConnective β :=
  ⟨f s.allOf, f s.anyOf, f s.oneOf, f s.noneOf⟩

def toList (s : PerConnective α) : List α := [s.allOf, s.anyOf, s.oneOf, s.noneOf]

def mapExcept {ε : Type} (s : PerConnective α) (f : Connective → α → Except ε β) :
    Except ε (PerConnective β) := do
  let allOf ← f .allOf s.allOf
  let anyOf ← f .anyOf s.anyOf
  let oneOf ← f .oneOf s.oneOf
  let noneOf ← f .noneOf s.noneOf
  return { allOf, anyOf, oneOf, noneOf }

@[simp] theorem get_const (a : α) (c : Connective) : (const a).get c = a := by
  cases c <;> rfl

theorem get_set (s : PerConnective α) (a : α) (c d : Connective) :
    (s.set a c).get d = if d = c then a else s.get d := by
  cases c <;> cases d <;> rfl

theorem eq_of_get_eq {s t : PerConnective α} (h : ∀ c, s.get c = t.get c) : s = t := by
  cases s; cases t
  simpa [get] using And.intro (h .allOf) (And.intro (h .anyOf) (And.intro (h .oneOf) (h .noneOf)))

end PerConnective

structure PerMembership (α : Type) where
  memberOf : α
  notMemberOf : α
deriving DecidableEq, BEq, Repr

namespace PerMembership

variable {α β : Type}

def const (a : α) : PerMembership α := ⟨a, a⟩

def get (s : PerMembership α) : MembershipKind → α
  | .memberOf => s.memberOf
  | .notMemberOf => s.notMemberOf

def set (s : PerMembership α) (a : α) : MembershipKind → PerMembership α
  | .memberOf => { s with memberOf := a }
  | .notMemberOf => { s with notMemberOf := a }

def map (f : α → β) (s : PerMembership α) : PerMembership β :=
  ⟨f s.memberOf, f s.notMemberOf⟩

def toList (s : PerMembership α) : List α := [s.memberOf, s.notMemberOf]

def mapExcept {ε : Type} (s : PerMembership α) (f : MembershipKind → α → Except ε β) :
    Except ε (PerMembership β) := do
  let memberOf ← f .memberOf s.memberOf
  let notMemberOf ← f .notMemberOf s.notMemberOf
  return { memberOf, notMemberOf }

@[simp] theorem get_const (a : α) (k : MembershipKind) : (const a).get k = a := by
  cases k <;> rfl

theorem get_set (s : PerMembership α) (a : α) (k l : MembershipKind) :
    (s.set a k).get l = if l = k then a else s.get l := by
  cases k <;> cases l <;> rfl

theorem eq_of_get_eq {s t : PerMembership α} (h : ∀ k, s.get k = t.get k) : s = t := by
  cases s; cases t
  simpa [get] using And.intro (h .memberOf) (h .notMemberOf)

end PerMembership
end DecisionRules
