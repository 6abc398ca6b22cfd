import DecisionRules.Predicate

/-! Membership groups: fields tested for membership in lists of values. A group keeps
the order in which fields first appear and for each field the values given last. -/
namespace DecisionRules

structure MembershipEntry where
  field : String
  values : List Value
deriving DecidableEq, BEq, Repr

namespace MembershipEntry

def valueSpellings : List Value → List Char
  | [] => []
  | [v] => v.spelling
  | v :: vs => v.spelling ++ ',' :: ' ' :: valueSpellings vs

def spelling (e : MembershipEntry) : List Char :=
  FieldName.spelling e.field.toList ++ " in (".toList ++ valueSpellings e.values ++ [')']

def listSpelling : List MembershipEntry → List Char
  | [] => []
  | [e] => e.spelling
  | e :: es => e.spelling ++ ',' :: ' ' :: listSpelling es

def listText (es : List MembershipEntry) : String := String.ofList (listSpelling es)

end MembershipEntry

structure MembershipGroup where
  kind : MembershipKind
  entries : List MembershipEntry
deriving DecidableEq, BEq, Repr

namespace MembershipGroup

/-- Entries with one more put in: its values replace those of its field, and a new field
goes to the end. -/
def put : List MembershipEntry → MembershipEntry → List MembershipEntry
  | [], e => [e]
  | x :: xs, e => if x.field = e.field then e :: xs else x :: put xs e

def ofEntries (kind : MembershipKind) (entries : List MembershipEntry) : MembershipGroup :=
  ⟨kind, entries.foldl put []⟩

def isNegated (g : MembershipGroup) : Bool := g.kind = .notMemberOf

def get? (g : MembershipGroup) (field : String) : Option (List Value) :=
  (g.entries.find? (·.field = field)).map (·.values)

def checkEntry (kind : MembershipKind) (e : MembershipEntry) : Except RuleError Unit :=
  if Text.isBlankText e.field then
    .error (.invalidArgument (kind.label ++ " constraint") "field name is empty")
  else if e.values.isEmpty then
    .error (.conflictingConstraint kind ("field '" ++ e.field ++ "' has no values"))
  else .ok ()

def check (g : MembershipGroup) : Except RuleError Unit :=
  if g.entries.isEmpty then .error (.conflictingConstraint g.kind "no fields supplied")
  else g.entries.forM (checkEntry g.kind)

def checked (kind : MembershipKind) (entries : List MembershipEntry) :
    Except RuleError MembershipGroup := do
  let g := ofEntries kind entries
  g.check
  return g

/-- Putting an entry in keeps the fields and their order and adds at most one. -/
theorem map_field_put (xs : List MembershipEntry) (e : MembershipEntry) :
    (put xs e).map (·.field) = if e.field ∈ xs.map (·.field) then xs.map (·.field)
      else xs.map (·.field) ++ [e.field] := by
  induction xs with
  | nil => simp [put]
  | cons x xs ih =>
    by_cases h : x.field = e.field
    · simp [put, h]
    · have h' : e.field ≠ x.field := Ne.symm h
      simp only [put, h, if_false, List.map_cons, ih, List.mem_cons, h', false_or]
      split <;> simp

/-- A field's entry is the one put in last. -/
theorem find?_put (xs : List MembershipEntry) (e : MembershipEntry) (field : String) :
    (put xs e).find? (·.field = field) =
      if e.field = field then some e else xs.find? (·.field = field) := by
  induction xs with
  | nil => by_cases h : e.field = field <;> simp [put, h]
  | cons x xs ih =>
    by_cases hx : x.field = e.field
    · by_cases h : e.field = field <;> simp [put, hx, h]
    · by_cases h : x.field = field
      · have hne : e.field ≠ field := fun he => hx (h.trans he.symm)
        rw [put, if_neg hx]
        simp [h, hne]
      · simp [put, hx, h, ih]

end MembershipGroup
end DecisionRules
