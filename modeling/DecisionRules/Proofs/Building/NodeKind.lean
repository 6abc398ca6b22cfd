import DecisionRules.Proofs.Building.FirstFault

/-! One draft built for a leaf and for an inner node. No check looks at the kind of the node,
and of what is built only the kind itself and the status of the branches depend on it. -/
namespace DecisionRules

namespace Rule

def atNode (r : Rule) (kind : NodeKind) : Rule :=
  { r with nodeKind := kind, status := .resolve kind r.breakPresence r.action.statusToSet }

/-- A rule for a leaf and one for an inner node, equal in everything but their kinds and what
their branches write. With a break clause the branches change places: where one rule writes the
status to set, the other marks the node as finished. Without one the leaf writes its status
when it matches, and the inner node writes nothing. -/
structure Counterparts (leaf inner : Rule) : Prop where
  leafKind : leaf.nodeKind = .leaf
  innerKind : inner.nodeKind = .nonLeaf
  same : inner = { leaf with nodeKind := inner.nodeKind, status := inner.status }
  exchanged : leaf.breakClause.isSome = true →
    leaf.status.ordinary = inner.status.onBreak ∧
      inner.status.onBreak = some leaf.action.statusToSet ∧
      leaf.status.onBreak = inner.status.ordinary ∧
      inner.status.ordinary = some BranchStatus.done
  unbroken : leaf.breakClause = none →
    leaf.status.ordinary = some leaf.action.statusToSet ∧ leaf.status.onBreak = none ∧
      inner.status.isNoop = true

private theorem counterparts_atNode (r : Rule) :
    Counterparts (r.atNode .leaf) (r.atNode .nonLeaf) where
  leafKind := rfl
  innerKind := rfl
  same := rfl
  exchanged h := by
    have hpresence : r.breakPresence = .present := congrArg BreakPresence.ofBool h
    simp [atNode, hpresence, BranchStatus.resolve]
  unbroken h := by
    have hpresence : r.breakPresence = .absent :=
      congrArg (fun clause : Option BreakClause => BreakPresence.ofBool clause.isSome) h
    simp [atNode, hpresence, BranchStatus.resolve, BranchStatus.isNoop]

end Rule

namespace Draft

variable {d : Draft} {kind : NodeKind} {r : Rule}

/-- The parts of a rule do not depend on the kind of its node. -/
private theorem Builds.atNode (h : d.Builds kind r) (kind' : NodeKind) :
    d.Builds kind' (r.atNode kind') :=
  { h with nodeKind := rfl, status := rfl }

theorem build_atNode (h : d.build kind = .ok r) (kind' : NodeKind) :
    d.build kind' = .ok (r.atNode kind') :=
  build_eq_ok_iff.mpr ((build_eq_ok_iff.mp h).atNode kind')

/-- Neither do its faults. -/
theorem build_eq_error_iff_of_kind (d : Draft) (kind kind' : NodeKind) (e : RuleError) :
    d.build kind = .error e ↔ d.build kind' = .error e :=
  (build_reports d kind e).trans (build_reports d kind' e).symm

/-- A draft is refused for the same reason at both kinds of node, or gives at each of them the
counterpart of the rule that it gives at the other. -/
theorem build_leaf_nonLeaf_counterparts (d : Draft) :
    (∃ e, d.build .leaf = .error e ∧ d.build .nonLeaf = .error e) ∨
      ∃ leaf inner, d.build .leaf = .ok leaf ∧ d.build .nonLeaf = .ok inner ∧
        d.statusToSet = some leaf.action.statusToSet ∧ Rule.Counterparts leaf inner := by
  cases h : d.build .leaf with
  | error e => exact .inl ⟨e, rfl, (build_eq_error_iff_of_kind d .leaf .nonLeaf e).mp h⟩
  | ok r =>
    have hstatus := (requireSet_eq_ok_iff.mp (build_eq_ok_iff.mp h).statusToSet).1
    have hleaf : d.build .leaf = .ok (r.atNode .leaf) := build_atNode h .leaf
    exact .inr ⟨r.atNode .leaf, r.atNode .nonLeaf, h.symm.trans hleaf, build_atNode h .nonLeaf,
      hstatus, r.counterparts_atNode⟩

end Draft
end DecisionRules
