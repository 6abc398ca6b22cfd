import DecisionRules.Proofs.Building.Checks

/-! Finite numbers in rules. The checks of a rule look at the values of its predicates but
not at those of its membership groups, its result and its outputs. A record without a NaN
equals itself. -/
namespace DecisionRules

def MembershipGroup.IsFinite (g : MembershipGroup) : Prop :=
  ∀ e ∈ g.entries, ∀ v ∈ e.values, v.isFinite = true

structure Action.IsFinite (a : Action) : Prop where
  result : ∀ v ∈ a.result, v.isFinite = true
  outputs : ∀ o ∈ a.outputs, o.value.isFinite = true

/-- Nothing but finite numbers in the places that no check of a rule looks at. -/
structure Rule.IsFinite (r : Rule) : Prop where
  memberships (k : MembershipKind) : ∀ g ∈ r.memberships.get k, g.IsFinite
  action : r.action.IsFinite

section Containers

variable {α : Type} [BEq α]

private theorem beq_self_list {xs : List α} (h : ∀ x ∈ xs, (x == x) = true) :
    (xs == xs) = true := by
  induction xs with
  | nil => rfl
  | cons x xs ih =>
    obtain ⟨hx, hxs⟩ := List.forall_mem_cons.mp h
    rw [List.cons_beq_cons, hx, ih hxs, Bool.and_self]

private theorem beq_self_option {o : Option α} (h : ∀ a ∈ o, (a == a) = true) :
    (o == o) = true := by
  cases o with
  | none => rfl
  | some a => exact h a rfl

private theorem beq_self_perConnective {s : PerConnective α}
    (h : ∀ c, (s.get c == s.get c) = true) : (s == s) = true := by
  have heq : (s == s) = (s.allOf == s.allOf && (s.anyOf == s.anyOf && (s.oneOf == s.oneOf &&
    s.noneOf == s.noneOf))) := rfl
  rw [heq]
  simp only [Bool.and_eq_true]
  exact ⟨h .allOf, h .anyOf, h .oneOf, h .noneOf⟩

private theorem beq_self_perMembership {s : PerMembership α}
    (h : ∀ k, (s.get k == s.get k) = true) : (s == s) = true := by
  have heq : (s == s) = (s.memberOf == s.memberOf && s.notMemberOf == s.notMemberOf) := rfl
  rw [heq, Bool.and_eq_true]
  exact ⟨h .memberOf, h .notMemberOf⟩

end Containers

theorem Predicate.beq_self {p : Predicate} (h : p.value.isFinite = true) : (p == p) = true := by
  have heq : (p == p) = (p.field == p.field && p.comparison == p.comparison && p.value == p.value) :=
    rfl
  rw [heq, Value.beq_self_of_isFinite h]
  simp

theorem ConstraintGroup.beq_self {g : ConstraintGroup}
    (h : ∀ p ∈ g.predicates, p.value.isFinite = true) : (g == g) = true := by
  have heq : (g == g) = (g.connective == g.connective && g.predicates == g.predicates) := rfl
  rw [heq, beq_self_list fun p hp => Predicate.beq_self (h p hp)]
  simp

theorem BreakClause.beq_self {b : BreakClause} (h : b.predicate.value.isFinite = true) :
    (b == b) = true := Predicate.beq_self h

theorem MembershipEntry.beq_self {e : MembershipEntry} (h : ∀ v ∈ e.values, v.isFinite = true) :
    (e == e) = true := by
  have heq : (e == e) = (e.field == e.field && e.values == e.values) := rfl
  rw [heq, beq_self_list fun v hv => Value.beq_self_of_isFinite (h v hv)]
  simp

theorem MembershipGroup.beq_self {g : MembershipGroup} (h : g.IsFinite) : (g == g) = true := by
  have heq : (g == g) = (g.kind == g.kind && g.entries == g.entries) := rfl
  rw [heq, beq_self_list fun e he => MembershipEntry.beq_self (h e he)]
  simp

theorem OutputField.beq_self {o : OutputField} (h : o.value.isFinite = true) : (o == o) = true := by
  have heq : (o == o) = (o.name == o.name && o.value == o.value) := rfl
  rw [heq, Value.beq_self_of_isFinite h]
  simp

theorem Action.beq_self {a : Action} (h : a.IsFinite) : (a == a) = true := by
  have heq : (a == a) = (a.statusToSet == a.statusToSet && (a.resultCode == a.resultCode &&
    (a.result == a.result && a.outputs == a.outputs))) := rfl
  rw [heq, beq_self_option fun v hv => Value.beq_self_of_isFinite (h.result v hv),
    beq_self_list fun o ho => OutputField.beq_self (h.outputs o ho)]
  simp

theorem BranchStatus.beq_self (s : BranchStatus) : (s == s) = true := by
  have heq : (s == s) = (s.ordinary == s.ordinary && s.onBreak == s.onBreak) := rfl
  rw [heq]
  simp

/-- A record equals itself if its predicates have passed their checks and the other
numbers are finite. -/
theorem Rule.beq_self {r : Rule} (h : r.IsFinite)
    (hconstraints : ∀ c, ∀ g ∈ r.constraints.get c, g.Sound)
    (hbreak : ∀ b ∈ r.breakClause, b.predicate.fault? = none) : (r == r) = true := by
  have hfinite (p : Predicate) (hp : p.fault? = none) : p.value.isFinite = true :=
    (Predicate.fault?_eq_none_iff.mp hp).2.1
  have hgroups : (r.constraints == r.constraints) = true := by
    apply beq_self_perConnective
    intro c
    apply beq_self_option
    intro g hg
    exact ConstraintGroup.beq_self fun p hp =>
      hfinite p ((hconstraints c g hg).fault_eq_none p hp)
  have hmemberships : (r.memberships == r.memberships) = true := by
    apply beq_self_perMembership
    intro k
    apply beq_self_option
    intro g hg
    exact MembershipGroup.beq_self (h.memberships k g hg)
  have hclause : (r.breakClause == r.breakClause) = true := by
    apply beq_self_option
    intro b hb
    exact BreakClause.beq_self (hfinite b.predicate (hbreak b hb))
  have heq : (r == r) = (r.name == r.name && (r.nodeKind == r.nodeKind &&
    (r.agendaGroup == r.agendaGroup && (r.activationGroup == r.activationGroup &&
    (r.focusedAgendaGroup == r.focusedAgendaGroup && (r.statusConstraint == r.statusConstraint &&
    (r.constraints == r.constraints && (r.memberships == r.memberships &&
    (r.breakClause == r.breakClause && (r.action == r.action && r.status == r.status)))))))))) := rfl
  rw [heq, hgroups, hmemberships, hclause, Action.beq_self h.action, BranchStatus.beq_self]
  simp

end DecisionRules
