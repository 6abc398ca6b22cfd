import DecisionRules.Proofs.Building.Checks

/-! What a built rule is. Building succeeds exactly if every part passes its check, and
the rule is then determined; a built rule told to a new draft is built again. -/
namespace DecisionRules

namespace Draft

variable {α β : Type}

theorem requireSet_eq_ok_iff {what text : String} {o : Option String} :
    requireSet what o = .ok text ↔ o = some text ∧ Text.isBlankText text = false := by
  cases o with
  | none => simp [requireSet]
  | some given =>
    rw [requireSet]
    cases hblank : Text.isBlankText given with
    | true =>
      constructor
      · intro h
        cases h
      · intro hr
        obtain ⟨hgiven, hvisible⟩ := hr
        cases hgiven
        rw [hblank] at hvisible
        cases hvisible
    | false =>
      constructor
      · intro h
        cases h
        exact ⟨rfl, hblank⟩
      · intro hr
        obtain ⟨hgiven, _⟩ := hr
        cases hgiven
        rfl

/-- A part that may be absent passes its check if it is absent, or if it is there and passes. -/
theorem checkSome_eq_ok_iff {f : α → Except RuleError β} {o : Option α} {o' : Option β} :
    checkSome f o = .ok o' ↔ o.map f = o'.map .ok := by
  cases o with
  | none => cases o' <;> simp [checkSome]
  | some a =>
    rw [checkSome, map_eq_ok_iff]
    cases o' with
    | none => simp
    | some b => simp

theorem checkedBreak_eq_ok_iff {p : Predicate} {b : BreakClause} :
    checkedBreak p = .ok b ↔ b = ⟨p⟩ ∧ p.fault? = none := by
  simp only [checkedBreak, unit_bind_eq_ok_iff, pure_eq_ok_iff, Predicate.check_eq_ok_iff]
  constructor
  · intro h
    obtain ⟨hfault, hb⟩ := h
    exact ⟨hb.symm, hfault⟩
  · intro h
    obtain ⟨hb, hfault⟩ := h
    exact ⟨hfault, hb.symm⟩

/-- A part passes its check, said as it is said of a part, if what the check makes of that
is the part. -/
theorem checkSome_said {f : α → Except RuleError β} {said : β → α} {o : Option β}
    (h : ∀ b ∈ o, f (said b) = .ok b) : checkSome f (o.map said) = .ok o := by
  rw [checkSome_eq_ok_iff]
  cases o with
  | none => rfl
  | some b => exact congrArg some (h b rfl)

/-- A part that has passed its check passes it again, said as it is said of a part. -/
theorem checkSome_again {f : α → Except RuleError β} {said : β → α}
    (h : ∀ a b, f a = .ok b → f (said b) = .ok b) {o : Option α} {o' : Option β}
    (ho : checkSome f o = .ok o') : checkSome f (o'.map said) = .ok o' := by
  rw [checkSome_eq_ok_iff] at ho ⊢
  cases o' with
  | none => rfl
  | some b =>
    obtain ⟨a, _, ha⟩ := Option.map_eq_some_iff.mp ho
    exact congrArg some (h a b ha)

structure Builds (d : Draft) (kind : NodeKind) (r : Rule) : Prop where
  name : requireSet "name" d.name = .ok r.name
  statusToSet : requireSet "status_to_set" d.statusToSet = .ok r.action.statusToSet
  constraints (c : Connective) :
    checkSome (ConstraintGroup.checked c) (d.predicates.get c) = .ok (r.constraints.get c)
  memberships (k : MembershipKind) :
    checkSome (MembershipGroup.checked k) (d.memberships.get k) = .ok (r.memberships.get k)
  breakClause : checkSome checkedBreak d.breakPredicate = .ok r.breakClause
  nodeKind : r.nodeKind = kind
  agendaGroup : r.agendaGroup = d.agendaGroup
  activationGroup : r.activationGroup = d.activationGroup
  focusedAgendaGroup : r.focusedAgendaGroup = d.focusedAgendaGroup
  statusConstraint : r.statusConstraint = d.statusConstraint
  resultCode : r.action.resultCode = d.resultCode
  result : r.action.result = d.result
  outputs : r.action.outputs = d.outputs
  status : r.status = .resolve r.nodeKind (.ofBool r.breakClause.isSome) r.action.statusToSet

theorem build_eq_ok_iff {d : Draft} {kind : NodeKind} {r : Rule} :
    d.build kind = .ok r ↔ d.Builds kind r := by
  simp only [build, bind_eq_ok_iff, pure_eq_ok_iff, PerConnective.mapExcept_eq_ok_iff,
    PerMembership.mapExcept_eq_ok_iff]
  constructor
  · intro h
    obtain ⟨_, hname, _, hstatus, _, hconstraints, _, hmemberships, _, hbreak, hr⟩ := h
    cases hr
    exact ⟨hname, hstatus, hconstraints, hmemberships, hbreak, rfl, rfl, rfl, rfl, rfl, rfl, rfl,
      rfl, rfl⟩
  · intro h
    refine ⟨_, h.name, _, h.statusToSet, _, h.constraints, _, h.memberships, _, h.breakClause, ?_⟩
    rw [← h.nodeKind, ← h.agendaGroup, ← h.activationGroup, ← h.focusedAgendaGroup,
      ← h.statusConstraint, ← h.resultCode, ← h.result, ← h.outputs, ← h.status]

end Draft
end DecisionRules
