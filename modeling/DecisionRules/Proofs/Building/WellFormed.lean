import DecisionRules.Proofs.Building.Build

/-! What is true of every built rule, said without the checks that see to it: of its
predicates, of its groups and of the places in which they stand, and of its status. -/
namespace DecisionRules

structure Predicate.WellFormed (p : Predicate) : Prop where
  field : Text.isBlankText p.field = false
  value : p.value.isFinite = true
  comparison : p.comparison.accepts p.value = true

theorem Predicate.wellFormed_iff {p : Predicate} : p.WellFormed ↔ p.fault? = none := by
  rw [fault?_eq_none_iff]
  constructor
  · intro h
    exact ⟨h.field, h.value, h.comparison⟩
  · intro h
    obtain ⟨hfield, hvalue, hcomparison⟩ := h
    exact ⟨hfield, hvalue, hcomparison⟩

structure ConstraintGroup.WellFormed (g : ConstraintGroup) : Prop where
  ne_nil : g.predicates ≠ []
  predicates : ∀ p ∈ g.predicates, p.WellFormed

theorem ConstraintGroup.wellFormed_iff {g : ConstraintGroup} : g.WellFormed ↔ g.Sound := by
  constructor
  · intro h
    exact ⟨h.ne_nil, fun p hp => Predicate.wellFormed_iff.mp (h.predicates p hp)⟩
  · intro h
    exact ⟨h.ne_nil, fun p hp => Predicate.wellFormed_iff.mpr (h.fault_eq_none p hp)⟩

/-- A membership group has entries, for fields with names of which no two are the same,
and each has values. -/
structure MembershipGroup.WellFormed (g : MembershipGroup) : Prop where
  ne_nil : g.entries ≠ []
  nodup : (g.entries.map (·.field)).Nodup
  field : ∀ e ∈ g.entries, Text.isBlankText e.field = false
  values : ∀ e ∈ g.entries, e.values ≠ []

theorem MembershipGroup.wellFormed_iff {g : MembershipGroup} :
    g.WellFormed ↔ Distinct g.entries ∧ g.Sound := by
  constructor
  · intro h
    exact ⟨h.nodup, h.ne_nil, fun e he => ⟨h.field e he, h.values e he⟩⟩
  · intro h
    obtain ⟨hdistinct, hne, hsound⟩ := h
    exact ⟨hne, hdistinct, fun e he => (hsound e he).visible, fun e he => (hsound e he).ne_nil⟩

/-- Checked entries make a well-formed group, and a well-formed group is made of its own. -/
theorem MembershipGroup.wellFormed_of_checked {k : MembershipKind} {es : List MembershipEntry}
    {g : MembershipGroup} (h : checked k es = .ok g) : g.WellFormed := by
  obtain ⟨rfl, hsound⟩ := checked_eq_ok_iff.mp h
  exact wellFormed_iff.mpr ⟨distinct_ofEntries k es, hsound⟩

theorem MembershipGroup.WellFormed.checked_entries {g : MembershipGroup} (h : g.WellFormed) :
    checked g.kind g.entries = .ok g := by
  obtain ⟨hdistinct, hsound⟩ := wellFormed_iff.mp h
  exact checked_eq_ok_iff.mpr ⟨(ofEntries_entries hdistinct).symm, hsound⟩

/-- A rule has a name and a status, every group stands in the place of its kind, its parts
are well formed, and its branches write what its node, its break clause and its status ask
for. -/
structure Rule.WellFormed (r : Rule) : Prop where
  name : Text.isBlankText r.name = false
  statusToSet : Text.isBlankText r.action.statusToSet = false
  connective (c : Connective) : ∀ g ∈ r.constraintGroup? c, g.connective = c
  constraintGroup (c : Connective) : ∀ g ∈ r.constraintGroup? c, g.WellFormed
  membershipKind (k : MembershipKind) : ∀ g ∈ r.membership? k, g.kind = k
  membership (k : MembershipKind) : ∀ g ∈ r.membership? k, g.WellFormed
  breakClause : ∀ b ∈ r.breakClause, b.predicate.WellFormed
  status : r.status = .resolve r.nodeKind r.breakPresence r.action.statusToSet

namespace Draft

variable {α β : Type} {d : Draft} {kind : NodeKind} {r : Rule}

/-- A part that is there has passed its check. -/
theorem exists_of_checkSome {f : α → Except RuleError β} {o : Option α} {o' : Option β}
    (h : checkSome f o = .ok o') {b : β} (hb : b ∈ o') : ∃ a ∈ o, f a = .ok b := by
  have hsome := checkSome_eq_ok_iff.mp h
  rw [Option.mem_def.mp hb] at hsome
  obtain ⟨a, ha, hchecked⟩ := Option.map_eq_some_iff.mp hsome
  exact ⟨a, ha, hchecked⟩

theorem Builds.constraintGroup (h : d.Builds kind r) {c : Connective} {g : ConstraintGroup}
    (hg : g ∈ r.constraintGroup? c) : g.connective = c ∧ g.WellFormed := by
  obtain ⟨ps, _, hchecked⟩ := exists_of_checkSome (h.constraints c) hg
  obtain ⟨rfl, hsound⟩ := ConstraintGroup.checked_eq_ok_iff.mp hchecked
  exact ⟨rfl, ConstraintGroup.wellFormed_iff.mpr hsound⟩

theorem Builds.membership (h : d.Builds kind r) {k : MembershipKind} {g : MembershipGroup}
    (hg : g ∈ r.membership? k) : g.kind = k ∧ g.WellFormed := by
  obtain ⟨es, _, hchecked⟩ := exists_of_checkSome (h.memberships k) hg
  have hwell := MembershipGroup.wellFormed_of_checked hchecked
  obtain ⟨rfl, _⟩ := MembershipGroup.checked_eq_ok_iff.mp hchecked
  exact ⟨rfl, hwell⟩

theorem Builds.breakPredicate (h : d.Builds kind r) {b : BreakClause} (hb : b ∈ r.breakClause) :
    b.predicate.WellFormed := by
  obtain ⟨p, _, hchecked⟩ := exists_of_checkSome h.breakClause hb
  obtain ⟨rfl, hfault⟩ := checkedBreak_eq_ok_iff.mp hchecked
  exact Predicate.wellFormed_iff.mpr hfault

theorem Builds.wellFormed (h : d.Builds kind r) : r.WellFormed where
  name := (requireSet_eq_ok_iff.mp h.name).2
  statusToSet := (requireSet_eq_ok_iff.mp h.statusToSet).2
  connective _ _ hg := (h.constraintGroup hg).1
  constraintGroup _ _ hg := (h.constraintGroup hg).2
  membershipKind _ _ hg := (h.membership hg).1
  membership _ _ hg := (h.membership hg).2
  breakClause _ hb := h.breakPredicate hb
  status := h.status

end Draft
end DecisionRules
