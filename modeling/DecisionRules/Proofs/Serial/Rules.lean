import DecisionRules.Proofs.Building.Build
import DecisionRules.Proofs.Serial.Parts

/-! Rules through JSON. What is written of a record is taken apart and built again, so
reading it back asks what building asks, and nothing else but that numbers are finite
where no check looks, and that every group and the status are where they belong. -/
namespace DecisionRules

open Serial

namespace Rule

def merged (r : Rule) : Rule :=
  { r with memberships := r.memberships.map (Option.map MembershipGroup.merged) }

structure PartsPass (r : Rule) : Prop where
  constraints (c : Connective) : ∀ g ∈ r.constraints.get c, g.Sound
  memberships (k : MembershipKind) : ∀ g ∈ r.memberships.get k, g.IsFinite ∧ g.merged.Sound
  breakClause : ∀ b ∈ r.breakClause, b.predicate.fault? = none
  action : r.action.IsFinite

theorem shape_decodes : Decodes Rule.shape.decode Rule.toJson PartsPass merged := by
  intro r claimed
  have htext := carries_text.option fun _ => by nofun
  have hgroup := ConstraintGroup.carries.option fun _ => by nofun
  have hmembership := MembershipGroup.decodes.option fun _ => by nofun
  have hbreak := BreakClause.carries.option fun _ => by nofun
  have hmembers : Rule.shape.decode r.toJson = .ok claimed ↔
      (∀ g ∈ r.constraints.allOf, g.Sound) ∧ (∀ g ∈ r.constraints.anyOf, g.Sound) ∧
      (∀ g ∈ r.constraints.oneOf, g.Sound) ∧ (∀ g ∈ r.constraints.noneOf, g.Sound) ∧
      (∀ g ∈ r.memberships.memberOf, g.IsFinite ∧ g.merged.Sound) ∧
      (∀ g ∈ r.memberships.notMemberOf, g.IsFinite ∧ g.merged.Sound) ∧
      (∀ b ∈ r.breakClause, b.predicate.fault? = none) ∧ r.action.IsFinite ∧
      claimed = r.merged := by
    rw [toJson, Shape.decode_object_eq_ok_iff]
    simp only [shape, constraintsShape, membershipsShape, Shape.seq_eq_ok_iff,
      Shape.map_eq_ok_iff, Shape.required_eq_ok_iff, Shape.optional_eq_ok_iff]
    simp [List.lookup_cons, carries_text r.name _, NodeKind.ofJson_toJson, htext r.agendaGroup _,
      htext r.activationGroup _, htext r.focusedAgendaGroup _, htext r.statusConstraint _,
      hgroup r.constraints.allOf _, hgroup r.constraints.anyOf _, hgroup r.constraints.oneOf _,
      hgroup r.constraints.noneOf _, hmembership r.memberships.memberOf _,
      hmembership r.memberships.notMemberOf _, hbreak r.breakClause _, Action.carries r.action _,
      BranchStatus.carries r.status _, and_assoc, merged, PerMembership.map]
  rw [hmembers]
  constructor
  · intro h
    obtain ⟨hall, hany, hone, hnone, hin, hout, hclause, haction, hclaimed⟩ := h
    refine ⟨⟨?_, ?_, hclause, haction⟩, hclaimed⟩
    · intro c
      cases c <;> assumption
    · intro k
      cases k <;> assumption
  · intro h
    obtain ⟨hpass, hclaimed⟩ := h
    exact ⟨hpass.constraints .allOf, hpass.constraints .anyOf, hpass.constraints .oneOf,
      hpass.constraints .noneOf, hpass.memberships .memberOf, hpass.memberships .notMemberOf,
      hpass.breakClause, hpass.action, hclaimed⟩

structure InPlace (r : Rule) : Prop where
  constraints (c : Connective) : ∀ g ∈ r.constraints.get c, g.connective = c
  memberships (k : MembershipKind) : ∀ g ∈ r.memberships.get k, g.kind = k

private theorem checkPlace_map_eq_ok_iff {α : Type} {place : GroupKind} {kind : α → GroupKind}
    {group? : Option α} {u : Unit} :
    checkPlace place (group?.map kind) = .ok u ↔ ∀ g ∈ group?, kind g = place := by
  cases group? with
  | none => simp [checkPlace]
  | some g => by_cases h : kind g = place <;> simp [checkPlace, h]

theorem checkPlaces_eq_ok_iff {r : Rule} : r.checkPlaces = .ok () ↔ r.InPlace := by
  simp only [checkPlaces, bind_eq_ok_iff, PerConnective.mapExcept_eq_ok_iff,
    PerMembership.mapExcept_eq_ok_iff, checkPlace_map_eq_ok_iff]
  constructor
  · intro h
    obtain ⟨_, hconstraints, _, hmemberships, _⟩ := h
    refine ⟨?_, ?_⟩
    · intro c g hg
      exact GroupKind.predicates.inj (hconstraints c g hg)
    · intro k g hg
      exact GroupKind.membership.inj (hmemberships k g hg)
  · intro h
    refine ⟨.const (), ?_, .const (), ?_, rfl⟩
    · intro c g hg
      rw [h.constraints c g hg]
    · intro k g hg
      rw [h.memberships k g hg]

theorem rebuild_eq_ok_iff {claimed r : Rule} : claimed.rebuild = .ok r ↔
    claimed.InPlace ∧ (Draft.ofRule claimed).build claimed.nodeKind = .ok r ∧
      r.status = claimed.status := by
  rw [rebuild, unit_bind_eq_ok_iff, checkPlaces_eq_ok_iff, bind_eq_ok_iff]
  constructor
  · intro h
    obtain ⟨hplace, built, hbuilt, hstatus⟩ := h
    split at hstatus
    · next heq =>
      cases hstatus
      exact ⟨hplace, hbuilt, heq⟩
    · cases hstatus
  · intro h
    obtain ⟨hplace, hbuilt, heq⟩ := h
    refine ⟨hplace, r, hbuilt, ?_⟩
    rw [if_pos heq]
    rfl

/-- Building merges the entries in any case. -/
theorem build_ofRule_merged (r : Rule) (kind : NodeKind) :
    (Draft.ofRule r.merged).build kind = (Draft.ofRule r).build kind := by
  have hchecked (k : MembershipKind) : Draft.checkSome (MembershipGroup.checked k)
        ((Draft.ofRule r.merged).memberships.get k) =
      Draft.checkSome (MembershipGroup.checked k) ((Draft.ofRule r).memberships.get k) := by
    simp only [Draft.ofRule, merged, PerMembership.get_map]
    cases r.memberships.get k with
    | none => rfl
    | some g => exact congrArg (some <$> ·) (MembershipGroup.checked_ofEntries k g.kind g.entries)
  rw [Draft.build, Draft.build, PerMembership.mapExcept_congr hchecked]
  rfl

/-- What building checks is what the readers of the parts check. -/
theorem partsPass_of_build {r built : Rule} {kind : NodeKind} (hfinite : r.IsFinite)
    (hplace : r.InPlace) (h : (Draft.ofRule r).build kind = .ok built) : r.PartsPass where
  constraints c g hg := by
    have hsome := (Draft.build_eq_ok_iff.mp h).constraints c
    rw [Draft.ofRule, PerConnective.get_map, Option.mem_def.mp hg] at hsome
    obtain ⟨g', hchecked, _⟩ := map_eq_ok_iff.mp hsome
    obtain ⟨rfl, hsound⟩ := ConstraintGroup.checked_eq_ok_iff.mp hchecked
    exact ⟨hsound.ne_nil, hsound.fault_eq_none⟩
  memberships k g hg := by
    refine ⟨hfinite.memberships k g hg, ?_⟩
    have hsome := (Draft.build_eq_ok_iff.mp h).memberships k
    rw [Draft.ofRule, PerMembership.get_map, Option.mem_def.mp hg] at hsome
    obtain ⟨g', hchecked, _⟩ := map_eq_ok_iff.mp hsome
    obtain ⟨rfl, hsound⟩ := MembershipGroup.checked_eq_ok_iff.mp hchecked
    rw [MembershipGroup.merged, hplace.memberships k g hg]
    exact hsound
  breakClause b hb := by
    have hsome := (Draft.build_eq_ok_iff.mp h).breakClause
    rw [Draft.ofRule, Option.mem_def.mp hb] at hsome
    obtain ⟨b', hchecked, _⟩ := map_eq_ok_iff.mp hsome
    exact (Draft.checkedBreak_eq_ok_iff.mp hchecked).2
  action := hfinite.action

theorem inPlace_merged_iff {r : Rule} : r.merged.InPlace ↔ r.InPlace := by
  constructor
  · intro h
    refine ⟨h.constraints, ?_⟩
    intro k g hg
    have hmerged := h.memberships k g.merged
    rw [merged, PerMembership.get_map, Option.mem_def.mp hg] at hmerged
    exact hmerged rfl
  · intro h
    refine ⟨h.constraints, ?_⟩
    intro k g' hg'
    rw [merged, PerMembership.get_map] at hg'
    obtain ⟨g, hg, rfl⟩ := Option.map_eq_some_iff.mp hg'
    exact h.memberships k g hg

/-- What is written of any record is read back as what the record builds, if it builds
anything and claims its status. -/
theorem ofJson_toJson_eq_ok_iff {r r' : Rule} : Rule.ofJson r.toJson = .ok r' ↔
    r.IsFinite ∧ r.InPlace ∧ (Draft.ofRule r).build r.nodeKind = .ok r' ∧ r'.status = r.status := by
  have hkind : r.merged.nodeKind = r.nodeKind := rfl
  have hclaim : r.merged.status = r.status := rfl
  rw [ofJson, shape_decodes.checking_eq_ok_iff, rebuild_eq_ok_iff, inPlace_merged_iff,
    build_ofRule_merged, hkind, hclaim]
  constructor
  · intro h
    obtain ⟨hpass, hplace, hbuilt, hstatus⟩ := h
    refine ⟨⟨?_, hpass.action⟩, hplace, hbuilt, hstatus⟩
    intro k g hg
    exact (hpass.memberships k g hg).1
  · intro h
    obtain ⟨hfinite, hplace, hbuilt, hstatus⟩ := h
    exact ⟨partsPass_of_build hfinite hplace hbuilt, hplace, hbuilt, hstatus⟩

end Rule
end DecisionRules
