import DecisionRules.Proofs.Serial.Rules

/-! Built rules through JSON. A built rule has every group in its place and builds itself
again, so it comes back whenever its numbers do. -/
namespace DecisionRules

namespace Draft

variable {d : Draft} {kind : NodeKind} {r : Rule}

private theorem Builds.inPlace (h : d.Builds kind r) : r.InPlace where
  constraints c g hg := by
    have hsome := checkSome_eq_ok_iff.mp (h.constraints c)
    rw [Option.mem_def.mp hg] at hsome
    obtain ⟨ps, _, hchecked⟩ := Option.map_eq_some_iff.mp hsome
    obtain ⟨rfl, _⟩ := ConstraintGroup.checked_eq_ok_iff.mp hchecked
    rfl
  memberships k g hg := by
    have hsome := checkSome_eq_ok_iff.mp (h.memberships k)
    rw [Option.mem_def.mp hg] at hsome
    obtain ⟨es, _, hchecked⟩ := Option.map_eq_some_iff.mp hsome
    obtain ⟨rfl, _⟩ := MembershipGroup.checked_eq_ok_iff.mp hchecked
    rfl

/-- What a built rule says of itself builds the rule. -/
private theorem Builds.again (h : d.Builds kind r) : (ofRule r).Builds r.nodeKind r where
  name := requireSet_eq_ok_iff.mpr ⟨rfl, (requireSet_eq_ok_iff.mp h.name).2⟩
  statusToSet := requireSet_eq_ok_iff.mpr ⟨rfl, (requireSet_eq_ok_iff.mp h.statusToSet).2⟩
  constraints c := by
    rw [ofRule, PerConnective.get_map]
    apply checkSome_again _ (h.constraints c)
    intro ps g hg
    obtain ⟨rfl, hsound⟩ := ConstraintGroup.checked_eq_ok_iff.mp hg
    exact hg
  memberships k := by
    rw [ofRule, PerMembership.get_map]
    apply checkSome_again _ (h.memberships k)
    intro es g hg
    obtain ⟨rfl, hsound⟩ := MembershipGroup.checked_eq_ok_iff.mp hg
    rw [MembershipGroup.checked_ofEntries]
    exact hg
  breakClause := by
    rw [ofRule]
    apply checkSome_again _ h.breakClause
    intro p b hb
    obtain ⟨rfl, hfault⟩ := checkedBreak_eq_ok_iff.mp hb
    exact hb
  nodeKind := rfl
  agendaGroup := rfl
  activationGroup := rfl
  focusedAgendaGroup := rfl
  statusConstraint := rfl
  resultCode := rfl
  result := rfl
  outputs := rfl
  status := h.status

/-- A built rule is read back unchanged if it is read back at all. -/
theorem Builds.ofJson_toJson_eq_ok_iff (h : d.Builds kind r) {r' : Rule} :
    Rule.ofJson r.toJson = .ok r' ↔ r.IsFinite ∧ r' = r := by
  rw [Rule.ofJson_toJson_eq_ok_iff, build_eq_ok_iff.mpr h.again]
  constructor
  · intro hr
    obtain ⟨hfinite, _, hbuilt, _⟩ := hr
    cases hbuilt
    exact ⟨hfinite, rfl⟩
  · intro hr
    obtain ⟨hfinite, hr⟩ := hr
    subst hr
    exact ⟨hfinite, h.inPlace, rfl, rfl⟩

theorem Builds.beq_self (h : d.Builds kind r) (hfinite : r.IsFinite) : (r == r) = true := by
  have hpass := Rule.partsPass_of_build hfinite h.inPlace (build_eq_ok_iff.mpr h.again)
  exact Rule.beq_self hfinite hpass.constraints hpass.breakClause

/-- A rule that has been built, from any draft and with any settings, comes back from JSON
if and only if its membership values, its result and its outputs are finite. -/
theorem ofJson_toJson_of_build_iff_isFinite {start : Draft} {settings : List Setting}
    (h : (start.setAll settings).build kind = .ok r) :
    ((∃ r', Rule.ofJson r.toJson = .ok r' ∧ (r' == r) = true) ↔ r.IsFinite) ∧
      (¬r.IsFinite → ∃ e, Rule.ofJson r.toJson = .error e) := by
  have hbuilds := build_eq_ok_iff.mp h
  constructor
  · constructor
    · intro hr
      obtain ⟨r', hread, _⟩ := hr
      exact (hbuilds.ofJson_toJson_eq_ok_iff.mp hread).1
    · intro hfinite
      exact ⟨r, hbuilds.ofJson_toJson_eq_ok_iff.mpr ⟨hfinite, rfl⟩, hbuilds.beq_self hfinite⟩
  · intro hfinite
    cases hread : Rule.ofJson r.toJson with
    | error e => exact ⟨e, rfl⟩
    | ok r' => exact absurd (hbuilds.ofJson_toJson_eq_ok_iff.mp hread).1 hfinite

def measured (v : Value) : Rule where
  name := "measured"
  nodeKind := .leaf
  agendaGroup := none
  activationGroup := some "probes"
  focusedAgendaGroup := none
  statusConstraint := none
  constraints := ⟨none, none, none, some ⟨.noneOf, [⟨"LOAD", .gt, .int 90⟩]⟩⟩
  memberships := ⟨some ⟨.memberOf, [⟨"ZONE", [v]⟩, ⟨"SITE", [.string "north"]⟩]⟩, none⟩
  breakClause := some ⟨⟨"HALT", .eq, .bool true⟩⟩
  action := ⟨"SEEN", some .fail, some (.int 3), [⟨"LEVEL", .int 2⟩]⟩
  status := ⟨some "SEEN", some "DONE"⟩

/-- The settings that make it. The list is set with one of its fields repeated. -/
def measuredSettings (v : Value) : List Setting :=
  [.name "measured", .statusToSet "SEEN", .activationGroup "probes",
    .predicates .noneOf [⟨"LOAD", .gt, .int 90⟩],
    .membership .memberOf [⟨"ZONE", [.int 1]⟩, ⟨"SITE", [.string "north"]⟩, ⟨"ZONE", [v]⟩],
    .breakOn ⟨"HALT", .eq, .bool true⟩, .resultCode .fail, .result (.int 3),
    .outputs [⟨"LEVEL", .int 2⟩]]

/-- A value of a list, which building does not look at, decides whether the rule comes back. -/
theorem ofJson_toJson_of_build_measured :
    (empty.setAll (measuredSettings (.int 4))).build .leaf = .ok (measured (.int 4)) ∧
      (∃ r', Rule.ofJson (measured (.int 4)).toJson = .ok r' ∧ (r' == measured (.int 4)) = true) ∧
      (empty.setAll (measuredSettings (.float .nan))).build .leaf =
        .ok (measured (.float .nan)) ∧
      ∃ e, Rule.ofJson (measured (.float .nan)).toJson = .error e := by
  have hbuilt :
      (empty.setAll (measuredSettings (.int 4))).build .leaf = .ok (measured (.int 4)) := by rfl
  have hbuilt_nan : (empty.setAll (measuredSettings (.float .nan))).build .leaf =
      .ok (measured (.float .nan)) := by rfl
  have hint : (measured (.int 4)).IsFinite := by
    refine ⟨?_, ?_, ?_⟩
    · intro k g hg
      cases k with
      | memberOf =>
        cases hg
        simp [MembershipGroup.IsFinite, Value.isFinite]
      | notMemberOf => cases hg
    · intro v hv
      cases hv
      rfl
    · intro o ho
      rw [List.mem_singleton.mp ho]
      rfl
  have hnan : ¬(measured (.float .nan)).IsFinite := by
    intro hfinite
    have hzone := hfinite.memberships .memberOf _ rfl _ List.mem_cons_self _ List.mem_cons_self
    exact absurd hzone (by decide)
  exact ⟨hbuilt, (ofJson_toJson_of_build_iff_isFinite hbuilt).1.mpr hint, hbuilt_nan,
    (ofJson_toJson_of_build_iff_isFinite hbuilt_nan).2 hnan⟩

end Draft
end DecisionRules
