import DecisionRules.Proofs.Building.Settings
import DecisionRules.Proofs.Building.WellFormed
import DecisionRules.Proofs.Serial.Rules

/-! The rules that there can be. A rule comes out of a draft or out of JSON, and either way
it is well formed; a well-formed rule says enough of itself to be built. Parts that are
decoded on their own are well formed as well. -/
namespace DecisionRules

open Serial

theorem Predicate.wellFormed_of_ofJson {j : Json} {p : Predicate} (h : ofJson j = .ok p) :
    p.WellFormed := by
  obtain ⟨_, _, hchecked⟩ := checking_eq_ok_iff.mp h
  exact wellFormed_iff.mpr (checked_eq_ok_iff.mp hchecked).2

theorem Predicate.exists_ofJson_iff {p : Predicate} : (∃ j, ofJson j = .ok p) ↔ p.WellFormed := by
  constructor
  · intro h
    obtain ⟨j, hj⟩ := h
    exact wellFormed_of_ofJson hj
  · intro h
    exact ⟨p.toJson, (carries p p).mpr ⟨wellFormed_iff.mp h, rfl⟩⟩

theorem BreakClause.wellFormed_of_ofJson {j : Json} {b : BreakClause} (h : ofJson j = .ok b) :
    b.predicate.WellFormed := by
  have hpredicate : (Shape.required "predicate" Predicate.ofJson).Gives (fun _ => True)
      Predicate.WellFormed := Shape.gives_required fun _ _ _ => Predicate.wellFormed_of_ofJson
  have hclause : BreakClause.shape.Gives (fun _ => True) (·.predicate.WellFormed) :=
    hpredicate.map fun _ hp => hp
  exact hclause.decode (fun _ _ => trivial) h

theorem BreakClause.exists_ofJson_iff {b : BreakClause} :
    (∃ j, ofJson j = .ok b) ↔ b.predicate.WellFormed := by
  constructor
  · intro h
    obtain ⟨j, hj⟩ := h
    exact wellFormed_of_ofJson hj
  · intro h
    exact ⟨b.toJson, (carries b b).mpr ⟨Predicate.wellFormed_iff.mp h, rfl⟩⟩

theorem ConstraintGroup.wellFormed_of_ofJson {j : Json} {g : ConstraintGroup}
    (h : ofJson j = .ok g) : g.WellFormed := by
  obtain ⟨⟨kind, ps⟩, _, hparts⟩ := checking_eq_ok_iff.mp h
  cases kind with
  | predicates c => exact wellFormed_iff.mpr (checked_eq_ok_iff.mp hparts).2
  | membership => cases hparts

theorem ConstraintGroup.exists_ofJson_iff {g : ConstraintGroup} :
    (∃ j, ofJson j = .ok g) ↔ g.WellFormed := by
  constructor
  · intro h
    obtain ⟨j, hj⟩ := h
    exact wellFormed_of_ofJson hj
  · intro h
    exact ⟨g.toJson, (carries g g).mpr ⟨wellFormed_iff.mp h, rfl⟩⟩

theorem MembershipGroup.wellFormed_of_ofJson {j : Json} {g : MembershipGroup}
    (h : ofJson j = .ok g) : g.WellFormed := by
  obtain ⟨⟨kind, es⟩, _, hparts⟩ := checking_eq_ok_iff.mp h
  cases kind with
  | predicates => cases hparts
  | membership k => exact wellFormed_of_checked hparts

/-- A well-formed group lists no field twice and so comes back as it is. -/
theorem MembershipGroup.WellFormed.ofJson_toJson {g : MembershipGroup} (h : g.WellFormed)
    (hfinite : g.IsFinite) : ofJson g.toJson = .ok g := by
  obtain ⟨hdistinct, hsound⟩ := wellFormed_iff.mp h
  have hmerged : g.merged = g := ofEntries_entries hdistinct
  refine (decodes g g).mpr ⟨⟨hfinite, ?_⟩, hmerged.symm⟩
  rw [hmerged]
  exact hsound

namespace Rule

/-- The ways to come by a rule: settings for a new draft, with or without the parts that
every rule needs, or any JSON at all. -/
inductive Obtainable (r : Rule) : Prop
  | built (settings : List Setting) (kind : NodeKind)
      (h : (Draft.empty.setAll settings).build kind = .ok r)
  | started (name statusToSet : String) (outputs : List OutputField) (d : Draft)
      (hstart : Draft.start name statusToSet outputs = .ok d) (settings : List Setting)
      (kind : NodeKind) (h : (d.setAll settings).build kind = .ok r)
  | decoded (j : Json) (h : Rule.ofJson j = .ok r)

theorem wellFormed_of_build {d : Draft} {kind : NodeKind} {r : Rule} (h : d.build kind = .ok r) :
    r.WellFormed := (Draft.build_eq_ok_iff.mp h).wellFormed

/-- What decodes has been built, whatever it claimed to be. -/
theorem wellFormed_of_ofJson {j : Json} {r : Rule} (h : ofJson j = .ok r) : r.WellFormed := by
  obtain ⟨_, _, hrebuilt⟩ := checking_eq_ok_iff.mp h
  exact wellFormed_of_build (rebuild_eq_ok_iff.mp hrebuilt).2.1

theorem Obtainable.wellFormed {r : Rule} (h : r.Obtainable) : r.WellFormed := by
  cases h with
  | built _ _ h => exact wellFormed_of_build h
  | started _ _ _ _ _ _ _ h => exact wellFormed_of_build h
  | decoded _ h => exact wellFormed_of_ofJson h

/-- A well-formed rule passes all checks when it is told to a draft part by part. -/
theorem WellFormed.builds {r : Rule} (h : r.WellFormed) :
    (Draft.ofRule r).Builds r.nodeKind r where
  name := Draft.requireSet_eq_ok_iff.mpr ⟨rfl, h.name⟩
  statusToSet := Draft.requireSet_eq_ok_iff.mpr ⟨rfl, h.statusToSet⟩
  constraints c := by
    rw [Draft.ofRule, PerConnective.get_map]
    apply Draft.checkSome_said
    intro g hg
    refine ConstraintGroup.checked_eq_ok_iff.mpr ⟨?_, ?_⟩
    · rw [← h.connective c g hg]
    · exact ConstraintGroup.wellFormed_iff.mp (h.constraintGroup c g hg)
  memberships k := by
    rw [Draft.ofRule, PerMembership.get_map]
    apply Draft.checkSome_said
    intro g hg
    rw [← h.membershipKind k g hg]
    exact (h.membership k g hg).checked_entries
  breakClause := by
    rw [Draft.ofRule]
    apply Draft.checkSome_said
    intro b hb
    exact Draft.checkedBreak_eq_ok_iff.mpr ⟨rfl, Predicate.wellFormed_iff.mp (h.breakClause b hb)⟩
  nodeKind := rfl
  agendaGroup := rfl
  activationGroup := rfl
  focusedAgendaGroup := rfl
  statusConstraint := rfl
  resultCode := rfl
  result := rfl
  outputs := rfl
  status := h.status

theorem WellFormed.obtainable {r : Rule} (h : r.WellFormed) : r.Obtainable := by
  refine .built (Draft.ofRule r).settings r.nodeKind ?_
  rw [Draft.setAll_settings]
  exact Draft.build_eq_ok_iff.mpr h.builds

/-- There are all well-formed rules and no others, whichever way a rule has come. What is
decoded on its own is well formed too, and comes out of its own JSON; of membership groups
only those do that list finite numbers. -/
theorem obtainable_iff_wellFormed :
    (∀ r : Rule, r.Obtainable ↔ r.WellFormed) ∧
      (∀ p : Predicate, (∃ j, Predicate.ofJson j = .ok p) ↔ p.WellFormed) ∧
      (∀ b : BreakClause, (∃ j, BreakClause.ofJson j = .ok b) ↔ b.predicate.WellFormed) ∧
      (∀ g : ConstraintGroup, (∃ j, ConstraintGroup.ofJson j = .ok g) ↔ g.WellFormed) ∧
      ∀ g : MembershipGroup, ((∃ j, MembershipGroup.ofJson j = .ok g) → g.WellFormed) ∧
        (g.WellFormed → g.IsFinite → MembershipGroup.ofJson g.toJson = .ok g) :=
  ⟨fun _ => ⟨Obtainable.wellFormed, WellFormed.obtainable⟩, fun _ => Predicate.exists_ofJson_iff,
    fun _ => BreakClause.exists_ofJson_iff, fun _ => ConstraintGroup.exists_ofJson_iff,
    fun _ => ⟨fun ⟨_, hj⟩ => MembershipGroup.wellFormed_of_ofJson hj,
      fun hg hfinite => hg.ofJson_toJson hfinite⟩⟩

def watched : Rule where
  name := "watched"
  nodeKind := .nonLeaf
  agendaGroup := none
  activationGroup := none
  focusedAgendaGroup := none
  statusConstraint := none
  constraints := { PerConnective.const none with oneOf := some ⟨.oneOf, [⟨"T", .ge, .int 30⟩]⟩ }
  memberships := ⟨none, some ⟨.notMemberOf, [⟨"ZONE", [.int 3]⟩, ⟨"LINE", [.bool true]⟩]⟩⟩
  breakClause := some ⟨⟨"T", .eq, .bool false⟩⟩
  action := ⟨"HOT", none, none, []⟩
  status := ⟨some "DONE", some "HOT"⟩

def watchedSettings : List Setting :=
  [.predicates .oneOf [⟨"T", .ge, .int 30⟩],
    .membership .notMemberOf [⟨"ZONE", []⟩, ⟨"LINE", [.bool true]⟩, ⟨"ZONE", [.int 3]⟩],
    .breakOn ⟨"T", .eq, .bool false⟩]

/-- Such a rule is well formed, and no rule is to be had that claims the status of a leaf
in its place. -/
theorem watched_obtainable : watched.Obtainable ∧ watched.WellFormed ∧
    ¬Obtainable { watched with status := ⟨some "HOT", some "DONE"⟩ } := by
  have hstart : Draft.start "watched" "HOT" [] =
      .ok { name := some "watched", statusToSet := some "HOT" } := rfl
  have hmade : watched.Obtainable := .started _ _ _ _ hstart watchedSettings .nonLeaf rfl
  refine ⟨hmade, (obtainable_iff_wellFormed.1 watched).mp hmade, ?_⟩
  intro hforged
  have hwell := (obtainable_iff_wellFormed.1 _).mp hforged
  exact absurd hwell.status (by decide)

end Rule
end DecisionRules
