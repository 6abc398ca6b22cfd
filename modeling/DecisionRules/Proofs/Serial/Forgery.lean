import DecisionRules.Proofs.Serial.WellFormed

/-! Rules that were changed after they had been written. What a rule is stored with says which
status its branches write, so a change of what the status depends on shows, unless it would
have come to the same status. -/
namespace DecisionRules

open Serial (ofOption)

namespace BranchStatus

/-- What comes to the same status: a node of one kind, with a break clause or without, and one
status to set, or any where none is written; and nodes of both kinds with break clauses if both
branches only mark the node as finished. -/
def Collides (kind : NodeKind) (presence : BreakPresence) (status : String)
    (kind' : NodeKind) (presence' : BreakPresence) (status' : String) : Prop :=
  (kind' = kind ∧ presence' = presence ∧
      (status' = status ∨ kind = .nonLeaf ∧ presence = .absent)) ∨
    (presence = .present ∧ presence' = .present ∧ kind' ≠ kind ∧ status = done ∧ status' = done)
deriving Decidable

theorem resolve_eq_resolve_iff {kind kind' : NodeKind} {presence presence' : BreakPresence}
    {status status' : String} :
    resolve kind presence status = resolve kind' presence' status' ↔
      Collides kind presence status kind' presence' status' := by
  cases kind <;> cases presence <;> cases kind' <;> cases presence' <;>
    simp [resolve, Collides, eq_comm, and_comm]

end BranchStatus

namespace Json

def modifyMember (j : Json) (key : String) (f : Json → Json) : Json :=
  match j with
  | .object members => .object (members.map fun m => if m.1 = key then (m.1, f m.2) else m)
  | _ => j

def setMember (j : Json) (key : String) (member : Json) : Json := j.modifyMember key fun _ => member

end Json

namespace Rule

/-- The record of a rule with another kind of node, another break clause or none, and another
status to set. -/
def forge (j : Json) (kind : NodeKind) (clause : Option BreakClause) (statusToSet : String) : Json :=
  ((j.setMember "node_kind" kind.toJson).setMember "if_break"
    (ofOption BreakClause.toJson clause)).modifyMember "rhs"
      (·.setMember "status_to_set" (.string statusToSet))

def reshaped (r : Rule) (kind : NodeKind) (clause : Option BreakClause) (statusToSet : String) :
    Rule :=
  { r with nodeKind := kind, breakClause := clause, action := { r.action with statusToSet } }

theorem forge_toJson (r : Rule) (kind : NodeKind) (clause : Option BreakClause)
    (statusToSet : String) :
    forge r.toJson kind clause statusToSet = (r.reshaped kind clause statusToSet).toJson := by
  simp [forge, toJson, Json.setMember, Json.modifyMember, Action.toJson, reshaped]

private def resolved (r : Rule) : Rule :=
  { r with status := .resolve r.nodeKind r.breakPresence r.action.statusToSet }

private theorem rebuild_of_build {claimed built : Rule} (hplace : claimed.InPlace)
    (hbuilt : (Draft.ofRule claimed).build claimed.nodeKind = .ok built) :
    claimed.rebuild = if built.status = claimed.status then .ok built
      else .error (.invalidArgument "status" (built.describeStatus claimed.status)) := by
  rw [rebuild, checkPlaces_eq_ok_iff.mpr hplace, hbuilt]
  rfl

/-- What is written of a record that builds a rule is read back as the rule, or refused for
the status that the record claims. -/
theorem ofJson_toJson_of_build {claimed built : Rule} (hfinite : claimed.IsFinite)
    (hplace : claimed.InPlace)
    (hbuilt : (Draft.ofRule claimed).build claimed.nodeKind = .ok built) :
    Rule.ofJson claimed.toJson = if built.status = claimed.status then .ok built
      else .error (.refused (.invalidArgument "status" (built.describeStatus claimed.status))) := by
  have hdecoded : Rule.shape.decode claimed.toJson = .ok claimed.merged :=
    (shape_decodes _ _).mpr ⟨partsPass_of_build hfinite hplace hbuilt, rfl⟩
  have hrebuilt := rebuild_of_build (inPlace_merged_iff.mpr hplace)
    ((build_ofRule_merged claimed _).trans hbuilt)
  have hclaim : claimed.merged.status = claimed.status := rfl
  rw [Rule.ofJson, Serial.checking_of_decode hdecoded, hrebuilt, hclaim]
  split <;> rfl

private theorem resolved_eq_self {r : Rule} (h : r.resolved.status = r.status) : r.resolved = r :=
  congrArg (fun status => { r with status }) h

section Reshaped

variable {r : Rule} {kind : NodeKind} {clause : Option BreakClause} {statusToSet : String}

/-- What is changed leaves the rule well formed, once it has the status that it asks for. -/
private theorem WellFormed.reshaped (h : r.WellFormed)
    (hclause : ∀ b ∈ clause, b.predicate.WellFormed)
    (hvisible : Text.isBlankText statusToSet = false) :
    (r.reshaped kind clause statusToSet).resolved.WellFormed where
  name := h.name
  statusToSet := hvisible
  connective := h.connective
  constraintGroup := h.constraintGroup
  membershipKind := h.membershipKind
  membership := h.membership
  breakClause := hclause
  status := rfl

theorem IsFinite.reshaped (h : r.IsFinite) : (r.reshaped kind clause statusToSet).IsFinite :=
  ⟨h.memberships, h.action.result, h.action.outputs⟩

theorem ofJson_forge (h : r.WellFormed) (hfinite : r.IsFinite)
    (hclause : ∀ b ∈ clause, b.predicate.WellFormed)
    (hvisible : Text.isBlankText statusToSet = false) :
    Rule.ofJson (forge r.toJson kind clause statusToSet) =
      if BranchStatus.Collides r.nodeKind r.breakPresence r.action.statusToSet
          kind (.ofBool clause.isSome) statusToSet
      then .ok (r.reshaped kind clause statusToSet)
      else .error (.refused (.invalidArgument "status"
        ((r.reshaped kind clause statusToSet).describeStatus r.status))) := by
  have hwell : (r.reshaped kind clause statusToSet).resolved.WellFormed := h.reshaped hclause hvisible
  have hplace : (r.reshaped kind clause statusToSet).InPlace := ⟨h.connective, h.membershipKind⟩
  have hsame : (r.reshaped kind clause statusToSet).resolved.status =
        (r.reshaped kind clause statusToSet).status ↔
      BranchStatus.Collides r.nodeKind r.breakPresence r.action.statusToSet
        kind (.ofBool clause.isSome) statusToSet := by
    rw [← BranchStatus.resolve_eq_resolve_iff, ← h.status]
    exact eq_comm
  rw [forge_toJson, ofJson_toJson_of_build hfinite.reshaped hplace
    (Draft.build_eq_ok_iff.mpr hwell.builds)]
  simp only [← hsame]
  split
  · next heq => rw [resolved_eq_self heq]
  · rfl

end Reshaped

/-- A built rule whose record was changed is read back if and only if the change comes to the
same status, and then as the changed rule. Any other change is refused for the status. -/
theorem forged_decodes_iff_collides {d : Draft} {kind : NodeKind} {r : Rule}
    (h : d.build kind = .ok r) (hfinite : r.IsFinite) :
    (∀ kind' clause status', (∀ b ∈ clause, b.predicate.WellFormed) →
      Text.isBlankText status' = false →
      (∀ r', Rule.ofJson (forge r.toJson kind' clause status') = .ok r' ↔
        BranchStatus.Collides kind r.breakPresence r.action.statusToSet
            kind' (.ofBool clause.isSome) status' ∧
          r' = r.reshaped kind' clause status') ∧
      (¬BranchStatus.Collides kind r.breakPresence r.action.statusToSet
          kind' (.ofBool clause.isSome) status' →
        Rule.ofJson (forge r.toJson kind' clause status') =
          .error (.refused (.invalidArgument "status"
            ((r.reshaped kind' clause status').describeStatus r.status))))) ∧
    ∀ kind presence status kind' presence' status',
      BranchStatus.resolve kind presence status = BranchStatus.resolve kind' presence' status' ↔
        BranchStatus.Collides kind presence status kind' presence' status' := by
  refine ⟨?_, fun _ _ _ _ _ _ => BranchStatus.resolve_eq_resolve_iff⟩
  intro kind' clause status' hclause hvisible
  have hbuilds := Draft.build_eq_ok_iff.mp h
  rw [ofJson_forge hbuilds.wellFormed hfinite hclause hvisible, hbuilds.nodeKind]
  constructor
  · intro r'
    split
    · next hcollides => simp [hcollides, eq_comm]
    · next hshows => simp [hshows]
  · intro hshows
    rw [if_neg hshows]

def finishing : Rule where
  name := "finishing"
  nodeKind := .nonLeaf
  agendaGroup := none
  activationGroup := none
  focusedAgendaGroup := none
  statusConstraint := none
  constraints := .const none
  memberships := .const none
  breakClause := some ⟨⟨"T", .gt, .int 30⟩⟩
  action := ⟨"DONE", none, none, []⟩
  status := ⟨some "DONE", some "DONE"⟩

/-- Its record passes for that of a leaf with another break clause, but with another status for
no rule's. -/
theorem forged_finishing :
    (Draft.ofRule finishing).build .nonLeaf = .ok finishing ∧
      (∃ r, Rule.ofJson (forge finishing.toJson .leaf (some ⟨⟨"ZONE", .eq, .int 3⟩⟩) "DONE") =
        .ok r) ∧
      ∃ e, Rule.ofJson (forge finishing.toJson .nonLeaf (some ⟨⟨"ZONE", .eq, .int 3⟩⟩) "HOT") =
        .error e := by
  have hbuilt : (Draft.ofRule finishing).build .nonLeaf = .ok finishing := rfl
  have hfinite : finishing.IsFinite := by
    refine ⟨?_, ?_, ?_⟩
    · intro k g hg
      cases k <;> cases hg
    · intro v hv
      cases hv
    · intro o ho
      cases ho
  have hclause : ∀ b ∈ some (⟨⟨"ZONE", .eq, .int 3⟩⟩ : BreakClause), b.predicate.WellFormed := by
    intro b hb
    cases hb
    exact ⟨rfl, rfl, rfl⟩
  have hforged := (forged_decodes_iff_collides hbuilt hfinite).1
  exact ⟨hbuilt, ⟨_, ((hforged .leaf _ "DONE" hclause rfl).1 _).mpr ⟨by decide, rfl⟩⟩,
    ⟨_, (hforged .nonLeaf _ "HOT" hclause rfl).2 (by decide)⟩⟩

end Rule
end DecisionRules
