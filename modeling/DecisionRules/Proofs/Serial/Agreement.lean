import DecisionRules.Proofs.Building.Settings
import DecisionRules.Proofs.Serial.Rules

/-! The two ways to a rule. What can be said of a rule is either said to a draft, setting by
setting, or written down as the JSON of a record; the same rules come out of both. -/
namespace DecisionRules

open Serial (ofOption)

/-- All that can be said of a rule, before any of it has been checked. -/
structure Account where
  name : String
  statusToSet : String
  outputs : List OutputField
  agendaGroup : Option String
  activationGroup : Option String
  focusedAgendaGroup : Option String
  statusConstraint : Option String
  predicates : PerConnective (Option (List Predicate))
  memberships : PerMembership (Option (List MembershipEntry))
  breakPredicate : Option Predicate
  resultCode : Option ResultCode
  result : Option Value
deriving DecidableEq, Repr

namespace Account

def given (a : Account) : Slot → Option Setting
  | .name => some (.name a.name)
  | .statusToSet => some (.statusToSet a.statusToSet)
  | .outputs => some (.outputs a.outputs)
  | .agendaGroup => a.agendaGroup.map .agendaGroup
  | .activationGroup => a.activationGroup.map .activationGroup
  | .focusedAgendaGroup => a.focusedAgendaGroup.map .focusedAgendaGroup
  | .statusConstraint => a.statusConstraint.map .statusConstraint
  | .predicates c => (a.predicates.get c).map (.predicates c)
  | .membership k => (a.memberships.get k).map (.membership k)
  | .breakOn => a.breakPredicate.map .breakOn
  | .resultCode => a.resultCode.map .resultCode
  | .result => a.result.map .result

def settings (a : Account) : List Setting := Slot.all.filterMap a.given

def groupJson (c : Connective) (ps : List Predicate) : Json :=
  .object [("kind", (GroupKind.predicates c).toJson), ("predicates", .array (ps.map Predicate.toJson))]

/-- The entries of a membership group as its record has them, repeated fields and all. -/
def membershipJson (k : MembershipKind) (es : List MembershipEntry) : Json :=
  .object [("kind", (GroupKind.membership k).toJson),
    ("entries", .array (es.map MembershipEntry.toJson))]

def breakJson (p : Predicate) : Json := .object [("predicate", p.toJson)]

def toJson (a : Account) (kind : NodeKind) (status : BranchStatus) : Json :=
  .object [("name", .string a.name),
    ("node_kind", kind.toJson),
    ("agenda_group", ofOption .string a.agendaGroup),
    ("activation_group", ofOption .string a.activationGroup),
    ("focused_agenda_group", ofOption .string a.focusedAgendaGroup),
    ("status_constraint", ofOption .string a.statusConstraint),
    ("and_constraints", ofOption (groupJson .allOf) a.predicates.allOf),
    ("or_constraints", ofOption (groupJson .anyOf) a.predicates.anyOf),
    ("xor_constraints", ofOption (groupJson .oneOf) a.predicates.oneOf),
    ("not_constraints", ofOption (groupJson .noneOf) a.predicates.noneOf),
    ("in_constraints", ofOption (membershipJson .memberOf) a.memberships.memberOf),
    ("not_in_constraints", ofOption (membershipJson .notMemberOf) a.memberships.notMemberOf),
    ("if_break", ofOption breakJson a.breakPredicate),
    ("rhs", .object [("status_to_set", .string a.statusToSet),
      ("result_code", ofOption ResultCode.toJson a.resultCode),
      ("result", ofOption Value.toJson a.result),
      ("output_fields", .array (a.outputs.map OutputField.toJson))]),
    ("status", .object [("default_then", ofOption .string status.ordinary),
      ("break_match", ofOption .string status.onBreak)])]

/-- Nothing but finite numbers where no check looks; predicates are checked in any case. -/
structure IsFinite (a : Account) : Prop where
  memberships (k : MembershipKind) :
    ∀ es ∈ a.memberships.get k, ∀ e ∈ es, ∀ v ∈ e.values, v.isFinite = true
  result : ∀ v ∈ a.result, v.isFinite = true
  outputs : ∀ o ∈ a.outputs, o.value.isFinite = true

variable (a : Account) (kind : NodeKind) (status : BranchStatus)

private def record : Rule where
  name := a.name
  nodeKind := kind
  agendaGroup := a.agendaGroup
  activationGroup := a.activationGroup
  focusedAgendaGroup := a.focusedAgendaGroup
  statusConstraint := a.statusConstraint
  constraints := ⟨a.predicates.allOf.map (⟨.allOf, ·⟩), a.predicates.anyOf.map (⟨.anyOf, ·⟩),
    a.predicates.oneOf.map (⟨.oneOf, ·⟩), a.predicates.noneOf.map (⟨.noneOf, ·⟩)⟩
  memberships := ⟨a.memberships.memberOf.map (⟨.memberOf, ·⟩),
    a.memberships.notMemberOf.map (⟨.notMemberOf, ·⟩)⟩
  breakClause := a.breakPredicate.map (⟨·⟩)
  action := ⟨a.statusToSet, a.resultCode, a.result, a.outputs⟩
  status := status

private theorem get_constraints_record (c : Connective) :
    (a.record kind status).constraints.get c = (a.predicates.get c).map (⟨c, ·⟩) := by
  cases c <;> rfl

private theorem get_memberships_record (k : MembershipKind) :
    (a.record kind status).memberships.get k = (a.memberships.get k).map (⟨k, ·⟩) := by
  cases k <;> rfl

private theorem ofOption_map {α β : Type} (encode : β → Json) (f : α → β) (o : Option α) :
    ofOption encode (o.map f) = ofOption (fun a => encode (f a)) o := by
  cases o <;> rfl

private theorem toJson_record : (a.record kind status).toJson = a.toJson kind status := by
  simp only [record, Rule.toJson, ofOption_map]
  rfl

private theorem record_inPlace : (a.record kind status).InPlace where
  constraints c g hg := by
    rw [get_constraints_record] at hg
    obtain ⟨ps, _, rfl⟩ := Option.map_eq_some_iff.mp hg
    rfl
  memberships k g hg := by
    rw [get_memberships_record] at hg
    obtain ⟨es, _, rfl⟩ := Option.map_eq_some_iff.mp hg
    rfl

private theorem IsFinite.record {a : Account} (h : a.IsFinite) :
    (a.record kind status).IsFinite where
  memberships k g hg := by
    rw [get_memberships_record] at hg
    obtain ⟨es, hes, rfl⟩ := Option.map_eq_some_iff.mp hg
    exact h.memberships k es hes
  action := ⟨h.result, h.outputs⟩

private theorem slot_of_given (s : Slot) : ∀ x ∈ a.given s, x.slot = s := by
  intro x hx
  cases s with
  | name | statusToSet | outputs =>
    cases hx
    rfl
  | _ =>
    obtain ⟨_, _, rfl⟩ := Option.map_eq_some_iff.mp hx
    rfl

/-- Saying all of an account to a draft is saying what its record says of itself. -/
private theorem setAll_settings :
    Draft.empty.setAll a.settings = .ofRule (a.record kind status) := by
  apply Draft.eq_of_said_eq
  intro s
  rw [settings, Draft.said_setAll_filterMap a.slot_of_given, if_pos s.mem_all]
  cases s with
  | name | statusToSet | outputs => rfl
  | predicates c =>
    simp [given, Draft.said, Draft.empty, Draft.ofRule, get_constraints_record, Function.comp_def]
  | membership k =>
    simp [given, Draft.said, Draft.empty, Draft.ofRule, get_memberships_record, Function.comp_def]
  | _ => simp [given, Draft.said, Draft.empty, Draft.ofRule, record, Function.comp_def]

private theorem nodup_slot_settings : (a.settings.map (·.slot)).Nodup :=
  Slot.nodup_all.sublist (Draft.map_slot_filterMap_sublist a.slot_of_given Slot.all)

variable {a kind status}

/-- Saying an account to a draft and writing it down as a record, with whatever status, make
the same rules, in whatever order the settings come. -/
theorem ofJson_toJson_iff_build {settings : List Setting} (hsettings : settings.Perm a.settings)
    (hfinite : a.IsFinite) {r : Rule} : Rule.ofJson (a.toJson kind status) = .ok r ↔
      (Draft.empty.setAll settings).build kind = .ok r ∧ r.status = status := by
  have hsaid : Draft.empty.setAll settings = .ofRule (a.record kind status) := by
    rw [← Draft.setAll_perm hsettings.symm a.nodup_slot_settings, setAll_settings]
  rw [← toJson_record, Rule.ofJson_toJson_eq_ok_iff, hsaid]
  constructor
  · intro h
    obtain ⟨_, _, hbuilt, hstatus⟩ := h
    exact ⟨hbuilt, hstatus⟩
  · intro h
    obtain ⟨hbuilt, hstatus⟩ := h
    exact ⟨hfinite.record kind status, a.record_inPlace kind status, hbuilt, hstatus⟩

def restated : Account where
  name := "restated"
  statusToSet := "HOT"
  outputs := []
  agendaGroup := none
  activationGroup := none
  focusedAgendaGroup := none
  statusConstraint := none
  predicates := .const none
  memberships := ⟨some [⟨"ZONE", []⟩, ⟨"ZONE", [.int 3]⟩], none⟩
  breakPredicate := none
  resultCode := none
  result := none

def restatedRule : Rule where
  name := "restated"
  nodeKind := .leaf
  agendaGroup := none
  activationGroup := none
  focusedAgendaGroup := none
  statusConstraint := none
  constraints := .const none
  memberships := ⟨some ⟨.memberOf, [⟨"ZONE", [.int 3]⟩]⟩, none⟩
  breakClause := none
  action := ⟨"HOT", none, none, []⟩
  status := ⟨some "HOT", none⟩

theorem ofJson_toJson_restated :
    restated.settings.reverse.Perm restated.settings ∧ restated.IsFinite ∧
      (Draft.empty.setAll restated.settings.reverse).build .leaf = .ok restatedRule ∧
      Rule.ofJson (restated.toJson .leaf ⟨some "HOT", none⟩) = .ok restatedRule := by
  have hperm : restated.settings.reverse.Perm restated.settings := List.reverse_perm _
  have hfinite : restated.IsFinite := by
    refine ⟨?_, ?_, ?_⟩
    · intro k es hes
      cases k with
      | memberOf =>
        cases hes
        decide
      | notMemberOf => cases hes
    · intro v hv
      cases hv
    · intro o ho
      cases ho
  have hbuilt : (Draft.empty.setAll restated.settings.reverse).build .leaf = .ok restatedRule := rfl
  exact ⟨hperm, hfinite, hbuilt, (ofJson_toJson_iff_build hperm hfinite).mpr ⟨hbuilt, rfl⟩⟩

end Account

end DecisionRules
