import DecisionRules.Proofs.Building.Build
import DecisionRules.Proofs.Building.Merging
import DecisionRules.Proofs.Building.Settings

/-! Settings given one after another and the rule that comes of them. A draft says in each
place what was set there last, so nothing said before that matters to the outcome, and a
rule that is built holds the last settings and nothing else. -/
namespace DecisionRules

def Setting.last? (xs : List Setting) (s : Slot) : Option Setting := xs.findRev? (·.slot = s)

private theorem Setting.last?_cons (x : Setting) (xs : List Setting) (s : Slot) :
    last? (x :: xs) s = (last? xs s).or (if x.slot = s then some x else none) := by
  rw [last?, last?, List.findRev?]
  cases xs.findRev? (·.slot = s) <;> simp

/-- A rule for a node holds the last settings: predicates in their order and under their
own connective, of membership entries the last for each field, every text as it was given.
What was never set is absent. -/
structure Rule.Holds (r : Rule) (kind : NodeKind) (last : Slot → Option Setting) : Prop where
  name : last .name = some (.name r.name)
  statusToSet : last .statusToSet = some (.statusToSet r.action.statusToSet)
  outputs : (last .outputs).getD (.outputs []) = .outputs r.action.outputs
  agendaGroup : last .agendaGroup = r.agendaGroup.map .agendaGroup
  activationGroup : last .activationGroup = r.activationGroup.map .activationGroup
  focusedAgendaGroup : last .focusedAgendaGroup = r.focusedAgendaGroup.map .focusedAgendaGroup
  statusConstraint : last .statusConstraint = r.statusConstraint.map .statusConstraint
  predicates (c : Connective) : ∃ ps? : Option (List Predicate),
    last (.predicates c) = ps?.map (.predicates c) ∧ r.constraintGroup? c = ps?.map (⟨c, ·⟩)
  membership (k : MembershipKind) : ∃ es? : Option (List MembershipEntry),
    last (.membership k) = es?.map (.membership k) ∧
      r.membership? k = es?.map fun es => ⟨k, MembershipGroup.lastEntries es⟩
  breakOn : ∃ p? : Option Predicate,
    last .breakOn = p?.map .breakOn ∧ r.breakClause = p?.map (⟨·⟩)
  resultCode : last .resultCode = r.action.resultCode.map .resultCode
  result : last .result = r.action.result.map .result
  nodeKind : r.nodeKind = kind
  status : r.status = .resolve kind (.ofBool (last .breakOn).isSome) r.action.statusToSet

namespace Draft

open Setting (last? last?_cons)

variable {α β : Type} {d e : Draft} {kind : NodeKind} {r : Rule}

/-- In each place the last setting is heard, or where there is none what was said before. -/
theorem said_setAll (d : Draft) (xs : List Setting) (s : Slot) :
    (d.setAll xs).said s = (last? xs s).or (d.said s) := by
  induction xs generalizing d with
  | nil => rfl
  | cons x xs ih =>
    have hstep : d.setAll (x :: xs) = (d.set x).setAll xs := rfl
    rw [hstep, ih, said_set, last?_cons]
    cases last? xs s with
    | some => rfl
    | none => by_cases h : x.slot = s <;> simp [h]

/-- A new draft says nothing but that there are no outputs. -/
private theorem said_empty {s : Slot} (h : s ≠ .outputs) : empty.said s = none := by
  cases s with
  | outputs => exact absurd rfl h
  | predicates c => cases c <;> rfl
  | membership k => cases k <;> rfl
  | _ => rfl

/-- The drafts that there are to begin with, and the settings that they amount to. -/
inductive Begins : Draft → List Setting → Prop
  | empty : Begins empty []
  | started {name statusToSet : String} {outputs : List OutputField} {d : Draft} :
      start name statusToSet outputs = .ok d →
      Begins d [.name name, .statusToSet statusToSet, .outputs outputs]

theorem Begins.eq_setAll {before : List Setting} (h : Begins d before) :
    d = Draft.empty.setAll before := by
  cases h with
  | empty => rfl
  | started hstart =>
    simp only [start, unit_bind_eq_ok_iff, pure_eq_ok_iff] at hstart
    exact hstart.2.2.symm

theorem Begins.said_setAll {before : List Setting} (h : Begins d before) (xs : List Setting)
    (s : Slot) : (d.setAll xs).said s = (last? (before ++ xs) s).or (Draft.empty.said s) := by
  rw [h.eq_setAll, ← setAll_append, Draft.said_setAll]

/-- What a check keeps of a part is there where the part is. -/
private theorem eq_map_of_checkSome {f : α → Except RuleError β} {made : α → β}
    (h : ∀ a b, f a = .ok b → b = made a) {o : Option α} {o' : Option β}
    (ho : checkSome f o = .ok o') : o' = o.map made := by
  rw [checkSome_eq_ok_iff] at ho
  cases o with
  | none =>
    cases o' with
    | none => rfl
    | some => cases ho
  | some a =>
    cases o' with
    | none => cases ho
    | some b => exact congrArg some (h a b (Option.some.inj ho))

section Holds

variable {last : Slot → Option Setting}

/-- What a draft says in a place is the last setting for it; only the outputs are there
without one. -/
private theorem last_eq_said (hsaid : ∀ s, d.said s = (last s).or (Draft.empty.said s)) (s : Slot)
    (hs : s ≠ .outputs) : last s = d.said s := by
  rw [hsaid, said_empty hs, Option.or_none]

private theorem last_outputs (hsaid : ∀ s, d.said s = (last s).or (Draft.empty.said s)) :
    (last .outputs).getD (.outputs []) = .outputs d.outputs := by
  have houtputs : some (.outputs d.outputs) = (last .outputs).or (some (.outputs [])) :=
    hsaid .outputs
  cases hlast : last .outputs with
  | none =>
    rw [hlast] at houtputs
    exact (Option.some.inj houtputs).symm
  | some x =>
    rw [hlast] at houtputs
    exact (Option.some.inj houtputs).symm

/-- A rule holds what its draft says. -/
theorem Builds.holds (h : d.Builds kind r)
    (hsaid : ∀ s, d.said s = (last s).or (Draft.empty.said s)) : r.Holds kind last := by
  have hlast := last_eq_said hsaid
  have hname := (requireSet_eq_ok_iff.mp h.name).1
  have hstatus := (requireSet_eq_ok_iff.mp h.statusToSet).1
  have hbreak : r.breakClause = d.breakPredicate.map (⟨·⟩) :=
    eq_map_of_checkSome (fun _ _ hb => (checkedBreak_eq_ok_iff.mp hb).1) h.breakClause
  refine {
    name := (hlast .name (by simp)).trans (congrArg (Option.map _) hname)
    statusToSet := (hlast .statusToSet (by simp)).trans (congrArg (Option.map _) hstatus)
    outputs := by rw [last_outputs hsaid, h.outputs]
    agendaGroup := by rw [hlast .agendaGroup (by simp), said, h.agendaGroup]
    activationGroup := by rw [hlast .activationGroup (by simp), said, h.activationGroup]
    focusedAgendaGroup := by rw [hlast .focusedAgendaGroup (by simp), said, h.focusedAgendaGroup]
    statusConstraint := by rw [hlast .statusConstraint (by simp), said, h.statusConstraint]
    predicates := fun c => ⟨d.predicates.get c, hlast (.predicates c) (by simp), ?predicates⟩
    membership := fun k => ⟨d.memberships.get k, hlast (.membership k) (by simp), ?membership⟩
    breakOn := ⟨d.breakPredicate, hlast .breakOn (by simp), hbreak⟩
    resultCode := by rw [hlast .resultCode (by simp), said, h.resultCode]
    result := by rw [hlast .result (by simp), said, h.result]
    nodeKind := h.nodeKind
    status := ?status }
  case predicates =>
    apply eq_map_of_checkSome _ (h.constraints c)
    intro ps g hg
    exact (ConstraintGroup.checked_eq_ok_iff.mp hg).1
  case membership =>
    apply eq_map_of_checkSome _ (h.memberships k)
    intro es g hg
    rw [(MembershipGroup.checked_eq_ok_iff.mp hg).1, MembershipGroup.ofEntries_eq_lastEntries]
  case status =>
    rw [h.status, h.nodeKind, hbreak, hlast .breakOn (by simp), said, Option.isSome_map,
      Option.isSome_map]

end Holds

/-- Of the settings for a place only the last counts. Two runs that have the same last
settings, whatever each of them began with and in whatever order it went, come to the same
rule or the same error, and the rule holds those settings. -/
theorem build_setAll_of_last?_eq {before before' xs ys : List Setting} (hd : Begins d before)
    (he : Begins e before')
    (hlast : ∀ s, last? (before ++ xs) s = last? (before' ++ ys) s) (kind : NodeKind) :
    (d.setAll xs).build kind = (e.setAll ys).build kind ∧
      ∀ r, (d.setAll xs).build kind = .ok r → r.Holds kind (last? (before ++ xs)) := by
  constructor
  · have hsame : d.setAll xs = e.setAll ys := by
      apply eq_of_said_eq
      intro s
      rw [hd.said_setAll, he.said_setAll, hlast]
    rw [hsame]
  · intro r hr
    exact (build_eq_ok_iff.mp hr).holds (hd.said_setAll xs)

def revised : List Setting :=
  [.predicates .allOf [⟨"T", .lt, .bool true⟩], .statusToSet " HOT ",
    .membership .memberOf [⟨"ZONE", []⟩, ⟨"LINE", [.int 2]⟩, ⟨"ZONE", [.int 3]⟩],
    .name "zones", .predicates .allOf [⟨"T", .ge, .int 30⟩, ⟨"T", .lt, .int 90⟩]]

def settled : List Setting :=
  [.predicates .allOf [⟨"T", .ge, .int 30⟩, ⟨"T", .lt, .int 90⟩], .outputs [], .name "zones",
    .membership .memberOf [⟨"ZONE", []⟩, ⟨"LINE", [.int 2]⟩, ⟨"ZONE", [.int 3]⟩],
    .statusToSet " HOT "]

def zones : Rule where
  name := "zones"
  nodeKind := .leaf
  agendaGroup := none
  activationGroup := none
  focusedAgendaGroup := none
  statusConstraint := none
  constraints := { PerConnective.const none with
    allOf := some ⟨.allOf, [⟨"T", .ge, .int 30⟩, ⟨"T", .lt, .int 90⟩]⟩ }
  memberships := ⟨some ⟨.memberOf, [⟨"ZONE", [.int 3]⟩, ⟨"LINE", [.int 2]⟩]⟩, none⟩
  breakClause := none
  action := ⟨" HOT ", none, none, []⟩
  status := ⟨some " HOT ", none⟩

theorem build_revised_settled : ∃ d, start "draft" "COLD" [] = .ok d ∧
    (d.setAll revised).build .leaf = .ok zones ∧
    (empty.setAll settled).build .leaf = .ok zones ∧
    zones.Holds .leaf (last? settled) := by
  have hstart : start "draft" "COLD" [] =
      .ok { name := some "draft", statusToSet := some "COLD" } := rfl
  have hlast : ∀ s, last? ([] ++ settled) s =
      last? ([.name "draft", .statusToSet "COLD", .outputs []] ++ revised) s := by
    have hall : ∀ s ∈ Slot.all, last? ([] ++ settled) s =
        last? ([.name "draft", .statusToSet "COLD", .outputs []] ++ revised) s := by decide
    exact fun s => hall s s.mem_all
  have hbuilt : (empty.setAll settled).build .leaf = .ok zones := rfl
  have hboth := build_setAll_of_last?_eq .empty (.started hstart) hlast .leaf
  exact ⟨_, hstart, hboth.1.symm.trans hbuilt, hbuilt, hboth.2 zones hbuilt⟩

end Draft
end DecisionRules
