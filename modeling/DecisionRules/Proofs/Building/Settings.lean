import Mathlib.Data.List.Nodup
import DecisionRules.Draft

/-! Settings by the place that they fill. A draft is what it says in each place, a setting
changes what is said in its own place, and of many settings the last one for a place is
heard. -/
namespace DecisionRules

inductive Slot where
  | name | statusToSet | outputs
  | agendaGroup | activationGroup | focusedAgendaGroup | statusConstraint
  | predicates (connective : Connective)
  | membership (kind : MembershipKind)
  | breakOn | resultCode | result
deriving DecidableEq, Repr

def Setting.slot : Setting → Slot
  | .name _ => .name
  | .statusToSet _ => .statusToSet
  | .outputs _ => .outputs
  | .agendaGroup _ => .agendaGroup
  | .activationGroup _ => .activationGroup
  | .focusedAgendaGroup _ => .focusedAgendaGroup
  | .statusConstraint _ => .statusConstraint
  | .predicates c _ => .predicates c
  | .membership k _ => .membership k
  | .breakOn _ => .breakOn
  | .resultCode _ => .resultCode
  | .result _ => .result

namespace Draft

def said (d : Draft) : Slot → Option Setting
  | .name => d.name.map .name
  | .statusToSet => d.statusToSet.map .statusToSet
  | .outputs => some (.outputs d.outputs)
  | .agendaGroup => d.agendaGroup.map .agendaGroup
  | .activationGroup => d.activationGroup.map .activationGroup
  | .focusedAgendaGroup => d.focusedAgendaGroup.map .focusedAgendaGroup
  | .statusConstraint => d.statusConstraint.map .statusConstraint
  | .predicates c => (d.predicates.get c).map (.predicates c)
  | .membership k => (d.memberships.get k).map (.membership k)
  | .breakOn => d.breakPredicate.map .breakOn
  | .resultCode => d.resultCode.map .resultCode
  | .result => d.result.map .result

/-- A setting is heard in its place, and no other place is touched. -/
theorem said_set (d : Draft) (x : Setting) (s : Slot) :
    (d.set x).said s = if x.slot = s then some x else d.said s := by
  cases x with
  | predicates c ps =>
    cases s with
    | predicates c' =>
      simp only [set, said, Setting.slot, PerConnective.get_set, Slot.predicates.injEq, eq_comm]
      by_cases h : c = c'
      · subst h
        simp
      · simp [h]
    | _ => rfl
  | membership k es =>
    cases s with
    | membership k' =>
      simp only [set, said, Setting.slot, PerMembership.get_set, Slot.membership.injEq, eq_comm]
      by_cases h : k = k'
      · subst h
        simp
      · simp [h]
    | _ => rfl
  | _ => cases s <;> rfl

/-- A draft is what it says in each place. -/
theorem eq_of_said_eq {d e : Draft} (h : ∀ s, d.said s = e.said s) : d = e := by
  have hpredicates : d.predicates = e.predicates := by
    apply PerConnective.eq_of_get_eq
    intro c
    exact (Option.map_inj_right (by simp)).mp (h (.predicates c))
  have hmemberships : d.memberships = e.memberships := by
    apply PerMembership.eq_of_get_eq
    intro k
    exact (Option.map_inj_right (by simp)).mp (h (.membership k))
  have hname := (Option.map_inj_right (by simp)).mp (h .name)
  have hstatus := (Option.map_inj_right (by simp)).mp (h .statusToSet)
  have houtputs := Setting.outputs.inj (Option.some.inj (h .outputs))
  have hagenda := (Option.map_inj_right (by simp)).mp (h .agendaGroup)
  have hactivation := (Option.map_inj_right (by simp)).mp (h .activationGroup)
  have hfocused := (Option.map_inj_right (by simp)).mp (h .focusedAgendaGroup)
  have hconstraint := (Option.map_inj_right (by simp)).mp (h .statusConstraint)
  have hbreak := (Option.map_inj_right (by simp)).mp (h .breakOn)
  have hcode := (Option.map_inj_right (by simp)).mp (h .resultCode)
  have hresult := (Option.map_inj_right (by simp)).mp (h .result)
  cases d
  cases e
  simp_all

/-- Two settings of different places can be said in either order. -/
theorem set_comm (d : Draft) {x y : Setting} (h : x.slot ≠ y.slot) :
    (d.set x).set y = (d.set y).set x := by
  apply eq_of_said_eq
  intro s
  simp only [said_set]
  by_cases hx : x.slot = s
  · rw [if_pos hx, if_pos hx, if_neg (hx ▸ h.symm)]
  · rw [if_neg hx, if_neg hx]

/-- Of settings that all have places of their own the order does not matter. -/
theorem setAll_perm {xs ys : List Setting} (h : xs.Perm ys) (hslots : (xs.map (·.slot)).Nodup)
    (d : Draft) : d.setAll xs = d.setAll ys := by
  apply h.foldl_eq'
  intro x hx y hy d
  by_cases heq : x.slot = y.slot
  · rw [List.inj_on_of_nodup_map hslots hx hy heq]
  · exact set_comm d heq

/-- Settings given by place are heard in their places. -/
theorem said_setAll_filterMap {given : Slot → Option Setting}
    (hgiven : ∀ t, ∀ x ∈ given t, x.slot = t) (slots : List Slot) (d : Draft) (s : Slot) :
    (d.setAll (slots.filterMap given)).said s =
      if s ∈ slots then (given s).or (d.said s) else d.said s := by
  induction slots generalizing d with
  | nil => simp [setAll]
  | cons t ts ih =>
    cases ht : given t with
    | none =>
      rw [List.filterMap_cons_none ht, ih]
      by_cases hs : s = t
      · subst hs
        simp [ht]
      · simp [hs]
    | some x =>
      have hx : x.slot = t := hgiven t x ht
      have hstep : d.setAll (x :: ts.filterMap given) = (d.set x).setAll (ts.filterMap given) := rfl
      rw [List.filterMap_cons_some ht, hstep, ih, said_set, hx]
      by_cases hs : s = t
      · subst hs
        simp [ht]
      · simp [hs, Ne.symm hs]

/-- Settings given by place have places of their own. -/
theorem map_slot_filterMap_sublist {given : Slot → Option Setting}
    (hgiven : ∀ t, ∀ x ∈ given t, x.slot = t) (slots : List Slot) :
    ((slots.filterMap given).map (·.slot)).Sublist slots := by
  induction slots with
  | nil => exact .slnil
  | cons t ts ih =>
    cases ht : given t with
    | none =>
      rw [List.filterMap_cons_none ht]
      exact ih.cons t
    | some x =>
      rw [List.filterMap_cons_some ht, List.map_cons, hgiven t x ht]
      exact ih.cons_cons t

end Draft

def Slot.all : List Slot :=
  [.name, .statusToSet, .outputs, .agendaGroup, .activationGroup, .focusedAgendaGroup,
    .statusConstraint, .predicates .allOf, .predicates .anyOf, .predicates .oneOf,
    .predicates .noneOf, .membership .memberOf, .membership .notMemberOf, .breakOn, .resultCode,
    .result]

theorem Slot.mem_all (s : Slot) : s ∈ all := by
  cases s with
  | predicates c => cases c <;> decide
  | membership k => cases k <;> decide
  | _ => decide

theorem Slot.nodup_all : all.Nodup := by decide

namespace Draft

private theorem slot_of_said (d : Draft) (s : Slot) : ∀ x ∈ d.said s, x.slot = s := by
  intro x hx
  cases s with
  | outputs =>
    cases hx
    rfl
  | _ =>
    obtain ⟨_, _, rfl⟩ := Option.map_eq_some_iff.mp hx
    rfl

def settings (d : Draft) : List Setting := Slot.all.filterMap d.said

/-- Every draft comes of settings. -/
theorem setAll_settings (d : Draft) : empty.setAll d.settings = d := by
  apply eq_of_said_eq
  intro s
  rw [settings, said_setAll_filterMap d.slot_of_said, if_pos s.mem_all]
  cases hs : d.said s with
  | some => rfl
  | none =>
    cases s with
    | outputs => cases hs
    | predicates c => cases c <;> rfl
    | membership k => cases k <;> rfl
    | _ => rfl

end Draft

end DecisionRules
