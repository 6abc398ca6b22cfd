import DecisionRules.Serial.Decode
import DecisionRules.Proofs.Building.Finite
import DecisionRules.Proofs.Serial.Shapes

/-! The parts of a rule through JSON. What comes back is what was written; it comes back if
numbers are finite where JSON has to write them and if the part passes its check. -/
namespace DecisionRules

open Serial

private theorem Value.toJson_ne_null (v : Value) : v.toJson ≠ .null := by
  cases v <;> nofun

/-- Only numbers that are not finite are lost. -/
theorem Value.carries : Carries Value.ofJson Value.toJson fun v => v.isFinite = true := by
  intro v w
  cases v with
  | int n =>
    have hn : asInt64 (.integer n.toInt) = .ok n := by
      rw [asInt64, if_pos ⟨n.minValue_le_toInt, n.toInt_le⟩, Int64.ofInt_toInt]
    have hread : Value.ofJson (Value.int n).toJson = Value.int <$> asInt64 (.integer n.toInt) := rfl
    rw [hread, hn]
    simp [isFinite, Functor.map, Except.map, eq_comm]
  | float x =>
    have hread : Value.ofJson (Value.float x).toJson =
        Value.float <$> asBinary64 (if x.isFinite then .float x else .null) := rfl
    rw [hread]
    cases hx : x.isFinite with
    | true => simp [isFinite, hx, asBinary64, Functor.map, Except.map, eq_comm]
    | false => simp [isFinite, hx, asBinary64, Functor.map, Except.map]
  | bool b =>
    have hread : Value.ofJson (Value.bool b).toJson = .ok (.bool b) := rfl
    rw [hread]
    simp [isFinite, eq_comm]
  | string s =>
    have hread : Value.ofJson (Value.string s).toJson = .ok (.string s) := rfl
    rw [hread]
    simp [isFinite, eq_comm]

theorem Predicate.shape_carries :
    Carries Predicate.shape.decode Predicate.toJson fun p => p.value.isFinite = true := by
  intro p q
  rw [toJson, Shape.decode_object_eq_ok_iff]
  simp only [shape, Shape.seq_eq_ok_iff, Shape.map_eq_ok_iff, Shape.required_eq_ok_iff]
  simp [List.lookup_cons, carries_text p.field _, Comparison.ofJson_toJson, Value.carries p.value _,
    and_assoc]

/-- A predicate passes its check again. -/
theorem Predicate.carries : Carries Predicate.ofJson Predicate.toJson fun p => p.fault? = none := by
  intro p q
  rw [ofJson, shape_carries.checking_eq_ok_iff]
  constructor
  · intro h
    exact checked_self_eq_ok_iff.mp h.2
  · intro h
    exact ⟨(fault?_eq_none_iff.mp h.1).2.1, checked_self_eq_ok_iff.mpr h⟩

theorem BreakClause.carries :
    Carries BreakClause.ofJson BreakClause.toJson fun b => b.predicate.fault? = none := by
  intro b c
  rw [toJson, ofJson, Shape.decode_object_eq_ok_iff]
  simp only [shape, Shape.map_eq_ok_iff, Shape.required_eq_ok_iff]
  simp [Predicate.carries b.predicate _, and_assoc]

theorem ConstraintGroup.partsShape_decodes : Decodes ConstraintGroup.partsShape.decode
    ConstraintGroup.toJson (fun g => ∀ p ∈ g.predicates, p.fault? = none)
    fun g => (.predicates g.connective, g.predicates) := by
  intro g parts
  rw [toJson, Shape.decode_object_eq_ok_iff]
  simp only [partsShape, Shape.seq_eq_ok_iff, Shape.map_eq_ok_iff, Shape.required_eq_ok_iff]
  simp [List.lookup_cons, GroupKind.ofJson_toJson, Predicate.carries.list g.predicates _, and_assoc]

/-- A group of predicates passes the check of each predicate and its own. -/
theorem ConstraintGroup.carries :
    Carries ConstraintGroup.ofJson ConstraintGroup.toJson ConstraintGroup.Sound := by
  intro g g'
  rw [ofJson, partsShape_decodes.checking_eq_ok_iff, ofParts, checked_eq_ok_iff]
  constructor
  · intro h
    obtain ⟨_, rfl, hsound⟩ := h
    exact ⟨hsound, rfl⟩
  · intro h
    obtain ⟨hsound, hg⟩ := h
    exact ⟨hsound.fault_eq_none, hg, hg ▸ hsound⟩

theorem MembershipEntry.carries : Carries MembershipEntry.ofJson MembershipEntry.toJson
    fun e => ∀ v ∈ e.values, v.isFinite = true := by
  intro e e'
  rw [toJson, ofJson, Shape.decode_object_eq_ok_iff]
  simp only [shape, Shape.seq_eq_ok_iff, Shape.map_eq_ok_iff, Shape.required_eq_ok_iff]
  simp [List.lookup_cons, carries_text e.field _, Value.carries.list e.values _, and_assoc]

def MembershipGroup.merged (g : MembershipGroup) : MembershipGroup := ofEntries g.kind g.entries

theorem MembershipGroup.partsShape_decodes : Decodes MembershipGroup.partsShape.decode
    MembershipGroup.toJson IsFinite fun g => (.membership g.kind, g.entries) := by
  intro g parts
  rw [toJson, Shape.decode_object_eq_ok_iff]
  simp only [partsShape, Shape.seq_eq_ok_iff, Shape.map_eq_ok_iff, Shape.required_eq_ok_iff]
  simp [List.lookup_cons, GroupKind.ofJson_toJson, MembershipEntry.carries.list g.entries _,
    and_assoc, IsFinite]

/-- A membership group merges its entries again. -/
theorem MembershipGroup.decodes : Decodes MembershipGroup.ofJson MembershipGroup.toJson
    (fun g => g.IsFinite ∧ g.merged.Sound) merged := by
  intro g g'
  rw [ofJson, partsShape_decodes.checking_eq_ok_iff, ofParts, checked_eq_ok_iff]
  constructor
  · intro h
    obtain ⟨hfinite, rfl, hsound⟩ := h
    exact ⟨⟨hfinite, hsound⟩, rfl⟩
  · intro h
    obtain ⟨⟨hfinite, hsound⟩, hg⟩ := h
    exact ⟨hfinite, hg, hg ▸ hsound⟩

theorem OutputField.carries :
    Carries OutputField.ofJson OutputField.toJson fun o => o.value.isFinite = true := by
  intro o o'
  rw [toJson, ofJson, Shape.decode_object_eq_ok_iff]
  simp only [shape, Shape.seq_eq_ok_iff, Shape.map_eq_ok_iff, Shape.required_eq_ok_iff]
  simp [List.lookup_cons, carries_text o.name _, Value.carries o.value _, and_assoc]

private theorem ResultCode.toJson_ne_null (c : ResultCode) : c.toJson ≠ .null := by
  cases c <;> nofun

theorem Action.carries : Carries Action.ofJson Action.toJson Action.IsFinite := by
  intro a a'
  have hcode := (carries_of_forall ResultCode.ofJson_toJson).option ResultCode.toJson_ne_null
  have hmembers : Action.ofJson a.toJson = .ok a' ↔ (∀ v ∈ a.result, v.isFinite = true) ∧
      (∀ o ∈ a.outputs, o.value.isFinite = true) ∧ a' = a := by
    rw [toJson, ofJson, Shape.decode_object_eq_ok_iff]
    simp only [shape, Shape.seq_eq_ok_iff, Shape.map_eq_ok_iff, Shape.required_eq_ok_iff,
      Shape.optional_eq_ok_iff]
    simp [List.lookup_cons, carries_text a.statusToSet _, hcode a.resultCode _,
      Value.carries.option Value.toJson_ne_null a.result _, OutputField.carries.list a.outputs _,
      and_assoc]
  rw [hmembers]
  constructor
  · intro h
    obtain ⟨hresult, houtputs, ha⟩ := h
    exact ⟨⟨hresult, houtputs⟩, ha⟩
  · intro h
    obtain ⟨hfinite, ha⟩ := h
    exact ⟨hfinite.result, hfinite.outputs, ha⟩

theorem BranchStatus.carries : Carries BranchStatus.ofJson BranchStatus.toJson fun _ => True := by
  intro s s'
  rw [toJson, ofJson, Shape.decode_object_eq_ok_iff]
  simp only [shape, Shape.seq_eq_ok_iff, Shape.map_eq_ok_iff, Shape.optional_eq_ok_iff]
  simp [List.lookup_cons, carries_text.option (fun _ => by nofun) s.ordinary _,
    carries_text.option (fun _ => by nofun) s.onBreak _]

end DecisionRules
