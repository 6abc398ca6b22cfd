import DecisionRules.Proofs.Binary64.Nearest
import DecisionRules.Proofs.Building.Merging
import DecisionRules.Proofs.Serial.RoundTrip
import DecisionRules.Proofs.Serial.WellFormed

/-! What has been decoded once. Other members of a record, absent ones, a field that is
listed again and a number written as an integer are gone after decoding: what is written
then is read as what was written, and is what will be written. -/
namespace DecisionRules

open Serial

/-- JSON in which every number is finite when it is taken for a floating-point number. -/
inductive Json.IsFinite : Json → Prop
  | null : IsFinite .null
  | bool (b : Bool) : IsFinite (.bool b)
  | integer (n : Int) (h : (Binary64.ofInt n).isFinite = true) : IsFinite (.integer n)
  | float (x : Binary64) (h : x.isFinite = true) : IsFinite (.float x)
  | string (s : String) : IsFinite (.string s)
  | array (items : List Json) (h : ∀ j ∈ items, IsFinite j) : IsFinite (.array items)
  | object (members : List (String × Json)) (h : ∀ m ∈ members, IsFinite m.2) :
      IsFinite (.object members)

/-- An integer has to be far longer than a word to be too great. -/
theorem Json.isFinite_integer {n : Int} (h : n.natAbs < 2 ^ 64) : (Json.integer n).IsFinite := by
  refine .integer n (Binary64.isFinite_ofInt ?_)
  rcases Nat.eq_zero_or_pos n.natAbs with hzero | hpos
  · rw [hzero]
    decide
  · have hlog := (Nat.log2_lt (Nat.ne_of_gt hpos)).mpr h
    omega

private theorem Json.IsFinite.inside {j : Json} (h : j.IsFinite) : ∀ c ∈ j.inside, c.IsFinite := by
  intro c hc
  cases h with
  | array items h => exact h c hc
  | object members h =>
    obtain ⟨m, hm, rfl⟩ := List.mem_map.mp hc
    exact h m hm
  | _ => cases hc

theorem Json.isFinite_array_iff {items : List Json} :
    (Json.array items).IsFinite ↔ ∀ j ∈ items, j.IsFinite :=
  ⟨Json.IsFinite.inside, .array items⟩

theorem Json.isFinite_object_iff {members : List (String × Json)} :
    (Json.object members).IsFinite ↔ ∀ m ∈ members, m.2.IsFinite := by
  constructor
  · intro h m hm
    exact h.inside m.2 (List.mem_map_of_mem hm)
  · intro h
    exact .object members h

namespace Serial

variable {α : Type} [BEq α]

/-- What finite JSON decodes to is written as JSON that decodes to an equal value, and
that is written alike. -/
def Normalizes (decode : Decoder α) (encode : α → Json) : Prop :=
  ∀ j v, j.IsFinite → decode j = .ok v →
    ∃ v', decode (encode v) = .ok v' ∧ (v' == v) = true ∧ encode v' = encode v

/-- A decoder normalizes if what it gives meets the condition under which it comes back. -/
theorem Carries.normalizes {decode : Decoder α} {encode : α → Json} {p : α → Prop}
    (h : Carries decode encode p) (hgives : ∀ j v, j.IsFinite → decode j = .ok v → p v)
    (hself : ∀ v, p v → (v == v) = true) : Normalizes decode encode := by
  intro j v hj hv
  have hp := hgives j v hj hv
  exact ⟨v, (h v v).mpr ⟨hp, rfl⟩, hself v hp, rfl⟩

/-- What is true of all that a decoder gives for finite JSON is true of all items of a list. -/
private theorem forall_of_asList_isFinite {β : Type} {decode : Decoder β} {P : β → Prop}
    (h : ∀ j b, j.IsFinite → decode j = .ok b → P b) (j : Json) (bs : List β) (hj : j.IsFinite)
    (hbs : asList decode j = .ok bs) : ∀ b ∈ bs, P b :=
  forall_of_asList (fun c hc b => h c b (hj.inside c hc)) hbs

private theorem isFinite_of_asBinary64 {j : Json} {x : Binary64} (hj : j.IsFinite)
    (h : asBinary64 j = .ok x) : x.isFinite = true := by
  cases hj with
  | integer n hn => cases h; exact hn
  | float y hy => cases h; exact hy
  | _ => cases h

end Serial

theorem Value.isFinite_of_ofJson {j : Json} {v : Value} (hj : j.IsFinite) (h : ofJson j = .ok v) :
    v.isFinite = true := by
  obtain ⟨name, content, decode, rfl, hmem, hcontent⟩ := exists_of_asTagged h
  have hfinite : content.IsFinite := hj.inside content (by simp [Json.inside])
  simp only [List.mem_cons, Prod.mk.injEq, List.not_mem_nil, or_false] at hmem
  rcases hmem with ⟨_, rfl⟩ | ⟨_, rfl⟩ | ⟨_, rfl⟩ | ⟨_, rfl⟩ <;>
    obtain ⟨x, hx, rfl⟩ := map_eq_ok_iff.mp hcontent
  · rfl
  · exact isFinite_of_asBinary64 hfinite hx
  · rfl
  · rfl

theorem MembershipEntry.isFinite_of_ofJson {j : Json} {e : MembershipEntry} (hj : j.IsFinite)
    (h : ofJson j = .ok e) : ∀ v ∈ e.values, v.isFinite = true := by
  have hvalues := forall_of_asList_isFinite fun _ _ => Value.isFinite_of_ofJson
  have hshape : shape.Gives Json.IsFinite fun e => ∀ v ∈ e.values, v.isFinite = true := by
    refine .seq (.map Shape.gives_required_true ?_) (Shape.gives_required hvalues)
    intro field _ vs hvs
    exact hvs
  exact hshape.decode hj.inside h

private theorem MembershipGroup.isFinite_ofEntries (k : MembershipKind) {es : List MembershipEntry}
    (h : ∀ e ∈ es, ∀ v ∈ e.values, v.isFinite = true) : (ofEntries k es).IsFinite := by
  rw [ofEntries_eq_lastEntries]
  intro e he
  exact h e (mem_of_lastFor? (mem_lastEntries_iff.mp he)).1

theorem MembershipGroup.isFinite_of_ofJson {j : Json} {g : MembershipGroup} (hj : j.IsFinite)
    (h : ofJson j = .ok g) : g.IsFinite := by
  obtain ⟨⟨kind, es⟩, hparts, hchecked⟩ := checking_eq_ok_iff.mp h
  have hentries := forall_of_asList_isFinite fun _ _ => MembershipEntry.isFinite_of_ofJson
  have hshape : partsShape.Gives Json.IsFinite
      fun parts => ∀ e ∈ parts.2, ∀ v ∈ e.values, v.isFinite = true := by
    refine .seq (.map Shape.gives_required_true ?_) (Shape.gives_required hentries)
    intro kind _ es hes
    exact hes
  cases kind with
  | predicates => cases hchecked
  | membership k =>
    obtain ⟨rfl, _⟩ := checked_eq_ok_iff.mp hchecked
    exact isFinite_ofEntries k (hshape.decode hj.inside hparts)

theorem OutputField.isFinite_of_ofJson {j : Json} {o : OutputField} (hj : j.IsFinite)
    (h : ofJson j = .ok o) : o.value.isFinite = true := by
  have hshape : shape.Gives Json.IsFinite (·.value.isFinite = true) := by
    refine .seq (.map Shape.gives_required_true ?_)
      (Shape.gives_required fun _ _ => Value.isFinite_of_ofJson)
    intro name _ v hv
    exact hv
  exact hshape.decode hj.inside h

theorem Action.isFinite_of_ofJson {j : Json} {a : Action} (hj : j.IsFinite)
    (h : ofJson j = .ok a) : a.IsFinite := by
  have houtputs := forall_of_asList_isFinite fun _ _ => OutputField.isFinite_of_ofJson
  have hshape : shape.Gives Json.IsFinite Action.IsFinite := by
    refine .seq ?outputs (Shape.gives_required houtputs)
    refine .seq ?result (Shape.gives_optional fun _ _ => Value.isFinite_of_ofJson)
    refine .seq_of_forall Shape.gives_optional_true ?resultCode
    refine .map Shape.gives_required_true ?statusToSet
    intro status _ code result hresult outputs houtputs
    exact ⟨hresult, houtputs⟩
  exact hshape.decode hj.inside h

namespace Rule

private theorem constraintsShape_gives :
    constraintsShape.Gives Json.IsFinite fun _ => True := by
  refine .seq_of_forall Shape.gives_optional_true ?not
  refine .seq_of_forall Shape.gives_optional_true ?xor
  refine .seq_of_forall Shape.gives_optional_true ?or
  exact .map Shape.gives_optional_true fun _ _ _ _ _ => trivial

private theorem membershipsShape_gives :
    membershipsShape.Gives Json.IsFinite fun ms => ∀ k, ∀ g ∈ ms.get k, g.IsFinite := by
  have hmembership {key : String} : (Shape.optional key MembershipGroup.ofJson).Gives
      Json.IsFinite fun g => ∀ g' ∈ g, g'.IsFinite :=
    Shape.gives_optional fun _ _ => MembershipGroup.isFinite_of_ofJson
  refine .seq (.map hmembership ?_) hmembership
  intro among hamong outside houtside k
  cases k
  · exact hamong
  · exact houtside

/-- What a rule is claimed to be has finite numbers where no check looks. The members are gone
through from the last to the first. -/
theorem shape_gives_isFinite : shape.Gives Json.IsFinite Rule.IsFinite := by
  have haction : (Shape.required "rhs" Action.ofJson).Gives Json.IsFinite Action.IsFinite :=
    Shape.gives_required fun _ _ => Action.isFinite_of_ofJson
  refine .seq_of_forall Shape.gives_required_true ?status
  refine .seq ?action haction
  refine .seq_of_forall Shape.gives_optional_true ?breakClause
  refine .seq ?memberships membershipsShape_gives
  refine .seq_of_forall constraintsShape_gives ?constraints
  refine .seq_of_forall Shape.gives_optional_true ?statusConstraint
  refine .seq_of_forall Shape.gives_optional_true ?focusedAgendaGroup
  refine .seq_of_forall Shape.gives_optional_true ?activationGroup
  refine .seq_of_forall Shape.gives_optional_true ?agendaGroup
  refine .seq_of_forall Shape.gives_required_true ?nodeKind
  refine .map Shape.gives_required_true ?name
  intros
  constructor <;> assumption

/-- Building a rule from what it is claimed to be loses values and adds none. -/
private theorem IsFinite.of_builds {claimed r : Rule} {kind : NodeKind} (h : claimed.IsFinite)
    (hbuilds : (Draft.ofRule claimed).Builds kind r) : r.IsFinite where
  memberships k g hg := by
    obtain ⟨es, hes, hchecked⟩ := Draft.exists_of_checkSome (hbuilds.memberships k) hg
    rw [Draft.ofRule, PerMembership.get_map] at hes
    obtain ⟨g', hg', rfl⟩ := Option.map_eq_some_iff.mp hes
    obtain ⟨rfl, _⟩ := MembershipGroup.checked_eq_ok_iff.mp hchecked
    exact MembershipGroup.isFinite_ofEntries k (h.memberships k g' hg')
  action := by
    refine ⟨?_, ?_⟩
    · rw [hbuilds.result]
      exact h.action.result
    · rw [hbuilds.outputs]
      exact h.action.outputs

theorem isFinite_of_ofJson {j : Json} {r : Rule} (hj : j.IsFinite) (h : ofJson j = .ok r) :
    r.IsFinite := by
  obtain ⟨claimed, hclaimed, hrebuilt⟩ := checking_eq_ok_iff.mp h
  have hbuilt := (rebuild_eq_ok_iff.mp hrebuilt).2.1
  exact (shape_gives_isFinite.decode hj.inside hclaimed).of_builds (Draft.build_eq_ok_iff.mp hbuilt)

end Rule

theorem MembershipGroup.normalizes : Normalizes MembershipGroup.ofJson MembershipGroup.toJson := by
  intro j g hj hg
  have hfinite := isFinite_of_ofJson hj hg
  exact ⟨g, (wellFormed_of_ofJson hg).ofJson_toJson hfinite, beq_self hfinite, rfl⟩

/-- A decoded rule is well formed, so what it says of itself builds it once more. -/
theorem Rule.normalizes : Normalizes Rule.ofJson Rule.toJson := by
  intro j r hj hr
  have hfinite := isFinite_of_ofJson hj hr
  have hbuilds := (wellFormed_of_ofJson hr).builds
  exact ⟨r, hbuilds.ofJson_toJson_eq_ok_iff.mpr ⟨hfinite, rfl⟩, hbuilds.beq_self hfinite, rfl⟩

/-- Decoding settles, for rules and for each of their parts, what a record leaves open:
nothing that has been decoded is refused or changed when it is decoded again. -/
theorem decoding_normalizes :
    Normalizes Value.ofJson Value.toJson ∧
      Normalizes Predicate.ofJson Predicate.toJson ∧
      Normalizes BreakClause.ofJson BreakClause.toJson ∧
      Normalizes ConstraintGroup.ofJson ConstraintGroup.toJson ∧
      Normalizes MembershipEntry.ofJson MembershipEntry.toJson ∧
      Normalizes MembershipGroup.ofJson MembershipGroup.toJson ∧
      Normalizes OutputField.ofJson OutputField.toJson ∧
      Normalizes Action.ofJson Action.toJson ∧
      Normalizes BranchStatus.ofJson BranchStatus.toJson ∧
      Normalizes Rule.ofJson Rule.toJson := by
  have hfinite {p : Predicate} (hp : p.fault? = none) : p.value.isFinite = true :=
    (Predicate.fault?_eq_none_iff.mp hp).2.1
  refine ⟨?value, ?predicate, ?breakClause, ?group, ?entry, MembershipGroup.normalizes, ?output,
    ?action, ?status, Rule.normalizes⟩
  case value =>
    exact Value.carries.normalizes (fun _ _ => Value.isFinite_of_ofJson)
      fun _ => Value.beq_self_of_isFinite
  case predicate =>
    exact Predicate.carries.normalizes
      (fun _ _ _ hp => Predicate.wellFormed_iff.mp (Predicate.wellFormed_of_ofJson hp))
      fun _ hp => Predicate.beq_self (hfinite hp)
  case breakClause =>
    exact BreakClause.carries.normalizes
      (fun _ _ _ hb => Predicate.wellFormed_iff.mp (BreakClause.wellFormed_of_ofJson hb))
      fun _ hb => BreakClause.beq_self (hfinite hb)
  case group =>
    exact ConstraintGroup.carries.normalizes
      (fun _ _ _ hg => ConstraintGroup.wellFormed_iff.mp (ConstraintGroup.wellFormed_of_ofJson hg))
      fun _ hg => ConstraintGroup.beq_self fun p hp => hfinite (hg.fault_eq_none p hp)
  case entry =>
    exact MembershipEntry.carries.normalizes (fun _ _ => MembershipEntry.isFinite_of_ofJson)
      fun _ => MembershipEntry.beq_self
  case output =>
    exact OutputField.carries.normalizes (fun _ _ => OutputField.isFinite_of_ofJson)
      fun _ => OutputField.beq_self
  case action =>
    exact Action.carries.normalizes (fun _ _ => Action.isFinite_of_ofJson) fun _ => Action.beq_self
  case status =>
    exact BranchStatus.carries.normalizes (fun _ _ _ _ => trivial) fun s _ => s.beq_self

/-- A record that leaves out what may be absent, lists a field twice, writes a number as an
integer and has a member that no rule has. -/
def Json.loose : Json :=
  .object [("name", .string "watched"), ("comment", .array [.null, .bool true]),
    ("node_kind", .string "NonLeaf"),
    ("in_constraints", .object [("kind", .string "MemberOf"), ("entries", .array [
      .object [("field", .string "ZONE"), ("values", .array [.object [("Int", .integer 3)]])],
      .object [("field", .string "LOAD"), ("values", .array [.object [("Float", .integer 2)]])],
      .object [("field", .string "ZONE"), ("values", .array [.object [("Int", .integer 4)]])]])]),
    ("rhs", .object [("status_to_set", .string "SEEN"), ("output_fields", .array [])]),
    ("status", .object [])]

def Rule.settledLoose : Rule where
  name := "watched"
  nodeKind := .nonLeaf
  agendaGroup := none
  activationGroup := none
  focusedAgendaGroup := none
  statusConstraint := none
  constraints := .const none
  memberships := ⟨some ⟨.memberOf, [⟨"ZONE", [.int 4]⟩, ⟨"LOAD", [.float (.ofInt 2)]⟩]⟩, none⟩
  breakClause := none
  action := ⟨"SEEN", none, none, []⟩
  status := ⟨none, none⟩

/-- Its own JSON differs from the record and decodes to the rule again. -/
theorem decoding_normalizes_loose :
    Json.loose.IsFinite ∧ Rule.ofJson .loose = .ok .settledLoose ∧
      ∃ r, Rule.ofJson Rule.settledLoose.toJson = .ok r ∧ (r == .settledLoose) = true ∧
        r.toJson = Rule.settledLoose.toJson := by
  have hfinite : Json.loose.IsFinite := by
    simp [Json.loose, Json.isFinite_array_iff, Json.isFinite_object_iff, Json.isFinite_integer,
      Json.IsFinite.null, Json.IsFinite.bool, Json.IsFinite.string]
  have hread : Rule.ofJson .loose = .ok .settledLoose := by rfl
  obtain ⟨_, _, _, _, _, _, _, _, _, hrule⟩ := decoding_normalizes
  exact ⟨hfinite, hread, hrule _ _ hfinite hread⟩

end DecisionRules
