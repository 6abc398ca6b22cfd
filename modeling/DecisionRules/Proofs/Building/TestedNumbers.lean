import DecisionRules.Proofs.Building.Finite
import DecisionRules.Proofs.Building.LastSetting
import DecisionRules.Proofs.Building.WellFormed
import DecisionRules.Proofs.Reading.MembershipRefusal

/-! The numbers that a rule tests against. Building refuses a predicate that compares with a
NaN or an infinity, but lists of values for membership are taken as they were set last. It
is therefore up to those lists whether every test of a rule has a notation. -/
namespace DecisionRules

namespace Rule

structure TestsFinite (r : Rule) : Prop where
  predicates (c : Connective) :
    ∀ g ∈ r.constraintGroup? c, ∀ p ∈ g.predicates, p.value.isFinite = true
  breakClause : ∀ b ∈ r.breakClause, b.predicate.value.isFinite = true
  memberships (k : MembershipKind) : ∀ g ∈ r.membership? k, g.IsFinite

structure TestsReadBack (r : Rule) : Prop where
  constraintGroup (c : Connective) : ∀ g ∈ r.constraintGroup? c,
    (g == g) = true ∧ ∀ p ∈ g.predicates, Predicate.parse p.text = .ok p
  breakClause : ∀ b ∈ r.breakClause,
    (b == b) = true ∧ Predicate.parse b.predicate.text = .ok b.predicate
  membership (k : MembershipKind) : ∀ g ∈ r.membership? k,
    (g == g) = true ∧ MembershipEntry.parseList (MembershipEntry.listText g.entries) = .ok g.entries

variable {r : Rule}

/-- A rule can be written test by test and read back if its numbers are finite, and only then. -/
theorem testsReadBack_iff : r.TestsReadBack ↔ r.TestsFinite := by
  constructor
  · intro h
    exact {
      predicates := fun c g hg p hp =>
        Predicate.isFinite_of_parse_text ((h.constraintGroup c g hg).2 p hp)
      breakClause := fun b hb => Predicate.isFinite_of_parse_text (h.breakClause b hb).2
      memberships := fun k g hg =>
        MembershipEntry.parse_listText_eq_ok_iff.mp (h.membership k g hg).2 }
  · intro h
    exact {
      constraintGroup := fun c g hg => ⟨ConstraintGroup.beq_self (h.predicates c g hg),
        fun p hp => Predicate.parse_text_of_isFinite (h.predicates c g hg p hp)⟩
      breakClause := fun b hb => ⟨BreakClause.beq_self (h.breakClause b hb),
        Predicate.parse_text_of_isFinite (h.breakClause b hb)⟩
      membership := fun k g hg => ⟨MembershipGroup.beq_self (h.memberships k g hg),
        MembershipEntry.parse_listText_of_isFinite (h.memberships k g hg)⟩ }

/-- The checks of a rule leave nothing open but the values of its membership groups. -/
theorem WellFormed.testsFinite_iff (h : r.WellFormed) :
    r.TestsFinite ↔ ∀ k, ∀ g ∈ r.membership? k, g.IsFinite := by
  constructor
  · intro hfinite
    exact hfinite.memberships
  · intro hmemberships
    refine ⟨?_, ?_, hmemberships⟩
    · intro c g hg p hp
      exact ((h.constraintGroup c g hg).predicates p hp).value
    · intro b hb
      exact (h.breakClause b hb).value

end Rule

namespace Draft

open Setting (last?)

variable {d : Draft} {before xs : List Setting} {kind : NodeKind} {r : Rule}

/-- A rule that has been built tests against finite numbers alone if and only if the values
last given to each field of its last membership settings are finite, and these are the rules
of which every test can be written in the notation and read back. -/
theorem testsFinite_of_build_iff (hd : Begins d before) (h : (d.setAll xs).build kind = .ok r) :
    (r.TestsFinite ↔ ∀ k es, last? (before ++ xs) (.membership k) = some (.membership k es) →
      ∀ e ∈ MembershipGroup.lastEntries es, ∀ v ∈ e.values, v.isFinite = true) ∧
      (r.TestsReadBack ↔ r.TestsFinite) := by
  have hbuilds := build_eq_ok_iff.mp h
  have hholds := hbuilds.holds (hd.said_setAll xs)
  refine ⟨?_, Rule.testsReadBack_iff⟩
  rw [hbuilds.wellFormed.testsFinite_iff]
  constructor
  · intro hfinite k es hlast
    obtain ⟨es?, hset, hgroup⟩ := hholds.membership k
    rw [hset] at hlast
    obtain ⟨es', rfl, heq⟩ := Option.map_eq_some_iff.mp hlast
    cases heq
    exact hfinite k _ hgroup
  · intro hlists k g hg
    obtain ⟨es?, hset, hgroup⟩ := hholds.membership k
    rw [hgroup] at hg
    obtain ⟨es, rfl, rfl⟩ := Option.map_eq_some_iff.mp hg
    exact hlists k es hset

def corrected : List Setting :=
  [.membership .memberOf [⟨"ZONE", [.float (.infinity false)]⟩, ⟨"ZONE", [.int 3]⟩],
    .breakOn ⟨"T", .ge, .int 30⟩]

/-- Only what is listed last for the field has to be finite. -/
theorem testsFinite_of_build_corrected : ∃ d r, start "zones" "HOT" [] = .ok d ∧
    (d.setAll corrected).build .nonLeaf = .ok r ∧ r.TestsFinite ∧ r.TestsReadBack := by
  have hall {d : Draft} {r : Rule} (hstart : start "zones" "HOT" [] = .ok d)
      (hbuilt : (d.setAll corrected).build .nonLeaf = .ok r) : r.TestsFinite ∧ r.TestsReadBack := by
    have hiff := testsFinite_of_build_iff (.started hstart) hbuilt
    have hfinite := hiff.1.mpr ?lists
    case lists =>
      intro k es hlast
      cases k with
      | memberOf =>
        cases hlast
        decide
      | notMemberOf => cases hlast
    exact ⟨hfinite, hiff.2.mpr hfinite⟩
  have hstart : start "zones" "HOT" [] =
      .ok { name := some "zones", statusToSet := some "HOT" } := rfl
  exact ⟨_, _, hstart, rfl, hall hstart rfl⟩

/-- A numeral that is too great is read as an infinity and listed for membership, and the
rule is built all the same. -/
theorem build_overflow : ∃ es r, MembershipEntry.parseList "x in (1e400)" = .ok es ∧
    (empty.setAll [.name "r", .statusToSet "DONE", .membership .memberOf es]).build .leaf = .ok r ∧
    ¬r.TestsFinite ∧ ¬r.TestsReadBack := by
  have hread : MembershipEntry.parseList "x in (1e400)" =
      .ok [⟨"x", [.float (.infinity false)]⟩] :=
    Reading.parse_membership_eq_ok_iff.mpr Reading.listText_overflow
  have hinfinite {r : Rule} (h : r.membership? .memberOf =
      some ⟨.memberOf, [⟨"x", [.float (.infinity false)]⟩]⟩) : ¬r.TestsFinite := by
    intro hfinite
    have hvalue := hfinite.memberships .memberOf _ h _ (List.mem_singleton_self _) _
      (List.mem_singleton_self _)
    cases hvalue
  refine ⟨_, _, hread, rfl, ?_⟩
  rw [Rule.testsReadBack_iff, and_self]
  exact hinfinite rfl

end Draft
end DecisionRules
