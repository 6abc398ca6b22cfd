import DecisionRules.Proofs.Building.FirstFault
import DecisionRules.Proofs.Building.LastSetting

/-! The two ways to begin a draft. What every rule needs can be given at once, and is then
checked at once, or be set like everything else, and is then checked when the rule is built.
The checks agree on every text, and a draft that was begun in either way is the same draft. -/
namespace DecisionRules.Draft

def essentials (name statusToSet : String) (outputs : List OutputField) : List Setting :=
  [.name name, .statusToSet statusToSet, .outputs outputs]

def essentialTexts (name statusToSet : String) : List (String × String) :=
  [("name", name), ("status_to_set", statusToSet)]

def IsMissing (part : String × String) (what : String) : Prop :=
  Text.isBlankText part.2 = true ∧ what = part.1

variable {name statusToSet : String} {outputs : List OutputField} {kind : NodeKind} {e : RuleError}

theorem requireText_eq_error_iff {argument text : String} :
    requireText argument text = .error e ↔
      ∃ what, IsMissing (argument, text) what ∧ e = .invalidArgument what "must not be empty" := by
  cases h : Text.isBlankText text <;> simp [requireText, IsMissing, h, eq_comm]

theorem requireSet_some_eq_error_iff {what text : String} :
    requireSet what (some text) = .error e ↔
      ∃ missing, IsMissing (what, text) missing ∧ e = .incompleteRule missing := by
  rw [requireSet_eq_error_iff]
  simp [IsMissing]

/-- Of the texts given at the start the first that is missing is an invalid argument. -/
theorem start_eq_error_iff : start name statusToSet outputs = .error e ↔
    ∃ what, FirstFailure IsMissing (essentialTexts name statusToSet) what ∧
      e = .invalidArgument what "must not be empty" := by
  have hreports : Reports (start name statusToSet outputs)
      (fun part e => ∃ what, IsMissing part what ∧ e = .invalidArgument what "must not be empty")
      (essentialTexts name statusToSet) :=
    (Reports.single fun _ => requireText_eq_error_iff).bind fun _ =>
      (Reports.single fun _ => requireText_eq_error_iff).bind fun _ => .pure _
  exact (hreports e).trans firstFailure_map_iff

/-- Of the texts that were set the first that is missing makes the rule incomplete. -/
theorem build_essentials_eq_error_iff :
    (empty.setAll (essentials name statusToSet outputs)).build kind = .error e ↔
      ∃ what, FirstFailure IsMissing (essentialTexts name statusToSet) what ∧
        e = .incompleteRule what := by
  have hreports : Reports ((empty.setAll (essentials name statusToSet outputs)).build kind)
      (fun part e => ∃ what, IsMissing part what ∧ e = .incompleteRule what)
      (essentialTexts name statusToSet) :=
    (Reports.single fun _ => requireSet_some_eq_error_iff).bind fun _ =>
      (Reports.single fun _ => requireSet_some_eq_error_iff).bind fun _ => .pure _
  exact (hreports e).trans firstFailure_map_iff

private theorem setAll_essentials_of_perm {staged : List Setting}
    (h : staged.Perm (essentials name statusToSet outputs)) :
    empty.setAll staged = empty.setAll (essentials name statusToSet outputs) := by
  have hslots : ((essentials name statusToSet outputs).map (·.slot)).Nodup :=
    (by decide : [Slot.name, Slot.statusToSet, Slot.outputs].Nodup)
  exact (setAll_perm h.symm hslots empty).symm

/-- A start fails if and only if a rule of the same settings alone cannot be built, for the same
text: the name, or else the status. A start that succeeds comes to the same as those settings,
in whatever order they were said, whatever is said afterwards. -/
theorem start_agrees_with_staged {staged : List Setting}
    (hstaged : staged.Perm (essentials name statusToSet outputs)) :
    (∀ e, start name statusToSet outputs = .error e ↔
      ∃ what, FirstFailure IsMissing (essentialTexts name statusToSet) what ∧
        e = .invalidArgument what "must not be empty") ∧
      (∀ kind e, (empty.setAll staged).build kind = .error e ↔
        ∃ what, start name statusToSet outputs =
            .error (.invalidArgument what "must not be empty") ∧
          e = .incompleteRule what) ∧
      ∀ d, start name statusToSet outputs = .ok d → ∀ later kind,
        (d.setAll later).build kind = ((empty.setAll staged).setAll later).build kind := by
  rw [setAll_essentials_of_perm hstaged]
  refine ⟨fun _ => start_eq_error_iff, ?_, ?_⟩
  · intro kind e
    simp only [build_essentials_eq_error_iff, start_eq_error_iff, RuleError.invalidArgument.injEq,
      and_true, exists_eq_right']
  · intro d hstart later kind
    rw [(Begins.started hstart).eq_setAll]
    rfl

/-- Settings after a start that give another name and take the status back, with a blank that
ASCII does not know. -/
def blanked : List Setting := [.name "zones of heat", .statusToSet "\u2003"]

/-- Both ways the status is missing in the end. -/
theorem start_agrees_with_staged_blanked : ∃ d, start "zones" "HOT" [] = .ok d ∧
    (d.setAll blanked).build .leaf = .error (.incompleteRule "status_to_set") ∧
    ((empty.setAll [.outputs [], .statusToSet "HOT", .name "zones"]).setAll blanked).build .leaf =
      .error (.incompleteRule "status_to_set") := by
  have hstart : start "zones" "HOT" [] =
      .ok { name := some "zones", statusToSet := some "HOT" } := rfl
  have hstaged : [.outputs [], .statusToSet "HOT", .name "zones"].Perm
      (essentials "zones" "HOT" []) := by decide
  have hsame := (start_agrees_with_staged hstaged).2.2 _ hstart blanked .leaf
  have hmissing : ((empty.setAll [.outputs [], .statusToSet "HOT", .name "zones"]).setAll
      blanked).build .leaf = .error (.incompleteRule "status_to_set") := rfl
  exact ⟨_, hstart, hsame.trans hmissing, hmissing⟩

end DecisionRules.Draft
