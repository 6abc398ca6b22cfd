import DecisionRules.Proofs.Reading.Items
import DecisionRules.Proofs.Reading.PredicateGrammar

/-! Predicates as a language: one predicate is its text between filler, and a list of them is a
list of items. -/
namespace DecisionRules.Reading

inductive PredicateText : List Char → Predicate → Prop
  | mk {name f comparison g value : List Char} {p : Predicate} :
      NameText name p.field (f ++ (comparison ++ (g ++ value))) →
      Filler f (comparison ++ (g ++ value)) → ComparisonText comparison p.comparison →
      Filler g value → ValueText value p.value →
      PredicateText (name ++ (f ++ (comparison ++ (g ++ value)))) p

theorem PredicateText.visible {text : List Char} {p : Predicate} (h : PredicateText text p) :
    Visible text := by
  obtain ⟨hname, -⟩ := h
  exact hname.visible.append _

/-- Between filler and whatever follows, the tokens are those of a cut. -/
private theorem PredicateText.exists_reads {lead text : List Char} {p : Predicate}
    (h : PredicateText text p) (hlead : Filler lead text) (trail : List Char) :
    ∃ d : PredicateCut, d.text = lead ++ (text ++ trail) ∧ d.trail = trail ∧ d.Reads p := by
  have hfirst := (h.visible.filler_append_iff trail).mpr hlead
  obtain @⟨name, f, comparison, g, value, p, hname, hf, hcomparison, hg, hvalue⟩ := h
  simp only [List.append_assoc] at hfirst ⊢
  exact ⟨⟨lead, name, f, comparison, g, value, trail⟩, rfl, rfl, hfirst,
    hname.before_token hcomparison.visible _, hf.before_token hcomparison.visible _,
    hcomparison, (hvalue.visible.filler_append_iff trail).mpr hg, hvalue⟩

namespace PredicateCut

variable {d : PredicateCut} {p : Predicate}

/-- What a cut leaves behind its value does not matter to the tokens before. -/
private theorem Reads.exists_text (h : d.Reads p) :
    ∃ text, d.text = d.lead ++ (text ++ d.trail) ∧ Filler d.lead text ∧ PredicateText text p := by
  obtain ⟨lead, name, f, comparison, g, value, trail⟩ := d
  obtain ⟨hlead, hname, hf, hcomparison, hg, hvalue⟩ := h
  simp only [text, fromName, behindName, fromComparison, behindComparison, fromValue]
    at hlead hname hf hcomparison hg hvalue ⊢
  have htext : PredicateText (name ++ (f ++ (comparison ++ (g ++ value)))) p :=
    .mk (hname.before_token hcomparison.visible _) (hf.before_token hcomparison.visible _)
      hcomparison ((hvalue.visible.filler_append_iff trail).mp hg) hvalue
  exact ⟨_, by simp, hlead.before_token hname.visible _, htext⟩

end PredicateCut

theorem predicate_recognizes : Recognizes predicate PredicateText where
  sound {cs rest p} hread := by
    obtain ⟨d, rfl, rfl, hd⟩ := PredicateCut.exists_reads hread
    obtain ⟨text, htext, hlead, hp⟩ := hd.exists_text
    exact ⟨d.lead, text, htext, hlead, hp⟩
  complete {lead text rest p} hlead hp hr := by
    obtain ⟨d, htext, rfl, hd⟩ := hp.exists_reads hlead rest
    rw [← htext]
    exact (hd.trace hr).run
  visible := PredicateText.visible

theorem predicate_missesAtEnd : MissesAtEnd predicate :=
  missesAtEnd_behind_filler ⟨_, _, rfl⟩ (fun _ => ⟨_, _, rfl⟩) fun _ => ⟨_, _, rfl⟩

/-- What is read as one predicate is a predicate between filler. -/
theorem onePredicate_eq_ok_iff_padded {cs : List Char} {p : Predicate} :
    onePredicate.run cs = .ok p [] ↔ Padded PredicateText [] cs p := by
  rw [PredicateCut.onePredicate_eq_ok_iff]
  constructor
  · intro h
    obtain ⟨d, rfl, hd⟩ := h
    obtain ⟨text, hcut, hlead, hp⟩ := hd.toReads.exists_text
    rw [hcut]
    exact .mk hlead hp hd.trail
  · intro h
    obtain @⟨lead, text, trail, p, hlead, hp, htrail⟩ := h
    obtain ⟨d, htext, rfl, hd⟩ := hp.exists_reads hlead trail
    exact ⟨d, htext, ⟨hd, htrail⟩⟩

theorem parse_eq_ok_iff_padded {s : String} {p : Predicate} :
    Predicate.parse s = .ok p ↔ Padded PredicateText [] s.toList p := by
  rw [Predicate.parse, Reader.parse_eq_ok_iff, onePredicate_eq_ok_iff_padded]

theorem parseList_eq_ok_iff_listText {t : String} {ps : List Predicate} :
    Predicate.parseList t = .ok ps ↔ ListText PredicateText t.toList ps := by
  rw [Predicate.parseList, Reader.parse_eq_ok_iff,
    predicate_recognizes.listOf_eq_ok_iff predicate_missesAtEnd]

end DecisionRules.Reading
