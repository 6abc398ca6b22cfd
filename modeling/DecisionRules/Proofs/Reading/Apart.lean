import DecisionRules.Proofs.Reading.MembershipGrammar
import DecisionRules.Proofs.Reading.PredicateText

/-! The two notations for lists are apart. A list in either of them begins with a name, which
is the same for both readers however it is written, and the word behind the name belongs to one
notation only. -/
namespace DecisionRules.Reading

open Text (StartsOutside startsOutside_cons)

variable {cs : List Char} {p : Predicate} {ps : List Predicate} {e : MembershipEntry}
  {es : List MembershipEntry}

private def paddedName : Reader String := do
  filler
  let name ← fieldName
  filler
  return name

/-- The reader stands before the token behind the name. -/
private theorem run_paddedName {lead name f token ys : List Char} {field : String}
    (hlead : Filler lead (name ++ (f ++ (token ++ ys))))
    (hname : NameText name field (f ++ (token ++ ys))) (hf : Filler f (token ++ ys))
    (htoken : Visible token) :
    paddedName.run (lead ++ (name ++ (f ++ (token ++ ys)))) = .ok field (token ++ ys) := by
  simp only [paddedName, Reader.run_bind, Reader.run_pure, run_filler, Reply.ok_bind]
  rw [hlead.skipFiller_eq hname.outside_filler, fieldName_eq_ok_iff.mpr ⟨name, rfl, hname⟩,
    Reply.ok_bind, hf.skipFiller_eq (htoken.startsOutside ys)]

/-- A list of something begins with an item. -/
private theorem ListText.exists_first {α : Type} {Item : List Char → α → Prop} {a : α} {as : List α}
    (h : ListText Item cs (a :: as)) : ∃ lead text rest, cs = lead ++ (text ++ rest) ∧
      Filler lead (text ++ rest) ∧ Item text a := by
  obtain ⟨hlead, _ | ⟨hitem, -⟩, -, -⟩ := h
  rw [List.append_assoc] at hlead ⊢
  exact ⟨_, _, _, rfl, hlead, hitem⟩

private theorem comparison_behind_name (h : ListText PredicateText cs (p :: ps)) :
    ∃ field text rest, paddedName.run cs = .ok field (text ++ rest) ∧
      ComparisonText text p.comparison := by
  obtain ⟨lead, _, rest, rfl, hlead, hname, hf, hcomparison, -, -⟩ := h.exists_first
  simp only [List.append_assoc] at hlead ⊢
  exact ⟨_, _, _, run_paddedName hlead (hname.before_token hcomparison.visible _)
    (hf.before_token hcomparison.visible _) hcomparison.visible, hcomparison⟩

private theorem membershipWord_behind_name (h : ListText EntryText cs (e :: es)) :
    ∃ field text rest, paddedName.run cs = .ok field (text ++ rest) ∧ MembershipWord text := by
  obtain ⟨lead, _, rest, rfl, hlead, hname, hf, hword, -, -⟩ := h.exists_first
  simp only [List.append_assoc] at hlead ⊢
  exact ⟨_, _, _, run_paddedName hlead (hname.before_token hword.visible _)
    (hf.before_token hword.visible _) hword.visible, hword⟩

/-- The words for membership begin with a letter that no comparison begins with. -/
private theorem not_listText_of_listText (hp : ListText PredicateText cs (p :: ps)) :
    ¬ListText EntryText cs (e :: es) := by
  intro he
  obtain ⟨field, text, rest, hread, hcomparison⟩ := comparison_behind_name hp
  obtain ⟨_, word, tail, hreadWord, hword⟩ := membershipWord_behind_name he
  injection hread.symm.trans hreadWord with _ hsame
  have hout : StartsOutside (· == 'i') (text ++ rest) := hcomparison.outside (by decide) rest
  rw [hsame] at hout
  cases hword <;> exact absurd ((startsOutside_cons _ _ _).mp hout) (by decide)

/-- Lists of nothing are the same in every notation. -/
private theorem parseList_nil_iff (t : String) :
    Predicate.parseList t = .ok [] ↔ MembershipEntry.parseList t = .ok [] := by
  rw [parseList_eq_ok_iff_listText, parse_membership_eq_ok_iff, listText_nil_iff, listText_nil_iff]

/-- A text that both readers of lists accept states nothing, and what states nothing for one of
them does so for the other. -/
theorem parseLists_apart (t : String) :
    (∀ ps es, Predicate.parseList t = .ok ps → MembershipEntry.parseList t = .ok es →
        ps = [] ∧ es = []) ∧
      (Predicate.parseList t = .ok [] ↔ MembershipEntry.parseList t = .ok []) := by
  refine ⟨?_, parseList_nil_iff t⟩
  intro ps es hps hes
  cases ps with
  | nil =>
    have hnone := (parseList_nil_iff t).mp hps
    rw [hes] at hnone
    exact ⟨rfl, Except.ok.inj hnone⟩
  | cons p ps =>
    cases es with
    | nil =>
      have hnone := (parseList_nil_iff t).mpr hes
      rw [hps] at hnone
      cases hnone
    | cons e es =>
      rw [parseList_eq_ok_iff_listText] at hps
      rw [parse_membership_eq_ok_iff] at hes
      exact absurd hes (not_listText_of_listText hps)

/-- A comma between comments that state something. -/
theorem parseLists_apart_comma : Predicate.parseList "#x == 1\n,# y in (2)" = .ok [] ∧
    MembershipEntry.parseList "#x == 1\n,# y in (2)" = .ok [] ∧
    ([] : List Predicate) = [] ∧ ([] : List MembershipEntry) = [] := by
  have hbefore : Filler "#x == 1\n".toList [','] :=
    @Filler.comment "x == 1".toList ['\n'] _ (by simp) (.lineFeed _) (.blank rfl (.nil _))
  have hbehind : Filler "# y in (2)".toList [] :=
    @Filler.comment " y in (2)".toList [] _ (by simp) .atEnd (.nil _)
  have hps : Predicate.parseList "#x == 1\n,# y in (2)" = .ok [] :=
    parseList_eq_ok_iff_listText.mpr (listText_nil_iff.mpr (.inr ⟨_, _, rfl, hbefore, hbehind⟩))
  have hes := (parseLists_apart _).2.mp hps
  exact ⟨hps, hes, (parseLists_apart _).1 _ _ hps hes⟩

end DecisionRules.Reading
