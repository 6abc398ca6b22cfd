import DecisionRules.Proofs.Reading.MembershipGrammar

/-! The notation of membership lists read back. The writer decides on quotes, escapes and
digits without looking at what stands around a token; what it writes is in the grammar all
the same, whatever marks of the notation the names and the texts are made of. -/
namespace DecisionRules

namespace Reading

open Text (startsOutside_cons)

section Joined

variable {α : Type} {Item : List Char → α → Prop} {spell : α → List Char}
  {join : List α → List Char}

structure Joins (spell : α → List Char) (join : List α → List Char) : Prop where
  nil : join [] = []
  singleton (a : α) : join [a] = spell a
  cons_cons (a b : α) (as : List α) : join (a :: b :: as) = spell a ++ ',' :: ' ' :: join (b :: as)

/-- Items become further items behind a comma and a space. -/
private theorem Items.behind_comma {text : List Char} {a : α} {as : List α}
    (h : Items Item text (a :: as)) : MoreItems Item (',' :: ' ' :: text) (a :: as) := by
  cases h with
  | cons hitem hmore => exact .cons (.nil _) (.blank rfl (.nil _)) hitem hmore

/-- A list is written as a text of its items if each item is written as a text of it. -/
private theorem Joins.items (hjoin : Joins spell join) {as : List α}
    (h : ∀ a ∈ as, Item (spell a) a) :
    Items Item (join as) as := by
  induction as with
  | nil =>
    rw [hjoin.nil]
    exact .nil
  | cons a as ih =>
    obtain ⟨ha, has⟩ := List.forall_mem_cons.mp h
    cases as with
    | nil =>
      rw [hjoin.singleton, ← List.append_nil (spell a)]
      exact .cons ha .nil
    | cons b as =>
      rw [hjoin.cons_cons]
      exact .cons ha (ih has).behind_comma

end Joined

theorem joins_valueSpellings : Joins Value.spelling MembershipEntry.valueSpellings :=
  ⟨rfl, fun _ => rfl, fun _ _ _ => rfl⟩

theorem joins_listSpelling : Joins MembershipEntry.spelling MembershipEntry.listSpelling :=
  ⟨rfl, fun _ => rfl, fun _ _ _ => rfl⟩

/-- Values in brackets, as they are written. -/
theorem valueListText_valueSpellings {vs : List Value} (h : ∀ v ∈ vs, v.isFinite = true) :
    ValueListText ('(' :: (MembershipEntry.valueSpellings vs ++ [')'])) vs :=
  have hvalues : Items ValueText (MembershipEntry.valueSpellings vs) vs :=
    joins_valueSpellings.items fun v hv => Value.valueText_spelling (h v hv)
  @ValueListText.mk [] _ [] vs (.nil _) hvalues (.nil _)

/-- An entry is written as a text of it. Behind the name stands a space, so that a bare name
ends there whatever the word behind it. -/
theorem entryText_spelling {e : MembershipEntry} (h : ∀ v ∈ e.values, v.isFinite = true) :
    EntryText e.spelling e := by
  have hspace (rest : List Char) : Filler [' '] rest := .blank rfl (.nil rest)
  have hentry := EntryText.mk (nameText_spelling e.field ((startsOutside_cons _ _ _).mpr rfl))
    (hspace _) .short (hspace _) (valueListText_valueSpellings h)
  rw [MembershipEntry.spelling, List.append_assoc, List.append_assoc]
  exact hentry

theorem listText_listSpelling {es : List MembershipEntry}
    (h : ∀ e ∈ es, ∀ v ∈ e.values, v.isFinite = true) {comma : List Char}
    (hcomma : TrailingComma comma) :
    ListText EntryText (MembershipEntry.listSpelling es ++ comma) es := by
  have hitems : Items EntryText (MembershipEntry.listSpelling es) es :=
    joins_listSpelling.items fun e he => entryText_spelling (h e he)
  have hlist := @ListText.mk _ EntryText [] _ comma [] es (.nil _) hitems hcomma (.nil _)
  rwa [List.append_nil, List.nil_append] at hlist

end Reading

open Reading

theorem MembershipEntry.parse_listText_of_isFinite {es : List MembershipEntry}
    (h : ∀ e ∈ es, ∀ v ∈ e.values, v.isFinite = true) :
    MembershipEntry.parseList (listText es) = .ok es := by
  rw [parse_membership_eq_ok_iff, listText, String.toList_ofList, ← List.append_nil (listSpelling es)]
  exact listText_listSpelling h .absent

/-- What is written of membership entries is read back as the same entries in the same
order, with a comma behind the last one or without. Names may be blank, repeat and be made
of the notation's own words and marks, and lists of values may be empty. -/
theorem MembershipEntry.parseList_listText {es : List MembershipEntry}
    (h : ∀ e ∈ es, ∀ v ∈ e.values, v.isFinite = true) :
    MembershipEntry.parseList (listText es) = .ok es ∧
      MembershipEntry.parseList (listText es ++ ",") = .ok es := by
  have hcomma : (listText es ++ ",").toList = listSpelling es ++ [','] := by
    rw [String.toList_append, listText, String.toList_ofList]
    rfl
  refine ⟨parse_listText_of_isFinite h, ?_⟩
  rw [parse_membership_eq_ok_iff, hcomma]
  exact listText_listSpelling h (.present (.nil _))

def MembershipEntry.marks : List MembershipEntry :=
  [⟨"in", []⟩, ⟨"", [.string "), isIn (\"#\r\n", .int (-9)]⟩, ⟨"in", [.bool true]⟩]

theorem MembershipEntry.parseList_listText_marks :
    listText marks = "in in (), \"\" in (\"), isIn (\\\"#\r\\n\", -9), in in (true)" ∧
      (∀ e ∈ marks, ∀ v ∈ e.values, v.isFinite = true) ∧
      MembershipEntry.parseList (listText marks) = .ok marks ∧
      MembershipEntry.parseList (listText marks ++ ",") = .ok marks := by
  have hfinite : ∀ e ∈ marks, ∀ v ∈ e.values, v.isFinite = true := by decide
  exact ⟨rfl, hfinite, parseList_listText hfinite⟩

end DecisionRules
