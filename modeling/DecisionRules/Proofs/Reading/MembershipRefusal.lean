import DecisionRules.Proofs.Reading.MembershipRoundTrip
import DecisionRules.Proofs.Reading.RoundTrip

/-! Membership lists with a number that is not finite. It is written as a word, and no word is
a value: the values are read up to it, the bracket that has to stand behind them does not, and
with the entry the whole text is refused. -/
namespace DecisionRules

namespace Reading

open Text (startsOutside_cons)

private theorem behindComma?_comma (behind : List Char) :
    behindComma? (',' :: behind) = some behind :=
  behindComma?_filler (.nil _) behind

/-- One blank more before a token makes no difference. -/
private theorem run_behind_blank {α : Type} (token : Reader α) (cs : List Char) :
    (do filler; token : Reader α).run (' ' :: cs) = (do filler; token : Reader α).run cs := by
  have hskip : skipFiller (' ' :: cs) = skipFiller cs := skipFiller_blank rfl cs
  simp only [Reader.run_bind, run_filler, Reply.ok_bind, hskip]

section Joined

variable {α : Type} {item : Reader α} {Item : List Char → α → Prop} {spell : α → List Char}
  {join : List α → List Char} {bad : α → Prop} {outcome : Reply (List α) → Prop}

private inductive FirstBad (bad : α → Prop) : List α → Prop
  | here {b : α} {bs : List α} : bad b → FirstBad bad (b :: bs)
  | there {a b : α} {bs : List α} : ¬bad a → FirstBad bad (b :: bs) → FirstBad bad (a :: b :: bs)

private theorem firstBad_of_exists {as : List α} (h : ∃ a ∈ as, bad a) : FirstBad bad as := by
  induction as with
  | nil =>
    obtain ⟨_, hmem, _⟩ := h
    cases hmem
  | cons a as ih =>
    by_cases ha : bad a
    · exact .here ha
    · have hrest : ∃ b ∈ as, bad b := by simpa [ha] using h
      cases as with
      | nil =>
        obtain ⟨_, hmem, _⟩ := hrest
        cases hmem
      | cons b bs => exact .there ha (ih hrest)

private theorem Joins.exists_cons (hjoin : Joins spell join) (a : α) (as : List α) :
    ∃ more, join (a :: as) = spell a ++ more := by
  cases as with
  | nil => exact ⟨[], by rw [hjoin.singleton, List.append_nil]⟩
  | cons b bs => exact ⟨_, hjoin.cons_cons a b bs⟩

/-- Reading comes to an outcome at every bad item, and items before it do not change that. -/
structure ComesTo (item : Reader α) (spell : α → List Char) (bad : α → Prop)
    (outcome : Reply (List α) → Prop) : Prop where
  first {b : α} (behind : List Char) : bad b → outcome ((separated item).run (spell b ++ behind))
  further {b : α} (behind : List Char) :
    bad b → outcome (moreItems item (',' :: ' ' :: (spell b ++ behind)))
  before {a : α} {r : Reply (List α)} :
    outcome r → outcome (r.bind fun as rest => .ok (a :: as) rest)

/-- Good items are read one by one until a bad one decides. -/
private theorem ComesTo.moreItems_joined (hbad : ComesTo item spell bad outcome)
    (h : Recognizes item Item) (hgood : ∀ a, ¬bad a → Item (spell a) a) (hjoin : Joins spell join)
    {as : List α} (hfirst : FirstBad bad as) (behind : List Char) :
    outcome (moreItems item (',' :: ' ' :: (join as ++ behind))) := by
  induction hfirst with
  | @here b bs hb =>
    obtain ⟨more, hcons⟩ := hjoin.exists_cons b bs
    rw [hcons, List.append_assoc]
    exact hbad.further _ hb
  | @there a b bs ha _ ih =>
    -- The comma behind a good item prolongs no numeral, so the item is read as it was written.
    have hread : item.run (' ' :: (spell a ++ ',' :: ' ' :: (join (b :: bs) ++ behind))) =
        .ok a (',' :: ' ' :: (join (b :: bs) ++ behind)) :=
      @Recognizes.complete _ _ _ h [' '] _ _ _ (.blank rfl (.nil _)) (hgood a ha)
        ((startsOutside_cons _ _ _).mpr rfl)
    rw [hjoin.cons_cons, List.append_assoc, List.cons_append, List.cons_append,
      moreItems_of_ok (behindComma?_comma _) hread]
    exact hbad.before ih

private theorem ComesTo.separated_joined (hbad : ComesTo item spell bad outcome)
    (h : Recognizes item Item) (hgood : ∀ a, ¬bad a → Item (spell a) a) (hjoin : Joins spell join)
    {as : List α} (hfirst : FirstBad bad as) (behind : List Char) :
    outcome ((separated item).run (join as ++ behind)) := by
  cases hfirst with
  | @here b bs hb =>
    obtain ⟨more, hcons⟩ := hjoin.exists_cons b bs
    rw [hcons, List.append_assoc]
    exact hbad.first _ hb
  | @there a b bs ha hmore =>
    have hread : item.run (spell a ++ ',' :: ' ' :: (join (b :: bs) ++ behind)) =
        .ok a (',' :: ' ' :: (join (b :: bs) ++ behind)) :=
      h.complete (.nil _) (hgood a ha) ((startsOutside_cons _ _ _).mpr rfl)
    have hrun : (separated item).run (spell a ++ ',' :: ' ' :: (join (b :: bs) ++ behind)) =
        (moreItems item (',' :: ' ' :: (join (b :: bs) ++ behind))).bind
          fun as rest => .ok (a :: as) rest := by
      simp [separated, hread]
    rw [hjoin.cons_cons, List.append_assoc, List.cons_append, List.cons_append, hrun]
    exact hbad.before (hbad.moreItems_joined h hgood hjoin hmore behind)

end Joined

private def StopsInside (r : Reply (List Value)) : Prop :=
  ∃ vs left, r = .ok vs left ∧ ∀ rest, skipFiller left ≠ ')' :: rest

/-- In front of a word for a number the reader of values finds none, and takes nothing. -/
private theorem value_misses {v : Value} (h : v.isFinite = false) (behind : List Char) :
    ∃ rest expected, (do filler; value : Reader Value).run (v.spelling ++ behind) =
      .miss rest expected := by
  obtain ⟨rest, expected, hmiss⟩ := Value.value_miss_spelling h behind
  refine ⟨rest, expected, ?_⟩
  rw [Reader.run_bind, run_filler, Reply.ok_bind, skipFiller_eq_self (spelling_outside h behind).1,
    hmiss]

private theorem value_comesTo : ComesTo (do filler; value) Value.spelling (·.isFinite = false)
    StopsInside where
  first {v} behind hv := by
    obtain ⟨rest, expected, hrun⟩ := value_misses hv behind
    obtain ⟨hfiller, hbracket⟩ := spelling_outside hv behind
    refine ⟨[], _, separated_of_miss hrun, ?_⟩
    intro tail heq
    rw [← skipFiller_eq_self hfiller, heq] at hbracket
    exact absurd hbracket (by simp)
  further {v} behind hv := by
    obtain ⟨rest, expected, hrun⟩ := value_misses hv behind
    rw [← run_behind_blank] at hrun
    refine ⟨[], _, moreItems_of_miss (behindComma?_comma _) hrun, ?_⟩
    intro tail heq
    rw [skipFiller_eq_self ((startsOutside_cons _ _ _).mpr rfl)] at heq
    cases heq
  before {v r} hr := by
    obtain ⟨vs, left, rfl, hleft⟩ := hr
    exact ⟨v :: vs, left, rfl, hleft⟩

private theorem symbol_commit_isFatal {x : Char} {cs : List Char} (h : ∀ rest, cs ≠ x :: rest) :
    IsFatal ((symbol x).commit.run cs) := by
  cases cs with
  | nil => exact ⟨_, _, rfl⟩
  | cons c cs =>
    have hne : c ≠ x := by
      rintro rfl
      exact h cs rfl
    exact ⟨_, _, by simp only [Reader.run_commit, symbol, if_neg hne]; rfl⟩

theorem valueList_isFatal {vs : List Value} (h : ∃ v ∈ vs, v.isFinite = false)
    (behind : List Char) :
    IsFatal (valueList.run (' ' :: '(' :: (MembershipEntry.valueSpellings vs ++ behind))) := by
  have hgood (v : Value) (hv : ¬v.isFinite = false) : ValueText v.spelling v :=
    Value.valueText_spelling (by simpa using hv)
  obtain ⟨ws, left, hread, hleft⟩ := value_comesTo.separated_joined value_recognizes hgood
    joins_valueSpellings (firstBad_of_exists h) behind
  have hskip (cs : List Char) : skipFiller (' ' :: '(' :: cs) = '(' :: cs := by
    rw [skipFiller_blank rfl, skipFiller_eq_self ((startsOutside_cons _ _ _).mpr rfl)]
  have hopen (cs : List Char) : (symbol '(').run ('(' :: cs) = .ok () cs := symbol_eq_ok_iff.mpr rfl
  simp only [valueList, Reader.run_bind, run_filler, Reply.ok_bind, hskip, hopen, hread]
  exact (symbol_commit_isFatal hleft).bind _

/-- Without a list of values behind it a name is no entry. -/
theorem membershipEntry_isFatal {e : MembershipEntry} (h : ∃ v ∈ e.values, v.isFinite = false)
    (behind : List Char) : IsFatal (membershipEntry.run (e.spelling ++ behind)) := by
  have hlist := valueList_isFatal h (')' :: behind)
  have hname (cs : List Char) : NameText (FieldName.spelling e.field.toList) e.field (' ' :: cs) :=
    nameText_spelling e.field ((startsOutside_cons _ _ _).mpr rfl)
  have hread (cs : List Char) : fieldName.run (FieldName.spelling e.field.toList ++ ' ' :: cs) =
      .ok e.field (' ' :: cs) := fieldName_eq_ok_iff.mpr ⟨_, rfl, hname cs⟩
  have hskip (cs : List Char) : skipFiller (FieldName.spelling e.field.toList ++ ' ' :: cs) =
      FieldName.spelling e.field.toList ++ ' ' :: cs := skipFiller_eq_self (hname cs).outside_filler
  have hword (cs : List Char) : membershipWord.run (skipFiller (' ' :: 'i' :: 'n' :: cs)) =
      .ok () cs := by
    rw [skipFiller_blank rfl, skipFiller_eq_self ((startsOutside_cons _ _ _).mpr rfl)]
    exact membershipWord_complete .short cs
  have hspelling : e.spelling ++ behind = FieldName.spelling e.field.toList ++ ' ' :: 'i' :: 'n' ::
      ' ' :: '(' :: (MembershipEntry.valueSpellings e.values ++ ')' :: behind) := by
    simp [MembershipEntry.spelling]
  rw [hspelling]
  simp only [membershipEntry, Reader.run_bind, Reader.run_commit, Reader.run_expecting, run_filler,
    Reply.ok_bind, hskip, hread, hword]
  exact (hlist.commit.expecting _).bind _

theorem membershipEntry_comesTo : ComesTo membershipEntry MembershipEntry.spelling
    (fun e => ∃ v ∈ e.values, v.isFinite = false) IsFatal where
  first {e} behind he := by
    obtain ⟨rest, expected, hfatal⟩ := membershipEntry_isFatal he behind
    exact ⟨rest, expected, by simp [separated, hfatal]⟩
  further {e} behind he := by
    obtain ⟨rest, expected, hfatal⟩ := membershipEntry_isFatal he behind
    refine ⟨rest, expected, moreItems_of_fatal (behindComma?_comma _) ?_⟩
    rw [membershipEntry, run_behind_blank]
    exact hfatal
  before hr := hr.bind _

/-- A numeral that is too great denotes an infinity. -/
theorem listText_overflow : ListText EntryText "x in (1e400)".toList
    [⟨"x", [.float (.infinity false)]⟩] := by
  have hspace (rest : List Char) : Filler [' '] rest := .blank rfl (.nil rest)
  have hname : NameText ['x'] "x" " in (1e400)".toList :=
    .bare rfl ((startsOutside_cons _ _ _).mpr rfl)
  have hdigits : Numeral.IsDigits ['4', '0', '0'] := ⟨by simp, by simp⟩
  have hwritten : Numeral.Written "1e400".toList ⟨false, ['1'], none, some 400⟩ :=
    .mk false (Numeral.isDigits_singleton rfl) .absent (.present (.inl rfl) (.plain false) hdigits)
  have hvalue : ValueText "1e400".toList (.float (.infinity false)) :=
    valueText_of_written hwritten rfl
  have hlist : ValueListText "(1e400)".toList [.float (.infinity false)] :=
    @ValueListText.mk [] "1e400".toList [] _ (.nil _) (.cons hvalue .nil) (.nil _)
  have hentry : EntryText "x in (1e400)".toList ⟨"x", [.float (.infinity false)]⟩ :=
    @EntryText.mk ['x'] [' '] _ [' '] _ _ _ hname (hspace _) .short (hspace _) hlist
  exact @ListText.mk _ _ [] _ [] [] _ (.nil _) (.cons hentry .nil) .absent (.nil _)

end Reading

open Reading

/-- What is written of entries with a number that is not finite is refused. -/
theorem MembershipEntry.parse_listText_error {es : List MembershipEntry}
    (h : ∃ e ∈ es, ∃ v ∈ e.values, v.isFinite = false) :
    ∃ err, MembershipEntry.parseList (listText es) = .error err := by
  have hgood (e : MembershipEntry) (he : ¬∃ v ∈ e.values, v.isFinite = false) :
      EntryText e.spelling e := entryText_spelling (by simpa using he)
  have hfatal := membershipEntry_comesTo.separated_joined membershipEntry_recognizes hgood
    joins_listSpelling (firstBad_of_exists h) []
  rw [List.append_nil] at hfatal
  apply Reader.parse_error_of_isFatal
  rw [listText, String.toList_ofList]
  exact hfatal.bind _

/-- Entries are read back from what is written of them if all their numbers are finite, and
not at all if one is not. -/
theorem MembershipEntry.parse_listText_eq_ok_iff {es : List MembershipEntry} :
    MembershipEntry.parseList (listText es) = .ok es ↔
      ∀ e ∈ es, ∀ v ∈ e.values, v.isFinite = true := by
  constructor
  · intro hread e he v hv
    cases hfinite : v.isFinite with
    | true => rfl
    | false =>
      obtain ⟨err, herr⟩ := parse_listText_error ⟨e, he, v, hv, hfinite⟩
      rw [hread] at herr
      cases herr
  · exact parse_listText_of_isFinite

end DecisionRules
