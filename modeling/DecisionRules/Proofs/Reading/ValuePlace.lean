import DecisionRules.Proofs.Reading.Symbols

/-! The places of values among the symbols of a text. Any other value can stand there, and
reading that fails for good where a value is due fails whatever the place is in: no list ends
quietly before it. -/
namespace DecisionRules

open Reading

/-- What is common to the values of all items: another value makes another item, no name runs
into the value, and what stands behind it, if anything does, is a comma or a bracket. -/
structure ValuePlaces {α : Type} (Means : α → List Symbol → Prop) : Prop where
  exchange {a : α} {before after : List Symbol} {v : Value} (w : Value) :
    Means a (before ++ .value v :: after) → ∃ b, Means b (before ++ .value w :: after)
  not_behind_name {a : α} {before after : List Symbol} {v : Value} :
    Means a (before ++ .value v :: after) → ∀ field, before.getLast? ≠ some (.name field)
  closed {a : α} {before after : List Symbol} {v : Value} :
    Means a (before ++ .value v :: after) → ∀ σ ∈ after.head?, σ = .comma ∨ σ = .closing

section Places

variable {α β : Type} {symbols : α → List Symbol} {before after : List Symbol} {v : Value}

/-- Of the lists strung together, an element is in one of them. -/
private theorem exists_item_of_flatMap_eq {f : α → List β} {as : List α} {xs ys : List β} {y : β}
    (h : as.flatMap f = xs ++ y :: ys) : ∃ front a back inside behind, as = front ++ a :: back ∧
      f a = inside ++ y :: behind ∧ xs = front.flatMap f ++ inside ∧
      ys = behind ++ back.flatMap f := by
  induction as generalizing xs with
  | nil => simp at h
  | cons a as ih =>
    rw [List.flatMap_cons] at h
    obtain ⟨more, rfl, hrest⟩ | ⟨last, ha, hrest⟩ := List.append_eq_append_iff.mp h
    · obtain ⟨front, b, back, inside, behind, rfl, hb, rfl, rfl⟩ := ih hrest
      exact ⟨a :: front, b, back, inside, behind, rfl, hb, by simp, rfl⟩
    · cases last with
      | nil =>
        obtain ⟨front, b, back, inside, behind, rfl, hb, hin, rfl⟩ := @ih [] hrest.symm
        exact ⟨a :: front, b, back, inside, behind, rfl, hb, by simp [ha, ← hin], rfl⟩
      | cons z last =>
        cases hrest
        exact ⟨[], a, as, xs, last, rfl, ha, by simp, rfl⟩

/-- An element that is not the last one stands before it. -/
private theorem exists_of_concat_eq {xs before after : List β} {x y : β}
    (h : xs ++ [x] = before ++ y :: after) (hne : x ≠ y) :
    ∃ behind, xs = before ++ y :: behind ∧ after = behind ++ [x] := by
  rcases List.eq_nil_or_concat after with rfl | ⟨behind, z, rfl⟩
  · exact absurd (List.append_inj' h rfl).2 (by simpa using hne)
  · have hends : xs ++ [x] = (before ++ y :: behind) ++ [z] := by simpa using h
    obtain ⟨rfl, hlast⟩ := List.append_inj' hends rfl
    cases hlast
    exact ⟨behind, rfl, by simp⟩

/-- The last element of all is the last one behind a different one. -/
private theorem getLast?_of_append_cons {xs ys : List β} {x y : β} (hne : x ≠ y)
    (h : (xs ++ x :: ys).getLast? = some y) : ys.getLast? = some y := by
  cases ys with
  | nil => exact absurd (by simpa using h) hne
  | cons z ys => simpa [List.getLast?_append] using h

/-- A value stands behind a symbol that is none. -/
private theorem cons_eq_iff_of_ne_value {σ : Symbol} {σs : List Symbol} (hσ : ∀ w, σ ≠ .value w) :
    σ :: σs = before ++ .value v :: after ↔
      ∃ inside, before = σ :: inside ∧ σs = inside ++ .value v :: after := by
  rw [List.cons_eq_append_iff]
  constructor
  · rintro (⟨-, h⟩ | h)
    · exact absurd (List.cons.inj h).1.symm (hσ v)
    · exact h
  · exact .inr

theorem Value.symbols_eq_iff {w : Value} :
    w.symbols = before ++ .value v :: after ↔ before = [] ∧ w = v ∧ after = [] := by
  rw [Value.symbols, List.singleton_eq_append_iff]
  constructor
  · rintro (⟨rfl, h⟩ | ⟨-, h⟩)
    · cases h
      exact ⟨rfl, rfl, rfl⟩
    · cases h
  · rintro ⟨rfl, rfl, rfl⟩
    exact .inl ⟨rfl, rfl⟩

theorem Predicate.symbols_eq_iff {p : Predicate} : p.symbols = before ++ .value v :: after ↔
    before = [.name p.field, .comparison p.comparison] ∧ p.value = v ∧ after = [] := by
  rw [Predicate.symbols, cons_eq_iff_of_ne_value (by simp)]
  constructor
  · rintro ⟨_, rfl, hname⟩
    obtain ⟨_, rfl, hcomparison⟩ := (cons_eq_iff_of_ne_value (by simp)).mp hname
    obtain ⟨rfl, hv, rfl⟩ := Value.symbols_eq_iff.mp hcomparison
    exact ⟨rfl, hv, rfl⟩
  · rintro ⟨rfl, rfl, rfl⟩
    exact ⟨_, rfl, rfl⟩

private theorem comma_cons_separated {as : List α} (hne : as ≠ []) :
    .comma :: Symbol.separated symbols as = as.flatMap fun a => .comma :: symbols a := by
  cases as with
  | nil => exact absurd rfl hne
  | cons a as => simp [Symbol.separated]

/-- A value of a sequence is a value of one of its items. -/
private theorem separated_eq_iff {as : List α} :
    Symbol.separated symbols as = before ++ .value v :: after ↔
    ∃ front a back inside behind, as = front ++ a :: back ∧
      symbols a = inside ++ .value v :: behind ∧
      .comma :: before = (front.flatMap fun a => .comma :: symbols a) ++ .comma :: inside ∧
      after = behind ++ back.flatMap fun a => .comma :: symbols a := by
  constructor
  · intro h
    have hne : as ≠ [] := by
      rintro rfl
      simp [Symbol.separated] at h
    have hall : .comma :: Symbol.separated symbols as = _ := comma_cons_separated hne
    rw [h, ← List.cons_append] at hall
    obtain ⟨front, a, back, inside, behind, rfl, ha, hbefore, rfl⟩ :=
      exists_item_of_flatMap_eq hall.symm
    obtain ⟨inside, rfl, hitem⟩ := (cons_eq_iff_of_ne_value (by simp)).mp ha
    exact ⟨front, a, back, inside, behind, rfl, hitem, hbefore, rfl⟩
  · rintro ⟨front, a, back, inside, behind, rfl, ha, hbefore, rfl⟩
    have hall : Symbol.comma :: Symbol.separated symbols (front ++ a :: back) =
        (.comma :: before) ++
          .value v :: (behind ++ back.flatMap fun a => .comma :: symbols a) := by
      rw [comma_cons_separated (by simp), hbefore]
      simp [ha]
    exact (List.cons.inj hall).2

theorem MembershipEntry.symbols_eq_iff {e : MembershipEntry} :
    e.symbols = before ++ .value v :: after ↔ ∃ inside behind,
      before = .name e.field :: .membershipWord :: .opening :: inside ∧
      Symbol.separated Value.symbols e.values = inside ++ .value v :: behind ∧
      after = behind ++ [.closing] := by
  constructor
  · intro h
    obtain ⟨_, rfl, hname⟩ := (cons_eq_iff_of_ne_value (by simp)).mp h
    obtain ⟨_, rfl, hword⟩ := (cons_eq_iff_of_ne_value (by simp)).mp hname
    obtain ⟨inside, rfl, hlist⟩ := (cons_eq_iff_of_ne_value (by simp)).mp hword
    obtain ⟨behind, hvalues, rfl⟩ := exists_of_concat_eq hlist (by simp)
    exact ⟨inside, behind, rfl, hvalues, rfl⟩
  · rintro ⟨inside, behind, rfl, hvalues, rfl⟩
    simp [MembershipEntry.symbols, hvalues]

private theorem listSymbols_iff {as : List α} :
    ListSymbols symbols as (before ++ .value v :: after) ↔ ∃ behind,
      Symbol.separated symbols as = before ++ .value v :: behind ∧
      (after = behind ∨ after = behind ++ [.comma]) := by
  constructor
  · generalize hσs : before ++ .value v :: after = σs
    rintro (_ | _)
    · exact ⟨after, hσs.symm, .inl rfl⟩
    · obtain ⟨behind, hbehind, rfl⟩ := exists_of_concat_eq hσs.symm (by simp)
      exact ⟨behind, hbehind, .inr rfl⟩
  · rintro ⟨behind, hσs, rfl | rfl⟩
    · rw [← hσs]
      exact .plain
    · rw [← List.cons_append, ← List.append_assoc, ← hσs]
      exact .trailing

theorem Value.valuePlaces : ValuePlaces fun w σs => Value.symbols w = σs where
  exchange w h := by
    obtain ⟨rfl, -, rfl⟩ := symbols_eq_iff.mp h
    exact ⟨w, rfl⟩
  not_behind_name h := by
    obtain ⟨rfl, -, -⟩ := symbols_eq_iff.mp h
    simp
  closed h := by
    obtain ⟨-, -, rfl⟩ := symbols_eq_iff.mp h
    simp

theorem Predicate.valuePlaces : ValuePlaces fun p σs => Predicate.symbols p = σs where
  exchange {p _ _ _} w h := by
    obtain ⟨rfl, -, rfl⟩ := symbols_eq_iff.mp h
    exact ⟨{ p with value := w }, rfl⟩
  not_behind_name h := by
    obtain ⟨rfl, -, -⟩ := symbols_eq_iff.mp h
    simp
  closed h := by
    obtain ⟨-, -, rfl⟩ := symbols_eq_iff.mp h
    simp

/-- In a sequence the item that holds the place is the one to change. -/
theorem ValuePlaces.separated (h : ValuePlaces fun a σs => symbols a = σs) :
    ValuePlaces fun as σs => Symbol.separated symbols as = σs where
  exchange w hplace := by
    obtain ⟨front, a, back, inside, behind, rfl, ha, hbefore, rfl⟩ := separated_eq_iff.mp hplace
    obtain ⟨b, hb⟩ := h.exchange w ha
    exact ⟨front ++ b :: back, separated_eq_iff.mpr ⟨_, b, _, _, _, rfl, hb, hbefore, rfl⟩⟩
  not_behind_name {_ before _ _} hplace field hlast := by
    obtain ⟨front, a, back, inside, behind, rfl, ha, hbefore, -⟩ := separated_eq_iff.mp hplace
    have hall : (Symbol.comma :: before).getLast? = some (.name field) := by
      rw [List.getLast?_cons, hlast, Option.getD_some]
    rw [hbefore] at hall
    exact h.not_behind_name ha field (getLast?_of_append_cons (by simp) hall)
  closed hplace σ hσ := by
    obtain ⟨front, a, back, inside, behind, -, ha, -, rfl⟩ := separated_eq_iff.mp hplace
    cases behind with
    | nil =>
      cases back with
      | nil => cases hσ
      | cons b back => exact .inl (by simpa using hσ.symm)
    | cons τ behind => exact h.closed ha σ hσ

/-- Behind the values of an entry stands its bracket. -/
theorem MembershipEntry.valuePlaces :
    ValuePlaces fun e σs => MembershipEntry.symbols e = σs where
  exchange {e _ _ _} w h := by
    obtain ⟨inside, behind, rfl, hvalues, rfl⟩ := symbols_eq_iff.mp h
    obtain ⟨vs, hvs⟩ := Value.valuePlaces.separated.exchange w hvalues
    exact ⟨⟨e.field, vs⟩, symbols_eq_iff.mpr ⟨inside, behind, rfl, hvs, rfl⟩⟩
  not_behind_name {e _ _ _} h field hlast := by
    obtain ⟨inside, behind, rfl, hvalues, rfl⟩ := symbols_eq_iff.mp h
    have hopening : Symbol.opening ≠ .name field := by simp
    have hinside : ([Symbol.name e.field, .membershipWord] ++ .opening :: inside).getLast? =
        some (.name field) := hlast
    exact Value.valuePlaces.separated.not_behind_name hvalues field
      (getLast?_of_append_cons hopening hinside)
  closed h σ hσ := by
    obtain ⟨inside, behind, -, hvalues, rfl⟩ := symbols_eq_iff.mp h
    cases behind with
    | nil => exact .inr (by simpa using hσ.symm)
    | cons τ behind => exact Value.valuePlaces.separated.closed hvalues σ hσ

theorem ValuePlaces.list (h : ValuePlaces fun a σs => symbols a = σs) :
    ValuePlaces (ListSymbols symbols) where
  exchange w hplace := by
    obtain ⟨behind, hseparated, hafter⟩ := listSymbols_iff.mp hplace
    obtain ⟨bs, hbs⟩ := h.separated.exchange w hseparated
    exact ⟨bs, listSymbols_iff.mpr ⟨behind, hbs, hafter⟩⟩
  not_behind_name hplace := by
    obtain ⟨behind, hseparated, -⟩ := listSymbols_iff.mp hplace
    exact h.separated.not_behind_name hseparated
  closed hplace σ hσ := by
    obtain ⟨behind, hseparated, rfl | rfl⟩ := listSymbols_iff.mp hplace
    · exact h.separated.closed hseparated σ hσ
    · cases behind with
      | nil => exact .inl (by simpa using hσ.symm)
      | cons τ behind => exact h.separated.closed hseparated σ hσ

end Places

namespace Reading

open Text (StartsOutside startsOutside_cons)

variable {α : Type} {item : Reader α} {Item : List Char → α → Prop} {symbols : α → List Symbol}
  {front behind : List Char}

/-- Where reading a value fails for good, so does reading the item that the value is due in. -/
def FailsAtValues (item : Reader α) (symbols : α → List Symbol) : Prop :=
  ∀ {a before v after front behind}, symbols a = before ++ .value v :: after →
    Laid before front behind → IsFatal ((do filler; value).run behind) →
    IsFatal (item.run (front ++ behind))

theorem value_failsAtValues : FailsAtValues (do filler; value) Value.symbols := by
  intro w before v after front behind heq hlaid hbad
  obtain ⟨rfl, -, -⟩ := Value.symbols_eq_iff.mp heq
  cases laid_nil_iff.mp hlaid
  exact hbad

/-- Reading a value does not fail for good at an equals sign, it finds nothing there. -/
private theorem outside_equals_of_isFatal (h : IsFatal ((do filler; value).run behind)) :
    StartsOutside (· == '=') behind := by
  cases behind with
  | nil => exact Text.startsOutside_nil _
  | cons c behind =>
    rw [startsOutside_cons, beq_eq_false_iff_ne]
    rintro rfl
    have hskip : skipFiller ('=' :: behind) = '=' :: behind :=
      skipFiller_eq_self ((startsOutside_cons _ _ _).mpr rfl)
    obtain ⟨rest, expected, hrun⟩ := h
    rw [Reader.run_bind, run_filler, Reply.ok_bind, hskip] at hrun
    cases hrun

theorem predicate_failsAtValues : FailsAtValues predicate Predicate.symbols := by
  intro p before v after front behind heq hlaid hbad
  obtain ⟨rfl, -, -⟩ := Predicate.symbols_eq_iff.mp heq
  obtain ⟨name, _, hskipName, hname, hlaid⟩ := hlaid.exists_skipFiller
  obtain ⟨text, _, hskip, htext, hlaid⟩ := hlaid.exists_skipFiller
  cases laid_nil_iff.mp hlaid
  have hread := fieldName_eq_ok_iff.mpr ⟨name, rfl, hname⟩
  have hcomparison := comparison_complete htext (outside_equals_of_isFatal hbad)
  simp only [predicate, Reader.run_bind, run_filler, Reply.ok_bind, hskipName, hread, hskip,
    Reader.run_commit, List.nil_append, hcomparison, Reply.ok_commit]
  exact hbad.commit.bind _

/-- Further items are read up to the one that fails. -/
private theorem Recognizes.moreItems_isFatal (h : Recognizes item Item) {more rest : List Char}
    {as : List α} (hmore : MoreItems Item more as) (hr : Numeral.Ends rest)
    (hbad : IsFatal (moreItems item rest)) :
    IsFatal (moreItems item (more ++ rest)) := by
  induction hmore with
  | nil => exact hbad
  | @cons f g text more a as hf hg hitem hmore ih =>
    simp only [List.append_assoc, List.cons_append]
    have hread := h.complete hg hitem (hmore.ends hr)
    rw [moreItems_of_ok (behindComma?_filler hf _) hread]
    exact ih.bind _

/-- The first item of a sequence fails as an item behind a comma does. -/
private theorem separated_isFatal {cs : List Char} (h : IsFatal (moreItems item (',' :: cs))) :
    IsFatal ((separated item).run cs) := by
  have hcomma : behindComma? (',' :: cs) = some cs := behindComma?_filler (.nil _) cs
  cases hitem : item.run cs with
  | ok a rest =>
    rw [moreItems_of_ok hcomma hitem] at h
    simpa only [separated, hitem] using h
  | miss rest expected =>
    rw [moreItems_of_miss hcomma hitem] at h
    obtain ⟨_, _, hok⟩ := h
    cases hok
  | fatal rest expected => exact ⟨rest, expected, by simp only [separated, hitem]⟩

theorem Recognizes.separated_failsAtValues (h : Recognizes item Item) (hs : SymbolsOf symbols Item)
    (hitem : FailsAtValues item symbols) :
    FailsAtValues (separated item) (Symbol.separated symbols) := by
  intro as before v after front behind heq hlaid hbad
  obtain ⟨items, a, _, inside, _, -, ha, hbefore, -⟩ := separated_eq_iff.mp heq
  -- With a comma in front the items before the place are further items, each behind a comma.
  have hcomma : Laid (.comma :: before) (',' :: front) behind :=
    @Laid.cons .comma _ [] [','] front behind (.nil _) rfl hlaid
  rw [hbefore] at hcomma
  obtain ⟨more, last, hcut, hmore, hlast⟩ := laid_append_iff.mp hcomma
  obtain ⟨f, _, inner, rfl, hf, rfl, hinner⟩ := laid_cons_iff.mp hlast
  obtain ⟨rest, expected, hfatal⟩ := hitem ha hinner hbad
  have hfails : IsFatal (moreItems item (f ++ ',' :: (inner ++ behind))) :=
    ⟨rest, expected, moreItems_of_fatal (behindComma?_filler hf _) hfatal⟩
  apply separated_isFatal
  have htext : ',' :: (front ++ behind) = more ++ (f ++ ',' :: (inner ++ behind)) := by
    rw [← List.cons_append, hcut]
    simp
  rw [htext]
  exact h.moreItems_isFatal (hs.moreItems.mp hmore) (ends_comma hf _) hfails

theorem membershipEntry_failsAtValues : FailsAtValues membershipEntry MembershipEntry.symbols := by
  intro e before v after front behind heq hlaid hbad
  obtain ⟨inside, _, rfl, hvalues, -⟩ := MembershipEntry.symbols_eq_iff.mp heq
  obtain ⟨name, _, hskipName, hname, hlaid⟩ := hlaid.exists_skipFiller
  obtain ⟨word, _, hskipWord, hword, hlaid⟩ := hlaid.exists_skipFiller
  obtain ⟨_, inner, hskip, rfl, hlaid⟩ := hlaid.exists_skipFiller
  have hread := fieldName_eq_ok_iff.mpr ⟨name, rfl, hname⟩
  have hopening : (symbol '(').run (['('] ++ (inner ++ behind)) = .ok () (inner ++ behind) :=
    symbol_eq_ok_iff.mpr rfl
  have hlist := value_recognizes.separated_failsAtValues symbolsOf_value value_failsAtValues
    hvalues hlaid hbad
  simp only [membershipEntry, valueList, Reader.run_bind, run_filler, Reply.ok_bind, hskipName,
    hread, hskipWord, membershipWord_complete hword, hskip, hopening, Reader.run_commit,
    Reader.run_expecting]
  exact (((hlist.bind _).commit).expecting _).bind _

def RefusesAtValues (parse : String → Except ParseError α) (Means : α → List Symbol → Prop) : Prop :=
  ∀ {a before v after front behind}, Means a (before ++ .value v :: after) →
    Laid before front behind → IsFatal ((do filler; value).run behind) →
    ∃ e, parse (.ofList (front ++ behind)) = .error e

theorem predicate_refusesAtValues :
    RefusesAtValues Predicate.parse fun p σs => Predicate.symbols p = σs := by
  intro p before v after front behind hplace hlaid hbad
  apply Reader.parse_error_of_isFatal
  rw [String.toList_ofList]
  exact (predicate_failsAtValues hplace hlaid hbad).bind _

/-- No list ends quietly before a value that fails for good. -/
theorem Recognizes.listOf_refusesAtValues (h : Recognizes item Item) (hs : SymbolsOf symbols Item)
    (hitem : FailsAtValues item symbols) :
    RefusesAtValues (listOf item).parse (ListSymbols symbols) := by
  intro as before v after front behind hplace hlaid hbad
  obtain ⟨_, hseparated, -⟩ := listSymbols_iff.mp hplace
  apply Reader.parse_error_of_isFatal
  rw [String.toList_ofList]
  exact (h.separated_failsAtValues hs hitem hseparated hlaid hbad).bind _

theorem predicates_refusesAtValues :
    RefusesAtValues Predicate.parseList (ListSymbols Predicate.symbols) :=
  predicate_recognizes.listOf_refusesAtValues symbolsOf_predicate predicate_failsAtValues

theorem entries_refusesAtValues :
    RefusesAtValues MembershipEntry.parseList (ListSymbols MembershipEntry.symbols) :=
  membershipEntry_recognizes.listOf_refusesAtValues symbolsOf_entry membershipEntry_failsAtValues

end Reading
end DecisionRules
