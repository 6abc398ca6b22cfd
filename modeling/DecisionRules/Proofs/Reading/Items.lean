import DecisionRules.Reading.Predicate
import DecisionRules.Proofs.Reading.Filler
import DecisionRules.Proofs.Reading.Reader

/-! Items with commas between them, as a language over the language of one item. Whatever
reader takes the items, the readers of sequences and of lists take these texts and no
others. -/
namespace DecisionRules.Reading

open Numeral (Ends)
open Text (startsOutside_nil startsOutside_cons)

variable {α : Type} {item : Reader α} {Item : List Char → α → Prop}

inductive Led (Item : List Char → α → Prop) : List Char → α → Prop
  | mk {lead text : List Char} {a : α} : Filler lead text → Item text a → Led Item (lead ++ text) a

inductive MoreItems (Item : List Char → α → Prop) : List Char → List α → Prop
  | nil : MoreItems Item [] []
  | cons {f g text more : List Char} {a : α} {as : List α} : Filler f [','] → Filler g text →
      Item text a → MoreItems Item more as →
      MoreItems Item (f ++ ',' :: (g ++ (text ++ more))) (a :: as)

inductive Items (Item : List Char → α → Prop) : List Char → List α → Prop
  | nil : Items Item [] []
  | cons {text more : List Char} {a : α} {as : List α} : Item text a →
      MoreItems Item more as → Items Item (text ++ more) (a :: as)

inductive TrailingComma : List Char → Prop
  | absent : TrailingComma []
  | present {f : List Char} : Filler f [','] → TrailingComma (f ++ [','])

inductive ListText (Item : List Char → α → Prop) : List Char → List α → Prop
  | mk {lead items comma trail : List Char} {as : List α} :
      Filler lead (items ++ (comma ++ trail)) → Items Item items as → TrailingComma comma →
      Filler trail [] → ListText Item (lead ++ (items ++ (comma ++ trail))) as

/-- The reader takes the items of the language, with filler before them and in front of
whatever does not prolong a numeral. -/
structure Recognizes (item : Reader α) (Item : List Char → α → Prop) : Prop where
  sound {cs rest : List Char} {a : α} : item.run cs = .ok a rest →
    ∃ f text, cs = f ++ (text ++ rest) ∧ Filler f text ∧ Item text a
  complete {f text rest : List Char} {a : α} : Filler f text → Item text a → Ends rest →
    item.run (f ++ (text ++ rest)) = .ok a rest
  visible {text : List Char} {a : α} : Item text a → Visible text

/-- A reader of tokens becomes one of items when filler is read before it. -/
theorem recognizes_behind_filler {token : Reader α}
    (hsound : ∀ {cs rest a}, token.run cs = .ok a rest → ∃ text, cs = text ++ rest ∧ Item text a)
    (hcomplete : ∀ {text rest a}, Item text a → Ends rest → token.run (text ++ rest) = .ok a rest)
    (hvisible : ∀ {text a}, Item text a → Visible text) :
    Recognizes (filler >>= fun _ => token) Item where
  sound {cs rest a} hread := by
    obtain ⟨f, hcs, hf⟩ := exists_filler cs
    obtain ⟨text, htext, hitem⟩ := hsound hread
    rw [htext] at hcs hf
    exact ⟨f, text, hcs, ((hvisible hitem).filler_append_iff rest).mp hf, hitem⟩
  complete {f text rest a} hf hitem hr := by
    have hfiller := ((hvisible hitem).filler_append_iff rest).mpr hf
    rw [Reader.run_bind, run_filler, Reply.ok_bind,
      hfiller.skipFiller_eq ((hvisible hitem).startsOutside rest)]
    exact hcomplete hitem hr
  visible := hvisible

section Commas

variable {cs rest : List Char}

theorem behindComma?_eq_some_iff : behindComma? cs = some rest ↔ skipFiller cs = ',' :: rest := by
  rw [behindComma?]
  constructor
  · intro h
    split at h
    · next heq =>
      cases h
      exact heq
    · cases h
  · intro h
    simp only [h]

/-- The comma is found behind filler. -/
theorem behindComma?_filler {f : List Char} (h : Filler f [',']) (rest : List Char) :
    behindComma? (f ++ ',' :: rest) = some rest := by
  have hmark : Filler f (',' :: rest) := h.replace [] (by decide) (',' :: rest)
  exact behindComma?_eq_some_iff.mpr (hmark.skipFiller_eq ((startsOutside_cons _ _ _).mpr rfl))

theorem exists_filler_comma (h : behindComma? cs = some rest) :
    ∃ f, cs = f ++ ',' :: rest ∧ Filler f [','] := by
  obtain ⟨f, hcs, hf⟩ := exists_filler cs
  rw [behindComma?_eq_some_iff.mp h] at hcs hf
  exact ⟨f, hcs, hf.replace [] (by decide) [',']⟩

theorem ends_comma (h : Filler rest [',']) (behind : List Char) : Ends (rest ++ ',' :: behind) :=
  (h.replace [] (by decide) (',' :: behind)).ends ((startsOutside_cons _ _ _).mpr rfl)

end Commas

section Steps

variable {cs behind rest : List Char} {a : α} {expected : List Expectation}

theorem moreItems_of_none (hc : behindComma? cs = none) : moreItems item cs = .ok [] cs := by
  rw [moreItems.eq_def]
  split <;> simp_all

theorem moreItems_of_ok (hc : behindComma? cs = some behind) (hi : item.run behind = .ok a rest) :
    moreItems item cs =
      (moreItems item rest).bind fun items rest => .ok (a :: items) rest := by
  rw [moreItems.eq_def]
  split
  · simp_all
  · next heq =>
    cases hc.symm.trans heq
    split <;> simp_all

theorem moreItems_of_miss (hc : behindComma? cs = some behind)
    (hi : item.run behind = .miss rest expected) : moreItems item cs = .ok [] cs := by
  rw [moreItems.eq_def]
  split
  · simp_all
  · next heq =>
    cases hc.symm.trans heq
    split <;> simp_all

theorem moreItems_of_fatal (hc : behindComma? cs = some behind)
    (hi : item.run behind = .fatal rest expected) : moreItems item cs = .fatal rest expected := by
  rw [moreItems.eq_def]
  split
  · simp_all
  · next heq =>
    cases hc.symm.trans heq
    split <;> simp_all

end Steps

/-- What is read as further items is a text of them. -/
theorem Recognizes.moreItems_sound (h : Recognizes item Item) {cs rest : List Char} {as : List α}
    (hrun : moreItems item cs = .ok as rest) :
    ∃ text, cs = text ++ rest ∧ MoreItems Item text as := by
  fun_induction moreItems item cs generalizing as with
  | case1 | case3 =>
    cases hrun
    exact ⟨[], rfl, .nil⟩
  | case2 cs behind hc a mid hi _ ih =>
    obtain ⟨_, _, hmore, heq⟩ := Reply.bind_eq_ok_iff.mp hrun
    cases heq
    obtain ⟨more, rfl, hmoreText⟩ := ih hmore
    obtain ⟨g, text, rfl, hg, hitem⟩ := h.sound hi
    obtain ⟨f, rfl, hf⟩ := exists_filler_comma hc
    exact ⟨_, by simp, .cons hf hg hitem hmoreText⟩
  | case4 => cases hrun

theorem MoreItems.ends {more rest : List Char} {as : List α} (h : MoreItems Item more as)
    (hr : Ends rest) : Ends (more ++ rest) := by
  cases h with
  | nil => exact hr
  | cons hf =>
    rw [List.append_assoc]
    exact ends_comma hf _

/-- Every text of further items is read up to where the reader stops by itself. -/
theorem Recognizes.moreItems_complete (h : Recognizes item Item) {text rest : List Char}
    {as : List α} (hmore : MoreItems Item text as) (hr : Ends rest)
    (hstop : moreItems item rest = .ok [] rest) : moreItems item (text ++ rest) = .ok as rest := by
  induction hmore with
  | nil => exact hstop
  | @cons f g text more a as hf hg hitem hmore ih =>
    simp only [List.append_assoc, List.cons_append]
    have hread := h.complete hg hitem (hmore.ends hr)
    rw [moreItems_of_ok (behindComma?_filler hf _) hread, ih]
    rfl

/-- No item begins at the next token: it is a comma or a closing bracket, or there is none. -/
def EndsItems (cs : List Char) : Prop := ∀ c ∈ (skipFiller cs).head?, c = ',' ∨ c = ')'

def MissesAtEnd (item : Reader α) : Prop :=
  ∀ cs, EndsItems cs → ∃ rest expected, item.run cs = .miss rest expected

/-- A token misses at the end behind filler if it does where there is no filler. -/
theorem missesAtEnd_behind_filler {token : Reader α}
    (hnil : ∃ rest expected, token.run [] = .miss rest expected)
    (hcomma : ∀ cs, ∃ rest expected, token.run (',' :: cs) = .miss rest expected)
    (hbracket : ∀ cs, ∃ rest expected, token.run (')' :: cs) = .miss rest expected) :
    MissesAtEnd (filler >>= fun _ => token) := by
  intro cs hend
  rw [EndsItems] at hend
  rw [Reader.run_bind, run_filler, Reply.ok_bind]
  cases hskip : skipFiller cs with
  | nil => exact hnil
  | cons c rest =>
    rw [hskip] at hend
    rcases hend c rfl with rfl | rfl
    · exact hcomma rest
    · exact hbracket rest

private theorem separated_of_ok {cs mid rest : List Char} {a : α} {as : List α}
    (hi : item.run cs = .ok a mid) (hmore : moreItems item mid = .ok as rest) :
    (separated item).run cs = .ok (a :: as) rest := by
  simp [separated, hi, hmore]

theorem separated_of_miss {cs rest : List Char} {expected : List Expectation}
    (hi : item.run cs = .miss rest expected) : (separated item).run cs = .ok [] cs := by
  simp [separated, hi]

/-- What is read as a sequence is a text of items with filler before it. -/
theorem Recognizes.separated_sound (h : Recognizes item Item) {cs rest : List Char} {as : List α}
    (hrun : (separated item).run cs = .ok as rest) : ∃ lead items, cs = lead ++ (items ++ rest) ∧
      Filler lead (items ++ rest) ∧ Items Item items as := by
  simp only [separated] at hrun
  split at hrun
  · next a mid hi =>
    obtain ⟨_, _, hmore, heq⟩ := Reply.bind_eq_ok_iff.mp hrun
    cases heq
    obtain ⟨lead, text, rfl, hlead, hitem⟩ := h.sound hi
    obtain ⟨more, rfl, hmoreText⟩ := h.moreItems_sound hmore
    refine ⟨lead, text ++ more, by simp, ?_, .cons hitem hmoreText⟩
    rw [List.append_assoc]
    exact ((h.visible hitem).filler_append_iff _).mpr hlead
  · cases hrun
    exact ⟨[], [], rfl, .nil _, .nil⟩
  · cases hrun

/-- Every text of items is read as a sequence if the reader stops behind it by itself. Where
there is no item, the filler is left to what is read next. -/
theorem Recognizes.separated_complete (h : Recognizes item Item) (hmiss : MissesAtEnd item)
    {lead items rest : List Char} {as : List α} (hlead : Filler lead (items ++ rest))
    (hitems : Items Item items as) (hr : Ends rest) (hend : EndsItems rest)
    (hstop : moreItems item rest = .ok [] rest) :
    ∃ left, (separated item).run (lead ++ (items ++ rest)) = .ok as left ∧
      skipFiller left = skipFiller rest := by
  cases hitems with
  | nil =>
    have hskip : skipFiller (lead ++ rest) = skipFiller rest := hlead.skipFiller_append
    have hnone : EndsItems (lead ++ rest) := by
      rw [EndsItems, hskip]
      exact hend
    obtain ⟨_, _, hread⟩ := hmiss _ hnone
    exact ⟨lead ++ rest, separated_of_miss hread, hskip⟩
  | @cons text more a as hitem hmore =>
    rw [List.append_assoc] at hlead ⊢
    have hfirst := ((h.visible hitem).filler_append_iff _).mp hlead
    exact ⟨rest, separated_of_ok (h.complete hfirst hitem (hmore.ends hr))
      (h.moreItems_complete hmore hr hstop), rfl⟩

section Ending

variable {comma trail : List Char}

private theorem behindComma?_congr {cs ds : List Char} (h : skipFiller cs = skipFiller ds) :
    behindComma? cs = behindComma? ds := by
  rw [behindComma?, behindComma?, h]

theorem skipFiller_trail (h : Filler trail []) : skipFiller trail = [] := by
  simpa using h.skipFiller_eq (startsOutside_nil _)

private theorem behindComma?_trail (h : Filler trail []) : behindComma? trail = none := by
  rw [behindComma?, skipFiller_trail h]

theorem TrailingComma.ends (h : TrailingComma comma) (ht : Filler trail []) :
    Ends (comma ++ trail) := by
  cases h with
  | absent => simpa using ht.ends (startsOutside_nil _)
  | present hf =>
    rw [List.append_assoc]
    exact ends_comma hf trail

theorem TrailingComma.endsItems (h : TrailingComma comma) (ht : Filler trail []) :
    EndsItems (comma ++ trail) := by
  intro c hc
  cases h with
  | absent =>
    rw [List.nil_append, skipFiller_trail ht] at hc
    cases hc
  | present hf =>
    rw [List.append_assoc, List.singleton_append,
      behindComma?_eq_some_iff.mp (behindComma?_filler hf trail)] at hc
    cases hc
    exact .inl rfl

/-- A reader of items does not go on behind the last comma. -/
private theorem TrailingComma.moreItems_eq (h : TrailingComma comma) (ht : Filler trail [])
    (hmiss : MissesAtEnd item) : moreItems item (comma ++ trail) = .ok [] (comma ++ trail) := by
  cases h with
  | absent => exact moreItems_of_none (behindComma?_trail ht)
  | present hf =>
    have hnone : EndsItems trail := by
      intro c hc
      rw [skipFiller_trail ht] at hc
      cases hc
    obtain ⟨_, _, hread⟩ := hmiss trail hnone
    rw [List.append_assoc, List.singleton_append]
    exact moreItems_of_miss (behindComma?_filler hf trail) hread

/-- What an optional comma leaves is skipped to the end. -/
private theorem TrailingComma.skipFiller_getD (h : TrailingComma comma) (ht : Filler trail [])
    {left : List Char} (hleft : skipFiller left = skipFiller (comma ++ trail)) :
    skipFiller ((behindComma? left).getD left) = [] := by
  rw [behindComma?_congr hleft]
  cases h with
  | absent =>
    rw [List.nil_append] at hleft ⊢
    rw [behindComma?_trail ht, Option.getD_none, hleft, skipFiller_trail ht]
  | present hf =>
    rw [List.append_assoc, List.singleton_append, behindComma?_filler hf trail, Option.getD_some,
      skipFiller_trail ht]

/-- What an optional comma and filler are read from is a comma or nothing, and filler. -/
theorem exists_trailingComma {left rest : List Char}
    (h : skipFiller ((behindComma? left).getD left) = rest) :
    ∃ comma trail, left = comma ++ (trail ++ rest) ∧ TrailingComma comma ∧ Filler trail rest := by
  cases hc : behindComma? left with
  | none =>
    rw [hc, Option.getD_none] at h
    obtain ⟨trail, hleft, htrail⟩ := exists_filler left
    rw [h] at hleft htrail
    exact ⟨[], trail, hleft, .absent, htrail⟩
  | some behind =>
    rw [hc, Option.getD_some] at h
    obtain ⟨f, rfl, hf⟩ := exists_filler_comma hc
    obtain ⟨trail, hbehind, htrail⟩ := exists_filler behind
    rw [h] at hbehind htrail
    exact ⟨f ++ [','], trail, by simp [hbehind], .present hf, htrail⟩

end Ending

/-- A list is a sequence, a comma perhaps, and filler. -/
theorem listOf_eq_ok_iff_exists {cs rest : List Char} {as : List α} :
    (listOf item).run cs = .ok as rest ↔ ∃ left, (separated item).run cs = .ok as left ∧
      skipFiller ((behindComma? left).getD left) = rest := by
  simp only [listOf, Reader.run_bind, Reader.run_pure, run_filler, optionalComma,
    Reply.bind_eq_ok_iff]
  constructor
  · intro h
    obtain ⟨_, left, hitems, _, _, ⟨⟩, _, _, ⟨⟩, hdone⟩ := h
    injection hdone with has hleft
    subst has
    exact ⟨left, hitems, hleft⟩
  · intro h
    obtain ⟨left, hitems, hleft⟩ := h
    exact ⟨as, left, hitems, _, _, rfl, _, _, rfl, by rw [hleft]⟩

/-- A list is read to its end if and only if the text is one of the list. -/
theorem Recognizes.listOf_eq_ok_iff (h : Recognizes item Item) (hmiss : MissesAtEnd item)
    {cs : List Char} {as : List α} : (listOf item).run cs = .ok as [] ↔ ListText Item cs as := by
  rw [listOf_eq_ok_iff_exists]
  constructor
  · intro hread
    obtain ⟨left, hsequence, hleft⟩ := hread
    obtain ⟨lead, items, rfl, hlead, hitems⟩ := h.separated_sound hsequence
    obtain ⟨comma, trail, rfl, hcomma, htrail⟩ := exists_trailingComma hleft
    rw [List.append_nil] at hlead ⊢
    exact .mk hlead hitems hcomma htrail
  · intro htext
    obtain ⟨hlead, hitems, hcomma, htrail⟩ := htext
    obtain ⟨left, hread, hleft⟩ := h.separated_complete hmiss hlead hitems (hcomma.ends htrail)
      (hcomma.endsItems htrail) (hcomma.moreItems_eq htrail hmiss)
    exact ⟨left, hread, hcomma.skipFiller_getD htrail hleft⟩

section FirstItem

variable {cs : List Char} {a : α} {as : List α}

inductive Padded (Item : List Char → α → Prop) (rest : List Char) : List Char → α → Prop
  | mk {lead text trail : List Char} {a : α} : Filler lead text → Item text a →
      Filler trail rest → Padded Item rest (lead ++ (text ++ trail)) a

/-- Where nothing is listed there is filler, and a comma in it at most. -/
theorem listText_nil_iff : ListText Item cs [] ↔
    Filler cs [] ∨ ∃ v w, cs = v ++ ',' :: w ∧ Filler v [','] ∧ Filler w [] := by
  constructor
  · rintro ⟨hlead, ⟨⟩, hcomma, htrail⟩
    cases hcomma with
    | absent =>
      rw [List.nil_append, List.nil_append] at hlead ⊢
      exact .inl (Filler.append (by simpa using hlead) htrail)
    | @present f hf =>
      rw [List.nil_append, List.append_assoc] at hlead
      have hv := (hlead.append (hf.replace [] (by decide) _)).replace [] (by decide) [',']
      exact .inr ⟨_, _, by simp, hv, htrail⟩
  · rintro (h | ⟨v, w, rfl, hv, hw⟩)
    · simpa using ListText.mk (.nil _) Items.nil .absent h
    · simpa using ListText.mk (.nil _) Items.nil (.present hv) hw

/-- A list of one item, with a trailing comma or without. -/
theorem listText_singleton_iff (hvisible : ∀ {text a}, Item text a → Visible text) :
    ListText Item cs [a] ↔ Padded Item [] cs a ∨
      ∃ s w, cs = s ++ ',' :: w ∧ Padded Item [','] s a ∧ Filler w [] := by
  constructor
  · rintro ⟨hlead, _ | ⟨hitem, hmore⟩, hcomma, htrail⟩
    cases hmore
    rw [List.append_nil] at hlead ⊢
    have hfirst := ((hvisible hitem).filler_append_iff _).mp hlead
    cases hcomma with
    | absent => exact .inl (.mk hfirst hitem htrail)
    | present hf => exact .inr ⟨_, _, by simp, .mk hfirst hitem hf, htrail⟩
  · have hbehind {lead text : List Char} (hlead : Filler lead text) (hitem : Item text a)
        (rest : List Char) : Filler lead (text ++ [] ++ rest) := by
      rw [List.append_nil]
      exact ((hvisible hitem).filler_append_iff rest).mpr hlead
    rintro (⟨hlead, hitem, htrail⟩ | ⟨_, w, rfl, ⟨hlead, hitem, hcomma⟩, hw⟩)
    · simpa using ListText.mk (hbehind hlead hitem _) (.cons hitem .nil) .absent htrail
    · simpa using ListText.mk (hbehind hlead hitem _) (.cons hitem .nil) (.present hcomma) hw

/-- A longer list is an item in front of a list. -/
theorem listText_cons_iff (hvisible : ∀ {text a}, Item text a → Visible text) (hne : as ≠ []) :
    ListText Item cs (a :: as) ↔
      ∃ s rest, cs = s ++ ',' :: rest ∧ Padded Item [','] s a ∧ ListText Item rest as := by
  have hbehind {lead text : List Char} {b : α} (hlead : Filler lead text) (hitem : Item text b)
      (more rest : List Char) : Filler lead (text ++ more ++ rest) := by
    rw [List.append_assoc]
    exact ((hvisible hitem).filler_append_iff _).mpr hlead
  constructor
  · rintro ⟨hlead, _ | ⟨hitem, hmore⟩, hcomma, htrail⟩
    rw [List.append_assoc] at hlead
    have hfirst := ((hvisible hitem).filler_append_iff _).mp hlead
    cases hmore with
    | nil => exact absurd rfl hne
    | cons hf hg hnext hmore =>
      have hrest := ListText.mk (hbehind hg hnext _ _) (.cons hnext hmore) hcomma htrail
      exact ⟨_, _, by simp, .mk hfirst hitem hf, hrest⟩
  · rintro ⟨_, _, rfl, ⟨hlead, hitem, hcomma⟩, hrest, hitems, htrailing, htrail⟩
    cases hitems with
    | nil => exact absurd rfl hne
    | cons hnext hmore =>
      rw [List.append_assoc] at hrest
      have hg := ((hvisible hnext).filler_append_iff _).mp hrest
      simpa using ListText.mk (hbehind hlead hitem _ _)
        (.cons hitem (.cons hcomma hg hnext hmore)) htrailing htrail

end FirstItem

end DecisionRules.Reading
