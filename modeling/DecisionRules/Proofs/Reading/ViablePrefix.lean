import DecisionRules.Proofs.Reading.Failure
import DecisionRules.Proofs.Reading.MembershipGrammar
import DecisionRules.Proofs.Reading.PredicateText
import DecisionRules.Proofs.Reading.RoundTrip
import Mathlib

/-! Errors are reported no later than they can be told: the text up to the reported place
begins a text that is read. -/
namespace DecisionRules.Reading

open Text (StartsOutside startsOutside_cons)

variable {α : Type} {Item : List Char → α → Prop}

private theorem Begins.exists_led {before : List Char} (h : Begins (Led Item) before) :
    ∃ u f text a, before ++ u = f ++ text ∧ Filler f text ∧ Item text a := by
  obtain ⟨u, a, hled⟩ := h
  generalize htext : before ++ u = text at hled
  obtain ⟨hf, ha⟩ := hled
  exact ⟨u, _, _, a, htext, hf, ha⟩

/-- Filler in front of a beginning is a beginning. Where nothing has been read behind it,
it may end in a comment, which has to be ended first. -/
private theorem Begins.led {f before rest : List Char} (h : Begins Item before)
    (hvisible : ∀ {text a}, Item text a → Visible text) (hf : Filler f (before ++ rest)) :
    Begins (Led Item) (f ++ before) := by
  obtain ⟨u, a, hitem⟩ := h
  cases before with
  | nil =>
    have hled := Led.mk (hf.lineFeed u) hitem
    exact ⟨'\n' :: u, a, by simpa using hled⟩
  | cons c before =>
    obtain ⟨d, hhead, hd⟩ := hvisible hitem
    have hbegun : Visible (c :: before) := ⟨d, hhead, hd⟩
    have hled := Led.mk (hf.before_token hbegun u) hitem
    exact ⟨u, a, by simpa using hled⟩

/-- A reader of tokens fails inside a text of its language also when filler is read first. -/
private theorem FailsInside.behind_filler {token : Reader α} (h : FailsInside token Item)
    (hvisible : ∀ {text a}, Item text a → Visible text) :
    FailsInside (filler >>= fun _ => token) (Led Item) := by
  intro cs rest hfails
  rw [Reader.run_bind, run_filler, Reply.ok_bind] at hfails
  obtain ⟨before, hskip, hbegins⟩ := h hfails
  obtain ⟨f, hcs, hf⟩ := exists_filler cs
  rw [hskip] at hcs hf
  exact ⟨f ++ before, by rw [hcs, List.append_assoc], hbegins.led hvisible hf⟩

private theorem NameText.before_lineFeed {text f rest : List Char} {name : String}
    (h : NameText text name (f ++ rest)) (zs : List Char) :
    NameText text name (f ++ '\n' :: zs) := by
  cases h with
  | bare hbare hrest =>
    refine .bare hbare ?_
    cases f with
    | nil => exact (startsOutside_cons _ _ _).mpr rfl
    | cons => exact hrest
  | quoted _ hbody => exact .quoted _ hbody

private theorem led_value_failsInside : FailsInside (do filler; value) (Led ValueText) :=
  FailsInside.behind_filler value_failsInside ValueText.visible

section Predicates

variable {name f rest : List Char} {field : String}

/-- Behind a name a comparison can follow on the next line. -/
private theorem begins_predicateText_name (hname : NameText name field (f ++ rest))
    (hf : Filler f rest) :
    Begins PredicateText (name ++ f) := by
  have hafter : NameText name field (f ++ ['\n'] ++ ("==".toList ++ ([] ++ ['1']))) := by
    rw [List.append_assoc]
    exact hname.before_lineFeed _
  have htext := PredicateText.mk (p := ⟨field, .eq, .int 1⟩) hafter (hf.lineFeed _)
    (comparisonText_symbol .eq) (.nil _) valueText_one
  exact ⟨"\n==1".toList, ⟨field, .eq, .int 1⟩, by simpa using htext⟩

/-- Each of the three tokens can be completed, and the tokens behind it follow. -/
theorem predicate_failsInside : FailsInside predicate (Led PredicateText) := by
  refine FailsInside.behind_filler ?_ PredicateText.visible
  intro cs rest h
  simp only [Reader.run_bind, Reader.run_pure, Reader.run_commit, run_filler, Reply.ok_bind,
    Reply.bind_failsAt_iff, Reply.commit_failsAt_iff, Reply.commit_eq_ok_iff, Reply.ok_failsAt,
    and_false, exists_false, or_false] at h
  rcases h with hfield | ⟨field, behindName, hfield, hsecond⟩
  -- The name is completed first; what follows it is the same as behind a whole name.
  · obtain ⟨before, rfl, u, field, htext⟩ := fieldName_failsInside hfield
    obtain ⟨v, p, hp⟩ := begins_predicateText_name (htext _) (.nil [])
    exact ⟨before, rfl, u ++ v, p, by simpa using hp⟩
  obtain ⟨name, rfl, hname⟩ := fieldName_eq_ok_iff.mp hfield
  obtain ⟨f, hbehind, hf⟩ := exists_filler behindName
  rcases hsecond with hcomparison | ⟨c, behind, hc, hvalue⟩
  · cases comparison_failsAt hcomparison
    rw [hbehind] at hname
    exact ⟨name ++ f, by simp [← hbehind], begins_predicateText_name hname hf⟩
  · obtain ⟨comparison, hskip, hcomparison⟩ := comparison_sound hc
    obtain ⟨before, rfl, hbegins⟩ := led_value_failsInside hvalue
    obtain ⟨u, g, text, v, hcut, hg, hv⟩ := hbegins.exists_led
    rw [hskip] at hbehind hf
    subst hbehind
    have hp := PredicateText.mk (p := ⟨field, c, v⟩) (hname.before_token hcomparison.visible _)
      (hf.before_token hcomparison.visible _) hcomparison hg hv
    exact ⟨name ++ (f ++ (comparison ++ before)), by simp, u, _, by simpa [hcut] using hp⟩

end Predicates

section Sequences

variable {item : Reader α}

/-- Items read before the failure stay; the failing one can be completed. A miss is no
failure here, since its comma is given back. -/
private theorem Recognizes.moreItems_begins (h : Recognizes item Item)
    (hitem : FailsInside item (Led Item))
    {cs rest : List Char} (hfails : (moreItems item cs).FailsAt rest) :
    ∃ before, cs = before ++ rest ∧ Begins (MoreItems Item) before := by
  fun_induction moreItems item cs with
  | case1 | case3 => cases hfails
  | case2 cs behind hc a mid hi _ ih =>
    rw [Reply.bind_failsAt_iff] at hfails
    rcases hfails with hfails | ⟨_, _, _, ⟨⟩⟩
    obtain ⟨f, rfl, hf⟩ := exists_filler_comma hc
    obtain ⟨g, text, rfl, hg, ha⟩ := h.sound hi
    obtain ⟨before, rfl, u, as, hmore⟩ := ih hfails
    have htext := MoreItems.cons hf hg ha hmore
    exact ⟨f ++ ',' :: (g ++ (text ++ before)), by simp, u, _, by simpa using htext⟩
  | case4 cs behind hc stood expected hi =>
    obtain ⟨f, rfl, hf⟩ := exists_filler_comma hc
    have hstood : (item.run behind).FailsAt rest := by
      rw [hi]
      exact hfails
    obtain ⟨before, rfl, hbegins⟩ := hitem hstood
    obtain ⟨u, g, text, a, hcut, hg, ha⟩ := hbegins.exists_led
    have hmore := MoreItems.cons hf hg ha .nil
    exact ⟨f ++ ',' :: before, by simp, u, _, by simpa [hcut] using hmore⟩

theorem Recognizes.separated_failsInside (h : Recognizes item Item)
    (hitem : FailsInside item (Led Item)) : FailsInside (separated item) (Led (Items Item)) := by
  intro cs rest hfails
  simp only [separated] at hfails
  split at hfails
  · next a mid hi =>
    rw [Reply.bind_failsAt_iff] at hfails
    rcases hfails with hfails | ⟨_, _, _, ⟨⟩⟩
    obtain ⟨lead, text, rfl, hlead, ha⟩ := h.sound hi
    obtain ⟨before, rfl, u, as, hmore⟩ := h.moreItems_begins hitem hfails
    have hled := Led.mk (((h.visible ha).filler_append_iff _).mpr hlead) (Items.cons ha hmore)
    exact ⟨lead ++ (text ++ before), by simp, u, _, by simpa using hled⟩
  · cases hfails
  · next stood expected hi =>
    have hstood : (item.run cs).FailsAt rest := by
      rw [hi]
      exact hfails
    obtain ⟨before, rfl, hbegins⟩ := hitem hstood
    obtain ⟨u, lead, text, a, hcut, hlead, ha⟩ := hbegins.exists_led
    have hitems := Items.cons ha .nil
    rw [List.append_nil] at hitems
    exact ⟨before, rfl, u, [a], hcut ▸ .mk hlead hitems⟩

theorem Recognizes.listOf_failsInside (h : Recognizes item Item)
    (hitem : FailsInside item (Led Item)) : FailsInside (listOf item) (ListText Item) := by
  intro cs rest hfails
  simp only [listOf, Reader.run_bind, Reader.run_pure, run_filler, optionalComma,
    Reply.bind_failsAt_iff, Reply.ok_bind, Reply.ok_failsAt, and_false, exists_false,
    or_false] at hfails
  obtain ⟨before, rfl, hbegins⟩ := h.separated_failsInside hitem hfails
  obtain ⟨u, lead, items, as, hcut, hlead, hitems⟩ := hbegins.exists_led
  have htext := ListText.mk (by simpa using hlead) hitems .absent (.nil [])
  exact ⟨before, rfl, u, as, by simpa [hcut] using htext⟩

/-- What is left unread does not begin with a line break, which would belong to filler. -/
private theorem ne_lineBreak_of_skipFiller {cs ys : List Char} {c : Char}
    (h : skipFiller cs = c :: ys) :
    c ≠ '\n' ∧ c ≠ '\r' := by
  have hout := startsOutside_skipFiller cs
  rw [h, startsOutside_cons] at hout
  constructor <;> rintro rfl <;> cases hout

/-- Where text is left behind a list, what stands before it is the list. -/
theorem Recognizes.listOf_leaves (h : Recognizes item Item) {cs ys : List Char} {c : Char}
    {as : List α} (hread : (listOf item).run cs = .ok as (c :: ys)) :
    ∃ before, cs = before ++ c :: ys ∧ ListText Item before as := by
  obtain ⟨left, hsequence, hleft⟩ := listOf_eq_ok_iff_exists.mp hread
  have hc := ne_lineBreak_of_skipFiller hleft
  obtain ⟨lead, items, rfl, hlead, hitems⟩ := h.separated_sound hsequence
  obtain ⟨comma, trail, rfl, hcomma, htrail⟩ := exists_trailingComma hleft
  have hstands : Filler lead (items ++ (comma ++ trail) ++ c :: ys) := by simpa using hlead
  have hbefore := hstands.replace _ hc []
  rw [List.append_nil] at hbefore
  exact ⟨lead ++ (items ++ (comma ++ trail)), by simp,
    .mk hbefore hitems hcomma (htrail.replace [] hc [])⟩

end Sequences

section Membership

variable {name f rest : List Char} {field : String}

theorem symbol_failsAt {x : Char} {cs : List Char} (h : ((symbol x).run cs).FailsAt rest) :
    rest = cs := by
  simp only [symbol] at h
  split at h
  · exact Eq.symm h
  · split at h
    · cases h
    · exact Eq.symm h

theorem membershipWord_failsAt {cs : List Char} (h : (membershipWord.run cs).FailsAt rest) :
    rest = cs := by
  rw [membershipWord, Reader.run_expecting, Reply.expecting_failsAt_iff, Reader.run_commit,
    Reply.commit_failsAt_iff] at h
  rcases Reader.orElse_failsAt h with h | h <;> exact word_failsAt h

/-- Behind any of its values a list can be closed on the next line. -/
private theorem begins_valueListText_values {lead values trail : List Char} {vs : List Value}
    (hlead : Filler lead (values ++ (trail ++ rest))) (hvalues : Items ValueText values vs)
    (htrail : Filler trail rest) : Begins ValueListText ('(' :: (lead ++ (values ++ trail))) := by
  have hinside : Filler lead (values ++ (trail ++ ['\n'] ++ [')'])) := by
    rw [← List.append_assoc] at hlead
    simpa using hlead.before_lineFeed _ [')']
  have htext := ValueListText.mk hinside hvalues (htrail.lineFeed _)
  exact ⟨"\n)".toList, vs, by simpa using htext⟩

theorem valueList_failsInside : FailsInside valueList (Led ValueListText) := by
  refine FailsInside.behind_filler ?_ ValueListText.visible
  intro cs rest h
  simp only [Reader.run_bind, Reader.run_pure, Reader.run_commit, run_filler, Reply.ok_bind,
    Reply.bind_failsAt_iff, Reply.commit_failsAt_iff, Reply.ok_failsAt, and_false, exists_false,
    or_false] at h
  rcases h with hopen | ⟨_, behind, hopen, hinside⟩
  · cases symbol_failsAt hopen
    exact ⟨[], rfl, "()".toList, [], valueListText_nil⟩
  cases symbol_eq_ok_iff.mp hopen
  rcases hinside with hvalues | ⟨vs, left, hvalues, hclose⟩
  · obtain ⟨before, rfl, hbegins⟩ :=
      value_recognizes.separated_failsInside led_value_failsInside hvalues
    obtain ⟨u, lead, values, vs, hcut, hlead, hitems⟩ := hbegins.exists_led
    have hfirst : Filler lead (values ++ ([] ++ [])) := by simpa using hlead
    obtain ⟨w, vs, hlist⟩ := begins_valueListText_values hfirst hitems (.nil [])
    rw [List.append_nil, ← hcut] at hlist
    exact ⟨'(' :: before, rfl, u ++ w, vs, by simpa using hlist⟩
  · cases symbol_failsAt hclose
    -- What stands where the bracket is missing may be a comma that was given back.
    obtain ⟨lead, values, rfl, hlead, hitems⟩ := value_recognizes.separated_sound hvalues
    obtain ⟨trail, hleft, htrail⟩ := exists_filler left
    rw [hleft] at hlead
    exact ⟨'(' :: (lead ++ (values ++ trail)), by simp [← hleft],
      begins_valueListText_values hlead hitems htrail⟩

/-- Behind a name a word and a list can follow on the next line. -/
private theorem begins_entryText_name (hname : NameText name field (f ++ rest))
    (hf : Filler f rest) :
    Begins EntryText (name ++ f) := by
  have hafter : NameText name field (f ++ ['\n'] ++ ("in".toList ++ ([] ++ "()".toList))) := by
    rw [List.append_assoc]
    exact hname.before_lineFeed _
  have htext := EntryText.mk hafter (hf.lineFeed _) .short (.nil _) valueListText_nil
  exact ⟨"\nin()".toList, ⟨field, []⟩, by simpa using htext⟩

theorem membershipEntry_failsInside : FailsInside membershipEntry (Led EntryText) := by
  refine FailsInside.behind_filler ?_ EntryText.visible
  intro cs rest h
  simp only [Reader.run_bind, Reader.run_pure, Reader.run_commit, Reader.run_expecting, run_filler,
    Reply.ok_bind, Reply.bind_failsAt_iff, Reply.commit_failsAt_iff, Reply.expecting_failsAt_iff,
    Reply.ok_failsAt, and_false, exists_false, or_false] at h
  rcases h with hfield | ⟨field, behindName, hfield, hsecond⟩
  · obtain ⟨before, rfl, u, field, htext⟩ := fieldName_failsInside hfield
    obtain ⟨v, e, he⟩ := begins_entryText_name (htext _) (.nil [])
    exact ⟨before, rfl, u ++ v, e, by simpa using he⟩
  obtain ⟨name, rfl, hname⟩ := fieldName_eq_ok_iff.mp hfield
  obtain ⟨f, hbehind, hf⟩ := exists_filler behindName
  rcases hsecond with hword | ⟨_, behind, hwordRead, hlist⟩
  · cases membershipWord_failsAt hword
    rw [hbehind] at hname
    exact ⟨name ++ f, by simp [← hbehind], begins_entryText_name hname hf⟩
  · obtain ⟨word, hskip, hword⟩ := membershipWord_sound hwordRead
    obtain ⟨before, rfl, hbegins⟩ := valueList_failsInside hlist
    obtain ⟨u, g, list, vs, hcut, hg, hvalues⟩ := hbegins.exists_led
    rw [hskip] at hbehind hf
    subst hbehind
    have he := EntryText.mk (hname.before_token hword.visible _)
      (hf.before_token hword.visible _) hword hg hvalues
    exact ⟨name ++ (f ++ (word ++ before)), by simp, u, _, by simpa [hcut] using he⟩

end Membership

section SinglePredicate

variable {cs : List Char} {p : Predicate}

theorem onePredicate_failsInside : FailsInside onePredicate (Padded PredicateText []) := by
  intro cs rest h
  simp only [onePredicate, Reader.run_bind, Reader.run_pure, run_filler, Reply.bind_failsAt_iff,
    Reply.ok_bind, Reply.ok_failsAt, and_false, exists_false, or_false] at h
  obtain ⟨before, rfl, hbegins⟩ := predicate_failsInside h
  obtain ⟨u, lead, text, p, hcut, hlead, hp⟩ := hbegins.exists_led
  have hpadded := Padded.mk hlead hp (.nil [])
  exact ⟨before, rfl, u, p, by simpa [hcut] using hpadded⟩

/-- Where text is left behind a predicate, what stands before it is the predicate. -/
private theorem onePredicate_leaves {c : Char} {ys : List Char}
    (h : onePredicate.run cs = .ok p (c :: ys)) :
    ∃ before, cs = before ++ c :: ys ∧ Padded PredicateText [] before p := by
  simp only [onePredicate, Reader.run_bind, Reader.run_pure, run_filler, Reply.bind_eq_ok_iff,
    Reply.ok_bind] at h
  obtain ⟨_, left, hread, heq⟩ := h
  injection heq with hp hleft
  subst hp
  obtain ⟨lead, text, rfl, hlead, htext⟩ := predicate_recognizes.sound hread
  obtain ⟨trail, hcut, htrail⟩ := exists_filler left
  rw [hleft] at hcut htrail
  have hc := ne_lineBreak_of_skipFiller hleft
  exact ⟨lead ++ (text ++ trail), by simp [hcut], .mk hlead htext (htrail.replace [] hc [])⟩

end SinglePredicate

section Reports

/-- The parser reports each error at a place in the text, between two of its characters,
up to which the text can still be completed to one that is read. No beginning that cannot be
completed ends before that place. -/
def ReportsViably (parse : String → Except ParseError α) : Prop :=
  ∀ t e, parse t = .error e → ∃ m : Misreading, e = .malformed m ∧ m.source = t.toList ∧
    m.offset ≤ t.utf8ByteSize ∧ String.Pos.Raw.IsValid t ⟨m.offset⟩ ∧
    (∃ before after : String, t = before ++ after ∧ before.utf8ByteSize = m.offset ∧
      ∃ u a, parse (before ++ u) = .ok a) ∧
    ∀ before after : String, t = before ++ after → (∀ u a, parse (before ++ u) ≠ .ok a) →
      m.offset < before.utf8ByteSize

variable {r : Reader α} {Text : List Char → α → Prop} {t : String} {e : ParseError}

/-- A beginning of a text is longer than another one if it is not a beginning of that. -/
private theorem utf8ByteSize_lt_of_not_prefix {x b y c : String} (h : x ++ y = b ++ c)
    (hnot : ∀ z, b ≠ x ++ z) : b.utf8ByteSize < x.utf8ByteSize := by
  have hlists : x.toList ++ y.toList = b.toList ++ c.toList := by
    rw [← String.toList_append, h, String.toList_append]
  rcases List.append_eq_append_iff.mp hlists with ⟨z, hb, -⟩ | ⟨z, hx, -⟩
  · refine absurd ?_ (hnot (.ofList z))
    rw [← String.toList_inj, hb, String.toList_append, String.toList_ofList]
  · have hcut : x = b ++ .ofList z := by
      rw [← String.toList_inj, hx, String.toList_append, String.toList_ofList]
    have hne : (String.ofList z).utf8ByteSize ≠ 0 := by
      intro hzero
      rw [String.utf8ByteSize_eq_zero_iff] at hzero
      rw [hzero, String.append_empty] at hcut
      exact hnot "" (by rw [hcut, String.append_empty])
    rw [hcut, String.utf8ByteSize_append]
    omega

/-- Where a reader stops short of the end, it has passed a beginning of a text it reads. -/
private theorem exists_begins_of_parse_error (hfails : FailsInside r Text)
    (hleaves : ∀ {cs a c ys}, r.run cs = .ok a (c :: ys) →
      ∃ before, cs = before ++ c :: ys ∧ Text before a)
    (h : r.parse t = .error e) :
    ∃ before, t.toList = before ++ (r.run t.toList).rest ∧ Begins Text before := by
  cases hrun : r.run t.toList with
  | ok a rest =>
    cases rest with
    | nil => cases h.symm.trans (Reader.parse_eq_ok_iff.mpr hrun)
    | cons c ys =>
      obtain ⟨before, hcs, htext⟩ := hleaves hrun
      exact ⟨before, hcs, [], a, by simpa using htext⟩
  | miss | fatal =>
    apply hfails
    rw [hrun]
    rfl

theorem reportsViably_of_failsInside (hread : ∀ {cs a}, Text cs a → r.run cs = .ok a [])
    (hfails : FailsInside r Text)
    (hleaves : ∀ {cs a c ys}, r.run cs = .ok a (c :: ys) →
      ∃ before, cs = before ++ c :: ys ∧ Text before a) : ReportsViably r.parse := by
  intro t e h
  obtain ⟨m, rfl, hsource, hafter⟩ := Reader.exists_misreading h
  obtain ⟨before, hcs, u, a, htext⟩ := exists_begins_of_parse_error hfails hleaves h
  have hbefore : m.before = before := by
    rw [← hafter, ← hsource, Misreading.source] at hcs
    exact List.append_cancel_right hcs
  have hcut : t = .ofList before ++ .ofList m.after := by
    rw [← String.toList_inj, ← hsource, Misreading.source, hbefore, String.toList_append,
      String.toList_ofList, String.toList_ofList]
  have hoffset : (String.ofList before).utf8ByteSize = m.offset := by
    rw [Misreading.offset, hbefore, Misreading.byteLength_eq_utf8ByteSize]
  have hviable : r.parse (.ofList before ++ .ofList u) = .ok a := by
    rw [Reader.parse_eq_ok_iff, String.toList_append, String.toList_ofList, String.toList_ofList]
    exact hread htext
  refine ⟨m, rfl, hsource, ?_, ?_, ⟨_, _, hcut, hoffset, _, a, hviable⟩, ?_⟩
  · rw [hcut, String.utf8ByteSize_append]
    omega
  · exact String.Pos.Raw.isValid_iff_exists_append.mpr ⟨_, _, hcut, by rw [← hoffset]; rfl⟩
  · intro x y hxy hhopeless
    rw [← hoffset]
    apply utf8ByteSize_lt_of_not_prefix (hxy.symm.trans hcut)
    intro z hz
    rw [hz, String.append_assoc] at hviable
    exact hhopeless _ a hviable

/-- Errors in predicates, in lists of them and in membership entries are reported at places
up to which the text was still a beginning. -/
theorem errors_reported_viably : ReportsViably Predicate.parse ∧
    ReportsViably Predicate.parseList ∧ ReportsViably MembershipEntry.parseList := by
  refine ⟨?_, ?_, ?_⟩
  · exact reportsViably_of_failsInside onePredicate_eq_ok_iff_padded.mpr onePredicate_failsInside
      onePredicate_leaves
  · exact reportsViably_of_failsInside
      (predicate_recognizes.listOf_eq_ok_iff predicate_missesAtEnd).mpr
      (predicate_recognizes.listOf_failsInside predicate_failsInside)
      predicate_recognizes.listOf_leaves
  · exact reportsViably_of_failsInside
      (membershipEntry_recognizes.listOf_eq_ok_iff membershipEntry_missesAtEnd).mpr
      (membershipEntry_recognizes.listOf_failsInside membershipEntry_failsInside)
      membershipEntry_recognizes.listOf_leaves

/-- Behind a minus sign digits are missing; the field before it has a character of two bytes. -/
theorem errors_reported_viably_behind_minus :
    Predicate.parse "\"\u00e9\" >= -x" =
        .error (.malformed ⟨"\"\u00e9\" >= -".toList, ['x'], [.value]⟩) ∧
      ∃ before after : String, "\"\u00e9\" >= -x" = before ++ after ∧ before.utf8ByteSize = 9 ∧
        ∃ u p, Predicate.parse (before ++ u) = .ok p := by
  have herror : Predicate.parse "\"\u00e9\" >= -x" =
      .error (.malformed ⟨"\"\u00e9\" >= -".toList, ['x'], [.value]⟩) := by cbv
  obtain ⟨m, hm, -, -, -, ⟨before, after, hcut, hsize, hread⟩, -⟩ :=
    errors_reported_viably.1 _ _ herror
  cases hm
  exact ⟨herror, before, after, hcut, hsize.trans (by decide), hread⟩

end Reports

end DecisionRules.Reading
