import DecisionRules.Reading.Membership
import DecisionRules.Proofs.Reading.Items
import DecisionRules.Proofs.Reading.PredicateGrammar

/-! The grammar of membership lists: entries with commas between them, each a name, a word
and values in brackets, with filler between any two tokens. The reader accepts exactly the
texts of the grammar and keeps every entry and every value in its place. -/
namespace DecisionRules.Reading

open Numeral (Ends)
open Text (StartsOutside startsOutside_cons)

inductive MembershipWord : List Char → Prop
  | long : MembershipWord "isIn".toList
  | short : MembershipWord "in".toList

/-- Values in brackets, without a comma behind the last one. -/
inductive ValueListText : List Char → List Value → Prop
  | mk {lead values trail : List Char} {vs : List Value} :
      Filler lead (values ++ (trail ++ [')'])) → Items ValueText values vs → Filler trail [')'] →
      ValueListText ('(' :: (lead ++ (values ++ (trail ++ [')'])))) vs

inductive EntryText : List Char → MembershipEntry → Prop
  | mk {name f word g list : List Char} {field : String} {vs : List Value} :
      NameText name field (f ++ (word ++ (g ++ list))) → Filler f (word ++ (g ++ list)) →
      MembershipWord word → Filler g list → ValueListText list vs →
      EntryText (name ++ (f ++ (word ++ (g ++ list)))) ⟨field, vs⟩

theorem symbol_eq_ok_iff {x : Char} {cs rest : List Char} :
    (symbol x).run cs = .ok () rest ↔ cs = x :: rest := by
  cases cs with
  | nil => simp [symbol]
  | cons c cs => by_cases h : c = x <;> simp [symbol, h]

private theorem value_missesAtEnd : MissesAtEnd (do filler; value) :=
  missesAtEnd_behind_filler ⟨_, _, rfl⟩ (fun _ => ⟨_, _, rfl⟩) fun _ => ⟨_, _, rfl⟩

/-- A value with filler before it. -/
theorem value_recognizes : Recognizes (do filler; value) ValueText :=
  recognizes_behind_filler value_sound value_complete ValueText.visible

theorem valueListText_nil : ValueListText "()".toList [] :=
  @ValueListText.mk [] [] [] _ (.nil _) .nil (.nil _)

theorem ValueListText.visible {text : List Char} {vs : List Value} (h : ValueListText text vs) :
    Visible text := by
  cases h
  exact ⟨'(', rfl, rfl⟩

/-- Values are read up to the bracket behind them. -/
private theorem values_complete {lead values trail : List Char} {vs : List Value}
    (hlead : Filler lead (values ++ (trail ++ [')']))) (hvalues : Items ValueText values vs)
    (htrail : Filler trail [')']) (rest : List Char) :
    ∃ left, (separated (do filler; value)).run (lead ++ (values ++ (trail ++ ')' :: rest))) =
      .ok vs left ∧ skipFiller left = ')' :: rest := by
  have hbracket : Filler trail (')' :: rest) := htrail.replace [] (by decide) _
  have hskip : skipFiller (trail ++ ')' :: rest) = ')' :: rest :=
    hbracket.skipFiller_eq ((startsOutside_cons _ _ _).mpr rfl)
  have hinside : Filler lead (values ++ (trail ++ ')' :: rest)) := by
    rw [← List.append_assoc] at hlead ⊢
    exact hlead.replace _ (by decide) _
  have hends : Ends (trail ++ ')' :: rest) := hbracket.ends ((startsOutside_cons _ _ _).mpr rfl)
  have hend : EndsItems (trail ++ ')' :: rest) := by
    intro c hc
    rw [hskip] at hc
    cases hc
    exact .inr rfl
  have hnone : behindComma? (trail ++ ')' :: rest) = none := by
    simp [behindComma?, hskip]
  obtain ⟨left, hread, hleft⟩ := value_recognizes.separated_complete value_missesAtEnd hinside
    hvalues hends hend (moreItems_of_none hnone)
  exact ⟨left, hread, hleft.trans hskip⟩

theorem valueList_recognizes : Recognizes valueList ValueListText := by
  refine recognizes_behind_filler ?_ ?_ ValueListText.visible
  · intro cs rest vs h
    simp only [Reader.run_bind, Reader.run_pure, Reader.run_commit, run_filler,
      Reply.bind_eq_ok_iff, Reply.commit_eq_ok_iff] at h
    obtain ⟨_, behind, hopen, vs, left, hvalues, _, _, ⟨⟩, _, rest, hclose, ⟨⟩⟩ := h
    rw [symbol_eq_ok_iff] at hopen hclose
    obtain ⟨lead, values, rfl, hlead, hitems⟩ := value_recognizes.separated_sound hvalues
    obtain ⟨trail, hleft, htrail⟩ := exists_filler left
    rw [hclose] at hleft htrail
    subst hopen hleft
    have hinside : Filler lead (values ++ (trail ++ [')'])) := by
      rw [← List.append_assoc] at hlead ⊢
      exact hlead.replace _ (by decide) [')']
    exact ⟨_, by simp, .mk hinside hitems (htrail.replace [] (by decide) [')'])⟩
  · intro text rest vs h _
    obtain ⟨hlead, hvalues, htrail⟩ := h
    obtain ⟨left, hread, hleft⟩ := values_complete hlead hvalues htrail rest
    have hclose : (symbol ')').run (skipFiller left) = .ok () rest :=
      symbol_eq_ok_iff.mpr hleft
    simp only [List.cons_append, List.append_assoc, List.nil_append, Reader.run_bind,
      Reader.run_pure, Reader.run_commit, run_filler, symbol_eq_ok_iff.mpr rfl, Reply.ok_bind,
      hread, hclose, Reply.ok_commit]

theorem MembershipWord.visible {text : List Char} (h : MembershipWord text) : Visible text := by
  cases h <;> exact ⟨'i', rfl, rfl⟩

theorem membershipWord_sound {cs rest : List Char} (h : membershipWord.run cs = .ok () rest) :
    ∃ text, cs = text ++ rest ∧ MembershipWord text := by
  rw [membershipWord, Reader.run_expecting, Reply.expecting_eq_ok_iff, Reader.run_commit,
    Reply.commit_eq_ok_iff] at h
  rcases Reader.orElse_sound h with h | h
  · exact ⟨_, (Reader.word_eq_ok_iff.mp h).1, .long⟩
  · exact ⟨_, (Reader.word_eq_ok_iff.mp h).1, .short⟩

theorem membershipWord_complete {text : List Char} (h : MembershipWord text) (rest : List Char) :
    membershipWord.run (text ++ rest) = .ok () rest := by
  cases h <;> rfl

theorem EntryText.visible {text : List Char} {e : MembershipEntry} (h : EntryText text e) :
    Visible text := by
  obtain ⟨hname, -⟩ := h
  exact hname.visible.append _

theorem membershipEntry_recognizes : Recognizes membershipEntry EntryText := by
  refine recognizes_behind_filler ?_ ?_ EntryText.visible
  · intro cs rest e h
    simp only [Reader.run_bind, Reader.run_pure, Reader.run_commit, Reader.run_expecting,
      run_filler, Reply.bind_eq_ok_iff, Reply.commit_eq_ok_iff, Reply.expecting_eq_ok_iff] at h
    obtain ⟨field, behind, hfield, _, _, ⟨⟩, _, behindWord, hwordRead, vs, rest, hread, ⟨⟩⟩ := h
    obtain ⟨name, rfl, hname⟩ := fieldName_eq_ok_iff.mp hfield
    obtain ⟨f, hbehind, hf⟩ := exists_filler behind
    obtain ⟨word, hskip, hword⟩ := membershipWord_sound hwordRead
    obtain ⟨g, list, rfl, hg, hlist⟩ := valueList_recognizes.sound hread
    rw [hskip] at hbehind hf
    subst hbehind
    exact ⟨_, by simp, .mk (hname.before_token hword.visible _)
      (hf.before_token hword.visible _) hword hg hlist⟩
  · intro text rest e h hr
    obtain @⟨name, f, word, g, list, field, vs, hname, hf, hword, hg, hlist⟩ := h
    have hnameRead : fieldName.run (name ++ (f ++ (word ++ (g ++ (list ++ rest))))) =
        .ok field (f ++ (word ++ (g ++ (list ++ rest)))) :=
      fieldName_eq_ok_iff.mpr ⟨name, rfl, hname.before_token hword.visible _⟩
    have hskip : skipFiller (f ++ (word ++ (g ++ (list ++ rest)))) = word ++ (g ++ (list ++ rest)) :=
      (hf.before_token hword.visible _).skipFiller_eq (hword.visible.startsOutside _)
    have hlistRead : valueList.run (g ++ (list ++ rest)) = .ok vs rest :=
      valueList_recognizes.complete hg hlist hr
    simp only [List.append_assoc, Reader.run_bind, Reader.run_pure, Reader.run_commit,
      Reader.run_expecting, run_filler, Reply.ok_bind, hnameRead, hskip,
      membershipWord_complete hword, hlistRead, Reply.ok_commit, Reply.ok_expecting]

theorem membershipEntry_missesAtEnd : MissesAtEnd membershipEntry :=
  missesAtEnd_behind_filler ⟨_, _, rfl⟩ (fun _ => ⟨_, _, rfl⟩) fun _ => ⟨_, _, rfl⟩

/-- Entries are read from the texts that list them. -/
theorem parse_membership_eq_ok_iff {t : String} {es : List MembershipEntry} :
    MembershipEntry.parseList t = .ok es ↔ ListText EntryText t.toList es := by
  rw [MembershipEntry.parseList, Reader.parse_eq_ok_iff,
    membershipEntry_recognizes.listOf_eq_ok_iff membershipEntry_missesAtEnd]

/-- A text is read as membership entries if and only if it is a list of them in the grammar,
with the same entries in the same order; any other text is refused where it stands. -/
theorem parse_membership_iff_listText (t : String) :
    (∀ es, MembershipEntry.parseList t = .ok es ↔ ListText EntryText t.toList es) ∧
      ((∀ es, ¬ListText EntryText t.toList es) →
        ∃ m : Misreading, MembershipEntry.parseList t = .error (.malformed m) ∧
          m.source = t.toList) := by
  refine ⟨fun es => parse_membership_eq_ok_iff, ?_⟩
  intro hnone
  cases hread : MembershipEntry.parseList t with
  | ok es => exact absurd (parse_membership_eq_ok_iff.mp hread) (hnone es)
  | error e =>
    obtain ⟨m, rfl, hsource, _⟩ := Reader.exists_misreading hread
    exact ⟨m, rfl, hsource⟩

/-- The number nearest to three tenths, which lies a little before it. -/
def threeTenths : Binary64 := .finite false 0x3FD3333333333333 (by decide)

/-- Two entries, one with two values and one without, and a comma behind them. -/
private theorem listText_zones : ListText EntryText "A in(1,0.3),B isIn (),".toList
    [⟨"A", [.int 1, .float threeTenths]⟩, ⟨"B", []⟩] := by
  have hspace (rest : List Char) : Filler [' '] rest := .blank rfl (.nil rest)
  have hname (c : Char) (h : FieldName.isBare [c] = true) (rest : List Char) :
      NameText [c] (.ofList [c]) (' ' :: rest) := .bare h ((startsOutside_cons _ _ _).mpr rfl)
  have hdigits (d : Char) (hd : d.isDigit = true) := Numeral.isDigits_singleton hd
  have hvalue : ValueText "0.3".toList (.float threeTenths) :=
    valueText_of_written (.mk false (hdigits '0' rfl) (.present (hdigits '3' rfl)) .absent) rfl
  have hvalues : Items ValueText "1,0.3".toList [.int 1, .float threeTenths] :=
    .cons valueText_one (@MoreItems.cons _ _ [] [] "0.3".toList _ _ _ (.nil _) (.nil _) hvalue .nil)
  have hlist : ValueListText "(1,0.3)".toList [.int 1, .float threeTenths] :=
    @ValueListText.mk [] "1,0.3".toList [] _ (.nil _) hvalues (.nil _)
  have hfirst : EntryText "A in(1,0.3)".toList ⟨"A", [.int 1, .float threeTenths]⟩ :=
    @EntryText.mk ['A'] [' '] _ [] _ _ _ (hname 'A' rfl _) (hspace _) .short (.nil _) hlist
  have hsecond : EntryText "B isIn ()".toList ⟨"B", []⟩ :=
    @EntryText.mk ['B'] [' '] _ [' '] _ _ _ (hname 'B' rfl _) (hspace _) .long (hspace _)
      valueListText_nil
  have hmore : MoreItems EntryText ",B isIn ()".toList [⟨"B", []⟩] :=
    @MoreItems.cons _ _ [] [] _ [] _ _ (.nil _) (.nil _) hsecond .nil
  exact @ListText.mk _ _ [] _ [','] [] _ (.nil _) (.cons hfirst hmore) (.present (.nil _)) (.nil _)

theorem parse_membership_zones : MembershipEntry.parseList "A in(1,0.3),B isIn ()," =
    .ok [⟨"A", [.int 1, .float threeTenths]⟩, ⟨"B", []⟩] :=
  ((parse_membership_iff_listText _).1 _).mpr listText_zones

end DecisionRules.Reading
