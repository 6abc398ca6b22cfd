import DecisionRules.Proofs.Building.Finite
import DecisionRules.Proofs.Reading.Items
import DecisionRules.Proofs.Reading.RoundTrip
import Mathlib.Data.List.TakeWhile

/-! The two readers of comparisons. One trims a whole text and looks it up; the other takes the
first spelling that fits at its place and goes on with a value. Between a bare name and a value
both take the same texts: what one of them would leave unread cannot become part of the value. -/
namespace DecisionRules

namespace Text

private theorem exists_trimBlank (cs : List Char) :
    ∃ front back, cs = front ++ (trimBlank cs ++ back) ∧
    (∀ c ∈ front, isBlank c = true) ∧ ∀ c ∈ back, isBlank c = true := by
  have hblank (xs : List Char) : ∀ c ∈ xs.takeWhile isBlank, isBlank c = true :=
    List.all_eq_true.mp List.all_takeWhile
  have hback := List.takeWhile_append_dropWhile (p := isBlank) (l := (cs.dropWhile isBlank).reverse)
  refine ⟨cs.takeWhile isBlank, ((cs.dropWhile isBlank).reverse.takeWhile isBlank).reverse, ?_,
    hblank _, ?_⟩
  · rw [trimBlank, ← List.reverse_append, hback, List.reverse_reverse,
      List.takeWhile_append_dropWhile]
  · intro c hc
    exact hblank _ c (List.mem_reverse.mp hc)

/-- From around a text without blanks the blanks are trimmed and nothing else. -/
private theorem trimBlank_eq {front cs back : List Char} (hfront : ∀ c ∈ front, isBlank c = true)
    (hback : ∀ c ∈ back, isBlank c = true) (hcs : ∀ c ∈ cs, isBlank c = false) (hne : cs ≠ []) :
    trimBlank (front ++ (cs ++ back)) = cs := by
  have hout (xs : List Char) (hxs : xs ≠ []) (hin : ∀ c ∈ xs, isBlank c = false)
      (rest : List Char) : StartsOutside isBlank (xs ++ rest) := by
    cases xs with
    | nil => exact absurd rfl hxs
    | cons c xs => exact (startsOutside_cons _ _ _).mpr (hin c List.mem_cons_self)
  have hreverse : StartsOutside isBlank cs.reverse := by
    simpa using hout cs.reverse (by simpa) (by simpa using hcs) []
  rw [trimBlank, dropWhile_run hfront (hout cs hne hcs back), List.reverse_append,
    dropWhile_run (by simpa using hback) hreverse, List.reverse_reverse]

end Text

open Reading (ComparisonText) in
/-- A text is a comparison if it is spelled as one but for blanks around it. -/
theorem Comparison.parse_eq_ok_iff {s : String} {c : Comparison} :
    Comparison.parse s = .ok c ↔ ComparisonText (Text.trimBlank s.toList) c := by
  obtain ⟨word, hword⟩ : ∃ word : String, Text.trimBlank s.toList = word.toList :=
    ⟨.ofList (Text.trimBlank s.toList), by simp⟩
  rw [Comparison.parse, hword, String.ofList_toList]
  constructor
  · intro h
    split at h <;> cases h
    all_goals simp [ComparisonText]
  · intro h
    cases c <;> rcases h with h | h <;> rw [String.toList_inj.mp h] <;> rfl

namespace Reading

open Text (QuotedBody StartsOutside startsOutside_cons)

section Words

variable {text behind xs w : List Char} {c : Comparison}

/-- No comparison is spelled with a blank. -/
theorem ComparisonText.not_isBlank (h : ComparisonText text c) :
    ∀ d ∈ text, Text.isBlank d = false := by
  have hall : ∀ w ∈ Comparison.spellings, w.1.toList.all (fun d => !Text.isBlank d) = true := by
    decide
  simpa using hall _ (comparisonText_iff_mem.mp h)

/-- Comparisons and values begin with different characters. -/
theorem ComparisonText.ne_value {v : Value} (h : ComparisonText text c) (hw : ValueText w v)
    (behind : List Char) : text ++ behind ≠ w := by
  intro heq
  have hout : StartsOutside startsValue (text ++ behind) := h.outside (by decide) behind
  have hin : StartsOutside (fun c => !startsValue c) (w ++ []) :=
    hw.outside (fun c hc => by simp [hc]) []
  rw [heq] at hout
  rw [List.append_nil] at hin
  cases w with
  | nil => exact hw.visible.ne_nil rfl
  | cons d w =>
    rw [startsOutside_cons] at hout hin
    simp [hout] at hin

/-- A comparison ends before the next blank. -/
private theorem ComparisonText.exists_before_blank (h : ComparisonText text c)
    (hcut : text ++ behind = xs ++ ' ' :: w) : ∃ ys, xs = text ++ ys ∧ behind = ys ++ ' ' :: w := by
  rcases List.append_eq_append_iff.mp hcut with ⟨ys, hxs, hbehind⟩ | ⟨ys, htext, hrest⟩
  · exact ⟨ys, hxs, hbehind⟩
  · cases ys with
    | nil => exact ⟨[], by simpa using htext.symm, by simpa using hrest.symm⟩
    | cons d ys =>
      obtain ⟨rfl, -⟩ := List.cons_eq_cons.mp hrest
      exact absurd (h.not_isBlank ' ' (by simp [htext])) (by decide)

/-- Where no comment can begin, filler before a blank goes on up to a text behind it, or ends
at a character that is not blank. -/
private theorem skipFiller_before_blank (hxs : '#' ∉ xs) (hw : StartsOutside startsFiller w) :
    ((∀ c ∈ xs, Text.isBlank c = true) ∧ skipFiller (xs ++ ' ' :: w) = w) ∨
      ∃ front ys, xs = front ++ ys ∧ (∀ c ∈ front, Text.isBlank c = true) ∧ ys ≠ [] ∧
        skipFiller (xs ++ ' ' :: w) = ys ++ ' ' :: w := by
  have hskip : skipFiller (xs ++ [' '] ++ w) = (xs ++ [' ']).dropWhile Text.isBlank ++ w :=
    skipFiller_append_of_not_mem (by simpa using hxs) hw
  rw [List.append_assoc, List.singleton_append, List.dropWhile_append] at hskip
  cases hdrop : xs.dropWhile Text.isBlank with
  | nil =>
    have hblank : [' '].dropWhile Text.isBlank = [] := rfl
    exact .inl ⟨List.dropWhile_eq_nil_iff.mp hdrop, by simpa [hdrop, hblank] using hskip⟩
  | cons y ys =>
    refine .inr ⟨xs.takeWhile Text.isBlank, y :: ys, ?_, ?_, List.cons_ne_nil y ys, ?_⟩
    · rw [← hdrop, List.takeWhile_append_dropWhile]
    · exact List.all_eq_true.mp List.all_takeWhile
    · simpa [hdrop] using hskip

/-- In front of a token there is more than filler. -/
private theorem skipFiller_append_ne_nil (hxs : '#' ∉ xs) (hw : Visible w) :
    skipFiller (xs ++ w) ≠ [] := by
  have hstart := hw.startsOutside []
  rw [List.append_nil] at hstart
  rw [skipFiller_append_of_not_mem hxs hstart]
  simp [hw.ne_nil]

end Words

section BareName

variable {n s : String} {v : Value} {c : Comparison}

private theorem nameText_bare (hn : FieldName.isBare n.toList = true) (rest : List Char) :
    NameText n.toList n (' ' :: rest) := by
  have h := NameText.bare hn ((startsOutside_cons FieldName.isPart ' ' rest).mpr rfl)
  rwa [String.ofList_toList] at h

/-- Of all values only quoted ones are spelled with a blank. -/
private theorem ValueText.quoted_of_blank {text : List Char} (h : ValueText text v)
    (hblank : ' ' ∈ text) :
    ∃ body s, text = '"' :: (body ++ ['"']) ∧ QuotedBody body s ∧ v = .string (.ofList s) := by
  have hnumber (n : Numeral) (hn : Numeral.Written text n) : False := by
    have hdigit (c : Char) (hc : c.isDigit = true) : (c != ' ') = true := by
      rw [bne_iff_ne]
      rintro rfl
      cases hc
    exact absurd (hn.forall_mem hdigit (by decide) ' ' hblank) (by decide)
  cases h with
  | @string body s hbody => exact ⟨body, s, rfl, hbody, rfl⟩
  | trueWord | falseWord => exact absurd hblank (by decide)
  | integer hn | float hn => exact (hnumber _ hn).elim

/-- A value that is read from before a blank on is not the one that is written behind the
blank. If it ends before that, a token is left unread; if it reaches into it, it is quoted and
closed by the opening quote of the other, of which the rest is left and is no comment. -/
private theorem skipFiller_ne_nil_of_value {xs trail : List Char} {u : Value} (hxs : '#' ∉ xs)
    (hne : xs ≠ []) (hv : v.isFinite = true)
    (hread : value.run (xs ++ ' ' :: v.spelling) = .ok u trail) (huv : (u == v) = true) :
    skipFiller trail ≠ [] := by
  obtain ⟨text, hcut, htext⟩ := value_sound hread
  have hsplit : xs ++ [' '] ++ v.spelling = text ++ trail := by simpa using hcut
  rcases List.append_eq_append_iff.mp hsplit with ⟨zs, rfl, hrest⟩ | ⟨zs, hbefore, rfl⟩
  · obtain ⟨body, content, hbody, hquoted, rfl⟩ := htext.quoted_of_blank (by simp)
    cases xs with
    | nil => exact absurd rfl hne
    | cons q xs =>
      obtain ⟨rfl, hinside⟩ := List.cons_eq_cons.mp hbody
      cases v with
      | int | float | bool => cases huv
      | string t =>
        obtain rfl : content = t.toList := by
          rw [← String.toList_ofList (l := content),
            eq_of_beq (a := String.ofList content) (b := t) huv]
        cases zs with
        | nil => simp at hinside
        | cons c zs =>
          obtain ⟨rfl, htrail⟩ := List.cons_eq_cons.mp hrest
          obtain ⟨rfl, rfl⟩ := hquoted.closed_behind_blank (by simpa using hinside)
          have hcontent : '#' ∉ t.toList.flatMap Text.writeUnit := by
            apply Text.not_mem_hash_flatMap_writeUnit
            apply hquoted.not_mem_hash
            simpa using hxs
          have htrail : t.toList.flatMap Text.writeUnit ++ ['"'] = trail := htrail
          rw [← htrail]
          exact skipFiller_append_ne_nil hcontent ⟨'"', rfl, rfl⟩
  · have hzs : '#' ∉ zs := by
      have hall : '#' ∉ xs ++ [' '] := by simpa using hxs
      rw [hbefore, List.mem_append, not_or] at hall
      exact hall.2
    exact skipFiller_append_ne_nil hzs (Value.valueText_spelling hv).visible

/-- What is read as a comparison between a bare name and a value is, but for blanks, all that
stands there. -/
private theorem comparisonText_of_parse {p : Predicate} (hs : '#' ∉ s.toList)
    (hn : FieldName.isBare n.toList = true) (hv : v.isFinite = true)
    (hread : Predicate.parse (n ++ " " ++ s ++ " " ++ v.text) = .ok p)
    (heq : (p.value == v) = true) : ComparisonText (Text.trimBlank s.toList) p.comparison := by
  have hw := Value.valueText_spelling hv
  have hwstart := hw.visible.startsOutside []
  rw [List.append_nil] at hwstart
  have hname := nameText_bare hn (s.toList ++ ' ' :: v.spelling)
  obtain ⟨d, htext, hd⟩ := ((parse_predicate_iff_unique_cut _).1 p).mp hread
  have htrace := hd.trace
  have hfrom : d.fromName = n.toList ++ ' ' :: (s.toList ++ ' ' :: v.spelling) := by
    rw [← htrace.lead, ← skipFiller_eq_self hname.outside_filler, htext]
    simp [Value.text]
  have hbehindName : d.behindName = ' ' :: (s.toList ++ ' ' :: v.spelling) := by
    have hrun := htrace.name
    rw [hfrom, fieldName_eq_ok_iff.mpr ⟨_, rfl, hname⟩] at hrun
    injection hrun with _ h
    exact h.symm
  have hafterName : skipFiller (s.toList ++ ' ' :: v.spelling) = d.fromComparison := by
    rw [← htrace.afterName, hbehindName, skipFiller_blank rfl]
  rcases skipFiller_before_blank hs hwstart with ⟨-, hskip⟩ | ⟨front, xs, hsplit, hfront, -, hskip⟩
  · exact absurd (hafterName.symm.trans hskip) (hd.comparison.ne_value hw _)
  obtain ⟨ys, rfl, hbehind⟩ := hd.comparison.exists_before_blank (hafterName.symm.trans hskip)
  have hys : '#' ∉ ys := by
    rw [hsplit] at hs
    simp only [List.mem_append, not_or] at hs
    exact hs.2.2
  rcases skipFiller_before_blank hys hwstart with ⟨hback, -⟩ | ⟨back, zs, rfl, -, hne, hskip⟩
  · rw [hsplit, Text.trimBlank_eq hfront hback hd.comparison.not_isBlank
      hd.comparison.visible.ne_nil]
    exact hd.comparison
  · -- Something is left in front of the value, and it would have to begin the value.
    have hvalue := htrace.value
    rw [← htrace.afterComparison, hbehind, hskip] at hvalue
    rw [List.mem_append, not_or] at hys
    exact absurd (skipFiller_trail hd.trail) (skipFiller_ne_nil_of_value hys.2 hne hv hvalue heq)

private theorem parse_of_comparisonText (hn : FieldName.isBare n.toList = true)
    (hv : v.isFinite = true)
    (hc : ComparisonText (Text.trimBlank s.toList) c) :
    Predicate.parse (n ++ " " ++ s ++ " " ++ v.text) = .ok ⟨n, c, v⟩ := by
  obtain ⟨front, back, hsplit, hfront, hback⟩ := Text.exists_trimBlank s.toList
  generalize Text.trimBlank s.toList = text at hc hsplit
  let d : PredicateCut := ⟨[], n.toList, ' ' :: front, text, back ++ [' '], v.spelling, []⟩
  have htext : d.text = (n ++ " " ++ s ++ " " ++ v.text).toList := by
    simp [d, PredicateCut.text, PredicateCut.fromName, PredicateCut.behindName,
      PredicateCut.fromComparison, PredicateCut.behindComparison, PredicateCut.fromValue, Value.text,
      hsplit]
  have hblank : ∀ c ∈ back ++ [' '], Text.isBlank c = true :=
    List.forall_mem_append.mpr ⟨hback, List.forall_mem_singleton.mpr rfl⟩
  have hdenotes : d.Denotes ⟨n, c, v⟩ :=
    ⟨⟨.nil _, nameText_bare hn _, .blank rfl (filler_of_isBlank hfront _), hc,
      filler_of_isBlank hblank _, Value.valueText_spelling hv⟩, .nil _⟩
  exact ((parse_predicate_iff_unique_cut _).1 _).mpr ⟨d, htext, hdenotes⟩

end BareName

end Reading

open Reading

/-- The two readers agree on the spellings of comparisons, on the blanks around them and on
what they mean. It makes no difference whether the predicate that is read has to be the same or
an equal one. -/
theorem Comparison.parse_eq_ok_iff_parse_predicate {n s : String} {v : Value} (c : Comparison)
    (hs : '#' ∉ s.toList) (hn : FieldName.isBare n.toList = true) (hv : v.isFinite = true) :
    (Comparison.parse s = .ok c ↔
        Predicate.parse (n ++ " " ++ s ++ " " ++ v.text) = .ok ⟨n, c, v⟩) ∧
      (Comparison.parse s = .ok c ↔
        ∃ p, Predicate.parse (n ++ " " ++ s ++ " " ++ v.text) = .ok p ∧ (p == ⟨n, c, v⟩) = true) := by
  rw [parse_eq_ok_iff]
  have hsame := Predicate.beq_self (p := ⟨n, c, v⟩) hv
  have hwords (h : ∃ p, Predicate.parse (n ++ " " ++ s ++ " " ++ v.text) = .ok p ∧
      (p == ⟨n, c, v⟩) = true) : ComparisonText (Text.trimBlank s.toList) c := by
    obtain ⟨p, hread, hp⟩ := h
    have hparts : (p.field == n && p.comparison == c && p.value == v) = true := hp
    simp only [Bool.and_eq_true] at hparts
    obtain ⟨⟨-, hcomparison⟩, hvalue⟩ := hparts
    rw [← eq_of_beq hcomparison]
    exact comparisonText_of_parse hs hn hv hread hvalue
  constructor
  · constructor
    · exact parse_of_comparisonText hn hv
    · intro hread
      exact hwords ⟨_, hread, hsame⟩
  · constructor
    · intro hc
      exact ⟨_, parse_of_comparisonText hn hv hc, hsame⟩
    · exact hwords

/-- Blanks beyond ASCII around a symbol, and a value made of the notation's own marks. -/
theorem Comparison.parse_between_blanks :
    '#' ∉ "\u00a0\u3000>=\n".toList ∧ FieldName.isBare "equal".toList = true ∧
      (Value.string "# \"x").isFinite = true ∧ Comparison.parse "\u00a0\u3000>=\n" = .ok .ge ∧
      Predicate.parse ("equal" ++ " " ++ "\u00a0\u3000>=\n" ++ " " ++ (Value.string "# \"x").text) =
        .ok ⟨"equal", .ge, .string "# \"x"⟩ := by
  have hs : '#' ∉ "\u00a0\u3000>=\n".toList := by decide
  have hn : FieldName.isBare "equal".toList = true := by decide
  have hread : Comparison.parse "\u00a0\u3000>=\n" = .ok .ge := by decide
  exact ⟨hs, hn, rfl, hread, (parse_eq_ok_iff_parse_predicate .ge hs hn rfl).1.mp hread⟩

end DecisionRules
