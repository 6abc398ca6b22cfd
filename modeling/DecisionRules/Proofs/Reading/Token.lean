import DecisionRules.Reading.Token
import DecisionRules.Proofs.Reading.Reader
import DecisionRules.Proofs.Text.Delimited

/-! Field names and comparisons as languages, each text with what it denotes, and their
readers as recognizers of them. -/
namespace DecisionRules.Reading

open Text (QuotedBody StartsOutside startsOutside_cons)

/-- A field name in front of the rest of a text. A bare name goes on as far as it can. -/
inductive NameText : List Char → String → List Char → Prop
  | bare {text rest : List Char} : FieldName.isBare text = true →
      StartsOutside FieldName.isPart rest → NameText text (.ofList text) rest
  | quoted {body text : List Char} (rest : List Char) : QuotedBody body text →
      NameText ('"' :: (body ++ ['"'])) (.ofList text) rest

def ComparisonText (text : List Char) : Comparison → Prop
  | .eq => text = "==".toList ∨ text = "equal".toList
  | .ne => text = "!=".toList ∨ text = "notEqual".toList
  | .gt => text = ">".toList ∨ text = "greaterThan".toList
  | .ge => text = ">=".toList ∨ text = "greaterOrEqual".toList
  | .lt => text = "<".toList ∨ text = "lessThan".toList
  | .le => text = "<=".toList ∨ text = "lessOrEqual".toList

/-- The reader of comparisons knows these spellings and no others. -/
theorem comparisonText_iff_mem {text : List Char} {c : Comparison} :
    ComparisonText text c ↔ (String.ofList text, c) ∈ Comparison.spellings := by
  obtain ⟨word, rfl⟩ : ∃ word : String, text = word.toList := ⟨.ofList text, by simp⟩
  cases c <;> simp only [ComparisonText, String.toList_inj, String.ofList_toList] <;>
    simp [Comparison.spellings]

theorem quotedText_eq_ok_iff {cs rest : List Char} {s : String} :
    quotedText.run cs = .ok s rest ↔
      ∃ body text, cs = '"' :: (body ++ ['"']) ++ rest ∧ QuotedBody body text ∧ s = .ofList text := by
  have hread : ∀ tail, ofUnquoted (Text.unquote tail) = .ok s rest ↔
      ∃ text, Text.unquote tail = .closed text rest ∧ s = .ofList text := by
    intro tail
    cases Text.unquote tail with
    | closed text behind =>
      constructor
      · rintro ⟨⟩
        exact ⟨text, rfl, rfl⟩
      · intro h
        obtain ⟨_, ⟨⟩, rfl⟩ := h
        rfl
    | badEscape | unclosed => simp [ofUnquoted]
  simp only [quotedText]
  constructor
  · intro h
    split at h
    · obtain ⟨text, hu, rfl⟩ := (hread _).mp h
      obtain ⟨body, rfl, hb⟩ := Text.unquote_eq_closed_iff.mp hu
      exact ⟨body, text, by simp, hb, rfl⟩
    · cases h
  · intro hr
    obtain ⟨body, text, rfl, hb, rfl⟩ := hr
    simp only [List.cons_append, List.append_assoc, List.nil_append]
    exact (hread _).mpr ⟨text, Text.unquote_eq_closed_iff.mpr ⟨body, rfl, hb⟩, rfl⟩

theorem quotedText_miss {cs : List Char} (h : StartsOutside (· == '"') cs) :
    quotedText.run cs = .miss cs [] := by
  cases cs with
  | nil => rfl
  | cons c cs =>
    have hc : c ≠ '"' := by simpa using h
    simp [quotedText, hc]

theorem bareName_eq_ok_iff {cs rest : List Char} {name : String} :
    bareName.run cs = .ok name rest ↔ ∃ text, cs = text ++ rest ∧ FieldName.isBare text = true ∧
      StartsOutside FieldName.isPart rest ∧ name = .ofList text := by
  constructor
  · intro h
    cases cs with
    | nil => cases h
    | cons c cs =>
      simp only [bareName] at h
      split at h
      · next hc =>
        cases h
        refine ⟨c :: cs.takeWhile FieldName.isPart, ?_, ?_, Text.startsOutside_dropWhile _ _, rfl⟩
        · rw [List.cons_append, List.takeWhile_append_dropWhile]
        · rw [FieldName.isBare, hc, List.all_takeWhile, Bool.and_self]
      · cases h
  · intro hr
    obtain ⟨text, rfl, hbare, hrest, rfl⟩ := hr
    cases text with
    | nil => cases hbare
    | cons c cs =>
      obtain ⟨hc, hcs⟩ : FieldName.isStart c = true ∧ ∀ d ∈ cs, FieldName.isPart d = true := by
        simpa [FieldName.isBare] using hbare
      simp [bareName, hc, Text.takeWhile_run hcs hrest, Text.dropWhile_run hcs hrest]

private theorem bareName_miss {cs : List Char} (h : StartsOutside FieldName.isStart cs) :
    bareName.run cs = .miss cs [] := by
  cases cs with
  | nil => rfl
  | cons c cs =>
    have hc : FieldName.isStart c = false := by simpa using h
    simp [bareName, hc]

/-- The reader of field names takes a name in front of what it leaves, and every such name. -/
theorem fieldName_eq_ok_iff {cs rest : List Char} {name : String} :
    fieldName.run cs = .ok name rest ↔ ∃ text, cs = text ++ rest ∧ NameText text name rest := by
  rw [fieldName, Reader.run_expecting, Reply.expecting_eq_ok_iff]
  constructor
  · intro h
    rcases Reader.orElse_sound h with h | h
    · obtain ⟨text, rfl, hbare, hrest, rfl⟩ := bareName_eq_ok_iff.mp h
      exact ⟨text, rfl, .bare hbare hrest⟩
    · obtain ⟨body, text, rfl, hb, rfl⟩ := quotedText_eq_ok_iff.mp h
      exact ⟨_, rfl, .quoted rest hb⟩
  · intro hr
    obtain ⟨_, rfl, hname⟩ := hr
    cases hname with
    | bare hbare hrest =>
      exact Reader.orElse_of_ok (bareName_eq_ok_iff.mpr ⟨_, rfl, hbare, hrest, rfl⟩) _
    | quoted _ hb =>
      have hstart : FieldName.isStart '"' = false := rfl
      refine (Reader.orElse_of_miss (bareName_miss ?_) _).trans ?_
      · exact (startsOutside_cons _ _ _).mpr hstart
      · exact quotedText_eq_ok_iff.mpr ⟨_, _, rfl, hb, rfl⟩

/-- A field name as it is written, in front of a text that does not prolong a bare one. -/
theorem nameText_spelling (name : String) {rest : List Char}
    (h : StartsOutside FieldName.isPart rest) :
    NameText (FieldName.spelling name.toList) name rest := by
  rw [FieldName.spelling]
  split
  · next hbare =>
    have ht := NameText.bare hbare h
    rwa [String.ofList_toList] at ht
  · have ht := NameText.quoted rest (Text.quotedBody_flatMap_writeUnit name.toList)
    rwa [String.ofList_toList] at ht

private theorem choice_words_sound {α : Type} {words : List (String × α)} {cs rest : List Char}
    {a : α}
    (h : (Reader.choice (words.map fun (text, a) => Reader.word text a)).run cs = .ok a rest) :
    ∃ text, (text, a) ∈ words ∧ cs = text.toList ++ rest := by
  induction words with
  | nil => cases h
  | cons w words ih =>
    rcases Reader.orElse_sound h with h | h
    · obtain ⟨hcs, rfl⟩ := Reader.word_eq_ok_iff.mp h
      exact ⟨w.1, by simp, hcs⟩
    · obtain ⟨text, hmem, hcs⟩ := ih h
      exact ⟨text, by simp [hmem], hcs⟩

/-- A word is taken if no earlier one stands at the same place. -/
private theorem choice_words_complete {α : Type} {words later : List (String × α)}
    {text : String} {a : α}
    {rest : List Char} (h : ∀ w ∈ words, ¬w.1.toList <+: text.toList ++ rest) :
    (Reader.choice ((words ++ (text, a) :: later).map fun (text, a) => Reader.word text a)).run
      (text.toList ++ rest) = .ok a rest := by
  induction words with
  | nil => exact Reader.orElse_of_ok (Reader.word_eq_ok_iff.mpr ⟨rfl, rfl⟩) _
  | cons w words ih =>
    refine (Reader.orElse_of_miss (Reader.word_of_not_prefix (h w (by simp)) w.2) _).trans ?_
    exact ih fun v hv => h v (by simp [hv])

theorem comparison_sound {cs rest : List Char} {c : Comparison}
    (h : comparison.run cs = .ok c rest) : ∃ text, cs = text ++ rest ∧ ComparisonText text c := by
  rw [comparison, Reader.run_expecting, Reply.expecting_eq_ok_iff] at h
  obtain ⟨text, hmem, hcs⟩ := choice_words_sound h
  exact ⟨text.toList, hcs, comparisonText_iff_mem.mpr (by simpa using hmem)⟩

/-- An earlier spelling begins no later one, and where it goes on behind a later one it
goes on with an equals sign. -/
private theorem spellings_pairwise : Comparison.spellings.Pairwise fun v w =>
    ¬v.1.toList <+: w.1.toList ∧
      (w.1.toList <+: v.1.toList → (v.1.toList.drop w.1.toList.length).head? = some '=') := by
  decide

/-- A spelling is read in front of anything but an equals sign, which would make two of
the symbols longer. -/
theorem comparison_complete {text rest : List Char} {c : Comparison} (h : ComparisonText text c)
    (hr : StartsOutside (· == '=') rest) : comparison.run (text ++ rest) = .ok c rest := by
  obtain ⟨word, rfl⟩ : ∃ word : String, text = word.toList := ⟨.ofList text, by simp⟩
  rw [comparisonText_iff_mem, String.ofList_toList] at h
  obtain ⟨words, later, hsplit⟩ := List.append_of_mem h
  have hpair := spellings_pairwise
  rw [hsplit] at hpair
  rw [comparison, Reader.run_expecting, Reply.expecting_eq_ok_iff, hsplit]
  apply choice_words_complete
  intro w hw hprefix
  obtain ⟨hbegins, hgoes⟩ := (List.pairwise_append.mp hpair).2.2 w hw _ List.mem_cons_self
  rcases Nat.le_total w.1.toList.length word.toList.length with hle | hle
  · exact hbegins (List.prefix_of_prefix_length_le hprefix (List.prefix_append _ _) hle)
  · have hshort := List.prefix_of_prefix_length_le (List.prefix_append _ _) hprefix hle
    have hhead := hgoes hshort
    obtain ⟨tail, htail⟩ := hshort
    rw [← htail] at hprefix hhead
    obtain ⟨behind, rfl⟩ := (List.prefix_append_right_inj _).mp hprefix
    rw [List.drop_left] at hhead
    have heq := hr '=' (by simp [List.head?_append, hhead])
    simp at heq

end DecisionRules.Reading
