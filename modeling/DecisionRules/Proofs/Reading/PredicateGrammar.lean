import DecisionRules.Reading.Predicate
import DecisionRules.Proofs.Reading.Filler
import DecisionRules.Proofs.Reading.Value

/-! The grammar of one predicate: its three tokens with filler around them, in no order of
preference and with no rule of longest match but the one for bare names. The reader accepts
exactly the texts of the grammar, and each of them is cut in one way only. -/
namespace DecisionRules.Reading

open Numeral (Ends)
open Text (StartsOutside startsOutside_cons)

structure PredicateCut where
  lead : List Char
  name : List Char
  afterName : List Char
  comparison : List Char
  afterComparison : List Char
  value : List Char
  trail : List Char

namespace PredicateCut

def fromValue (d : PredicateCut) : List Char := d.value ++ d.trail
def behindComparison (d : PredicateCut) : List Char := d.afterComparison ++ d.fromValue
def fromComparison (d : PredicateCut) : List Char := d.comparison ++ d.behindComparison
def behindName (d : PredicateCut) : List Char := d.afterName ++ d.fromComparison
def fromName (d : PredicateCut) : List Char := d.name ++ d.behindName
def text (d : PredicateCut) : List Char := d.lead ++ d.fromName

/-- The tokens are what they have to be and denote the parts of the predicate; what trails
the value is not looked at. -/
structure Reads (d : PredicateCut) (p : Predicate) : Prop where
  lead : Filler d.lead d.fromName
  name : NameText d.name p.field d.behindName
  afterName : Filler d.afterName d.fromComparison
  comparison : ComparisonText d.comparison p.comparison
  afterComparison : Filler d.afterComparison d.fromValue
  value : ValueText d.value p.value

structure Denotes (d : PredicateCut) (p : Predicate) : Prop extends d.Reads p where
  trail : Filler d.trail []

end PredicateCut

theorem startsFiller_of_isPart {c : Char} (h : FieldName.isPart c = true) :
    startsFiller c = false := by
  simp only [FieldName.isPart, Char.isAlphanum, Bool.or_eq_true, beq_iff_eq] at h
  rcases h with ((h | h) | rfl) | rfl
  · exact startsFiller_of_isAlpha h
  · exact startsFiller_of_isDigit h
  · rfl
  · rfl

theorem NameText.outside_filler {text rest : List Char} {name : String}
    (h : NameText text name rest) : StartsOutside startsFiller (text ++ rest) := by
  cases h with
  | bare hbare =>
    cases text with
    | nil => cases hbare
    | cons c cs =>
      have hc : c.isAlpha = true ∨ c = '_' := by
        simp only [FieldName.isBare, FieldName.isStart, Bool.and_eq_true, Bool.or_eq_true,
          beq_iff_eq] at hbare
        exact hbare.1
      apply (startsOutside_cons _ _ _).mpr
      rcases hc with hc | rfl
      · exact startsFiller_of_isAlpha hc
      · rfl
  | quoted => exact (startsOutside_cons _ _ _).mpr rfl

/-- A class that leaves out the first characters of all spellings is left by each of them. -/
theorem ComparisonText.outside {text : List Char} {c : Comparison} (h : ComparisonText text c)
    {p : Char → Bool} (hp : ∀ w ∈ Comparison.spellings, w.1.toList.head?.map p = some false)
    (rest : List Char) : StartsOutside p (text ++ rest) := by
  have hstart := hp _ (comparisonText_iff_mem.mp h)
  rw [String.toList_ofList] at hstart
  cases text with
  | nil => cases hstart
  | cons d ds => exact (startsOutside_cons _ _ _).mpr (Option.some.inj hstart)

theorem ComparisonText.outside_filler {text : List Char} {c : Comparison}
    (h : ComparisonText text c) (rest : List Char) : StartsOutside startsFiller (text ++ rest) :=
  h.outside (by decide) rest

def startsValue (c : Char) : Bool :=
  c == '"' || c == 't' || c == 'f' || c == '-' || c.isDigit

theorem ValueText.outside {text : List Char} {v : Value} (h : ValueText text v)
    {p : Char → Bool} (hp : ∀ c, startsValue c = true → p c = false) (rest : List Char) :
    StartsOutside p (text ++ rest) := by
  have hnumber : ∀ n, Numeral.Written text n → StartsOutside p (text ++ rest) := by
    intro n hn
    obtain ⟨c, cs, hhead, hc⟩ := written_head hn rest
    rw [hhead]
    refine (startsOutside_cons _ _ _).mpr (hp c ?_)
    rcases hc with rfl | hc
    · rfl
    · simp [startsValue, hc]
  cases h with
  | string | trueWord | falseWord => exact (startsOutside_cons _ _ _).mpr (hp _ rfl)
  | integer hw | float hw => exact hnumber _ hw

private theorem startsFiller_of_startsValue {c : Char} (h : startsValue c = true) :
    startsFiller c = false := by
  simp only [startsValue, Bool.or_eq_true, beq_iff_eq] at h
  rcases h with (((rfl | rfl) | rfl) | rfl) | h
  · rfl
  · rfl
  · rfl
  · rfl
  · exact startsFiller_of_isDigit h

theorem NameText.visible {text rest : List Char} {name : String} (h : NameText text name rest) :
    Visible text := by
  refine visible_of_startsOutside ?_ h.outside_filler
  cases h with
  | bare hbare =>
    rintro rfl
    cases hbare
  | quoted => simp

/-- Of what stands behind it, a name sees nothing beyond the next token. -/
theorem NameText.before_token {text f token ys : List Char} {name : String}
    (h : NameText text name (f ++ (token ++ ys))) (htoken : Visible token) (zs : List Char) :
    NameText text name (f ++ (token ++ zs)) := by
  cases h with
  | bare hbare hrest =>
    refine .bare hbare ?_
    cases f with
    | nil =>
      cases token with
      | nil => exact absurd rfl htoken.ne_nil
      | cons => exact hrest
    | cons => exact hrest
  | quoted _ hbody => exact .quoted _ hbody

theorem ComparisonText.visible {text : List Char} {c : Comparison} (h : ComparisonText text c) :
    Visible text := by
  refine visible_of_startsOutside ?_ (h.outside_filler [])
  have hall : ∀ w ∈ Comparison.spellings, w.1.toList ≠ [] := by decide
  simpa using hall _ (comparisonText_iff_mem.mp h)

theorem written_visible {text : List Char} {n : Numeral} (h : Numeral.Written text n) :
    Visible text := by
  obtain ⟨c, cs, hhead, hc⟩ := written_head h []
  rw [List.append_nil] at hhead
  refine ⟨c, by rw [hhead]; rfl, ?_⟩
  rcases hc with rfl | hdigit
  · rfl
  · exact startsFiller_of_isDigit hdigit

theorem ValueText.visible {text : List Char} {v : Value} (h : ValueText text v) :
    Visible text := by
  cases h with
  | string => exact ⟨'"', rfl, rfl⟩
  | trueWord => exact ⟨'t', rfl, rfl⟩
  | falseWord => exact ⟨'f', rfl, rfl⟩
  | integer hw | float hw => exact written_visible hw

private theorem ne_equals_of_startsValue {c : Char} (h : startsValue c = true) :
    (c == '=') = false := by
  cases hc : c == '=' with
  | false => rfl
  | true =>
    rw [eq_of_beq hc] at h
    cases h

namespace PredicateCut

variable {d e : PredicateCut} {p q : Predicate}

/-- The places the reader comes to are the borders of the tokens. -/
structure Trace (d : PredicateCut) (p : Predicate) : Prop where
  lead : skipFiller d.text = d.fromName
  name : fieldName.run d.fromName = .ok p.field d.behindName
  afterName : skipFiller d.behindName = d.fromComparison
  comparison : Reading.comparison.run d.fromComparison = .ok p.comparison d.behindComparison
  afterComparison : skipFiller d.behindComparison = d.fromValue
  value : Reading.value.run d.fromValue = .ok p.value d.trail

theorem Reads.trace (h : d.Reads p) (hend : Ends d.trail) : d.Trace p where
  lead := h.lead.skipFiller_eq h.name.outside_filler
  name := fieldName_eq_ok_iff.mpr ⟨d.name, rfl, h.name⟩
  afterName := h.afterName.skipFiller_eq (h.comparison.outside_filler _)
  comparison := by
    apply comparison_complete h.comparison
    apply h.afterComparison.startsOutside
    · intro c hc
      rw [eq_of_beq hc]
      rfl
    · exact h.value.outside (fun c => ne_equals_of_startsValue) d.trail
  afterComparison :=
    h.afterComparison.skipFiller_eq (h.value.outside (fun c => startsFiller_of_startsValue) d.trail)
  value := value_complete h.value hend

theorem Trace.run (h : d.Trace p) : predicate.run d.text = .ok p d.trail := by
  simp [predicate, h.lead, h.name, h.afterName, h.comparison, h.afterComparison, h.value]

/-- Each token is what the text from it on has in front of what stands behind it. -/
private theorem eq_of_suffixes (htext : d.text = e.text) (hname : d.fromName = e.fromName)
    (hbehindName : d.behindName = e.behindName) (hcomparison : d.fromComparison = e.fromComparison)
    (hbehind : d.behindComparison = e.behindComparison) (hvalue : d.fromValue = e.fromValue)
    (htrail : d.trail = e.trail) : d = e := by
  rw [text, text, hname] at htext
  rw [fromName, fromName, hbehindName] at hname
  rw [behindName, behindName, hcomparison] at hbehindName
  rw [fromComparison, fromComparison, hbehind] at hcomparison
  rw [behindComparison, behindComparison, hvalue] at hbehind
  rw [fromValue, fromValue, htrail] at hvalue
  cases d
  cases e
  simp only [mk.injEq]
  exact ⟨List.append_cancel_right htext, List.append_cancel_right hname,
    List.append_cancel_right hbehindName, List.append_cancel_right hcomparison,
    List.append_cancel_right hbehind, List.append_cancel_right hvalue, htrail⟩

/-- The reader comes to the same places only in one cut of a text. -/
private theorem Trace.unique (hd : d.Trace p) (he : e.Trace q) (htext : d.text = e.text) :
    d = e ∧ p = q := by
  obtain ⟨hpredicate, htrail⟩ : p = q ∧ d.trail = e.trail := by
    have hread := hd.run.symm.trans (htext ▸ he.run)
    injection hread with hpredicate htrail
    exact ⟨hpredicate, htrail⟩
  have hname : d.fromName = e.fromName := by rw [← hd.lead, ← he.lead, htext]
  have hbehindName : d.behindName = e.behindName := by
    have hread := hd.name.symm.trans (hname ▸ he.name)
    injection hread
  have hcomparison : d.fromComparison = e.fromComparison := by
    rw [← hd.afterName, ← he.afterName, hbehindName]
  have hbehind : d.behindComparison = e.behindComparison := by
    have hread := hd.comparison.symm.trans (hcomparison ▸ he.comparison)
    injection hread
  have hvalue : d.fromValue = e.fromValue := by
    rw [← hd.afterComparison, ← he.afterComparison, hbehind]
  exact ⟨eq_of_suffixes htext hname hbehindName hcomparison hbehind hvalue htrail, hpredicate⟩

/-- What is read as a predicate is cut into its tokens. -/
theorem exists_reads {cs rest : List Char} (h : predicate.run cs = .ok p rest) :
    ∃ d : PredicateCut, d.text = cs ∧ d.trail = rest ∧ d.Reads p := by
  simp only [predicate, Reader.run_bind, Reader.run_pure, Reader.run_commit, run_filler,
    Reply.bind_eq_ok_iff, Reply.commit_eq_ok_iff] at h
  obtain ⟨_, _, ⟨⟩, field, behindName, hfield, _, _, ⟨⟩, c, behindComparison, hc, _, _, ⟨⟩,
    v, trail, hv, ⟨⟩⟩ := h
  obtain ⟨name, hfromName, hname⟩ := fieldName_eq_ok_iff.mp hfield
  obtain ⟨comparison, hfromComparison, hcomparison⟩ := comparison_sound hc
  obtain ⟨value, hfromValue, hvalue⟩ := value_sound hv
  obtain ⟨lead, hcs, hlead⟩ := exists_filler cs
  obtain ⟨afterName, hbehindName, hafterName⟩ := exists_filler behindName
  obtain ⟨afterComparison, hbehind, hafterComparison⟩ := exists_filler behindComparison
  rw [hfromName] at hcs hlead
  rw [hfromComparison] at hbehindName hafterName
  rw [hfromValue] at hbehind hafterComparison
  subst hcs hbehindName hbehind
  exact ⟨⟨lead, name, afterName, comparison, afterComparison, value, rest⟩, rfl, rfl,
    hlead, hname, hafterName, hcomparison, hafterComparison, hvalue⟩

theorem Denotes.trace (h : d.Denotes p) : d.Trace p := h.toReads.trace (ends_of_filler h.trail)

/-- Reading one predicate is finding a cut of the text into tokens with filler. -/
theorem onePredicate_eq_ok_iff {cs : List Char} :
    onePredicate.run cs = .ok p [] ↔ ∃ d : PredicateCut, d.text = cs ∧ d.Denotes p := by
  simp only [onePredicate, Reader.run_bind, Reader.run_pure, run_filler, Reply.bind_eq_ok_iff]
  constructor
  · intro h
    obtain ⟨_, trail, hread, _, _, ⟨⟩, hdone⟩ := h
    injection hdone with hp hskip
    subst hp
    obtain ⟨d, htext, rfl, hd⟩ := exists_reads hread
    obtain ⟨f, hf, hfiller⟩ := exists_filler d.trail
    rw [hskip] at hf hfiller
    rw [List.append_nil] at hf
    exact ⟨d, htext, hd, hf ▸ hfiller⟩
  · intro h
    obtain ⟨d, rfl, hd⟩ := h
    have hskip : skipFiller d.trail = [] := by
      simpa using hd.trail.skipFiller_eq (Text.startsOutside_nil _)
    exact ⟨p, d.trail, hd.trace.run, (), skipFiller d.trail, rfl, by rw [hskip]⟩

end PredicateCut

/-- A text is a predicate if it derives from the grammar with the parts of the predicate,
and there is at most one derivation. -/
theorem parse_predicate_iff_unique_cut (t : String) :
    (∀ p, Predicate.parse t = .ok p ↔ ∃ d : PredicateCut, d.text = t.toList ∧ d.Denotes p) ∧
      ∀ (d e : PredicateCut) (p q : Predicate), d.text = t.toList → e.text = t.toList →
        d.Denotes p → e.Denotes q → d = e ∧ p = q := by
  constructor
  · intro p
    rw [Predicate.parse, Reader.parse_eq_ok_iff, PredicateCut.onePredicate_eq_ok_iff]
  · intro d e p q hd he hp hq
    exact hp.trace.unique hq.trace (hd.trans he.symm)

/-- The number nearest to minus one tenth, which lies a little beyond it. -/
def minusTenth : Binary64 := .finite true 0x3FB999999999999A (by decide)

def brokenLine : PredicateCut where
  lead := []
  name := ['T']
  afterName := [' ']
  comparison := ['>', '=']
  afterComparison := ['\n']
  value := ['-', '0', '.', '1']
  trail := [' ', '#', 'l', 'o', 'w']

private theorem brokenLine_denotes : brokenLine.Denotes ⟨"T", .ge, .float minusTenth⟩ where
  lead := .nil _
  name := .bare rfl ((startsOutside_cons _ _ _).mpr rfl)
  afterName := .blank rfl (.nil _)
  comparison := .inl rfl
  afterComparison := .blank rfl (.nil _)
  value := by
    have hdigits (d : Char) (hd : d.isDigit = true) := Numeral.isDigits_singleton hd
    exact valueText_of_written (.mk true (hdigits '0' rfl) (.present (hdigits '1' rfl)) .absent) rfl
  trail := by
    have hbody : ∀ c ∈ ['l', 'o', 'w'], c ≠ '\n' ∧ c ≠ '\r' := by simp
    exact .blank rfl (.comment hbody .atEnd (.nil _))

theorem brokenLine_unique :
    Predicate.parse "T >=\n-0.1 #low" = .ok ⟨"T", .ge, .float minusTenth⟩ ∧
      ∀ (e : PredicateCut) (q : Predicate), e.text = "T >=\n-0.1 #low".toList → e.Denotes q →
        brokenLine = e ∧ (⟨"T", .ge, .float minusTenth⟩ : Predicate) = q :=
  have hcut := parse_predicate_iff_unique_cut "T >=\n-0.1 #low"
  ⟨(hcut.1 _).mpr ⟨brokenLine, rfl, brokenLine_denotes⟩,
    fun e q he hq => hcut.2 brokenLine e _ q rfl he brokenLine_denotes hq⟩

end DecisionRules.Reading
