import DecisionRules.Proofs.Reading.Place
import DecisionRules.Proofs.Reading.Symbols

/-! Blanks and comments put into a text that is read. Behind every symbol and before the first
one they change nothing, with one exception: a comment with a carriage return that no line feed
follows is none, and with it the text is refused. -/
namespace DecisionRules.Reading

open Text (StartsOutside)

inductive Inset where
  | blank (c : Char) (h : Text.isBlank c = true)
  | line (body : List Char) (h : '\n' ∉ body)

namespace Inset

def text : Inset → List Char
  | blank c _ => [c]
  | line body _ => '#' :: (body ++ ['\n'])

/-- No carriage return stands in the comment, except before its line feed. -/
def Unbroken : Inset → Prop
  | blank _ _ => True
  | line body _ => '\r' ∉ body.dropLast

end Inset

section Commented

variable {p : Place} {xs ys cs text rest : List Char}

/-- From a place on, every `#` that stands outside opens a comment. -/
inductive Commented : Place → List Char → Prop
  | nil (p : Place) : Commented p []
  | cons {p : Place} {c : Char} {cs : List Char} :
      (p = .outside → c = '#' → (behindComment? cs).isSome) → Commented (p.next c) cs →
      Commented p (c :: cs)

theorem Commented.behind (h : Commented p (xs ++ ys)) : Commented (p.behind xs) ys := by
  induction xs generalizing p with
  | nil => exact h
  | cons x xs ih =>
    obtain _ | ⟨-, h⟩ := h
    exact ih h

/-- Outside a line break is a character like any other, and in a comment it leads outside. -/
theorem LineEnds.commented (h : LineEnds cs) (hcs : Commented .outside cs) :
    Commented .comment cs := by
  cases h with
  | atEnd => exact .nil _
  | lineFeed =>
    obtain _ | ⟨-, hcs⟩ := hcs
    exact .cons (by simp) hcs
  | carriageReturn =>
    obtain _ | ⟨-, _ | ⟨-, hcs⟩⟩ := hcs
    exact .cons (by simp) (.cons (by simp) hcs)

theorem Place.Quiet.commented {q : Place} (hxs : Place.Quiet p xs q) (h : Commented q rest) :
    Commented p (xs ++ rest) := by
  induction hxs with
  | nil => exact h
  | cons hc _ ih => exact .cons (fun hp hmark => absurd ⟨hp, .inr hmark⟩ hc) (ih h)

theorem Filler.commented {f : List Char} (hf : Filler f rest) (h : Commented .outside rest) :
    Commented .outside (f ++ rest) := by
  induction hf with
  | nil => exact h
  | @blank c cs _ hc _ ih =>
    have hblank : Place.Quiet .outside [c] .outside :=
      quiet_of_isPlain (by simpa using isPlain_of_isBlank hc)
    exact hblank.commented (ih h)
  | @comment body cs rest hbody hend _ ih =>
    rw [List.cons_append, List.append_assoc]
    have hline : '\n' ∉ body := fun hmem => (hbody _ hmem).1 rfl
    refine .cons ?_ ((quiet_comment hline).commented (hend.commented (ih h)))
    intro _ _
    rw [behindComment?_eq_some_iff.mpr ⟨body, rfl, hbody, hend⟩]
    rfl

private theorem MembershipWord.isToken (h : MembershipWord text) : IsToken text := by
  cases h <;> exact .plain rfl

private theorem Spells.isToken {σ : Symbol} (h : Spells text σ rest) :
    IsToken text ∨ text = [','] := by
  cases σ with
  | name => exact .inl (NameText.isToken h)
  | comparison => exact .inl (ComparisonText.isToken h)
  | value => exact .inl (ValueText.isToken h)
  | membershipWord => exact .inl (MembershipWord.isToken h)
  | opening | closing =>
    cases h
    exact .inl (.plain rfl)
  | comma => exact .inr h

theorem Laid.commented {σs : List Symbol} (hs : Laid σs text rest) (h : Commented .outside rest) :
    Commented .outside (text ++ rest) := by
  induction hs with
  | nil => exact h
  | @cons σ _ f text more rest hf hσ _ ih =>
    have htoken : Commented .outside (text ++ (more ++ rest)) := by
      rcases hσ.isToken with htext | rfl
      · exact htext.quiet.commented (ih h)
      · exact .cons (by simp) (ih h)
    have hfiller : Filler f (text ++ (more ++ rest)) := (hσ.visible.filler_append_iff _).mpr hf
    simpa using hfiller.commented htoken

theorem Spelled.commented {σs : List Symbol} (h : Spelled σs cs) : Commented .outside cs := by
  obtain ⟨hlaid, htrail⟩ := h
  have htrailing : Commented .outside _ := htrail.commented (.nil _)
  rw [List.append_nil] at htrailing
  exact hlaid.commented htrailing

/-- Behind symbols a text stands outside. -/
private theorem Laid.behind_eq {σs : List Symbol} (h : Laid σs text rest) :
    Place.behind .outside text = .outside := by
  induction h with
  | nil => rfl
  | @cons _ _ f text more rest hf hσ _ ih =>
    have htoken : Place.behind .outside text = .outside := by
      rcases hσ.isToken with htext | rfl
      · exact htext.quiet.passes.behind_eq
      · rfl
    rw [Place.behind_append, Place.behind_append, (hσ.visible.passes_filler hf).behind_eq, htoken,
      ih]

end Commented

namespace Inset

variable {i : Inset} {insets : List Inset} {rest : List Char}

private theorem behind_eq (i : Inset) : Place.behind .outside i.text = .outside := by
  cases i with
  | blank c hc => exact next_of_isPlain (isPlain_of_isBlank hc)
  | line body hbody =>
    have hline : Place.behind .outside ('#' :: body) = .comment :=
      (quiet_comment hbody).passes.behind_eq
    rw [text, ← List.cons_append, Place.behind_append, hline]
    rfl

/-- A carriage return at the end of a comment is part of the line break. -/
theorem filler (h : i.Unbroken) (rest : List Char) : Filler i.text rest := by
  cases i with
  | blank c hc => exact .blank hc (.nil rest)
  | line body hbody =>
    have hfeed : Filler ['\n'] rest := .blank rfl (.nil rest)
    have hline {front : List Char} (hfront : '\n' ∉ front) (hreturn : '\r' ∉ front) :
        ∀ c ∈ front, c ≠ '\n' ∧ c ≠ '\r' := by
      rintro c hc
      constructor <;> rintro rfl <;> contradiction
    rcases List.eq_nil_or_concat body with rfl | ⟨front, c, rfl⟩
    · exact @Filler.comment [] ['\n'] rest (by simp) (.lineFeed rest) hfeed
    · have hreturn : '\r' ∉ front := by simpa [Unbroken] using h
      simp only [List.concat_eq_append, List.mem_append, List.mem_singleton, not_or] at hbody
      by_cases hc : c = '\r'
      · have hbreak : Filler ['\r', '\n'] rest := .blank rfl hfeed
        have hcomment := Filler.comment (hline hbody.1 hreturn) (.carriageReturn rest) hbreak
        simpa [text, hc] using hcomment
      · have hlast : ∀ d ∈ front ++ [c], d ≠ '\n' ∧ d ≠ '\r' :=
          hline (by simp [hbody]) (by simpa [hreturn] using Ne.symm hc)
        simpa [text] using Filler.comment hlast (.lineFeed rest) hfeed

/-- A comment that opens is broken off by nothing but its line feed. -/
theorem unbroken (h : Commented .outside (i.text ++ rest)) : i.Unbroken := by
  cases i with
  | blank => trivial
  | line body hbody =>
    rw [text, List.cons_append, List.append_assoc] at h
    obtain _ | ⟨hopens, -⟩ := h
    obtain ⟨behind, hbehind⟩ := Option.isSome_iff_exists.mp (hopens rfl rfl)
    obtain ⟨front, hcut, hfront, hend⟩ := behindComment?_eq_some_iff.mp hbehind
    have hreturn : '\r' ∉ front := fun hmem => (hfront _ hmem).2 rfl
    obtain ⟨more, rfl, -⟩ | ⟨last, rfl, hlast⟩ := List.append_eq_append_iff.mp hcut
    · exact fun hmem => hreturn (List.mem_append_left _ ((List.dropLast_sublist _).mem hmem))
    · rw [hlast] at hend
      match last, hend with
      | [], _ => exact fun hmem => hreturn (by simpa using (List.dropLast_sublist _).mem hmem)
      | [_], .lineFeed _ => simp at hbody
      | [_], .carriageReturn _ => simpa [Unbroken] using hreturn
      | _ :: _ :: _, .lineFeed _ => simp at hbody
      | _ :: _ :: _, .carriageReturn _ => simp at hbody

def join (insets : List Inset) : List Char := insets.flatMap text

private theorem join_filler (h : ∀ i ∈ insets, i.Unbroken) (rest : List Char) :
    Filler (join insets) rest := by
  induction insets with
  | nil => exact .nil rest
  | cons i insets ih =>
    obtain ⟨hi, hinsets⟩ := List.forall_mem_cons.mp h
    exact (i.filler hi _).append (ih hinsets)

private theorem join_unbroken (h : Commented .outside (join insets ++ rest)) :
    ∀ i ∈ insets, i.Unbroken := by
  induction insets with
  | nil => simp
  | cons i insets ih =>
    have hfirst : Commented .outside (i.text ++ (join insets ++ rest)) := by
      simpa [join] using h
    have hmore := hfirst.behind
    rw [i.behind_eq] at hmore
    exact List.forall_mem_cons.mpr ⟨unbroken hfirst, ih hmore⟩

end Inset

section Insets

variable {α : Type} {parse : String → Except ParseError α} {Means : α → List Symbol → Prop} {a : α}
  {front behind : List Char} {insets : List Inset}

/-- Filler can be put in front of symbols. -/
private theorem Spelled.behind_filler {σs : List Symbol} {f cs : List Char} (h : Spelled σs cs)
    (hf : ∀ rest, Filler f rest) : Spelled σs (f ++ cs) := by
  obtain @⟨laid, trail, hlaid, htrail⟩ := h
  cases σs with
  | nil =>
    cases laid_nil_iff.mp hlaid
    exact @Spelled.mk [] [] _ (.nil _) ((hf _).append htrail)
  | cons σ σs =>
    obtain ⟨lead, text, more, rfl, hlead, hσ, hmore⟩ := laid_cons_iff.mp hlaid
    have hall := Spelled.mk (.cons σ ((hf _).append hlead) hσ hmore) htrail
    simpa using hall

theorem Cut.parse_insets (h : Cut Means a front behind) (hparse : ReadsSymbols parse Means)
    (hunbroken : ∀ i ∈ insets, i.Unbroken) :
    parse (.ofList (front ++ (Inset.join insets ++ behind))) = .ok a := by
  obtain @⟨before, after, hmeans, hfront, hbehind⟩ := h
  have hinsets := Inset.join_filler hunbroken
  -- A name in front of the insets still ends there: no blank and no comment prolongs it.
  have hname : ∀ field, before.getLast? = some (.name field) →
      StartsOutside FieldName.isPart behind →
      StartsOutside FieldName.isPart (Inset.join insets ++ behind) :=
    fun _ _ hout => (hinsets behind).startsOutside (fun c => startsFiller_of_isPart) hout
  have hspelled := (hfront.in_front_of hname).spelled (hbehind.behind_filler hinsets)
  exact hparse.mpr ⟨_, hmeans, by simpa using hspelled⟩

/-- With a broken comment the text is refused, whatever the comment hides. -/
theorem Cut.refuses_insets (h : Cut Means a front behind) (hparse : ReadsSymbols parse Means)
    (hbroken : ∃ i ∈ insets, ¬i.Unbroken) :
    ∃ e, parse (.ofList (front ++ (Inset.join insets ++ behind))) = .error e := by
  obtain ⟨-, hfront, -⟩ := h
  obtain ⟨i, hi, hbroken⟩ := hbroken
  cases hread : parse (.ofList (front ++ (Inset.join insets ++ behind))) with
  | error e => exact ⟨e, rfl⟩
  | ok b =>
    obtain ⟨_, -, hspelled⟩ := hparse.mp hread
    rw [String.toList_ofList] at hspelled
    have hcommented := hspelled.commented.behind
    rw [hfront.behind_eq] at hcommented
    exact absurd (Inset.join_unbroken hcommented i hi) hbroken

/-- What becomes of any text when insets are put behind one of its symbols, or before the first:
it is read as before if and only if no comment among them is broken, and else it is refused. -/
def TakesInsets (insets : List Inset) (parse : String → Except ParseError α)
    (Means : α → List Symbol → Prop) : Prop :=
  ∀ {a : α} {front behind : List Char}, Cut Means a front behind →
    (parse (.ofList (front ++ (Inset.join insets ++ behind))) = .ok a ↔
      ∀ i ∈ insets, i.Unbroken) ∧
    ((∃ i ∈ insets, ¬i.Unbroken) →
      ∃ e, parse (.ofList (front ++ (Inset.join insets ++ behind))) = .error e)

theorem ReadsSymbols.takesInsets (hparse : ReadsSymbols parse Means) (insets : List Inset) :
    TakesInsets insets parse Means := by
  intro a front behind h
  refine ⟨⟨?_, h.parse_insets hparse⟩, h.refuses_insets hparse⟩
  intro hread i hi
  apply Classical.byContradiction
  intro hbroken
  obtain ⟨e, he⟩ := h.refuses_insets hparse ⟨i, hi, hbroken⟩
  rw [hread] at he
  cases he

end Insets

/-- Blanks and unbroken comments are transparent to each of the three readers, and to none of
them is a comment that a carriage return breaks. -/
theorem insets_transparent_iff (insets : List Inset) :
    TakesInsets insets Predicate.parse (fun p σs => Predicate.symbols p = σs) ∧
      TakesInsets insets Predicate.parseList (ListSymbols Predicate.symbols) ∧
      TakesInsets insets MembershipEntry.parseList (ListSymbols MembershipEntry.symbols) :=
  ⟨predicate_readsSymbols.takesInsets insets, predicates_readsSymbols.takesInsets insets,
    entries_readsSymbols.takesInsets insets⟩

/-- The text `x == 1`, cut behind the comparison. -/
private theorem cut_behind_comparison :
    Cut (fun p σs => Predicate.symbols p = σs) ⟨"x", .eq, .int 1⟩
    "x ==".toList " 1".toList := by
  have hspace (rest : List Char) : Filler [' '] rest := .blank rfl (.nil rest)
  have hname : NameText ['x'] "x" " == 1".toList :=
    .bare rfl ((Text.startsOutside_cons _ _ _).mpr rfl)
  have hcomparison : ComparisonText "==".toList .eq := .inl rfl
  have hfront := @Laid.cons (.name "x") _ [] ['x'] " ==".toList _ (.nil _) hname
    (@Laid.cons (.comparison .eq) _ [' '] "==".toList [] _ (hspace _) hcomparison (.nil _))
  have hvalue := @Laid.cons (.value (.int 1)) _ [' '] ['1'] [] [] (hspace _) valueText_one (.nil _)
  exact .mk rfl hfront (@Spelled.mk _ _ [] hvalue (.nil _))

/-- A comment whose line break is a carriage return and a line feed changes nothing. -/
theorem insets_behind_comparison : Predicate.parse "x ==#y, \"\r\n 1" = .ok ⟨"x", .eq, .int 1⟩ := by
  have htext (text : String) : String.ofList text.toList = text := String.ofList_toList
  obtain ⟨hpredicate, -⟩ := insets_transparent_iff [.line "y, \"\r".toList (by simp)]
  have hread := (hpredicate cut_behind_comparison).1.mpr (by simp [Inset.Unbroken])
  rw [← htext "x ==#y, \"\r\n 1"]
  exact hread

/-- A carriage return inside a comment undoes the comment, and with it the text. -/
theorem comment_broken_by_return : Predicate.parse "x == 1" = .ok ⟨"x", .eq, .int 1⟩ ∧
    ∃ e, Predicate.parse "x ==#a\rb\n 1" = .error e := by
  have htext (text : String) : String.ofList text.toList = text := String.ofList_toList
  rw [← htext "x == 1", ← htext "x ==#a\rb\n 1"]
  have hplain := @Cut.parse_insets _ _ _ _ _ _ [] cut_behind_comparison predicate_readsSymbols
    (by simp)
  have hbroken := @Cut.refuses_insets _ _ _ _ _ _ [.line "a\rb".toList (by simp)]
    cut_behind_comparison predicate_readsSymbols (by simp [Inset.Unbroken])
  exact ⟨hplain, hbroken⟩

end DecisionRules.Reading
