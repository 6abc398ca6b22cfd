import DecisionRules.Proofs.Reading.PredicateGrammar

/-! Where a text stands: outside, in a quoted text or in a comment. This is known from its
characters one by one, without a reader, and tells the commas that separate from those that
are quoted or commented out. -/
namespace DecisionRules.Reading

open Text (QuotedBody)

inductive Place where
  | outside
  | quoted
  | escaped
  | comment
deriving DecidableEq, Repr

namespace Place

def next (p : Place) (c : Char) : Place :=
  match p with
  | .outside => if c = '"' then .quoted else if c = '#' then .comment else .outside
  | .quoted => if c = '"' then .outside else if c = '\\' then .escaped else .quoted
  | .escaped => .quoted
  | .comment => if c = '\n' then .outside else .comment

def behind (p : Place) (cs : List Char) : Place := cs.foldl next p

def pieces : Place → List Char → List (List Char)
  | _, [] => [[]]
  | p, c :: cs =>
    if p = .outside ∧ c = ',' then [] :: pieces .outside cs
    else (pieces (p.next c) cs).modifyHead (c :: ·)

/-- A text leads from one place to another without a separating comma. -/
inductive Passes : Place → List Char → Place → Prop
  | nil (p : Place) : Passes p [] p
  | cons {p q : Place} {c : Char} {cs : List Char} : ¬(p = .outside ∧ c = ',') →
      Passes (p.next c) cs q → Passes p (c :: cs) q

/-- A text leads from one place to another, and no comma and no `#` in it stands outside. -/
inductive Quiet : Place → List Char → Place → Prop
  | nil (p : Place) : Quiet p [] p
  | cons {p q : Place} {c : Char} {cs : List Char} : ¬(p = .outside ∧ (c = ',' ∨ c = '#')) →
      Quiet (p.next c) cs q → Quiet p (c :: cs) q

variable {p q r : Place} {xs ys : List Char}

theorem behind_append (p : Place) (xs ys : List Char) :
    p.behind (xs ++ ys) = (p.behind xs).behind ys := List.foldl_append

private theorem Quiet.append (hx : Quiet p xs q) (hy : Quiet q ys r) : Quiet p (xs ++ ys) r := by
  induction hx with
  | nil => exact hy
  | cons hc _ ih => exact .cons hc (ih hy)

theorem Quiet.passes (h : Quiet p xs q) : Passes p xs q := by
  induction h with
  | nil => exact .nil _
  | cons hc _ ih => exact .cons (fun hcomma => hc ⟨hcomma.1, .inl hcomma.2⟩) ih

theorem Passes.append (hx : Passes p xs q) (hy : Passes q ys r) : Passes p (xs ++ ys) r := by
  induction hx with
  | nil => exact hy
  | cons hc _ ih => exact .cons hc (ih hy)

theorem Passes.behind_eq (h : Passes p xs q) : p.behind xs = q := by
  induction h with
  | nil => rfl
  | cons _ _ ih => exact ih

theorem Passes.pieces_eq (h : Passes p xs q) : p.pieces xs = [xs] := by
  induction h with
  | nil => rfl
  | cons hc _ ih => rw [pieces, if_neg hc, ih]; rfl

theorem Passes.pieces_comma (h : Passes p xs .outside) (ys : List Char) :
    p.pieces (xs ++ ',' :: ys) = xs :: pieces .outside ys := by
  generalize hq : Place.outside = q at h
  induction h with
  | nil => rw [← hq]; rfl
  | cons hc _ ih => rw [List.cons_append, pieces, if_neg hc, ih hq]; rfl

end Place

open Place (Passes Quiet)

def isPlain (c : Char) : Bool := c != '"' && c != '#' && c != ','

theorem next_of_isPlain {c : Char} (h : isPlain c = true) : Place.next .outside c = .outside := by
  simp only [isPlain, Bool.and_eq_true, bne_iff_ne] at h
  simp [Place.next, h]

theorem quiet_of_isPlain {cs : List Char} (h : cs.all isPlain = true) :
    Quiet .outside cs .outside := by
  induction cs with
  | nil => exact .nil _
  | cons c cs ih =>
    rw [List.all_cons, Bool.and_eq_true] at h
    obtain ⟨hc, hcs⟩ := h
    refine .cons ?_ ?_
    · rintro ⟨-, rfl | rfl⟩ <;> cases hc
    · rw [next_of_isPlain hc]
      exact ih hcs

private theorem isPlain_of_class {inClass : Char → Bool} {c : Char} (hc : inClass c = true)
    (h : inClass '"' = false ∧ inClass '#' = false ∧ inClass ',' = false) : isPlain c = true := by
  have hne (d : Char) (hd : inClass d = false) : c ≠ d := by
    rintro rfl
    rw [hc] at hd
    cases hd
  simp [isPlain, hne _ h.1, hne _ h.2.1, hne _ h.2.2]

private theorem isPlain_of_isDigit {c : Char} (h : c.isDigit = true) : isPlain c = true :=
  isPlain_of_class h ⟨rfl, rfl, rfl⟩

private theorem isPlain_of_isPart {c : Char} (h : FieldName.isPart c = true) : isPlain c = true :=
  isPlain_of_class h ⟨rfl, rfl, rfl⟩

private theorem isPlain_of_isStart {c : Char} (h : FieldName.isStart c = true) : isPlain c = true :=
  isPlain_of_class h ⟨rfl, rfl, rfl⟩

theorem isPlain_of_isBlank {c : Char} (h : Text.isBlank c = true) : isPlain c = true :=
  isPlain_of_class h ⟨rfl, rfl, rfl⟩

/-- Inside quotes a text stays inside. -/
private theorem quiet_quotedBody {body text : List Char} (h : QuotedBody body text) :
    Quiet .quoted body .quoted := by
  induction h with
  | nil => exact .nil _
  | @plain c _ _ hq hb _ ih =>
    refine .cons (by simp) ?_
    rwa [Place.next, if_neg hq, if_neg hb]
  | escaped _ _ ih => exact .cons (by simp) (.cons (by simp [Place.next]) ih)

inductive IsToken : List Char → Prop
  | plain {text : List Char} : text.all isPlain = true → IsToken text
  | quoted {body text : List Char} : QuotedBody body text → IsToken ('"' :: (body ++ ['"']))

theorem IsToken.quiet {text : List Char} (h : IsToken text) : Quiet .outside text .outside := by
  cases h with
  | plain htext => exact quiet_of_isPlain htext
  | quoted hbody => exact .cons (by simp) ((quiet_quotedBody hbody).append (.cons (by simp) (.nil _)))

theorem NameText.isToken {text rest : List Char} {name : String} (h : NameText text name rest) :
    IsToken text := by
  cases h with
  | bare hbare =>
    apply IsToken.plain
    cases text with
    | nil => cases hbare
    | cons c cs =>
      simp only [FieldName.isBare, Bool.and_eq_true, List.all_eq_true] at hbare
      exact List.all_eq_true.mpr (List.forall_mem_cons.mpr
        ⟨isPlain_of_isStart hbare.1, fun d hd => isPlain_of_isPart (hbare.2 d hd)⟩)
  | quoted _ hbody => exact .quoted hbody

theorem ComparisonText.isToken {text : List Char} {c : Comparison} (h : ComparisonText text c) :
    IsToken text := by
  have hall : ∀ w ∈ Comparison.spellings, w.1.toList.all isPlain = true := by decide
  have htext := hall _ (comparisonText_iff_mem.mp h)
  rw [String.toList_ofList] at htext
  exact .plain htext

private theorem isPlain_of_written {text : List Char} {n : Numeral} (h : Numeral.Written text n) :
    text.all isPlain = true :=
  List.all_eq_true.mpr (h.forall_mem (fun _ => isPlain_of_isDigit) (by decide))

theorem ValueText.isToken {text : List Char} {v : Value} (h : ValueText text v) :
    IsToken text := by
  cases h with
  | string hbody => exact .quoted hbody
  | trueWord | falseWord => exact .plain rfl
  | integer hw | float hw => exact .plain (isPlain_of_written hw)

/-- In a comment a text stays up to the end of the line. -/
theorem quiet_comment {body : List Char} (h : '\n' ∉ body) : Quiet .comment body .comment := by
  induction body with
  | nil => exact .nil _
  | cons c body ih =>
    rw [List.mem_cons, not_or] at h
    refine .cons (by simp) ?_
    rw [Place.next, if_neg (Ne.symm h.1)]
    exact ih h.2

/-- A line break at the end of a comment stands in the filler behind it, or behind that. -/
private theorem LineEnds.passes {cs rest : List Char} (h : LineEnds (cs ++ rest)) :
    ((∀ zs, LineEnds (cs ++ zs)) ∧ ∀ q, Passes .outside cs q → Passes .comment cs q) ∨
      (Passes .comment cs .comment ∧ ∀ c ∈ rest.head?, c = '\n' ∨ c = '\r') := by
  match cs, h with
  | [], h =>
    refine .inr ⟨.nil _, ?_⟩
    cases h <;> simp
  | [_], h =>
    cases h with
    | lineFeed =>
      refine .inl ⟨fun zs => .lineFeed zs, ?_⟩
      rintro q (_ | ⟨-, hq⟩)
      exact .cons (by simp) hq
    | carriageReturn => exact .inr ⟨.cons (by simp) (.nil _), by simp⟩
  | _ :: _ :: cs, h =>
    cases h with
    | lineFeed =>
      refine .inl ⟨fun zs => .lineFeed _, ?_⟩
      rintro q (_ | ⟨-, hq⟩)
      exact .cons (by simp) hq
    | carriageReturn =>
      refine .inl ⟨fun zs => .carriageReturn _, ?_⟩
      rintro q (_ | ⟨-, _ | ⟨-, hq⟩⟩)
      exact .cons (by simp) (.cons (by simp) hq)

/-- Filler ends outside, and then is filler in front of anything, or in a comment that only
a line break behind it ends. -/
theorem Filler.passes {f rest : List Char} (h : Filler f rest) :
    (Passes .outside f .outside ∧ ∀ zs, Filler f zs) ∨
      (Passes .outside f .comment ∧ ∀ c ∈ rest.head?, c = '\n' ∨ c = '\r') := by
  induction h with
  | nil => exact .inl ⟨.nil _, .nil⟩
  | @blank c cs _ hc _ ih =>
    have hblank : Passes .outside [c] .outside :=
      (quiet_of_isPlain (by simpa using isPlain_of_isBlank hc)).passes
    rcases ih with ⟨hcs, hany⟩ | ⟨hcs, hrest⟩
    · exact .inl ⟨hblank.append hcs, fun zs => .blank hc (hany zs)⟩
    · exact .inr ⟨hblank.append hcs, hrest⟩
  | @comment body cs rest hbody hend _ ih =>
    have hopen {q : Place} (hcs : Passes .comment cs q) : Passes .outside ('#' :: (body ++ cs)) q :=
      .cons (by decide) ((quiet_comment fun hmem => (hbody _ hmem).1 rfl).passes.append hcs)
    rcases hend.passes with ⟨hbreak, hsame⟩ | ⟨hcs, hrest⟩
    · rcases ih with ⟨hcs, hany⟩ | ⟨hcs, hrest⟩
      · exact .inl ⟨hopen (hsame _ hcs), fun zs => .comment hbody (hbreak zs) (hany zs)⟩
      · exact .inr ⟨hopen (hsame _ hcs), hrest⟩
    · exact .inr ⟨hopen hcs, hrest⟩

/-- Filler in front of a character that breaks no line ends outside. -/
theorem Filler.passes_outside {f rest : List Char} {c : Char} (h : Filler f (c :: rest))
    (hc : c ≠ '\n' ∧ c ≠ '\r') : Passes .outside f .outside := by
  rcases h.passes with ⟨hf, -⟩ | ⟨-, hbreak⟩
  · exact hf
  · rcases hbreak c rfl with rfl | rfl
    · exact absurd rfl hc.1
    · exact absurd rfl hc.2

/-- Filler in front of a token ends outside. -/
theorem Visible.passes_filler {f text : List Char} (h : Visible text) (hf : Filler f text) :
    Passes .outside f .outside := by
  obtain ⟨c, hhead, hc⟩ := h
  cases text with
  | nil => cases hhead
  | cons d text =>
    cases hhead
    refine hf.passes_outside ?_
    constructor <;> rintro rfl <;> cases hc

end DecisionRules.Reading
