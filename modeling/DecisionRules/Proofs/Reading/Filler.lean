import DecisionRules.Reading.Filler
import DecisionRules.Proofs.Numeral.Written

/-! Filler as a language: any blanks and comments, where a comment has to be followed by a
line break or the end of the text. Skipping takes all of it and no more. -/
namespace DecisionRules.Reading

open Text (StartsOutside startsOutside_cons)

/-- Where a comment may end: before a line break or at the end of the text. -/
inductive LineEnds : List Char → Prop
  | atEnd : LineEnds []
  | lineFeed (cs : List Char) : LineEnds ('\n' :: cs)
  | carriageReturn (cs : List Char) : LineEnds ('\r' :: '\n' :: cs)

/-- Filler in front of the rest of a text. The rest matters to a comment at the very end
of the filler. -/
inductive Filler : List Char → List Char → Prop
  | nil (rest : List Char) : Filler [] rest
  | blank {c : Char} {cs rest : List Char} : Text.isBlank c = true → Filler cs rest →
      Filler (c :: cs) rest
  | comment {body cs rest : List Char} : (∀ c ∈ body, c ≠ '\n' ∧ c ≠ '\r') →
      LineEnds (cs ++ rest) → Filler cs rest → Filler ('#' :: (body ++ cs)) rest

def startsFiller (c : Char) : Bool := Text.isBlank c || c == '#'

/-- Among the visible characters of ASCII only `#` begins filler. -/
private theorem startsFiller_of_visible {c : Char} (hlow : 35 < c.toNat) (hhigh : c.toNat < 128) :
    startsFiller c = false := by
  have hne : c ≠ '#' := by
    rintro rfl
    exact absurd hlow (by decide)
  simp [startsFiller, Text.isBlank, hne]
  omega

theorem startsFiller_of_isDigit {c : Char} (h : c.isDigit = true) : startsFiller c = false := by
  obtain ⟨hlow, hhigh⟩ := Bool.and_eq_true_iff.mp h
  have hzero : 48 ≤ c.toNat := UInt32.le_iff_toNat_le.mp (of_decide_eq_true hlow)
  have hnine : c.toNat ≤ 57 := UInt32.le_iff_toNat_le.mp (of_decide_eq_true hhigh)
  exact startsFiller_of_visible (by omega) (by omega)

theorem startsFiller_of_isAlpha {c : Char} (h : c.isAlpha = true) : startsFiller c = false := by
  rcases Bool.or_eq_true_iff.mp h with hupper | hlower
  · obtain ⟨hlow, hhigh⟩ := of_decide_eq_true hupper
    have ha : 65 ≤ c.toNat := UInt32.le_iff_toNat_le.mp hlow
    have hz : c.toNat ≤ 90 := UInt32.le_iff_toNat_le.mp hhigh
    exact startsFiller_of_visible (by omega) (by omega)
  · obtain ⟨hlow, hhigh⟩ := Bool.and_eq_true_iff.mp hlower
    have ha : 97 ≤ c.toNat := UInt32.le_iff_toNat_le.mp (of_decide_eq_true hlow)
    have hz : c.toNat ≤ 122 := UInt32.le_iff_toNat_le.mp (of_decide_eq_true hhigh)
    exact startsFiller_of_visible (by omega) (by omega)

private theorem LineEnds.outside {cs : List Char} (h : LineEnds cs) :
    StartsOutside (fun c => c != '\n' && c != '\r') cs := by
  cases h with
  | atEnd => simp
  | lineFeed | carriageReturn => exact (startsOutside_cons _ _ _).mpr rfl

theorem behindComment?_eq_some_iff {cs rest : List Char} :
    behindComment? cs = some rest ↔
      ∃ body, cs = body ++ rest ∧ (∀ c ∈ body, c ≠ '\n' ∧ c ≠ '\r') ∧ LineEnds rest := by
  constructor
  · intro h
    have hsplit := List.takeWhile_append_dropWhile (p := fun c => c != '\n' && c != '\r') (l := cs)
    have hbody : ∀ c ∈ cs.takeWhile (fun c => c != '\n' && c != '\r'), c ≠ '\n' ∧ c ≠ '\r' := by
      intro c hc
      simpa using List.all_eq_true.mp List.all_takeWhile c hc
    have hstop := Text.startsOutside_dropWhile (fun c => c != '\n' && c != '\r') cs
    rw [behindComment?] at h
    generalize cs.dropWhile _ = tail at h hsplit hstop
    refine ⟨_, ?_, hbody, ?_⟩
    · split at h <;> cases h <;> exact hsplit.symm
    · split at h
      · cases h
        exact .atEnd
      · cases h
        exact .carriageReturn _
      · cases h
      · next hnil _ hlone =>
        cases h
        cases rest with
        | nil => exact absurd rfl hnil
        | cons c cs =>
          have hc : c = '\n' ∨ c = '\r' := by
            have := (startsOutside_cons _ c cs).mp hstop
            by_cases hn : c = '\n' <;> simp_all
          rcases hc with rfl | rfl
          · exact .lineFeed cs
          · exact absurd rfl (hlone cs)
  · intro hr
    obtain ⟨body, rfl, hbody, hrest⟩ := hr
    have hrun := Text.dropWhile_run (p := fun c => c != '\n' && c != '\r')
      (fun c hc => by simpa using hbody c hc) hrest.outside
    rw [behindComment?, hrun]
    cases hrest <;> rfl

theorem skipFiller_nil : skipFiller [] = [] := by
  rw [skipFiller.eq_def]

theorem skipFiller_cons (c : Char) (cs : List Char) :
    skipFiller (c :: cs) =
      if Text.isBlank c then skipFiller cs
      else if c = '#' then
        match behindComment? cs with
        | some rest => skipFiller rest
        | none => c :: cs
      else c :: cs := by
  rw [skipFiller.eq_def]
  dsimp only
  split
  · rfl
  · split
    · split <;> simp_all
    · rfl

theorem skipFiller_blank {c : Char} (h : Text.isBlank c = true) (cs : List Char) :
    skipFiller (c :: cs) = skipFiller cs := by
  rw [skipFiller_cons, if_pos h]

private theorem skipFiller_comment {cs rest : List Char} (h : behindComment? cs = some rest) :
    skipFiller ('#' :: cs) = skipFiller rest := by
  rw [skipFiller_cons, if_neg (by decide), if_pos rfl, h]

theorem skipFiller_eq_self {cs : List Char} (h : StartsOutside startsFiller cs) :
    skipFiller cs = cs := by
  cases cs with
  | nil => exact skipFiller_nil
  | cons c cs =>
    have hc : Text.isBlank c = false ∧ c ≠ '#' := by simpa [startsFiller] using h
    rw [skipFiller_cons, if_neg (by simp [hc.1]), if_neg hc.2]

/-- Filler in front of a text changes nothing for what is skipped. -/
theorem Filler.skipFiller_append {f rest : List Char} (h : Filler f rest) :
    skipFiller (f ++ rest) = skipFiller rest := by
  induction h with
  | nil => rfl
  | blank hc _ ih => rw [List.cons_append, skipFiller_blank hc, ih]
  | comment hbody hend _ ih =>
    rw [List.cons_append, List.append_assoc,
      skipFiller_comment (behindComment?_eq_some_iff.mpr ⟨_, rfl, hbody, hend⟩), ih]

/-- Filler is skipped up to where no more can begin. -/
theorem Filler.skipFiller_eq {f rest : List Char} (h : Filler f rest)
    (hr : StartsOutside startsFiller rest) : skipFiller (f ++ rest) = rest := by
  rw [h.skipFiller_append, skipFiller_eq_self hr]

/-- What is skipped is filler. -/
theorem exists_filler (cs : List Char) :
    ∃ f, cs = f ++ skipFiller cs ∧ Filler f (skipFiller cs) := by
  fun_induction skipFiller cs with
  | case1 => exact ⟨[], rfl, .nil _⟩
  | case2 c cs hc ih =>
    obtain ⟨f, hcs, hf⟩ := ih
    exact ⟨c :: f, congrArg (c :: ·) hcs, .blank hc hf⟩
  | case3 cs rest hr hrest _ ih =>
    obtain ⟨body, rfl, hbody, hend⟩ := behindComment?_eq_some_iff.mp hr
    obtain ⟨f, hcs, hf⟩ := ih
    refine ⟨'#' :: (body ++ f), ?_, .comment hbody (hcs ▸ hend) hf⟩
    rw [List.cons_append, List.append_assoc, ← hcs]
  | case4 | case5 => exact ⟨[], rfl, .nil _⟩

/-- Blanks are filler. -/
theorem filler_of_isBlank {f : List Char} (h : ∀ c ∈ f, Text.isBlank c = true)
    (rest : List Char) : Filler f rest := by
  induction f with
  | nil => exact .nil rest
  | cons c f ih =>
    obtain ⟨hc, hf⟩ := List.forall_mem_cons.mp h
    exact .blank hc (ih hf)

/-- Where no comment can begin, filler is blanks. -/
theorem skipFiller_append_of_not_mem {cs rest : List Char} (hcs : '#' ∉ cs)
    (hrest : StartsOutside startsFiller rest) :
    skipFiller (cs ++ rest) = cs.dropWhile Text.isBlank ++ rest := by
  induction cs with
  | nil => exact skipFiller_eq_self hrest
  | cons c cs ih =>
    rw [List.mem_cons, not_or] at hcs
    cases hc : Text.isBlank c with
    | true => rw [List.cons_append, skipFiller_blank hc, ih hcs.2, List.dropWhile_cons, if_pos hc]
    | false =>
      have hself : StartsOutside startsFiller (c :: (cs ++ rest)) := by
        simpa [startsFiller, hc] using Ne.symm hcs.1
      rw [List.cons_append, skipFiller_eq_self hself, List.dropWhile_cons, hc]
      rfl

/-- A class without blanks and `#` is left by filler, if by what stands behind it. -/
theorem Filler.startsOutside {p : Char → Bool} {f rest : List Char} (h : Filler f rest)
    (hp : ∀ c, p c = true → startsFiller c = false) (hr : StartsOutside p rest) :
    StartsOutside p (f ++ rest) := by
  have hstart : ∀ c, startsFiller c = true → p c = false := by
    intro c hc
    cases hpc : p c with
    | false => rfl
    | true =>
      rw [hp c hpc] at hc
      cases hc
  cases h with
  | nil => exact hr
  | blank hc => exact (startsOutside_cons _ _ _).mpr (hstart _ (by simp [startsFiller, hc]))
  | comment => exact (startsOutside_cons _ _ _).mpr (hstart _ (by simp [startsFiller]))

/-- Filler does not prolong a numeral. -/
theorem Filler.ends {f rest : List Char} (h : Filler f rest) (hr : Numeral.Ends rest) :
    Numeral.Ends (f ++ rest) := by
  apply h.startsOutside _ hr
  intro c hc
  simp only [Numeral.isContinuation, Bool.or_eq_true, beq_iff_eq] at hc
  rcases hc with ((hc | rfl) | rfl) | rfl
  · exact startsFiller_of_isDigit hc
  · rfl
  · rfl
  · rfl

theorem ends_of_filler {f : List Char} (h : Filler f []) : Numeral.Ends f := by
  simpa using h.ends (Text.startsOutside_nil _)

theorem startsOutside_skipFiller (cs : List Char) :
    StartsOutside Text.isBlank (skipFiller cs) := by
  fun_induction skipFiller cs with
  | case1 => exact Text.startsOutside_nil _
  | case2 _ _ _ ih => exact ih
  | case3 _ _ _ _ _ ih => exact ih
  | case4 c cs hc | case5 c cs hc => exact (startsOutside_cons _ _ _).mpr (by simpa using hc)

/-- Filler only minds what stands behind it where a comment ends there. -/
private theorem Filler.of_lineEnds {f r s : List Char} (h : Filler f r)
    (hends : ∀ l, LineEnds (l ++ r) → LineEnds (l ++ s)) : Filler f s := by
  induction h with
  | nil => exact .nil s
  | blank hc _ ih => exact .blank hc (ih hends)
  | comment hbody hend _ ih => exact .comment hbody (hends _ hend) (ih hends)

/-- Filler in front of more filler. -/
theorem Filler.append {f g rest : List Char} (hf : Filler f (g ++ rest)) (hg : Filler g rest) :
    Filler (f ++ g) rest := by
  generalize hr : g ++ rest = r at hf
  induction hf with
  | nil => exact hg
  | blank hc _ ih => exact .blank hc (ih hr)
  | @comment body cs r hbody hend _ ih =>
    rw [List.cons_append, List.append_assoc]
    refine .comment hbody ?_ (ih hr)
    rwa [List.append_assoc, hr]

private theorem LineEnds.replace {l ys : List Char} {c : Char} (h : LineEnds (l ++ c :: ys))
    (hc : c ≠ '\n' ∧ c ≠ '\r') (zs : List Char) : LineEnds (l ++ zs) := by
  match l, h with
  | [], h =>
    cases h with
    | lineFeed => exact absurd rfl hc.1
    | carriageReturn => exact absurd rfl hc.2
  | [_], h =>
    cases h with
    | lineFeed => exact .lineFeed zs
    | carriageReturn => exact absurd rfl hc.1
  | _ :: _ :: l, h =>
    cases h with
    | lineFeed => exact .lineFeed _
    | carriageReturn => exact .carriageReturn _

private theorem LineEnds.lineFeed_behind {l r : List Char} (h : LineEnds (l ++ r))
    (zs : List Char) : LineEnds (l ++ '\n' :: zs) := by
  match l, h with
  | [], _ => exact .lineFeed zs
  | [_], h =>
    cases h with
    | lineFeed => exact .lineFeed _
    | carriageReturn => exact .carriageReturn zs
  | _ :: _ :: l, h =>
    cases h with
    | lineFeed => exact .lineFeed _
    | carriageReturn => exact .carriageReturn _

/-- A character that breaks no line is as far as filler can see. -/
theorem Filler.replace {f ys : List Char} {c : Char} (xs : List Char)
    (h : Filler f (xs ++ c :: ys)) (hc : c ≠ '\n' ∧ c ≠ '\r') (zs : List Char) :
    Filler f (xs ++ zs) := by
  apply h.of_lineEnds
  intro l hl
  rw [← List.append_assoc] at hl ⊢
  exact hl.replace hc zs

/-- A line feed ends a comment wherever it may have been going to end. -/
theorem Filler.before_lineFeed {f r : List Char} (xs : List Char) (h : Filler f (xs ++ r))
    (zs : List Char) : Filler f (xs ++ '\n' :: zs) := by
  apply h.of_lineEnds
  intro l hl
  rw [← List.append_assoc] at hl ⊢
  exact hl.lineFeed_behind zs

/-- With a line feed behind it filler is filler in front of anything. -/
theorem Filler.lineFeed {f r : List Char} (h : Filler f r) (zs : List Char) :
    Filler (f ++ ['\n']) zs := by
  have hfeed : Filler f (['\n'] ++ zs) := h.before_lineFeed [] zs
  exact hfeed.append (.blank rfl (.nil zs))

/-- A text that begins with a character that no filler begins with. -/
def Visible (text : List Char) : Prop := ∃ c ∈ text.head?, startsFiller c = false

theorem Visible.ne_nil {text : List Char} (h : Visible text) : text ≠ [] := by
  rintro rfl
  obtain ⟨_, hc, _⟩ := h
  cases hc

theorem Visible.startsOutside {text : List Char} (h : Visible text) (rest : List Char) :
    StartsOutside startsFiller (text ++ rest) := by
  obtain ⟨c, hhead, hc⟩ := h
  cases text with
  | nil => cases hhead
  | cons d text =>
    cases hhead
    exact (startsOutside_cons _ _ _).mpr hc

theorem visible_of_startsOutside {text rest : List Char} (hne : text ≠ [])
    (h : StartsOutside startsFiller (text ++ rest)) : Visible text := by
  cases text with
  | nil => exact absurd rfl hne
  | cons c text => exact ⟨c, rfl, (startsOutside_cons _ _ _).mp h⟩

theorem Visible.append {text : List Char} (h : Visible text) (rest : List Char) :
    Visible (text ++ rest) := by
  obtain ⟨c, hhead, hc⟩ := h
  cases text with
  | nil => cases hhead
  | cons => exact ⟨c, hhead, hc⟩

/-- Filler in front of a visible text is filler in front of anything. -/
theorem Visible.filler_before {f text : List Char} (h : Visible text) (hf : Filler f text)
    (zs : List Char) : Filler f zs := by
  obtain ⟨c, hhead, hc⟩ := h
  cases text with
  | nil => cases hhead
  | cons d text =>
    cases hhead
    have hbreak : c ≠ '\n' ∧ c ≠ '\r' := by
      constructor <;> rintro rfl <;> cases hc
    exact hf.replace [] hbreak zs

/-- Of what stands behind it, filler in front of a visible text sees that text only. -/
theorem Visible.filler_append_iff {f text : List Char} (h : Visible text) (rest : List Char) :
    Filler f (text ++ rest) ↔ Filler f text := by
  constructor
  · intro hf
    exact (h.append rest).filler_before hf text
  · intro hf
    exact h.filler_before hf (text ++ rest)

theorem Filler.before_token {f token ys : List Char} (h : Filler f (token ++ ys))
    (htoken : Visible token) (zs : List Char) : Filler f (token ++ zs) :=
  (htoken.filler_append_iff zs).mpr ((htoken.filler_append_iff ys).mp h)

end DecisionRules.Reading
