import DecisionRules.Text.Quoted

/-! Texts that end where they have to: runs of a class of characters up to a character
outside it, and quoted texts up to their closing quote. -/
namespace DecisionRules.Text

/-- A text that is empty or begins with a character outside the class. -/
def StartsOutside (p : Char → Bool) (cs : List Char) : Prop := ∀ c ∈ cs.head?, p c = false

@[simp] theorem startsOutside_nil (p : Char → Bool) : StartsOutside p [] := by
  simp [StartsOutside]

@[simp] theorem startsOutside_cons (p : Char → Bool) (c : Char) (cs : List Char) :
    StartsOutside p (c :: cs) ↔ p c = false := by
  simp [StartsOutside]

theorem startsOutside_append {p : Char → Bool} {cs : List Char} (hne : cs ≠ []) (rest : List Char) :
    StartsOutside p (cs ++ rest) ↔ StartsOutside p cs := by
  cases cs with
  | nil => exact absurd rfl hne
  | cons c cs => simp

theorem StartsOutside.mono {p q : Char → Bool} {cs : List Char} (h : StartsOutside q cs)
    (hpq : ∀ c, p c = true → q c = true) : StartsOutside p cs := by
  intro c hc
  have hq := h c hc
  cases hp : p c with
  | false => rfl
  | true => rw [hpq c hp] at hq; cases hq

theorem startsOutside_dropWhile (p : Char → Bool) (cs : List Char) :
    StartsOutside p (cs.dropWhile p) := by
  intro c hc
  have h := List.head?_dropWhile_not p cs
  rw [Option.mem_def.mp hc] at h
  simpa using h

/-- A run of a class is taken whole and nothing behind it. -/
theorem takeWhile_run {p : Char → Bool} {run rest : List Char} (hr : ∀ c ∈ run, p c = true)
    (h : StartsOutside p rest) : (run ++ rest).takeWhile p = run := by
  rw [List.takeWhile_append_of_pos hr]
  cases rest with
  | nil => simp
  | cons c cs => simp [(startsOutside_cons p c cs).mp h]

theorem dropWhile_run {p : Char → Bool} {run rest : List Char} (hr : ∀ c ∈ run, p c = true)
    (h : StartsOutside p rest) : (run ++ rest).dropWhile p = rest := by
  rw [List.dropWhile_append_of_pos hr]
  cases rest with
  | nil => rfl
  | cons c cs => simp [(startsOutside_cons p c cs).mp h]

def escapes : List (Char × Char) := [('"', '"'), ('\\', '\\'), ('n', '\n'), ('t', '\t')]

/-- What stands between quotes and the text it denotes. All characters but the quote and
the backslash stand for themselves, line breaks among them. -/
inductive QuotedBody : List Char → List Char → Prop
  | nil : QuotedBody [] []
  | plain {c : Char} {body text : List Char} : c ≠ '"' → c ≠ '\\' → QuotedBody body text →
      QuotedBody (c :: body) (c :: text)
  | escaped {mark c : Char} {body text : List Char} : (mark, c) ∈ escapes →
      QuotedBody body text → QuotedBody ('\\' :: mark :: body) (c :: text)

theorem QuotedBody.append {xs ys text more : List Char} (hx : QuotedBody xs text)
    (hy : QuotedBody ys more) : QuotedBody (xs ++ ys) (text ++ more) := by
  induction hx with
  | nil => exact hy
  | plain hq hb _ ih => exact .plain hq hb ih
  | escaped hc _ ih => exact .escaped hc ih

theorem escapedChar_eq_some_iff {mark c : Char} :
    escapedChar mark = some c ↔ (mark, c) ∈ escapes := by
  unfold escapedChar
  split <;> simp_all [escapes, eq_comm]

private theorem push_eq_closed {c : Char} {u : Unquoted} {text rest : List Char}
    (h : u.push c = .closed text rest) : ∃ tail, u = .closed tail rest ∧ text = c :: tail := by
  cases u with
  | closed tail behind =>
    cases h
    exact ⟨tail, rfl, rfl⟩
  | badEscape | unclosed => cases h

private theorem ne_backslash {c : Char} {cs : List Char} (hlone : c = '\\' → cs = [] → False)
    (hmark : ∀ mark rest, c = '\\' → cs = mark :: rest → False) : c ≠ '\\' := by
  rintro rfl
  cases cs with
  | nil => exact hlone rfl rfl
  | cons mark rest => exact hmark mark rest rfl rfl

theorem unquote_sound {cs text rest : List Char} (h : unquote cs = .closed text rest) :
    ∃ body, cs = body ++ '"' :: rest ∧ QuotedBody body text := by
  fun_induction unquote cs generalizing text with
  | case1 | case3 | case5 => cases h
  | case2 behind =>
    cases h
    exact ⟨[], rfl, .nil⟩
  | case4 mark behind c hc ih =>
    obtain ⟨tail, hu, rfl⟩ := push_eq_closed h
    obtain ⟨body, rfl, hb⟩ := ih hu
    exact ⟨'\\' :: mark :: body, rfl, .escaped (escapedChar_eq_some_iff.mp hc) hb⟩
  | case6 c behind hq hlone hesc ih =>
    obtain ⟨tail, hu, rfl⟩ := push_eq_closed h
    obtain ⟨body, rfl, hb⟩ := ih hu
    exact ⟨c :: body, rfl, .plain hq (ne_backslash hlone hesc) hb⟩

private theorem eq_of_push_eq {c : Char} {u v : Unquoted} (h : u.push c = v)
    (hv : ∀ text rest, v ≠ .closed text rest) : u = v := by
  cases u with
  | closed text rest => exact absurd h.symm (hv (c :: text) rest)
  | badEscape | unclosed => exact h

def NoEscape (behind : List Char) : Prop := ∀ mark ∈ behind.head?, mark ∉ escapes.map (·.1)

theorem noEscape_nil : NoEscape [] := by simp [NoEscape]

theorem noEscape_cons_iff {mark : Char} {behind : List Char} :
    NoEscape (mark :: behind) ↔ escapedChar mark = none := by
  rw [Option.eq_none_iff_forall_ne_some]
  simp only [NoEscape, List.head?_cons, Option.mem_some_iff, forall_eq', List.mem_map,
    Prod.exists, exists_and_right, exists_eq_right, not_exists, ne_eq, escapedChar_eq_some_iff]

/-- A bad escape has a body of quoted text and a backslash before it, and behind it no mark. -/
theorem unquote_badEscape_sound {cs rest : List Char} (h : unquote cs = .badEscape rest) :
    ∃ body text, cs = body ++ '\\' :: rest ∧ QuotedBody body text ∧ NoEscape rest := by
  fun_induction unquote cs with
  | case1 | case2 => cases h
  | case3 =>
    cases h
    exact ⟨[], [], rfl, .nil, noEscape_nil⟩
  | case4 mark behind c hc ih =>
    obtain ⟨body, text, rfl, hb, hrest⟩ := ih (eq_of_push_eq h (by simp))
    exact ⟨'\\' :: mark :: body, c :: text, rfl, .escaped (escapedChar_eq_some_iff.mp hc) hb, hrest⟩
  | case5 mark behind hnone =>
    cases h
    exact ⟨[], [], rfl, .nil, noEscape_cons_iff.mpr hnone⟩
  | case6 c behind hq hlone hmark ih =>
    obtain ⟨body, text, rfl, hb, hrest⟩ := ih (eq_of_push_eq h (by simp))
    exact ⟨c :: body, c :: text, rfl, .plain hq (ne_backslash hlone hmark) hb, hrest⟩

/-- Where the closing quote is missing, all that is read is a body of quoted text. -/
theorem unquote_unclosed_sound {cs : List Char} (h : unquote cs = .unclosed) :
    ∃ text, QuotedBody cs text := by
  fun_induction unquote cs with
  | case1 => exact ⟨[], .nil⟩
  | case2 | case3 | case5 => cases h
  | case4 mark behind c hc ih =>
    obtain ⟨text, hb⟩ := ih (eq_of_push_eq h (by simp))
    exact ⟨c :: text, .escaped (escapedChar_eq_some_iff.mp hc) hb⟩
  | case6 c behind hq hlone hmark ih =>
    obtain ⟨text, hb⟩ := ih (eq_of_push_eq h (by simp))
    exact ⟨c :: text, .plain hq (ne_backslash hlone hmark) hb⟩

/-- A body of quoted text is read through, whatever stands behind it. -/
theorem unquote_append {body text : List Char} (h : QuotedBody body text) (behind : List Char) :
    unquote (body ++ behind) = text.foldr Unquoted.push (unquote behind) := by
  induction h with
  | nil => rfl
  | plain hq hb _ ih =>
    rw [List.cons_append, unquote]
    · rw [ih]; rfl
    all_goals simp [hq, hb]
  | escaped he _ ih =>
    simp only [List.cons_append, unquote, escapedChar_eq_some_iff.mpr he, ih]
    rfl

theorem foldr_push_closed (text more rest : List Char) :
    text.foldr Unquoted.push (.closed more rest) = .closed (text ++ more) rest := by
  induction text with
  | nil => rfl
  | cons c text ih =>
    rw [List.foldr_cons, ih]
    rfl

/-- An ending without a text stays as it is. -/
theorem foldr_push_of_not_closed {u : Unquoted} (h : ∀ text rest, u ≠ .closed text rest)
    (text : List Char) : text.foldr Unquoted.push u = u := by
  induction text with
  | nil => rfl
  | cons c text ih =>
    rw [List.foldr_cons, ih]
    cases u with
    | closed text rest => exact absurd rfl (h text rest)
    | badEscape | unclosed => rfl

theorem unquote_complete {body text : List Char} (h : QuotedBody body text) (rest : List Char) :
    unquote (body ++ '"' :: rest) = .closed text rest := by
  have hquote : unquote ('"' :: rest) = .closed [] rest := by rw [unquote]
  rw [unquote_append h, hquote, foldr_push_closed, List.append_nil]

theorem unquote_badEscape_complete {body text rest : List Char} (h : QuotedBody body text)
    (hrest : NoEscape rest) : unquote (body ++ '\\' :: rest) = .badEscape rest := by
  have hback : unquote ('\\' :: rest) = .badEscape rest := by
    cases rest with
    | nil => rw [unquote]
    | cons mark behind =>
      rw [unquote]
      simp only [noEscape_cons_iff.mp hrest]
  rw [unquote_append h, hback, foldr_push_of_not_closed (by simp)]

theorem unquote_unclosed_complete {body text : List Char} (h : QuotedBody body text) :
    unquote body = .unclosed := by
  have hend : unquote [] = .unclosed := by rw [unquote]
  rw [← List.append_nil body, unquote_append h, hend, foldr_push_of_not_closed (by simp)]

/-- Reading behind an opening quote succeeds on quoted bodies and on nothing else. -/
theorem unquote_eq_closed_iff {cs text rest : List Char} :
    unquote cs = .closed text rest ↔ ∃ body, cs = body ++ '"' :: rest ∧ QuotedBody body text := by
  constructor
  · exact unquote_sound
  · intro h
    obtain ⟨body, rfl, hb⟩ := h
    exact unquote_complete hb rest

/-- What is written between quotes is a body that denotes the text. -/
theorem quotedBody_flatMap_writeUnit (cs : List Char) : QuotedBody (cs.flatMap writeUnit) cs := by
  induction cs with
  | nil => exact .nil
  | cons c cs ih =>
    rw [List.flatMap_cons]
    unfold writeUnit
    cases hm : escapeMark c with
    | some mark => exact .escaped (escapedChar_eq_some_iff.mp (escapedChar_escapeMark hm)) ih
    | none =>
      obtain ⟨hq, hb⟩ := escapeMark_eq_none hm
      exact .plain hq hb ih

/-- Inside quotes no quote stands behind a blank: a backslash would have to be there. -/
theorem QuotedBody.not_blank_quote {xs ys text : List Char}
    (h : QuotedBody (xs ++ ' ' :: '"' :: ys) text) : False := by
  generalize hbody : xs ++ ' ' :: '"' :: ys = body at h
  induction h generalizing xs with
  | nil => simp at hbody
  | @plain c body text _ _ hbehind ih =>
    cases xs with
    | nil =>
      obtain ⟨rfl, rfl⟩ := List.cons_eq_cons.mp hbody
      cases hbehind with
      | plain hquote => exact hquote rfl
    | cons x xs => exact ih (List.cons_eq_cons.mp hbody).2
  | @escaped mark c body text hmark _ ih =>
    match xs, hbody with
    | [_], hbody =>
      cases hbody
      simp [escapes] at hmark
    | _ :: _ :: xs, hbody => exact ih (List.cons_eq_cons.mp (List.cons_eq_cons.mp hbody).2).2

/-- A quote behind a blank closes the quoted text. -/
theorem QuotedBody.closed_behind_blank {xs ys body text : List Char} (h : QuotedBody body text)
    (hcut : xs ++ ' ' :: '"' :: ys = body ++ ['"']) : body = xs ++ [' '] ∧ ys = [] := by
  rcases List.eq_nil_or_concat ys with rfl | ⟨zs, c, rfl⟩
  · have hbody : xs ++ [' '] ++ ['"'] = body ++ ['"'] := by simpa using hcut
    exact ⟨(List.append_inj' hbody rfl).1.symm, rfl⟩
  · have hbody : xs ++ ' ' :: '"' :: zs ++ [c] = body ++ ['"'] := by simpa using hcut
    rw [← (List.append_inj' hbody rfl).1] at h
    exact h.not_blank_quote.elim

/-- No escape stands for `#`, and `#` is not written as one. -/
theorem QuotedBody.not_mem_hash {body text : List Char} (h : QuotedBody body text)
    (hbody : '#' ∉ body) : '#' ∉ text := by
  induction h with
  | nil => exact hbody
  | plain _ _ _ ih =>
    rw [List.mem_cons, not_or] at hbody ⊢
    exact ⟨hbody.1, ih hbody.2⟩
  | escaped hmark _ ih =>
    simp only [List.mem_cons, not_or] at hbody ⊢
    refine ⟨?_, ih hbody.2.2⟩
    rintro rfl
    simp [escapes] at hmark

theorem not_mem_hash_flatMap_writeUnit {cs : List Char} (h : '#' ∉ cs) :
    '#' ∉ cs.flatMap writeUnit := by
  intro hmem
  obtain ⟨c, hc, hunit⟩ := List.mem_flatMap.mp hmem
  rw [writeUnit] at hunit
  split at hunit
  · next mark hmark =>
    have hback := escapedChar_eq_some_iff.mp (escapedChar_escapeMark hmark)
    simp only [List.mem_cons, List.not_mem_nil, or_false] at hunit
    rcases hunit with hunit | rfl
    · cases hunit
    · simp [escapes] at hback
  · rw [List.mem_singleton.mp hunit] at h
    exact h hc

end DecisionRules.Text
