import DecisionRules.Numeral
import DecisionRules.Proofs.Text.Delimited

/-! Numerals as they are written, without a reader: an optional minus sign, digits, an
optional fraction and an optional exponent. A numeral is read off such a text whenever
nothing behind it could prolong it. -/
namespace DecisionRules.Numeral

open Text (StartsOutside startsOutside_nil startsOutside_cons startsOutside_dropWhile)

structure IsDigits (ds : List Char) : Prop where
  ne_nil : ds ≠ []
  isDigit : ∀ c ∈ ds, c.isDigit = true

def minusText (negative : Bool) : List Char := if negative then ['-'] else []

inductive FractionText : List Char → Option (List Char) → Prop
  | absent : FractionText [] none
  | present {ds : List Char} : IsDigits ds → FractionText ('.' :: ds) (some ds)

/-- The sign of an exponent; a plus sign says nothing. -/
inductive SignText : List Char → Bool → Prop
  | plain (negative : Bool) : SignText (minusText negative) negative
  | plus : SignText ['+'] false

inductive ExponentText : List Char → Option Int → Prop
  | absent : ExponentText [] none
  | present {mark : Char} {sign ds : List Char} {negative : Bool} : mark = 'e' ∨ mark = 'E' →
      SignText sign negative → IsDigits ds →
      ExponentText (mark :: (sign ++ ds))
        (some (if negative then -(Nat.ofDigitChars 10 ds 0 : Int) else Nat.ofDigitChars 10 ds 0))

inductive Written : List Char → Numeral → Prop
  | mk (negative : Bool) {whole f e : List Char} {fraction : Option (List Char)}
      {exponent : Option Int} : IsDigits whole → FractionText f fraction →
      ExponentText e exponent →
      Written (minusText negative ++ (whole ++ (f ++ e))) ⟨negative, whole, fraction, exponent⟩

def isContinuation (c : Char) : Bool := c.isDigit || c == '.' || c == 'e' || c == 'E'

/-- A text that does not prolong a numeral in front of it. -/
abbrev Ends (rest : List Char) : Prop := StartsOutside isContinuation rest

private theorem Ends.outside_isDigit {rest : List Char} (h : Ends rest) :
    StartsOutside Char.isDigit rest :=
  h.mono fun c hc => by simp [isContinuation, hc]

private theorem isDigit_minus : Char.isDigit '-' = false := rfl

private theorem ne_of_isDigit {c d : Char} (h : c.isDigit = true) (hd : d.isDigit = false) :
    c ≠ d := by
  rintro rfl
  rw [h] at hd
  cases hd

theorem isDigits_toDigits (n : Nat) : IsDigits (Nat.toDigits 10 n) :=
  ⟨Nat.toDigits_ne_nil, fun _ hc => Nat.isDigit_of_mem_toDigits (by decide) (by decide) hc⟩

theorem isDigits_singleton {d : Char} (h : d.isDigit = true) : IsDigits [d] :=
  ⟨List.cons_ne_nil d [], by simpa using h⟩

theorem readDigits_eq_some_iff {cs ds rest : List Char} :
    readDigits cs = some (ds, rest) ↔
      cs = ds ++ rest ∧ IsDigits ds ∧ StartsOutside Char.isDigit rest := by
  constructor
  · intro h
    unfold readDigits at h
    split at h
    · cases h
    · next d tail hd =>
      cases h
      refine ⟨?_, ⟨by simp, ?_⟩, startsOutside_dropWhile _ _⟩
      · rw [← hd, List.takeWhile_append_dropWhile]
      · rw [← hd]
        exact fun c hc => List.all_eq_true.mp List.all_takeWhile c hc
  · intro hr
    obtain ⟨rfl, ⟨hne, hds⟩, hr⟩ := hr
    unfold readDigits
    rw [Text.takeWhile_run hds hr, Text.dropWhile_run hds hr]
    cases ds with
    | nil => exact absurd rfl hne
    | cons d ds => rfl

private theorem readMinus_minusText (negative : Bool) {rest : List Char}
    (h : StartsOutside (· == '-') rest) : readMinus (minusText negative ++ rest) = (negative, rest) := by
  cases negative with
  | true => rfl
  | false =>
    cases rest with
    | nil => rfl
    | cons c cs =>
      have hc : c ≠ '-' := by simpa using h
      simp [minusText, readMinus, hc]

theorem eq_minusText_append (cs : List Char) :
    cs = minusText (readMinus cs).1 ++ (readMinus cs).2 := by
  unfold readMinus
  split <;> rfl

private theorem IsDigits.outside_minus {ds rest : List Char} (h : IsDigits ds) :
    StartsOutside (· == '-') (ds ++ rest) := by
  cases ds with
  | nil => exact absurd rfl h.ne_nil
  | cons d ds => simpa using ne_of_isDigit (h.isDigit d (by simp)) isDigit_minus

private theorem readSign_signText {sign ds rest : List Char} {negative : Bool}
    (h : SignText sign negative) (hds : IsDigits ds) :
    readSign (sign ++ (ds ++ rest)) = (negative, ds ++ rest) := by
  cases h with
  | plus => rfl
  | plain =>
    have hm : readMinus (minusText negative ++ (ds ++ rest)) = (negative, ds ++ rest) :=
      readMinus_minusText negative hds.outside_minus
    unfold readSign
    split
    · next cs heq =>
      cases negative with
      | true => cases heq
      | false =>
        cases ds with
        | nil => exact absurd rfl hds.ne_nil
        | cons d ds =>
          cases heq
          exact absurd (hds.isDigit '+' (by simp)) (by decide)
    · exact hm

theorem readSign_sound (cs : List Char) :
    ∃ sign, cs = sign ++ (readSign cs).2 ∧ SignText sign (readSign cs).1 := by
  unfold readSign
  split
  · exact ⟨['+'], rfl, .plus⟩
  · exact ⟨_, eq_minusText_append cs, .plain _⟩

theorem readFraction_complete {f rest : List Char} {fraction : Option (List Char)}
    (h : FractionText f fraction) (hd : StartsOutside Char.isDigit rest)
    (hp : StartsOutside (· == '.') rest) : readFraction (f ++ rest) = (fraction, rest) := by
  cases h with
  | absent =>
    cases rest with
    | nil => rfl
    | cons c cs =>
      have hc : c ≠ '.' := by simpa using hp
      simp [readFraction, hc]
  | present hds => simp [readFraction, readDigits_eq_some_iff.mpr ⟨rfl, hds, hd⟩]

theorem readFraction_sound (cs : List Char) :
    ∃ f, cs = f ++ (readFraction cs).2 ∧ FractionText f (readFraction cs).1 := by
  unfold readFraction
  split
  · split
    · next ds rest hr =>
      obtain ⟨rfl, hds, _⟩ := readDigits_eq_some_iff.mp hr
      exact ⟨'.' :: ds, rfl, .present hds⟩
    · exact ⟨[], rfl, .absent⟩
  · exact ⟨[], rfl, .absent⟩

theorem readExponent_complete {e rest : List Char} {exponent : Option Int}
    (h : ExponentText e exponent) (hr : Ends rest) :
    readExponent (e ++ rest) = (exponent, rest) := by
  cases h with
  | absent =>
    cases rest with
    | nil => rfl
    | cons c cs =>
      have hc : ¬(c = 'e' ∨ c = 'E') := by
        have := (startsOutside_cons _ c cs).mp hr
        simp [isContinuation] at this
        simp [this]
      simp [readExponent, hc]
  | @present mark sign ds negative hmark hsign hds =>
    have hread : readSign (sign ++ (ds ++ rest)) = (negative, ds ++ rest) :=
      readSign_signText hsign hds
    have hdigits := readDigits_eq_some_iff.mpr ⟨rfl, hds, hr.outside_isDigit⟩
    simp [readExponent, hmark, hread, hdigits, signedValue]

theorem readExponent_sound (cs : List Char) :
    ∃ e, cs = e ++ (readExponent cs).2 ∧ ExponentText e (readExponent cs).1 := by
  unfold readExponent
  split
  · exact ⟨[], rfl, .absent⟩
  · next c cs =>
    split
    · next hc =>
      obtain ⟨sign, hcs, hsign⟩ := readSign_sound cs
      dsimp only
      split
      · next ds rest hr =>
        obtain ⟨hbody, hds, _⟩ := readDigits_eq_some_iff.mp hr
        refine ⟨c :: (sign ++ ds), ?_, .present hc hsign hds⟩
        rw [List.cons_append, List.append_assoc, ← hbody, ← hcs]
      · exact ⟨[], rfl, .absent⟩
    · exact ⟨[], rfl, .absent⟩

private theorem FractionText.outside_isDigit {f rest : List Char} {fraction : Option (List Char)}
    (h : FractionText f fraction) (hr : StartsOutside Char.isDigit rest) :
    StartsOutside Char.isDigit (f ++ rest) := by
  cases h with
  | absent => exact hr
  | present => exact (startsOutside_cons _ _ _).mpr rfl

private theorem ExponentText.outside {e rest : List Char} {exponent : Option Int}
    (h : ExponentText e exponent) (hr : Ends rest) :
    StartsOutside (fun c => c.isDigit || c == '.') (e ++ rest) := by
  cases h with
  | absent => exact hr.mono fun c hc => by simp only [isContinuation, hc, Bool.true_or]
  | present hmark =>
    rcases hmark with rfl | rfl <;> exact (startsOutside_cons _ _ _).mpr rfl

/-- A written numeral is read whole in front of a text that does not prolong it. -/
theorem read?_complete {text rest : List Char} {n : Numeral} (h : Written text n)
    (hr : Ends rest) : read? (text ++ rest) = some (n, rest) := by
  obtain ⟨negative, hw, hf, he⟩ := h
  have hexp := he.outside hr
  have hdot := hexp.mono (p := (· == '.')) fun c hc => by simp [hc]
  have hnum := hexp.mono (p := Char.isDigit) fun c hc => by simp [hc]
  have hdigits := readDigits_eq_some_iff.mpr ⟨rfl, hw, hf.outside_isDigit hnum⟩
  simp only [List.append_assoc]
  unfold read?
  rw [readMinus_minusText negative hw.outside_minus]
  simp only [readUnsigned, hdigits, readFraction_complete hf hnum hdot, readExponent_complete he hr]

theorem read?_sound {cs rest : List Char} {n : Numeral} (h : read? cs = some (n, rest)) :
    ∃ text, cs = text ++ rest ∧ Written text n := by
  have hminus := eq_minusText_append cs
  unfold read? readUnsigned at h
  dsimp only at h
  split at h
  · cases h
  · next whole tail hdigits =>
    obtain ⟨hbody, hw, _⟩ := readDigits_eq_some_iff.mp hdigits
    obtain ⟨f, hf, hfraction⟩ := readFraction_sound tail
    obtain ⟨e, he, hexponent⟩ := readExponent_sound (readFraction tail).2
    cases h
    refine ⟨_, ?_, .mk (readMinus cs).1 hw hfraction hexponent⟩
    simp only [List.append_assoc]
    rw [← he, ← hf, ← hbody, ← hminus]

/-- A numeral is made of digits and five marks. -/
theorem Written.forall_mem {text : List Char} {n : Numeral} (h : Written text n) {p : Char → Bool}
    (hdigit : ∀ c, c.isDigit = true → p c = true)
    (hmarks : ['-', '+', '.', 'e', 'E'].all p = true) : ∀ c ∈ text, p c = true := by
  have hmark := List.all_eq_true.mp hmarks
  have hminus (negative : Bool) : ∀ c ∈ minusText negative, p c = true := by
    cases negative with
    | true => simpa [minusText] using hmark '-' (by simp)
    | false => simp [minusText]
  have hdigits {ds : List Char} (hds : IsDigits ds) : ∀ c ∈ ds, p c = true :=
    fun c hc => hdigit c (hds.isDigit c hc)
  obtain ⟨negative, hwhole, hfraction, hexponent⟩ := h
  simp only [List.forall_mem_append]
  refine ⟨hminus negative, hdigits hwhole, ?_, ?_⟩
  · cases hfraction with
    | absent => simp
    | present hds => exact List.forall_mem_cons.mpr ⟨hmark '.' (by simp), hdigits hds⟩
  · cases hexponent with
    | absent => simp
    | @present mark sign ds _ he hsign hds =>
      have hfirst : p mark = true := by rcases he with rfl | rfl <;> exact hmark _ (by simp)
      refine List.forall_mem_cons.mpr ⟨hfirst, List.forall_mem_append.mpr ⟨?_, hdigits hds⟩⟩
      cases hsign with
      | plain => exact hminus _
      | plus => simpa using hmark '+' (by simp)

/-- An integer becomes a fraction with a point and a digit behind it. -/
theorem Written.point_zero {text : List Char} {n : Numeral} (h : Written text n)
    (hint : n.isInteger = true) :
    ∃ m, Written (text ++ ['.', '0']) m ∧ m.isInteger = false := by
  obtain ⟨negative, hwhole, hfraction, hexponent⟩ := h
  simp only [isInteger, Bool.and_eq_true, Option.isNone_iff_eq_none] at hint
  obtain ⟨rfl, rfl⟩ := hint
  cases hfraction
  cases hexponent
  have hzero : IsDigits ['0'] := isDigits_singleton rfl
  exact ⟨_, by simpa using Written.mk negative hwhole (.present hzero) .absent, rfl⟩

/-- The sign and the digits of an integer stand for the integer. -/
private theorem signedValue_toDigits (n : Int) :
    signedValue (decide (n < 0)) (Nat.toDigits 10 n.natAbs) = n := by
  rw [signedValue, Nat.ofDigitChars_ten_toDigits]
  by_cases hn : n < 0
  · rw [if_pos (decide_eq_true hn)]
    omega
  · rw [if_neg (by simpa using hn)]
    omega

private theorem exponentText_signedDigits (n : Int) :
    ExponentText ('e' :: signedDigits n) (some n) := by
  have h : ExponentText ('e' :: (minusText (decide (n < 0)) ++ Nat.toDigits 10 n.natAbs))
      (some (signedValue (decide (n < 0)) (Nat.toDigits 10 n.natAbs))) :=
    .present (.inl rfl) (.plain (decide (n < 0))) (isDigits_toDigits n.natAbs)
  rw [signedValue_toDigits] at h
  simpa [minusText, signedDigits] using h

structure WellFormed (n : Numeral) : Prop where
  whole : IsDigits n.whole
  fraction : ∀ ds ∈ n.fraction, IsDigits ds

private theorem render_eq (n : Numeral) :
    n.render = minusText n.negative ++ (n.whole ++ (n.fraction.elim [] ('.' :: ·)
      ++ n.exponent.elim [] fun e => 'e' :: signedDigits e)) := by
  obtain ⟨negative, whole, fraction, exponent⟩ := n
  cases fraction <;> cases exponent <;> simp [render, minusText]

/-- The text of a well-formed numeral is written as that numeral. -/
theorem WellFormed.written_render {n : Numeral} (h : n.WellFormed) : Written n.render n := by
  have hf : FractionText (n.fraction.elim [] ('.' :: ·)) n.fraction := by
    cases hn : n.fraction with
    | none => exact .absent
    | some ds => exact .present (h.fraction ds hn)
  have he : ExponentText (n.exponent.elim [] fun e => 'e' :: signedDigits e) n.exponent := by
    cases n.exponent with
    | none => exact .absent
    | some e => exact exponentText_signedDigits e
  rw [render_eq]
  exact .mk n.negative h.whole hf he

/-- The text of an integer is a numeral for that integer. -/
theorem wellFormed_ofInt (n : Int) : (ofInt n).WellFormed :=
  ⟨isDigits_toDigits n.natAbs, by simp [ofInt]⟩

theorem toInt_ofInt (n : Int) : (ofInt n).toInt = n := signedValue_toDigits n

end DecisionRules.Numeral
