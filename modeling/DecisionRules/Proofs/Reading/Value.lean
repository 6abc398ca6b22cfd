import DecisionRules.Proofs.Binary64.Printed
import DecisionRules.Proofs.Reading.Token

/-! Values as a language. A value is read in front of every text that does not prolong a
numeral, and the text of a finite value denotes the value. -/
namespace DecisionRules

namespace Reading

open Numeral (Written Ends)
open Text (QuotedBody StartsOutside startsOutside_cons)

/-- A value. A numeral without fraction and exponent stands for an integer of 64 bits, every
other one for the number that it is rounded to. -/
inductive ValueText : List Char → Value → Prop
  | string {body text : List Char} : QuotedBody body text →
      ValueText ('"' :: (body ++ ['"'])) (.string (.ofList text))
  | trueWord : ValueText "true".toList (.bool true)
  | falseWord : ValueText "false".toList (.bool false)
  | integer {text : List Char} {n : Numeral} {k : Int64} : Written text n →
      n.isInteger = true → (k.toInt : ℚ) = n.toRat → ValueText text (.int k)
  | float {text : List Char} {n : Numeral} {x : Binary64} : Written text n →
      n.isInteger = false → Binary64.Rounds n.magnitude n.negative x → ValueText text (.float x)

private theorem toInt64?_eq_some_iff {n : Numeral} {k : Int64} :
    n.toInt64? = some k ↔ k.toInt = n.toInt := by
  rw [Numeral.toInt64?]
  constructor
  · intro h
    split at h
    · next hfits =>
      cases h
      exact Int64.toInt_ofInt_of_le hfits.1 (Int.lt_add_one_of_le hfits.2)
    · cases h
  · intro h
    rw [← h, if_pos ⟨k.minValue_le_toInt, k.toInt_le⟩, Int64.ofInt_toInt]

/-- The integers that 64 bits hold. -/
theorem toInt64?_eq_none_iff {n : Numeral} :
    n.toInt64? = none ↔ ¬(-2 ^ 63 ≤ n.toInt ∧ n.toInt ≤ 2 ^ 63 - 1) := by
  rw [Numeral.toInt64?, ite_eq_right_iff]
  exact ⟨fun h hfits => Option.some_ne_none _ (h hfits), fun h hfits => absurd hfits h⟩

theorem ofNumeral?_eq_int_iff {n : Numeral} (h : n.isInteger = true) {v : Value} :
    ofNumeral? n = some v ↔ ∃ k : Int64, (k.toInt : ℚ) = n.toRat ∧ v = .int k := by
  simp only [ofNumeral?, h, if_true, Option.map_eq_some_iff, toInt64?_eq_some_iff,
    Numeral.toInt_eq_iff h, eq_comm (b := v)]

theorem ofNumeral?_eq_float_iff {n : Numeral} (h : n.isInteger = false) {v : Value} :
    ofNumeral? n = some v ↔ ∃ x, Binary64.Rounds n.magnitude n.negative x ∧ v = .float x := by
  simp [ofNumeral?, h, ← Numeral.toBinary64_eq_iff, eq_comm (b := v)]

/-- A numeral is the text of the value that is made of it. -/
theorem valueText_of_written {text : List Char} {n : Numeral} {v : Value} (h : Written text n)
    (hv : ofNumeral? n = some v) : ValueText text v := by
  cases hint : n.isInteger with
  | true =>
    obtain ⟨k, hk, rfl⟩ := (ofNumeral?_eq_int_iff hint).mp hv
    exact .integer h hint hk
  | false =>
    obtain ⟨x, hx, rfl⟩ := (ofNumeral?_eq_float_iff hint).mp hv
    exact .float h hint hx

theorem valueText_one : ValueText ['1'] (.int 1) :=
  valueText_of_written (.mk false (Numeral.isDigits_singleton rfl) .absent .absent) rfl

theorem number_eq_ok_iff {cs rest : List Char} {v : Value} :
    number.run cs = .ok v rest ↔ ∃ n, Numeral.read? cs = some (n, rest) ∧ ofNumeral? n = some v := by
  simp only [number, Numeral.read?]
  constructor
  · intro h
    split at h
    · cases h
    · next n tail hread =>
      split at h
      · next w hw =>
        cases h
        exact ⟨n, hread, hw⟩
      · cases h
  · intro hr
    obtain ⟨n, hread, hv⟩ := hr
    rw [hread]
    simp [hv]

private theorem number_sound {cs rest : List Char} {v : Value} (h : number.run cs = .ok v rest) :
    ∃ text, cs = text ++ rest ∧ ValueText text v := by
  obtain ⟨n, hread, hv⟩ := number_eq_ok_iff.mp h
  obtain ⟨text, hcs, hwritten⟩ := Numeral.read?_sound hread
  exact ⟨text, hcs, valueText_of_written hwritten hv⟩

theorem value_sound {cs rest : List Char} {v : Value} (h : value.run cs = .ok v rest) :
    ∃ text, cs = text ++ rest ∧ ValueText text v := by
  rw [value, Reader.run_expecting, Reply.expecting_eq_ok_iff] at h
  rcases Reader.orElse_sound h with h | h
  · rw [Reader.run_map, Reply.bind_eq_ok_iff] at h
    obtain ⟨s, mid, hs, heq⟩ := h
    cases heq
    obtain ⟨body, text, hcs, hb, rfl⟩ := quotedText_eq_ok_iff.mp hs
    exact ⟨_, hcs, .string hb⟩
  rcases Reader.orElse_sound h with h | h
  · obtain ⟨hcs, rfl⟩ := Reader.word_eq_ok_iff.mp h
    exact ⟨_, hcs, .trueWord⟩
  rcases Reader.orElse_sound h with h | h
  · obtain ⟨hcs, rfl⟩ := Reader.word_eq_ok_iff.mp h
    exact ⟨_, hcs, .falseWord⟩
  · exact number_sound h

/-- Where neither a quote nor a truth value begins, a value is a number. -/
private theorem value_eq_number {cs : List Char} (hq : StartsOutside (· == '"') cs)
    (ht : ¬"true".toList <+: cs) (hf : ¬"false".toList <+: cs) :
    value.run cs = (number.run cs).expecting .value := by
  have hmiss : (Value.string <$> quotedText).run cs = .miss cs [] := by
    rw [Reader.run_map, quotedText_miss hq]
    rfl
  rw [value, Reader.run_expecting, Reader.orElse_of_miss hmiss,
    Reader.orElse_of_miss (Reader.word_of_not_prefix ht _),
    Reader.orElse_of_miss (Reader.word_of_not_prefix hf _)]

/-- A numeral begins with a minus sign or a digit. -/
theorem written_head {text : List Char} {n : Numeral} (h : Written text n) (rest : List Char) :
    ∃ c cs, text ++ rest = c :: cs ∧ (c = '-' ∨ c.isDigit = true) := by
  obtain @⟨negative, whole, f, e, fraction, exponent, hw, -, -⟩ := h
  cases negative with
  | true => exact ⟨_, _, rfl, .inl rfl⟩
  | false =>
    cases whole with
    | nil => exact absurd rfl hw.ne_nil
    | cons d ds => exact ⟨d, _, rfl, .inr (hw.isDigit d List.mem_cons_self)⟩

/-- Where a numeral begins, a value is a number. -/
private theorem value_run_written {text : List Char} {n : Numeral} (h : Written text n)
    (rest : List Char) :
    value.run (text ++ rest) = (number.run (text ++ rest)).expecting .value := by
  obtain ⟨c, cs, hhead, hc⟩ := written_head h rest
  have hne : ∀ d : Char, d ≠ '-' → d.isDigit = false → c ≠ d := by
    rintro d hminus hdigit rfl
    rcases hc with hc | hc
    · exact hminus hc
    · rw [hdigit] at hc
      cases hc
  rw [hhead]
  apply value_eq_number
  · simpa using hne '"' (by decide) (by decide)
  · exact fun hp => hne 't' (by decide) (by decide) (List.cons_prefix_cons.mp hp).1.symm
  · exact fun hp => hne 'f' (by decide) (by decide) (List.cons_prefix_cons.mp hp).1.symm

private theorem value_complete_number {text rest : List Char} {n : Numeral} {v : Value}
    (h : Written text n) (hv : ofNumeral? n = some v) (hr : Ends rest) :
    value.run (text ++ rest) = .ok v rest := by
  have hnumber := number_eq_ok_iff.mpr ⟨n, Numeral.read?_complete h hr, hv⟩
  rw [value_run_written h, hnumber, Reply.ok_expecting]

/-- A numeral that denotes no value fails for good. -/
theorem value_isFatal {text rest : List Char} {n : Numeral} (h : Written text n)
    (hn : ofNumeral? n = none) (hr : Ends rest) : IsFatal (value.run (text ++ rest)) := by
  have hread : Numeral.read? (text ++ rest) = some (n, rest) := Numeral.read?_complete h hr
  have hnumber : number.run (text ++ rest) = .fatal rest [] := by
    simp only [Numeral.read?] at hread
    simp only [number, hread, hn]
  rw [value_run_written h, hnumber]
  exact ⟨rest, [.value], rfl⟩

/-- Every text of a value is read as the value, whatever stands behind it but the
continuation of a numeral. -/
theorem value_complete {text rest : List Char} {v : Value} (h : ValueText text v)
    (hr : Ends rest) : value.run (text ++ rest) = .ok v rest := by
  cases h with
  | string hb =>
    refine congrArg (Reply.expecting .value) (Reader.orElse_of_ok ?_ _)
    rw [Reader.run_map, quotedText_eq_ok_iff.mpr ⟨_, _, rfl, hb, rfl⟩]
    rfl
  | trueWord => rfl
  | falseWord => rfl
  | integer hw hint hk =>
    exact value_complete_number hw ((ofNumeral?_eq_int_iff hint).mpr ⟨_, hk, rfl⟩) hr
  | float hw hint hx =>
    exact value_complete_number hw ((ofNumeral?_eq_float_iff hint).mpr ⟨_, hx, rfl⟩) hr

end Reading

open Reading (ValueText value)

/-- The text of a finite value denotes the value. -/
theorem Value.valueText_spelling {v : Value} (h : v.isFinite = true) : ValueText v.spelling v := by
  cases v with
  | int n =>
    have hn : n.toInt = (Numeral.ofInt n.toInt).toInt := (Numeral.toInt_ofInt _).symm
    exact .integer (Numeral.wellFormed_ofInt _).written_render rfl ((Numeral.toInt_eq_iff rfl).mp hn)
  | float x =>
    cases x with
    | finite negative place hplace =>
      have hp := Binary64.prints_finiteNumeral negative hplace
      exact .float hp.wellFormed.written_render hp.not_isInteger
        (Numeral.toBinary64_eq_iff.mp hp.toBinary64.symm)
    | nan | infinity => cases h
  | bool b => cases b <;> constructor
  | string s =>
    have ht := ValueText.string (Text.quotedBody_flatMap_writeUnit s.toList)
    rwa [String.ofList_toList] at ht

/-- The words for numbers that are not finite are no values, whatever stands behind them. -/
theorem Value.value_miss_spelling {v : Value} (h : v.isFinite = false) (behind : List Char) :
    ∃ rest expected, value.run (v.spelling ++ behind) = .miss rest expected := by
  cases v with
  | float x =>
    cases x with
    | finite => cases h
    | nan => exact ⟨_, _, rfl⟩
    | infinity negative => cases negative <;> exact ⟨_, _, rfl⟩
  | int | bool | string => cases h

end DecisionRules
