import DecisionRules.Proofs.Reading.ValuePlace

/-! Integer literals. Where a value stands in a text, digits with or without a minus sign are
read as the integer they denote if 64 bits hold it, and the text is refused if they do not. With
a fraction or an exponent behind them they are a floating-point number of whatever magnitude. -/
namespace DecisionRules.Reading

open Numeral (Ends IsDigits FractionText ExponentText Written minusText signedValue)

variable {α : Type} {parse : String → Except ParseError α} {Means : α → List Symbol → Prop}
  {before after : List Symbol} {front behind text : List Char}

/-- In some text a value stands between two parts that are spelled from these symbols. -/
inductive ValueBetween (Means : α → List Symbol → Prop) (before after : List Symbol) :
    List Char → List Char → Prop
  | mk {a : α} {v : Value} {front lead text behind : List Char} :
      Means a (before ++ .value v :: after) → Laid before front (lead ++ (text ++ behind)) →
      Filler lead text → ValueText text v → Spelled after behind →
      ValueBetween Means before after (front ++ lead) behind

/-- How a reader of texts takes a literal of digits in the place of any value. The symbols around
the place stay as they are, and the literal says which value is between them. -/
structure TakesLiteral (negative : Bool) (ds : List Char) (parse : String → Except ParseError α)
    (Means : α → List Symbol → Prop) : Prop where
  fits {before after : List Symbol} {front behind : List Char} :
    ValueBetween Means before after front behind →
    -2 ^ 63 ≤ signedValue negative ds ∧ signedValue negative ds ≤ 2 ^ 63 - 1 →
    ∃ (k : Int64) (a : α), k.toInt = signedValue negative ds ∧
      Means a (before ++ .value (.int k) :: after) ∧
      parse (.ofList (front ++ (minusText negative ++ ds ++ behind))) = .ok a
  overflow {before after : List Symbol} {front behind : List Char} :
    ValueBetween Means before after front behind →
    ¬(-2 ^ 63 ≤ signedValue negative ds ∧ signedValue negative ds ≤ 2 ^ 63 - 1) →
    ∃ e, parse (.ofList (front ++ (minusText negative ++ ds ++ behind))) = .error e
  float {before after : List Symbol} {front behind f e : List Char} {fraction : Option (List Char)}
    {exponent : Option Int} :
    ValueBetween Means before after front behind → FractionText f fraction →
    ExponentText e exponent → f ++ e ≠ [] →
    ∃ (x : Binary64) (a : α),
      Binary64.Rounds (Numeral.magnitude ⟨negative, ds, fraction, exponent⟩) negative x ∧
      Means a (before ++ .value (.float x) :: after) ∧
      parse (.ofList (front ++ (minusText negative ++ (ds ++ (f ++ e)) ++ behind))) = .ok a

/-- Every value of a text that is read stands between two parts of the text. -/
theorem exists_valueBetween (hparse : ReadsSymbols parse Means) {t : String} {a : α}
    (h : parse t = .ok a) : ∃ σs, Means a σs ∧ ∀ before v after, σs = before ++ .value v :: after →
      ∃ front text behind, t.toList = front ++ (text ++ behind) ∧ ValueText text v ∧
        ValueBetween Means before after front behind := by
  obtain ⟨σs, hmeans, hcuts⟩ := hparse.exists_cuts h
  refine ⟨σs, hmeans, ?_⟩
  rintro before v after rfl
  obtain ⟨front, rest, ht, hfront, hrest⟩ := hcuts _ _ rfl
  obtain @⟨_, trail, hlaid, htrail⟩ := hrest
  obtain ⟨lead, text, more, rfl, hlead, hv, hmore⟩ := laid_cons_iff.mp hlaid
  have hfront : Laid before front (lead ++ (text ++ (more ++ trail))) := by simpa using hfront
  exact ⟨front ++ lead, text, more ++ trail, by simpa using ht, hv,
    .mk hmeans hfront hlead hv (.mk hmore htrail)⟩

/-- Any other value can be written between the two parts. -/
private theorem ValueBetween.exchange (h : ValueBetween Means before after front behind)
    (hplaces : ValuePlaces Means) (hparse : ReadsSymbols parse Means) {w : Value}
    (hw : ValueText text w) : ∃ a, Means a (before ++ .value w :: after) ∧
      parse (.ofList (front ++ (text ++ behind))) = .ok a := by
  obtain @⟨a, v, front, lead, old, behind, hmeans, hfront, hlead, hv, hbehind⟩ := h
  obtain ⟨b, hb⟩ := hplaces.exchange w hmeans
  have hvalue : Laid [.value w] (lead ++ (text ++ [])) behind :=
    .cons _ (hv.visible.filler_before hlead text) hw (.nil behind)
  have hbefore : Laid before front ((lead ++ (text ++ [])) ++ behind) :=
    hfront.in_front_of fun field hlast => absurd hlast (hplaces.not_behind_name hmeans field)
  have hspelled := hbefore.spelled (hvalue.spelled hbehind)
  exact ⟨b, hb, hparse.mpr ⟨_, hb, by simpa using hspelled⟩⟩

/-- A comma, a bracket or nothing stands behind a numeral, and none of these prolongs it. -/
private theorem Spelled.ends (h : Spelled after behind)
    (hclosed : ∀ σ ∈ after.head?, σ = .comma ∨ σ = .closing) : Ends behind := by
  obtain @⟨_, trail, hlaid, htrail⟩ := h
  cases after with
  | nil =>
    cases laid_nil_iff.mp hlaid
    exact ends_of_filler htrail
  | cons σ after =>
    obtain ⟨f, mark, more, rfl, hf, hmark, -⟩ := laid_cons_iff.mp hlaid
    have hends : Ends (mark ++ (more ++ trail)) := by
      rcases hclosed σ rfl with rfl | rfl <;> cases hmark <;>
        exact (Text.startsOutside_cons _ _ _).mpr rfl
    have hall := ((hmark.visible.filler_append_iff _).mpr hf).ends hends
    simpa using hall

private theorem ValueBetween.refused (h : ValueBetween Means before after front behind)
    (hplaces : ValuePlaces Means) (hrefuses : RefusesAtValues parse Means) {n : Numeral}
    (hn : Written text n) (hnone : ofNumeral? n = none) :
    ∃ e, parse (.ofList (front ++ (text ++ behind))) = .error e := by
  obtain @⟨a, v, front, lead, old, behind, hmeans, hfront, hlead, hv, hbehind⟩ := h
  have hbefore : Laid before front (lead ++ (text ++ behind)) :=
    hfront.in_front_of fun field hlast => absurd hlast (hplaces.not_behind_name hmeans field)
  have hends : Ends behind := hbehind.ends (hplaces.closed hmeans)
  have hskip : skipFiller (lead ++ (text ++ behind)) = text ++ behind :=
    (hv.visible.filler_before hlead _).skipFiller_eq
      ((written_visible hn).startsOutside behind)
  have hbad : IsFatal ((do filler; value).run (lead ++ (text ++ behind))) := by
    rw [Reader.run_bind, run_filler, Reply.ok_bind, hskip]
    exact value_isFatal hn hnone hends
  rw [List.append_assoc]
  exact hrefuses hmeans hbefore hbad

/-- Exactly the integers of 64 bits are values. -/
theorem takesLiteral (hplaces : ValuePlaces Means) (hparse : ReadsSymbols parse Means)
    (hrefuses : RefusesAtValues parse Means) (negative : Bool) {ds : List Char}
    (hds : IsDigits ds) : TakesLiteral negative ds parse Means where
  fits hplace hfits := by
    have hwritten := Written.mk negative hds .absent .absent
    have hk : (Int64.ofInt (signedValue negative ds)).toInt = signedValue negative ds :=
      Int64.toInt_ofInt_of_le hfits.1 (Int.lt_add_one_of_le hfits.2)
    have hvalue := ValueText.integer hwritten rfl ((Numeral.toInt_eq_iff rfl).mp hk)
    obtain ⟨a, ha, hread⟩ := hplace.exchange hplaces hparse hvalue
    exact ⟨_, a, hk, ha, by simpa using hread⟩
  overflow hplace hout := by
    have hwritten := Written.mk negative hds .absent .absent
    have hnone : ofNumeral? ⟨negative, ds, none, none⟩ = none := by
      have hnone : Numeral.toInt64? ⟨negative, ds, none, none⟩ = none :=
        toInt64?_eq_none_iff.mpr hout
      rw [ofNumeral?, if_pos (by rfl), hnone, Option.map_none]
    obtain ⟨e, he⟩ := hplace.refused hplaces hrefuses hwritten hnone
    exact ⟨e, by simpa using he⟩
  float {_ _ _ _ f e fraction exponent} hplace hf he hne := by
    have hwritten := Written.mk negative hds hf he
    have hfloat : Numeral.isInteger ⟨negative, ds, fraction, exponent⟩ = false := by
      cases hf <;> cases he <;> simp_all [Numeral.isInteger]
    have hrounds := Numeral.rounds_toBinary64 ⟨negative, ds, fraction, exponent⟩
    obtain ⟨a, ha, hread⟩ := hplace.exchange hplaces hparse (.float hwritten hfloat hrounds)
    exact ⟨_, a, hrounds, ha, hread⟩

/-- Integer literals are exact or refused, by each of the three readers. -/
theorem literals_exact_or_refused (negative : Bool) {ds : List Char} (hds : IsDigits ds) :
    TakesLiteral negative ds Predicate.parse (fun p σs => Predicate.symbols p = σs) ∧
      TakesLiteral negative ds Predicate.parseList (ListSymbols Predicate.symbols) ∧
      TakesLiteral negative ds MembershipEntry.parseList (ListSymbols MembershipEntry.symbols) := by
  refine ⟨?_, ?_, ?_⟩
  · exact takesLiteral Predicate.valuePlaces predicate_readsSymbols predicate_refusesAtValues
      negative hds
  · exact takesLiteral Predicate.valuePlaces.list predicates_readsSymbols
      predicates_refusesAtValues negative hds
  · exact takesLiteral MembershipEntry.valuePlaces.list entries_readsSymbols
      entries_refusesAtValues negative hds

/-- The place of the second value in `x in (1, 1)`. -/
private theorem valueBetween_second : ValueBetween (ListSymbols MembershipEntry.symbols)
    [.name "x", .membershipWord, .opening, .value (.int 1), .comma] [.closing]
    "x in (1, ".toList ")".toList := by
  have hspace (rest : List Char) : Filler [' '] rest := .blank rfl (.nil rest)
  have hname : NameText ['x'] "x" " in (1, 1)".toList :=
    .bare rfl ((Text.startsOutside_cons _ _ _).mpr rfl)
  have hlist : Laid [.opening, .value (.int 1), .comma] " (1,".toList " 1)".toList :=
    @Laid.cons .opening _ [' '] ['('] "1,".toList _ (hspace _) rfl
      (@Laid.cons (.value (.int 1)) _ [] ['1'] ",".toList _ (.nil _) valueText_one
        (@Laid.cons .comma _ [] [','] [] _ (.nil _) rfl (.nil _)))
  have hfront := @Laid.cons (.name "x") _ [] ['x'] " in (1,".toList _ (.nil _) hname
    (@Laid.cons .membershipWord _ [' '] "in".toList " (1,".toList _ (hspace _) .short hlist)
  have hclosing : Laid [.closing] [')'] [] :=
    @Laid.cons .closing _ [] [')'] [] _ (.nil _) rfl (.nil _)
  have hmeans : ListSymbols MembershipEntry.symbols [⟨"x", [.int 1, .int 1]⟩]
      [.name "x", .membershipWord, .opening, .value (.int 1), .comma, .value (.int 1), .closing] :=
    .plain
  exact @ValueBetween.mk _ _ _ _ _ _ "x in (1,".toList [' '] ['1'] _ hmeans hfront (hspace _)
    valueText_one (@Spelled.mk _ [')'] [] hclosing (.nil _))

/-- The least integer is read, the one above the greatest is refused, and with an exponent behind
it is a floating-point number. -/
theorem literals_at_the_bounds :
    (∃ (k : Int64) (es : List MembershipEntry), k.toInt = -2 ^ 63 ∧
      ListSymbols MembershipEntry.symbols es [.name "x", .membershipWord, .opening,
        .value (.int 1), .comma, .value (.int k), .closing] ∧
      MembershipEntry.parseList "x in (1, -9223372036854775808)" = .ok es) ∧
    (∃ e, MembershipEntry.parseList "x in (1, 9223372036854775808)" = .error e) ∧
    (∃ es : List MembershipEntry,
      ListSymbols MembershipEntry.symbols es [.name "x", .membershipWord, .opening,
        .value (.int 1), .comma, .value (.float (.finite false 0x43E0000000000000 (by decide))),
        .closing] ∧
      MembershipEntry.parseList "x in (1, 9223372036854775808e0)" = .ok es) := by
  have hdigits : IsDigits "9223372036854775808".toList := ⟨by simp, by simp⟩
  have hexponent : ExponentText "e0".toList (some 0) :=
    @ExponentText.present 'e' [] ['0'] false (.inl rfl) (.plain false)
      (Numeral.isDigits_singleton rfl)
  obtain ⟨-, -, hminus⟩ := literals_exact_or_refused true hdigits
  obtain ⟨-, -, hplain⟩ := literals_exact_or_refused false hdigits
  have hleast := hminus.fits valueBetween_second (by decide)
  have hover := hplain.overflow valueBetween_second (by decide)
  obtain ⟨x, es, hx, hmeans, hread⟩ :=
    hplain.float valueBetween_second .absent hexponent (by simp)
  obtain rfl : x = .finite false 0x43E0000000000000 (by decide) := Numeral.toBinary64_eq_iff.mpr hx
  have htext (text : String) : String.ofList text.toList = text := String.ofList_toList
  rw [← htext "x in (1, -9223372036854775808)", ← htext "x in (1, 9223372036854775808)",
    ← htext "x in (1, 9223372036854775808e0)"]
  exact ⟨hleast, hover, es, hmeans, hread⟩

end DecisionRules.Reading
