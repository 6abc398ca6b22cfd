import DecisionRules.Proofs.Reading.Place
import DecisionRules.Proofs.Reading.PredicateText
import Mathlib

/-! Lists of predicates against single ones. A list is cut at its separating commas, and
each piece is read as it would be read alone; the filler of a piece reaches up to its
commas, so that a piece is filler, predicate, filler. -/
namespace DecisionRules.Reading

open Place (Passes)

def IsFiller (t : String) : Prop := Filler t.toList []

/-- The text ends in a comment, and no line break has ended the comment yet. -/
private def EndsInComment (t : String) : Prop := Place.behind .outside t.toList = .comment

/-- The text is the pieces with commas between them, and no piece that a comma follows
takes the comma into a comment. -/
structure Joined (t : String) (pieces : List String) : Prop where
  eq_intercalate : t = ",".intercalate pieces
  not_endsInComment : ∀ s ∈ pieces.dropLast, ¬EndsInComment s

/-- What may stand behind the last predicate: nothing, or one more piece with nothing to
read in it. -/
inductive FinalFiller : List String → Prop
  | absent : FinalFiller []
  | present {w : String} : IsFiller w → FinalFiller [w]

/-- The parts of a text between the commas that are neither quoted nor commented out. -/
def commaPieces (t : String) : List String := (Place.pieces .outside t.toList).map String.ofList

section Pieces

variable {s : String} {cs : List Char} {p : Predicate} {ps : List Predicate}

private theorem PredicateText.passes {text : List Char} (h : PredicateText text p) :
    Passes .outside text .outside := by
  obtain ⟨hname, hf, hcomparison, hg, hvalue⟩ := h
  have hbehind := (hcomparison.visible.append _).passes_filler hf
  exact hname.isToken.quiet.passes.append (hbehind.append (hcomparison.isToken.quiet.passes.append
    ((hvalue.visible.passes_filler hg).append hvalue.isToken.quiet.passes)))

/-- Filler that does not end in a comment is filler before a comma. -/
private theorem filler_comma_iff {v : List Char} :
    Filler v [','] ↔ Filler v [] ∧ Passes .outside v .outside := by
  constructor
  · intro h
    exact ⟨h.replace [] (by decide) [], h.passes_outside (by decide)⟩
  · rintro ⟨h, hpasses⟩
    rcases h.passes with ⟨-, hany⟩ | ⟨hcomment, -⟩
    · exact hany [',']
    · cases hpasses.behind_eq.symm.trans hcomment.behind_eq

/-- A predicate before a comma is one alone that does not end in a comment. -/
private theorem padded_comma_iff : Padded PredicateText [','] cs p ↔
    Padded PredicateText [] cs p ∧ Passes .outside cs .outside := by
  constructor
  · rintro ⟨hlead, hp, hcomma⟩
    obtain ⟨htrail, hpasses⟩ := filler_comma_iff.mp hcomma
    exact ⟨.mk hlead hp htrail,
      (hp.visible.passes_filler hlead).append (hp.passes.append hpasses)⟩
  · rintro ⟨⟨hlead, hp, htrail⟩, hpasses⟩
    refine .mk hlead hp ?_
    rcases htrail.passes with ⟨-, hany⟩ | ⟨hcomment, -⟩
    · exact hany [',']
    · have hwhole := (hp.visible.passes_filler hlead).append (hp.passes.append hcomment)
      cases hpasses.behind_eq.symm.trans hwhole.behind_eq

private inductive CommaJoin : List Char → List String → Prop
  | last (s : String) : CommaJoin s.toList [s]
  | cons {s : String} {cs : List Char} {pieces : List String} :
      Passes .outside s.toList .outside → CommaJoin cs pieces →
      CommaJoin (s.toList ++ ',' :: cs) (s :: pieces)

private theorem exists_toList (cs : List Char) : ∃ s : String, s.toList = cs :=
  ⟨.ofList cs, String.toList_ofList⟩

/-- An empty list is filler, or two of them with a comma between. -/
private theorem listText_nil_iff_commaJoin : ListText PredicateText cs [] ↔
    ∃ v tail, IsFiller v ∧ FinalFiller tail ∧ CommaJoin cs (v :: tail) := by
  rw [listText_nil_iff]
  constructor
  · rintro (h | ⟨v, w, rfl, hv, hw⟩)
    · obtain ⟨v, rfl⟩ := exists_toList cs
      exact ⟨v, [], h, .absent, .last v⟩
    · obtain ⟨hfiller, hpasses⟩ := filler_comma_iff.mp hv
      obtain ⟨v, rfl⟩ := exists_toList v
      obtain ⟨w, rfl⟩ := exists_toList w
      exact ⟨v, [w], hfiller, .present hw, .cons hpasses (.last w)⟩
  · rintro ⟨v, tail, hv, htail, hjoin⟩
    cases htail with
    | absent =>
      obtain _ | ⟨-, ⟨⟩⟩ := hjoin
      exact .inl hv
    | present hw =>
      obtain _ | ⟨hpasses, _ | ⟨-, ⟨⟩⟩⟩ := hjoin
      exact .inr ⟨_, _, rfl, filler_comma_iff.mpr ⟨hv, hpasses⟩, hw⟩

private theorem listText_singleton_iff_commaJoin : ListText PredicateText cs [p] ↔
    ∃ s tail, Predicate.parse s = .ok p ∧ FinalFiller tail ∧ CommaJoin cs (s :: tail) := by
  rw [listText_singleton_iff PredicateText.visible]
  constructor
  · rintro (hp | ⟨s, w, rfl, hp, hw⟩)
    · obtain ⟨s, rfl⟩ := exists_toList cs
      exact ⟨s, [], parse_eq_ok_iff_padded.mpr hp, .absent, .last s⟩
    · obtain ⟨halone, hpasses⟩ := padded_comma_iff.mp hp
      obtain ⟨s, rfl⟩ := exists_toList s
      obtain ⟨w, rfl⟩ := exists_toList w
      exact ⟨s, [w], parse_eq_ok_iff_padded.mpr halone, .present hw, .cons hpasses (.last w)⟩
  · rintro ⟨s, tail, hread, htail, hjoin⟩
    have halone := parse_eq_ok_iff_padded.mp hread
    cases htail with
    | absent =>
      obtain _ | ⟨-, ⟨⟩⟩ := hjoin
      exact .inl halone
    | present hw =>
      obtain _ | ⟨hpasses, _ | ⟨-, ⟨⟩⟩⟩ := hjoin
      exact .inr ⟨_, _, rfl, padded_comma_iff.mpr ⟨halone, hpasses⟩, hw⟩

private theorem listText_cons_iff_commaPiece (hne : ps ≠ []) : ListText PredicateText cs (p :: ps) ↔
    ∃ s rest, cs = String.toList s ++ ',' :: rest ∧ Predicate.parse s = .ok p ∧
      Passes .outside s.toList .outside ∧ ListText PredicateText rest ps := by
  rw [listText_cons_iff PredicateText.visible hne]
  constructor
  · rintro ⟨s, rest, rfl, hp, hrest⟩
    obtain ⟨halone, hpasses⟩ := padded_comma_iff.mp hp
    obtain ⟨s, rfl⟩ := exists_toList s
    exact ⟨s, rest, rfl, parse_eq_ok_iff_padded.mpr halone, hpasses, hrest⟩
  · rintro ⟨s, rest, rfl, hread, hpasses, hrest⟩
    exact ⟨_, rest, rfl, padded_comma_iff.mpr ⟨parse_eq_ok_iff_padded.mp hread, hpasses⟩, hrest⟩

/-- A list of predicates is its pieces, each of them a predicate alone. The induction is on
the predicates; the last one has no comma to mind. -/
private theorem listText_iff_commaJoin (hne : ps ≠ []) : ListText PredicateText cs ps ↔
    ∃ ts tail, List.Forall₂ (fun s p => Predicate.parse s = .ok p) ts ps ∧ FinalFiller tail ∧
      CommaJoin cs (ts ++ tail) := by
  induction ps generalizing cs with
  | nil => exact absurd rfl hne
  | cons p ps ih =>
    cases ps with
    | nil =>
      rw [listText_singleton_iff_commaJoin]
      constructor
      · rintro ⟨s, tail, hread, htail, hjoin⟩
        exact ⟨[s], tail, .cons hread .nil, htail, hjoin⟩
      · rintro ⟨_, tail, _ | ⟨hread, ⟨⟩⟩, htail, hjoin⟩
        exact ⟨_, tail, hread, htail, hjoin⟩
    | cons q ps =>
      rw [listText_cons_iff_commaPiece (List.cons_ne_nil q ps)]
      constructor
      · rintro ⟨s, rest, rfl, hread, hpasses, hrest⟩
        obtain ⟨ts, tail, hts, htail, hjoin⟩ := (ih (List.cons_ne_nil q ps)).mp hrest
        exact ⟨s :: ts, tail, .cons hread hts, htail, .cons hpasses hjoin⟩
      · rintro ⟨_, tail, _ | ⟨hread, _ | ⟨hnext, hts⟩⟩, htail, hjoin⟩
        obtain _ | ⟨hpasses, hrest⟩ := hjoin
        exact ⟨_, _, rfl, hread, hpasses,
          (ih (List.cons_ne_nil q ps)).mpr ⟨_, tail, .cons hnext hts, htail, hrest⟩⟩

end Pieces

section Joining

variable {t s : String} {cs : List Char} {pieces : List String}

private theorem commaJoin_iff (hne : pieces ≠ []) : CommaJoin cs pieces ↔
    cs = [','].intercalate (pieces.map String.toList) ∧
      ∀ s ∈ pieces.dropLast, Passes .outside s.toList .outside := by
  induction pieces generalizing cs with
  | nil => exact absurd rfl hne
  | cons s pieces ih =>
    cases pieces with
    | nil =>
      constructor
      · rintro (_ | ⟨-, ⟨⟩⟩)
        simp
      · rintro ⟨rfl, -⟩
        simpa using CommaJoin.last s
    | cons u pieces =>
      have hrest (cs : List Char) := @ih cs (List.cons_ne_nil u pieces)
      rw [List.map_cons, List.map_cons, List.intercalate_cons_cons, ← List.map_cons,
        List.dropLast_cons_cons, List.forall_mem_cons, List.append_assoc, List.singleton_append]
      constructor
      · rintro (_ | ⟨hpasses, hjoin⟩)
        obtain ⟨rfl, hopen⟩ := (hrest _).mp hjoin
        exact ⟨rfl, hpasses, hopen⟩
      · rintro ⟨rfl, hpasses, hopen⟩
        exact .cons hpasses ((hrest _).mpr ⟨rfl, hopen⟩)

/-- A text that neither ends inside quotes nor has a separating comma in it. -/
private def IsPiece (s : String) : Prop :=
  Passes .outside s.toList .outside ∨ Passes .outside s.toList .comment

private theorem isPiece_of_isFiller (h : IsFiller s) : IsPiece s := by
  rcases Filler.passes h with ⟨hs, -⟩ | ⟨hs, -⟩
  · exact .inl hs
  · exact .inr hs

private theorem isPiece_of_parse {p : Predicate} (h : Predicate.parse s = .ok p) : IsPiece s := by
  have halone := parse_eq_ok_iff_padded.mp h
  rw [IsPiece]
  generalize s.toList = cs at halone ⊢
  obtain ⟨hlead, hp, htrail⟩ := halone
  have hbefore := (hp.visible.passes_filler hlead).append hp.passes
  rw [← List.append_assoc]
  rcases htrail.passes with ⟨ht, -⟩ | ⟨ht, -⟩
  · exact .inl (hbefore.append ht)
  · exact .inr (hbefore.append ht)

private theorem IsPiece.passes_iff (h : IsPiece s) :
    Passes .outside s.toList .outside ↔ ¬EndsInComment s := by
  rw [EndsInComment]
  rcases h with h | h <;> rw [h.behind_eq]
  · simp [h]
  · simp only [not_true_eq_false, iff_false]
    intro hout
    cases hout.behind_eq.symm.trans h.behind_eq

private theorem joined_iff_commaJoin (hne : pieces ≠ []) (hpieces : ∀ s ∈ pieces, IsPiece s) :
    Joined t pieces ↔ CommaJoin t.toList pieces := by
  have hlast : (∀ s ∈ pieces.dropLast, Passes .outside s.toList .outside) ↔
      ∀ s ∈ pieces.dropLast, ¬EndsInComment s :=
    forall₂_congr fun s hs => (hpieces s (List.dropLast_subset _ hs)).passes_iff
  have htext : t = ",".intercalate pieces ↔
      t.toList = [','].intercalate (pieces.map String.toList) := by
    rw [← String.toList_inj, String.toList_intercalate]
    rfl
  rw [commaJoin_iff hne, hlast, ← htext]
  exact ⟨fun h => ⟨h.1, h.2⟩, fun h => ⟨h.1, h.2⟩⟩

/-- Joined pieces are found again between the separating commas. -/
private theorem CommaJoin.pieces_eq (h : CommaJoin cs pieces) (hpieces : ∀ s ∈ pieces, IsPiece s) :
    Place.pieces .outside cs = pieces.map String.toList := by
  induction h with
  | last s =>
    rcases hpieces s List.mem_cons_self with hs | hs <;> exact hs.pieces_eq
  | cons hs _ ih =>
    rw [hs.pieces_comma, ih fun u hu => hpieces u (List.mem_cons_of_mem _ hu), List.map_cons]

end Joining

section Lists

variable {t : String} {ts tail : List String} {ps : List Predicate}

private theorem FinalFiller.isFiller (h : FinalFiller tail) : ∀ s ∈ tail, IsFiller s := by
  cases h with
  | absent => simp
  | present hw => simpa using hw

private theorem exists_parse_of_forall₂
    (h : List.Forall₂ (fun s p => Predicate.parse s = .ok p) ts ps) :
    ∀ s ∈ ts, ∃ p, Predicate.parse s = .ok p := by
  induction h with
  | nil => simp
  | cons hp _ ih => exact List.forall_mem_cons.mpr ⟨⟨_, hp⟩, ih⟩

private def IsListPiece (s : String) : Prop := IsFiller s ∨ ∃ p, Predicate.parse s = .ok p

private theorem IsListPiece.isPiece {s : String} (h : IsListPiece s) : IsPiece s := by
  rcases h with h | ⟨p, h⟩
  · exact isPiece_of_isFiller h
  · exact isPiece_of_parse h

private theorem isListPiece_append (hts : List.Forall₂ (fun s p => Predicate.parse s = .ok p) ts ps)
    (htail : FinalFiller tail) : ∀ s ∈ ts ++ tail, IsListPiece s :=
  List.forall_mem_append.mpr ⟨fun s hs => .inr (exists_parse_of_forall₂ hts s hs),
    fun s hs => .inl (htail.isFiller s hs)⟩

private theorem isListPiece_cons {v : String} (hv : IsFiller v) (htail : FinalFiller tail) :
    ∀ s ∈ v :: tail, IsListPiece s :=
  List.forall_mem_cons.mpr ⟨.inl hv, fun s hs => .inl (htail.isFiller s hs)⟩

/-- What is read as a list is cut by its separating commas into filler and predicates. -/
private theorem isListPiece_of_mem_commaPieces (h : Predicate.parseList t = .ok ps) :
    ∀ s ∈ commaPieces t, IsListPiece s := by
  rw [parseList_eq_ok_iff_listText] at h
  obtain ⟨pieces, hjoin, hpieces⟩ :
      ∃ pieces, CommaJoin t.toList pieces ∧ ∀ s ∈ pieces, IsListPiece s := by
    cases ps with
    | nil =>
      obtain ⟨v, tail, hv, htail, hjoin⟩ := listText_nil_iff_commaJoin.mp h
      exact ⟨v :: tail, hjoin, isListPiece_cons hv htail⟩
    | cons p ps =>
      obtain ⟨ts, tail, hts, htail, hjoin⟩ := (listText_iff_commaJoin (List.cons_ne_nil p ps)).mp h
      exact ⟨ts ++ tail, hjoin, isListPiece_append hts htail⟩
  have hmap : commaPieces t = pieces := by
    rw [commaPieces, hjoin.pieces_eq fun s hs => (hpieces s hs).isPiece, List.map_map]
    simp [Function.comp_def]
  rwa [hmap]

theorem parseList_eq_nil_iff : Predicate.parseList t = .ok [] ↔
    ∃ v tail, IsFiller v ∧ FinalFiller tail ∧ Joined t (v :: tail) := by
  have hjoin (v : String) (tail : List String) (hv : IsFiller v) (htail : FinalFiller tail) :
      Joined t (v :: tail) ↔ CommaJoin t.toList (v :: tail) :=
    joined_iff_commaJoin (List.cons_ne_nil v tail)
      fun s hs => (isListPiece_cons hv htail s hs).isPiece
  rw [parseList_eq_ok_iff_listText, listText_nil_iff_commaJoin]
  constructor
  · rintro ⟨v, tail, hv, htail, h⟩
    exact ⟨v, tail, hv, htail, (hjoin v tail hv htail).mpr h⟩
  · rintro ⟨v, tail, hv, htail, h⟩
    exact ⟨v, tail, hv, htail, (hjoin v tail hv htail).mp h⟩

theorem parseList_eq_ok_iff_joined (hne : ps ≠ []) : Predicate.parseList t = .ok ps ↔
    ∃ ts tail, List.Forall₂ (fun s p => Predicate.parse s = .ok p) ts ps ∧ FinalFiller tail ∧
      Joined t (ts ++ tail) := by
  have hjoin (ts tail : List String)
      (hts : List.Forall₂ (fun s p => Predicate.parse s = .ok p) ts ps)
      (htail : FinalFiller tail) : Joined t (ts ++ tail) ↔ CommaJoin t.toList (ts ++ tail) := by
    apply joined_iff_commaJoin
    · cases hts with
      | nil => exact absurd rfl hne
      | cons => exact List.cons_ne_nil _ _
    · exact fun s hs => (isListPiece_append hts htail s hs).isPiece
  rw [parseList_eq_ok_iff_listText, listText_iff_commaJoin hne]
  constructor
  · rintro ⟨ts, tail, hts, htail, h⟩
    exact ⟨ts, tail, hts, htail, (hjoin ts tail hts htail).mpr h⟩
  · rintro ⟨ts, tail, hts, htail, h⟩
    exact ⟨ts, tail, hts, htail, (hjoin ts tail hts htail).mp h⟩

/-- A list is read as the predicates that its pieces are read as one by one, with one more
comma allowed at its end; a piece that is neither a predicate nor filler fails the list. -/
theorem parse_list_iff_pieces (t : String) :
    (∀ ps, Predicate.parseList t = .ok ps ↔
      (ps = [] ∧ ∃ v tail, IsFiller v ∧ FinalFiller tail ∧ Joined t (v :: tail)) ∨
        (ps ≠ [] ∧ ∃ ts tail, List.Forall₂ (fun s p => Predicate.parse s = .ok p) ts ps ∧
          FinalFiller tail ∧ Joined t (ts ++ tail))) ∧
      ∀ s ∈ commaPieces t, ¬IsFiller s → (∃ e, Predicate.parse s = .error e) →
        ∃ e, Predicate.parseList t = .error e := by
  constructor
  · intro ps
    by_cases hps : ps = []
    · subst hps
      rw [parseList_eq_nil_iff]
      simp
    · rw [parseList_eq_ok_iff_joined hps]
      simp [hps]
  · intro s hs hfiller herror
    cases hread : Predicate.parseList t with
    | error e => exact ⟨e, rfl⟩
    | ok ps =>
      obtain ⟨e, he⟩ := herror
      rcases isListPiece_of_mem_commaPieces hread s hs with h | ⟨p, hp⟩
      · exact absurd h hfiller
      · cases he.symm.trans hp

/-- Two predicates with a comma behind them, and a name where the second one should be. -/
theorem parse_list_pieces_apart :
    Predicate.parseList "A == \",\",B<2," = .ok [⟨"A", .eq, .string ","⟩, ⟨"B", .lt, .int 2⟩] ∧
      ∃ e, Predicate.parseList "A == \",\",B" = .error e := by
  have hfirst : Predicate.parse "A == \",\"" = .ok ⟨"A", .eq, .string ","⟩ := by cbv
  have hsecond : Predicate.parse "B<2" = .ok ⟨"B", .lt, .int 2⟩ := by cbv
  have hname : ¬IsFiller "B" := by
    intro h
    have hfiller : Filler ['B'] [] := h
    obtain _ | ⟨hblank, -⟩ := hfiller
    cases hblank
  constructor
  · apply ((parse_list_iff_pieces _).1 _).mpr
    refine .inr ⟨by simp, ["A == \",\"", "B<2"], [""], ?_, ?_, ?_⟩
    · exact .cons hfirst (.cons hsecond .nil)
    · exact .present (.nil _)
    · exact ⟨by decide, by simp [EndsInComment]; decide⟩
  · exact (parse_list_iff_pieces _).2 "B" (by decide) hname ⟨_, by cbv⟩

end Lists

end DecisionRules.Reading
