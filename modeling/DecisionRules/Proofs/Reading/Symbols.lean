import DecisionRules.Proofs.Reading.MembershipGrammar
import DecisionRules.Proofs.Reading.PredicateText

/-! Texts as symbols with filler between them. What a text is read as is told by its symbols
alone, and they can be read off the result: a predicate and an entry are made of certain
symbols, and a list of them of all these with commas between. -/
namespace DecisionRules

inductive Symbol where
  | name (field : String)
  | comparison (c : Comparison)
  | value (v : Value)
  | membershipWord
  | opening
  | closing
  | comma
deriving DecidableEq, Repr

def Value.symbols (v : Value) : List Symbol := [.value v]

def Predicate.symbols (p : Predicate) : List Symbol :=
  [.name p.field, .comparison p.comparison, .value p.value]

def Symbol.separated {α : Type} (symbols : α → List Symbol) (as : List α) : List Symbol :=
  (as.flatMap fun a => .comma :: symbols a).tail

def MembershipEntry.symbols (e : MembershipEntry) : List Symbol :=
  [.name e.field, .membershipWord, .opening] ++
    (Symbol.separated Value.symbols e.values ++ [.closing])

namespace Reading

open Text (StartsOutside startsOutside_cons)

def Spells (text : List Char) (σ : Symbol) (rest : List Char) : Prop :=
  match σ with
  | .name field => NameText text field rest
  | .comparison c => ComparisonText text c
  | .value v => ValueText text v
  | .membershipWord => MembershipWord text
  | .opening => text = ['(']
  | .closing => text = [')']
  | .comma => text = [',']

/-- Symbols in front of the rest of a text, each with filler before it. The text ends with the
last of them. -/
inductive Laid : List Symbol → List Char → List Char → Prop
  | nil (rest : List Char) : Laid [] [] rest
  | cons (σ : Symbol) {σs : List Symbol} {f text more rest : List Char} : Filler f text →
      Spells text σ (more ++ rest) → Laid σs more rest → Laid (σ :: σs) (f ++ (text ++ more)) rest

inductive Spelled (σs : List Symbol) : List Char → Prop
  | mk {laid trail : List Char} : Laid σs laid trail → Filler trail [] → Spelled σs (laid ++ trail)

inductive ListSymbols {α : Type} (symbols : α → List Symbol) (as : List α) : List Symbol → Prop
  | plain : ListSymbols symbols as (Symbol.separated symbols as)
  | trailing : ListSymbols symbols as (Symbol.separated symbols as ++ [.comma])

variable {σ : Symbol} {σs τs : List Symbol} {text s t rest : List Char}

theorem Spells.visible (h : Spells text σ rest) : Visible text := by
  cases σ with
  | name => exact NameText.visible h
  | comparison => exact ComparisonText.visible h
  | value => exact ValueText.visible h
  | membershipWord => exact MembershipWord.visible h
  | opening | closing | comma =>
    cases h
    exact ⟨_, rfl, rfl⟩

/-- Only a name minds what stands behind it. -/
private theorem Spells.in_front_of (h : Spells text σ rest) {other : List Char}
    (hname : ∀ field, σ = .name field → StartsOutside FieldName.isPart rest →
      StartsOutside FieldName.isPart other) : Spells text σ other := by
  cases σ with
  | name field =>
    cases (h : NameText text field rest) with
    | bare hbare hrest => exact NameText.bare hbare (hname _ rfl hrest)
    | quoted _ hbody => exact NameText.quoted _ hbody
  | comparison | value | membershipWord | opening | closing | comma => exact h

@[simp] theorem laid_nil_iff : Laid [] s rest ↔ s = [] := by
  constructor
  · rintro ⟨⟩
    rfl
  · rintro rfl
    exact .nil rest

theorem laid_cons_iff : Laid (σ :: σs) s rest ↔ ∃ f text more, s = f ++ (text ++ more) ∧
    Filler f text ∧ Spells text σ (more ++ rest) ∧ Laid σs more rest := by
  constructor
  · rintro ⟨⟩
    exact ⟨_, _, _, rfl, ‹_›, ‹_›, ‹_›⟩
  · rintro ⟨f, text, more, rfl, hf, htext, hmore⟩
    exact .cons σ hf htext hmore

theorem laid_append_iff : Laid (σs ++ τs) s rest ↔
    ∃ t u, s = t ++ u ∧ Laid σs t (u ++ rest) ∧ Laid τs u rest := by
  induction σs generalizing s with
  | nil =>
    constructor
    · intro h
      exact ⟨[], s, rfl, .nil _, h⟩
    · rintro ⟨t, u, rfl, ht, hu⟩
      cases laid_nil_iff.mp ht
      exact hu
  | cons σ σs ih =>
    rw [List.cons_append]
    constructor
    · intro h
      obtain ⟨f, text, more, rfl, hf, htext, hmore⟩ := laid_cons_iff.mp h
      obtain ⟨t, u, rfl, ht, hu⟩ := ih.mp hmore
      rw [List.append_assoc] at htext
      exact ⟨f ++ (text ++ t), u, by simp, .cons σ hf htext ht, hu⟩
    · rintro ⟨_, u, rfl, ht, hu⟩
      obtain ⟨f, text, more, rfl, hf, htext, hmore⟩ := laid_cons_iff.mp ht
      have hrest := Laid.cons σ hf (by rwa [List.append_assoc]) (ih.mpr ⟨more, u, rfl, hmore, hu⟩)
      simpa using hrest

private theorem Laid.ne_nil (h : Laid (σ :: σs) s rest) : s ≠ [] := by
  obtain ⟨f, text, more, rfl, -, htext, -⟩ := laid_cons_iff.mp h
  simp [htext.visible.ne_nil]

/-- Behind filler a reader comes to the first symbol. -/
theorem Laid.exists_skipFiller (h : Laid (σ :: σs) s rest) : ∃ text more,
    skipFiller (s ++ rest) = text ++ (more ++ rest) ∧ Spells text σ (more ++ rest) ∧
      Laid σs more rest := by
  obtain ⟨f, text, more, rfl, hf, htext, hmore⟩ := laid_cons_iff.mp h
  refine ⟨text, more, ?_, htext, hmore⟩
  rw [List.append_assoc, List.append_assoc]
  exact ((htext.visible.filler_append_iff _).mpr hf).skipFiller_eq (htext.visible.startsOutside _)

/-- Of what stands behind symbols only the last of them sees anything. -/
theorem Laid.in_front_of (h : Laid σs s rest) {other : List Char}
    (hname : ∀ field, σs.getLast? = some (.name field) → StartsOutside FieldName.isPart rest →
      StartsOutside FieldName.isPart other) : Laid σs s other := by
  induction σs generalizing s with
  | nil =>
    rw [laid_nil_iff] at h ⊢
    exact h
  | cons σ σs ih =>
    obtain ⟨f, text, more, rfl, hf, htext, hmore⟩ := laid_cons_iff.mp h
    cases σs with
    | nil =>
      cases laid_nil_iff.mp hmore
      refine .cons σ hf (htext.in_front_of ?_) (.nil other)
      rintro field rfl
      exact hname field rfl
    | cons τ τs =>
      refine .cons σ hf (htext.in_front_of ?_) (ih hmore ?_)
      · intro field _ hrest
        rwa [Text.startsOutside_append hmore.ne_nil] at hrest ⊢
      · intro field hlast
        exact hname field (by rwa [List.getLast?_cons_cons])

theorem Laid.spelled (h : Laid σs s t) (ht : Spelled τs t) : Spelled (σs ++ τs) (s ++ t) := by
  obtain @⟨laid, trail, hlaid, htrail⟩ := ht
  rw [← List.append_assoc]
  exact .mk (laid_append_iff.mpr ⟨s, laid, rfl, h, hlaid⟩) htrail

section Items

variable {α : Type} {symbols : α → List Symbol} {Item : List Char → α → Prop}

def SymbolsOf (symbols : α → List Symbol) (Item : List Char → α → Prop) : Prop :=
  ∀ {a s rest}, Laid (symbols a) s rest ↔ Led Item s a

theorem symbolsOf_value : SymbolsOf Value.symbols ValueText := by
  intro v s rest
  rw [Value.symbols, laid_cons_iff]
  constructor
  · rintro ⟨f, text, more, rfl, hf, hv, hmore⟩
    cases laid_nil_iff.mp hmore
    rw [List.append_nil]
    exact .mk hf hv
  · rintro ⟨hf, hv⟩
    exact ⟨_, _, [], by simp, hf, hv, .nil _⟩

theorem symbolsOf_predicate : SymbolsOf Predicate.symbols PredicateText := by
  intro p s rest
  rw [Predicate.symbols]
  constructor
  · intro h
    obtain ⟨lead, name, _, rfl, hlead, hname, h⟩ := laid_cons_iff.mp h
    obtain ⟨f, comparison, _, rfl, hf, hcomparison, h⟩ := laid_cons_iff.mp h
    obtain ⟨g, value, _, rfl, hg, hvalue, h⟩ := laid_cons_iff.mp h
    cases laid_nil_iff.mp h
    have hname : NameText name p.field (f ++ (comparison ++ (g ++ (value ++ rest)))) := by
      simpa [Spells] using hname
    have htoken : Visible comparison := ComparisonText.visible hcomparison
    have hp : PredicateText (name ++ (f ++ (comparison ++ (g ++ value)))) p :=
      .mk (hname.before_token htoken _) ((htoken.filler_append_iff _).mpr hf) hcomparison hg hvalue
    simpa using Led.mk ((hname.visible.filler_append_iff _).mpr hlead) hp
  · rintro ⟨hlead, hp⟩
    obtain @⟨name, f, comparison, g, value, p, hname, hf, hcomparison, hg, hvalue⟩ := hp
    have htoken := hcomparison.visible
    have hnameRest :
        Spells name (.name p.field) ((f ++ (comparison ++ (g ++ (value ++ [])))) ++ rest) := by
      simpa [Spells] using hname.before_token htoken (g ++ (value ++ rest))
    have h := Laid.cons _ ((hname.visible.filler_append_iff _).mp hlead) hnameRest
      (.cons (.comparison p.comparison) ((htoken.filler_append_iff _).mp hf) hcomparison
        (.cons (.value p.value) hg hvalue (.nil rest)))
    simpa using h

/-- Behind the first item the symbols are those of the items with a comma before each. -/
private theorem separated_cons (a : α) (as : List α) : Symbol.separated symbols (a :: as) =
    symbols a ++ as.flatMap fun b => .comma :: symbols b := by
  simp [Symbol.separated]

theorem SymbolsOf.moreItems (h : SymbolsOf symbols Item) {as : List α} :
    Laid (as.flatMap fun a => .comma :: symbols a) s rest ↔ MoreItems Item s as := by
  induction as generalizing s with
  | nil =>
    rw [List.flatMap_nil, laid_nil_iff]
    constructor
    · rintro rfl
      exact .nil
    · rintro ⟨⟩
      rfl
  | cons a as ih =>
    rw [List.flatMap_cons, List.cons_append, laid_cons_iff]
    constructor
    · rintro ⟨f, _, _, rfl, hf, rfl, hmore⟩
      obtain ⟨_, more, rfl, hitem, hrest⟩ := laid_append_iff.mp hmore
      obtain ⟨hg, hitem⟩ := h.mp hitem
      simpa using MoreItems.cons hf hg hitem (ih.mp hrest)
    · rintro (_ | ⟨hf, hg, hitem, hmore⟩)
      have hlaid := laid_append_iff.mpr ⟨_, _, rfl, h.mpr (.mk hg hitem), ih.mpr hmore⟩
      exact ⟨_, [','], _, by simp, hf, rfl, hlaid⟩

private theorem Items.visible {text : List Char} {a : α} {as : List α}
    (h : Items Item text (a :: as))
    (hvisible : ∀ {text a}, Item text a → Visible text) : Visible text := by
  obtain _ | ⟨hitem, -⟩ := h
  exact (hvisible hitem).append _

theorem SymbolsOf.separated (h : SymbolsOf symbols Item)
    (hvisible : ∀ {text a}, Item text a → Visible text) {a : α} {as : List α} :
    Laid (Symbol.separated symbols (a :: as)) s rest ↔ Led (Items Item) s (a :: as) := by
  rw [separated_cons, laid_append_iff]
  constructor
  · rintro ⟨_, more, rfl, hitem, hmore⟩
    obtain ⟨hlead, hitem⟩ := h.mp hitem
    rw [List.append_assoc]
    exact .mk (((hvisible hitem).filler_append_iff _).mpr hlead)
      (.cons hitem (h.moreItems.mp hmore))
  · rintro ⟨hlead, _ | ⟨hitem, hmore⟩⟩
    have hfirst := ((hvisible hitem).filler_append_iff _).mp hlead
    exact ⟨_, _, by simp, h.mpr (.mk hfirst hitem), h.moreItems.mpr hmore⟩

/-- Filler on both sides of the items of a list. Where there are no items, all of it stands behind
the symbols, of which there are none. -/
theorem SymbolsOf.padded (h : SymbolsOf symbols Item)
    (hvisible : ∀ {text a}, Item text a → Visible text) {as : List α} {next : List Char}
    (more : List Char) :
    (∃ laid trail, s = laid ++ trail ∧ Laid (Symbol.separated symbols as) laid (trail ++ more) ∧
        Filler trail next) ↔
      ∃ lead items trail, s = lead ++ (items ++ trail) ∧ Filler lead (items ++ (trail ++ next)) ∧
        Items Item items as ∧ Filler trail next := by
  cases as with
  | nil =>
    constructor
    · rintro ⟨_, trail, rfl, hlaid, htrail⟩
      cases laid_nil_iff.mp hlaid
      exact ⟨[], [], trail, rfl, .nil _, .nil, htrail⟩
    · rintro ⟨lead, _, trail, rfl, hlead, ⟨⟩, htrail⟩
      exact ⟨[], lead ++ trail, rfl, .nil _, Filler.append (by simpa using hlead) htrail⟩
  | cons a as =>
    constructor
    · rintro ⟨_, trail, rfl, hlaid, htrail⟩
      obtain ⟨hlead, hitems⟩ := (h.separated hvisible).mp hlaid
      have hbefore := ((hitems.visible hvisible).filler_append_iff (trail ++ next)).mpr hlead
      exact ⟨_, _, trail, by simp, hbefore, hitems, htrail⟩
    · rintro ⟨lead, items, trail, rfl, hlead, hitems, htrail⟩
      have hfirst := ((hitems.visible hvisible).filler_append_iff _).mp hlead
      exact ⟨_, trail, by simp, (h.separated hvisible).mpr (.mk hfirst hitems), htrail⟩

theorem symbolsOf_valueList :
    SymbolsOf (fun vs => .opening :: (Symbol.separated Value.symbols vs ++ [.closing]))
      ValueListText := by
  intro vs s rest
  have hbracket : Visible ['('] := ⟨_, rfl, rfl⟩
  rw [laid_cons_iff]
  constructor
  · rintro ⟨f, _, more, rfl, hf, rfl, hmore⟩
    obtain ⟨inside, _, rfl, hinside, hclosing⟩ := laid_append_iff.mp hmore
    obtain ⟨trail, _, _, rfl, htrail, rfl, hend⟩ := laid_cons_iff.mp hclosing
    cases laid_nil_iff.mp hend
    obtain ⟨lead, values, last, hcut, hlead, hvalues, hlast⟩ :=
      (symbolsOf_value.padded ValueText.visible (')' :: rest)).mp
        ⟨inside, trail, rfl, by simpa using hinside, htrail⟩
    have hlist := ValueListText.mk hlead hvalues hlast
    have hled := Led.mk ((hbracket.filler_append_iff _).mpr hf) hlist
    rw [← List.append_assoc inside, hcut]
    simpa using hled
  · rintro ⟨hf, hlead, hvalues, htrail⟩
    obtain ⟨inside, trail, hcut, hinside, hlast⟩ :=
      (symbolsOf_value.padded ValueText.visible (')' :: rest)).mpr
        ⟨_, _, _, rfl, hlead, hvalues, htrail⟩
    have hclosing : Laid [.closing] (trail ++ [')']) rest := by
      simpa using Laid.cons .closing hlast rfl (.nil rest)
    refine ⟨_, ['('], inside ++ (trail ++ [')']), ?_, (hbracket.filler_append_iff _).mp hf, rfl,
      laid_append_iff.mpr ⟨inside, _, rfl, by simpa using hinside, hclosing⟩⟩
    rw [← List.append_assoc inside, ← hcut]
    simp

theorem symbolsOf_entry : SymbolsOf MembershipEntry.symbols EntryText := by
  intro e s rest
  have hsymbols : e.symbols = .name e.field :: .membershipWord ::
      .opening :: (Symbol.separated Value.symbols e.values ++ [.closing]) := rfl
  rw [hsymbols]
  constructor
  · intro h
    obtain ⟨lead, name, _, rfl, hlead, hname, h⟩ := laid_cons_iff.mp h
    obtain ⟨f, word, _, rfl, hf, hword, h⟩ := laid_cons_iff.mp h
    obtain @⟨g, list, _, hg, hlist⟩ := symbolsOf_valueList.mp h
    have hname : NameText name e.field (f ++ (word ++ (g ++ list ++ rest))) := by
      simpa [Spells] using hname
    have htoken : Visible word := MembershipWord.visible hword
    have hentry : EntryText _ e := .mk (hname.before_token htoken _)
      ((htoken.filler_append_iff _).mpr hf) hword hg hlist
    exact .mk ((hname.visible.filler_append_iff _).mpr hlead) hentry
  · rintro ⟨hlead, hentry⟩
    obtain @⟨name, f, word, g, list, field, vs, hname, hf, hword, hg, hlist⟩ := hentry
    have htoken := hword.visible
    have hnameRest : Spells name (.name field) ((f ++ (word ++ (g ++ list))) ++ rest) := by
      simpa [Spells] using hname.before_token htoken ((g ++ list) ++ rest)
    exact .cons _ ((hname.visible.filler_append_iff _).mp hlead) hnameRest
      (.cons .membershipWord ((htoken.filler_append_iff _).mp hf) hword
        (symbolsOf_valueList.mpr (.mk hg hlist)))

/-- Lists are told by their symbols if their items are. -/
theorem SymbolsOf.listText (h : SymbolsOf symbols Item)
    (hvisible : ∀ {text a}, Item text a → Visible text) {as : List α} {cs : List Char} :
    ListText Item cs as ↔ ∃ σs, ListSymbols symbols as σs ∧ Spelled σs cs := by
  constructor
  · rintro ⟨hlead, hitems, hcomma, htrail⟩
    cases hcomma with
    | absent =>
      obtain ⟨laid, last, hcut, hlaid, hlast⟩ := (h.padded hvisible []).mpr
        ⟨_, _, _, rfl, by simpa using hlead, hitems, htrail⟩
      rw [List.nil_append, hcut]
      exact ⟨_, .plain, .mk (by simpa using hlaid) hlast⟩
    | @present f hf =>
      rename_i lead items trail
      have hbefore : Filler lead (items ++ (f ++ [','])) := by
        have hseen : Filler lead ((items ++ f) ++ ',' :: trail) := by simpa using hlead
        simpa using hseen.replace _ (by decide) [',']
      obtain ⟨laid, last, hcut, hlaid, hlast⟩ := (h.padded hvisible (',' :: trail)).mpr
        ⟨_, _, _, rfl, hbefore, hitems, hf⟩
      have hcomma : Laid [.comma] (last ++ [',']) trail := by
        simpa using Laid.cons .comma hlast rfl (.nil trail)
      have hall := laid_append_iff.mpr ⟨laid, _, rfl, by simpa using hlaid, hcomma⟩
      have htext : lead ++ (items ++ (f ++ [','] ++ trail)) = laid ++ (last ++ [',']) ++ trail := by
        rw [← List.append_assoc laid, ← hcut]
        simp
      rw [htext]
      exact ⟨_, .trailing, .mk hall htrail⟩
  · rintro ⟨σs, hσs, @⟨_, trail, hlaid, htrail⟩⟩
    cases hσs with
    | plain =>
      obtain ⟨lead, items, last, hcut, hlead, hitems, hlast⟩ :=
        (h.padded hvisible []).mp ⟨_, _, rfl, by simpa using hlaid, htrail⟩
      rw [hcut]
      simpa using ListText.mk (by simpa using hlead) hitems .absent hlast
    | trailing =>
      obtain ⟨laid, _, rfl, hlaid, hcomma⟩ := laid_append_iff.mp hlaid
      obtain ⟨f, _, _, rfl, hf, rfl, hend⟩ := laid_cons_iff.mp hcomma
      cases laid_nil_iff.mp hend
      obtain ⟨lead, items, last, hcut, hlead, hitems, hlast⟩ :=
        (h.padded hvisible (',' :: trail)).mp ⟨_, f, rfl, by simpa using hlaid, hf⟩
      have hbefore : Filler lead (items ++ (last ++ [','] ++ trail)) := by
        have hseen : Filler lead ((items ++ last) ++ ',' :: []) := by simpa using hlead
        simpa using hseen.replace _ (by decide) (',' :: trail)
      have htext : laid ++ (f ++ ([','] ++ [])) ++ trail =
          lead ++ (items ++ (last ++ [','] ++ trail)) := by
        rw [← List.append_assoc laid, hcut]
        simp
      rw [htext]
      exact .mk hbefore hitems (.present hlast) htrail

/-- A text of one item is its symbols. -/
private theorem SymbolsOf.padded_iff_spelled (h : SymbolsOf symbols Item) {a : α} {cs : List Char} :
    Padded Item [] cs a ↔ Spelled (symbols a) cs := by
  constructor
  · rintro ⟨hlead, hitem, htrail⟩
    rw [← List.append_assoc]
    exact .mk (h.mpr (.mk hlead hitem)) htrail
  · rintro ⟨hlaid, htrail⟩
    obtain ⟨hlead, hitem⟩ := h.mp hlaid
    rw [List.append_assoc]
    exact .mk hlead hitem htrail

end Items

/-- A text is read as something if it is spelled from the symbols of it. -/
def ReadsSymbols {α : Type} (parse : String → Except ParseError α)
    (Means : α → List Symbol → Prop) : Prop :=
  ∀ {t : String} {a : α}, parse t = .ok a ↔ ∃ σs, Means a σs ∧ Spelled σs t.toList

theorem predicate_readsSymbols :
    ReadsSymbols Predicate.parse fun p σs => Predicate.symbols p = σs := by
  intro t p
  rw [parse_eq_ok_iff_padded, symbolsOf_predicate.padded_iff_spelled]
  simp

theorem predicates_readsSymbols :
    ReadsSymbols Predicate.parseList (ListSymbols Predicate.symbols) := by
  intro t ps
  rw [parseList_eq_ok_iff_listText, symbolsOf_predicate.listText PredicateText.visible]

theorem entries_readsSymbols :
    ReadsSymbols MembershipEntry.parseList (ListSymbols MembershipEntry.symbols) := by
  intro t es
  rw [parse_membership_eq_ok_iff, symbolsOf_entry.listText EntryText.visible]

inductive Cut {α : Type} (Means : α → List Symbol → Prop) (a : α) (front behind : List Char) : Prop
  | mk {before after : List Symbol} : Means a (before ++ after) → Laid before front behind →
      Spelled after behind → Cut Means a front behind

/-- A text that is read can be cut between any two of its symbols. -/
theorem ReadsSymbols.exists_cuts {α : Type} {parse : String → Except ParseError α}
    {Means : α → List Symbol → Prop} (hparse : ReadsSymbols parse Means) {t : String} {a : α}
    (h : parse t = .ok a) : ∃ σs, Means a σs ∧ ∀ before after, σs = before ++ after →
      ∃ front behind, t.toList = front ++ behind ∧ Laid before front behind ∧
        Spelled after behind := by
  obtain ⟨σs, hmeans, hspelled⟩ := hparse.mp h
  refine ⟨σs, hmeans, ?_⟩
  rintro before after rfl
  generalize t.toList = cs at hspelled
  obtain @⟨_, trail, hlaid, htrail⟩ := hspelled
  obtain ⟨front, more, rfl, hfront, hmore⟩ := laid_append_iff.mp hlaid
  exact ⟨front, more ++ trail, by simp, hfront, .mk hmore htrail⟩

end Reading
end DecisionRules
