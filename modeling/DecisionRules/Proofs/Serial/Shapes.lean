import DecisionRules.Serial.Shape
import DecisionRules.Serial.Encode
import DecisionRules.Proofs.Success

/-! When JSON decodes: records member by member, and lists and optional parts item by
item. A decoder carries what an encoder writes if it gives all of that back unchanged. -/
namespace DecisionRules.Serial

variable {α β : Type}

namespace Shape

theorem both_eq_ok_iff {f : Except RecordFault (α → β)} {a : Except RecordFault α} {b : β} :
    both f a = .ok b ↔ ∃ g x, f = .ok g ∧ a = .ok x ∧ b = g x := by
  cases f <;> cases a <;> simp [both, eq_comm]

theorem map_eq_ok_iff {g : α → β} {s : Shape α} {member? : String → Option Json} {b : β} :
    (g <$> s).ofMembers member? = .ok b ↔ ∃ x, s.ofMembers member? = .ok x ∧ b = g x := by
  have hmap : (g <$> s).ofMembers member? = both (.ok g) (s.ofMembers member?) := rfl
  rw [hmap, both_eq_ok_iff]
  constructor
  · intro h
    obtain ⟨_, x, hg, hx, hb⟩ := h
    cases hg
    exact ⟨x, hx, hb⟩
  · intro h
    obtain ⟨x, hx, hb⟩ := h
    exact ⟨g, x, rfl, hx, hb⟩

theorem seq_eq_ok_iff {f : Shape (α → β)} {s : Shape α} {member? : String → Option Json} {b : β} :
    (f <*> s).ofMembers member? = .ok b ↔
      ∃ g, f.ofMembers member? = .ok g ∧ ∃ x, s.ofMembers member? = .ok x ∧ b = g x := by
  have hseq : (f <*> s).ofMembers member? = both (f.ofMembers member?) (s.ofMembers member?) := rfl
  rw [hseq, both_eq_ok_iff]
  constructor
  · intro h
    obtain ⟨g, x, hg, hx, hb⟩ := h
    exact ⟨g, hg, x, hx, hb⟩
  · intro h
    obtain ⟨g, hg, x, hx, hb⟩ := h
    exact ⟨g, x, hg, hx, hb⟩

theorem memberOutcome_eq_ok_iff {key : String} {decode : Decoder α} {j : Json} {a : α} :
    memberOutcome key decode j = .ok a ↔ decode j = .ok a := by
  rw [memberOutcome]
  cases decode j <;> simp

/-- A member that has to be there is there and decodes. -/
theorem required_eq_ok_iff {key : String} {decode : Decoder α} {member? : String → Option Json}
    {a : α} : (required key decode).ofMembers member? = .ok a ↔
      ∃ j, member? key = some j ∧ decode j = .ok a := by
  simp only [required]
  cases member? key with
  | none => simp
  | some j => simp [memberOutcome_eq_ok_iff]

/-- A member that may be absent is as good as null there. -/
theorem optional_eq_ok_iff {key : String} {decode : Decoder α} {member? : String → Option Json}
    {a : Option α} : (optional key decode).ofMembers member? = .ok a ↔
      asOption decode ((member? key).getD .null) = .ok a := by
  simp only [optional]
  cases member? key with
  | none => simp [asOption]
  | some j => simp [memberOutcome_eq_ok_iff]

theorem decode_object_eq_ok_iff {s : Shape α} {members : List (String × Json)} {a : α} :
    s.decode (.object members) = .ok a ↔
      s.ofMembers (fun key => members.lookup key) = .ok a := by
  rw [decode]
  cases s.ofMembers fun key => members.lookup key <;> simp

end Shape

end Serial

def Json.inside : Json → List Json
  | .array items => items
  | .object members => members.map (·.2)
  | _ => []

namespace Serial

theorem forall_of_asList {decode : Decoder α} {P : α → Prop} {j : Json} {xs : List α}
    (h : ∀ c ∈ j.inside, ∀ a, decode c = .ok a → P a) (hxs : asList decode j = .ok xs) :
    ∀ x ∈ xs, P x := by
  intro x hx
  cases j with
  | array items =>
    have hok : Except.ok x ∈ items.map decode := by
      rw [mapM_eq_ok_iff.mp hxs]
      exact List.mem_map_of_mem hx
    obtain ⟨c, hc, hdecoded⟩ := List.mem_map.mp hok
    exact h c hc x hdecoded
  | _ => cases hxs

theorem forall_of_asOption {decode : Decoder α} {P : α → Prop} {j : Json} {o : Option α}
    (h : ∀ a, decode j = .ok a → P a) (ho : asOption decode j = .ok o) : ∀ a ∈ o, P a := by
  intro a ha
  unfold asOption at ho
  split at ho
  · cases ho
    cases ha
  · obtain ⟨b, hb, rfl⟩ := map_eq_ok_iff.mp ho
    cases ha
    exact h a hb

/-- A variant with content is the only member of an object, and the decoder for its name
takes it. -/
theorem exists_of_asTagged {decoders : List (String × Decoder α)} {j : Json} {a : α}
    (h : asTagged decoders j = .ok a) : ∃ name content decode,
      j = .object [(name, content)] ∧ (name, decode) ∈ decoders ∧ decode content = .ok a := by
  unfold asTagged at h
  split at h
  · split at h <;> cases h
  · next name content =>
    split at h
    · next decode hfound =>
      obtain ⟨before, behind, rfl, _⟩ := List.lookup_eq_some_iff.mp hfound
      exact ⟨name, content, decode, rfl, by simp, h⟩
    · cases h
  · cases h
  · cases h

namespace Shape

variable {Q : Json → Prop} {P : α → Prop}

/-- Whatever the shape takes out of JSON with one property has another, and leaves items
with the first. -/
structure Gives (s : Shape α) (Q : Json → Prop) (P : α → Prop) : Prop where
  ofMembers {member? : String → Option Json} {a : α} (hmember : ∀ key, ∀ j ∈ member? key, Q j)
    (hfound : s.ofMembers member? = .ok a) : P a
  ofItems {items rest : List Json} {a : α} (hitems : ∀ j ∈ items, Q j)
    (hfound : s.ofItems items = .ok (a, rest)) : P a ∧ ∀ j ∈ rest, Q j

theorem gives_nextItem {decode : Decoder α} (h : ∀ j a, Q j → decode j = .ok a → P a)
    {items rest : List Json} {a : α} (hitems : ∀ j ∈ items, Q j)
    (hfound : nextItem decode items = .ok (a, rest)) : P a ∧ ∀ j ∈ rest, Q j := by
  cases items with
  | nil => cases hfound
  | cons j items =>
    obtain ⟨_, hj, heq⟩ := bind_eq_ok_iff.mp hfound
    cases heq
    obtain ⟨hfirst, hrest⟩ := List.forall_mem_cons.mp hitems
    exact ⟨h j _ hfirst hj, hrest⟩

theorem gives_required {key : String} {decode : Decoder α}
    (h : ∀ j a, Q j → decode j = .ok a → P a) : (required key decode).Gives Q P where
  ofMembers hmember hfound := by
    obtain ⟨j, hj, hdecoded⟩ := required_eq_ok_iff.mp hfound
    exact h j _ (hmember key j hj) hdecoded
  ofItems := gives_nextItem h

theorem gives_optional {key : String} {decode : Decoder α}
    (h : ∀ j a, Q j → decode j = .ok a → P a) :
    (optional key decode).Gives Q fun o => ∀ a ∈ o, P a where
  ofMembers {member? o} hmember hfound := by
    rw [optional_eq_ok_iff] at hfound
    cases hj : member? key with
    | none =>
      rw [hj] at hfound
      cases hfound
      nofun
    | some j =>
      rw [hj] at hfound
      exact forall_of_asOption (fun a => h j a (hmember key j hj)) hfound
  ofItems := gives_nextItem fun j _ hj => forall_of_asOption fun a => h j a hj

/-- Of a member that decodes in whatever way nothing is known. -/
theorem gives_required_true {key : String} {decode : Decoder α} :
    (required key decode).Gives Q fun _ => True := gives_required fun _ _ _ _ => trivial

theorem gives_optional_true {key : String} {decode : Decoder α} :
    (optional key decode).Gives Q fun _ => True where
  ofMembers _ _ := trivial
  ofItems := gives_nextItem fun _ _ _ _ => trivial

theorem gives_pure {a : α} (h : P a) : (pure a : Shape α).Gives Q P where
  ofMembers _ hfound := by
    cases hfound
    exact h
  ofItems hitems hfound := by
    cases hfound
    exact ⟨h, hitems⟩

theorem Gives.seq {f : Shape (α → β)} {s : Shape α} {R : β → Prop}
    (hf : f.Gives Q fun g => ∀ a, P a → R (g a)) (hs : s.Gives Q P) : (f <*> s).Gives Q R where
  ofMembers hmember hfound := by
    obtain ⟨g, hg, a, ha, rfl⟩ := seq_eq_ok_iff.mp hfound
    exact hf.ofMembers hmember hg a (hs.ofMembers hmember ha)
  ofItems hitems hfound := by
    obtain ⟨⟨g, middle⟩, hg, hbound⟩ := bind_eq_ok_iff.mp hfound
    obtain ⟨⟨a, rest⟩, ha, heq⟩ := bind_eq_ok_iff.mp hbound
    cases heq
    obtain ⟨hkept, hmiddle⟩ := hf.ofItems hitems hg
    obtain ⟨hgiven, hrest⟩ := hs.ofItems hmiddle ha
    exact ⟨hkept a hgiven, hrest⟩

/-- Where all that follows is the same for every member, nothing has to be known of it. -/
theorem Gives.seq_of_forall {f : Shape (α → β)} {s : Shape α} {R : β → Prop}
    (hs : s.Gives Q fun _ => True) (hf : f.Gives Q fun g => ∀ a, R (g a)) :
    (f <*> s).Gives Q R := by
  refine .seq ?_ hs
  constructor
  · intro _ _ hmember hfound a _
    exact hf.ofMembers hmember hfound a
  · intro _ _ _ hitems hfound
    exact (hf.ofItems hitems hfound).imp_left fun h a _ => h a

theorem Gives.map {s : Shape α} {R : β → Prop} {f : α → β} (h : s.Gives Q P)
    (hf : ∀ a, P a → R (f a)) : (f <$> s).Gives Q R := (gives_pure hf).seq h

theorem Gives.decode {s : Shape α} (h : s.Gives Q P) {j : Json} (hinside : ∀ c ∈ j.inside, Q c)
    {a : α} (hj : s.decode j = .ok a) : P a := by
  cases j with
  | object members =>
    refine h.ofMembers ?_ (decode_object_eq_ok_iff.mp hj)
    intro key c hc
    obtain ⟨before, behind, rfl, _⟩ := List.lookup_eq_some_iff.mp hc
    exact hinside c (by simp [Json.inside])
  | array items =>
    simp only [Shape.decode] at hj
    split at hj
    · next hitems =>
      cases hj
      exact (h.ofItems hinside hitems).1
    · cases hj
    · cases hj
  | _ => cases hj

end Shape

theorem checking_eq_ok_iff {decode : Decoder α} {check : α → Except RuleError β} {j : Json} {b : β} :
    checking decode check j = .ok b ↔ ∃ a, decode j = .ok a ∧ check a = .ok b := by
  rw [checking, bind_eq_ok_iff]
  constructor
  · intro h
    obtain ⟨a, ha, hb⟩ := h
    refine ⟨a, ha, ?_⟩
    cases hcheck : check a <;> simp_all
  · intro h
    obtain ⟨a, ha, hb⟩ := h
    refine ⟨a, ha, ?_⟩
    rw [hb]

/-- What a check says of a decoded value is what decoding comes to. -/
theorem checking_of_decode {decode : Decoder α} {check : α → Except RuleError β} {j : Json} {a : α}
    (h : decode j = .ok a) : checking decode check j = (check a).mapError .refused := by
  rw [checking, h]
  simp only [bind, Except.bind]
  cases check a <;> rfl

/-- Decoding what was encoded succeeds under a condition, and then with a known result. -/
def Decodes (decode : Decoder β) (encode : α → Json) (p : α → Prop) (f : α → β) : Prop :=
  ∀ a b, decode (encode a) = .ok b ↔ p a ∧ b = f a

abbrev Carries (decode : Decoder α) (encode : α → Json) (p : α → Prop) : Prop :=
  Decodes decode encode p id

/-- A check behind a decoder sees what the decoder gives. -/
theorem Decodes.checking_eq_ok_iff {γ : Type} {decode : Decoder β} {encode : α → Json}
    {p : α → Prop} {f : α → β} (h : Decodes decode encode p f) {check : β → Except RuleError γ}
    {a : α} {c : γ} : checking decode check (encode a) = .ok c ↔ p a ∧ check (f a) = .ok c := by
  rw [Serial.checking_eq_ok_iff]
  constructor
  · intro hfound
    obtain ⟨b, hb, hc⟩ := hfound
    obtain ⟨ha, rfl⟩ := (h a b).mp hb
    exact ⟨ha, hc⟩
  · intro hboth
    obtain ⟨ha, hc⟩ := hboth
    exact ⟨f a, (h a _).mpr ⟨ha, rfl⟩, hc⟩

theorem Decodes.option {decode : Decoder β} {encode : α → Json} {p : α → Prop} {f : α → β}
    (h : Decodes decode encode p f) (hnull : ∀ a, encode a ≠ .null) :
    Decodes (asOption decode) (ofOption encode) (fun o => ∀ a ∈ o, p a) (Option.map f) := by
  intro o o'
  cases o with
  | none => cases o' <;> simp [ofOption, asOption]
  | some a =>
    have hsome : asOption decode (encode a) = some <$> decode (encode a) := by
      rw [asOption]
      exact hnull a
    rw [ofOption, hsome, DecisionRules.map_eq_ok_iff]
    constructor
    · intro hr
      obtain ⟨b, hb, ho'⟩ := hr
      obtain ⟨ha, rfl⟩ := (h a b).mp hb
      exact ⟨fun a' ha' => Option.mem_some.mp ha' ▸ ha, ho'.symm⟩
    · intro hr
      obtain ⟨ha, ho'⟩ := hr
      exact ⟨f a, (h a _).mpr ⟨ha a rfl, rfl⟩, ho'.symm⟩

theorem Carries.option {decode : Decoder α} {encode : α → Json} {p : α → Prop}
    (h : Carries decode encode p) (hnull : ∀ a, encode a ≠ .null) :
    Carries (asOption decode) (ofOption encode) fun o => ∀ a ∈ o, p a := by
  have ho := Decodes.option h hnull
  rwa [Option.map_id] at ho

theorem Carries.list {decode : Decoder α} {encode : α → Json} {p : α → Prop}
    (h : Carries decode encode p) :
    Carries (asList decode) (fun xs => .array (xs.map encode)) fun xs => ∀ x ∈ xs, p x := by
  intro xs ys
  rw [asList, mapM_eq_ok_iff, List.map_map]
  induction xs generalizing ys with
  | nil => cases ys <;> simp
  | cons x xs ih =>
    cases ys with
    | nil => simp
    | cons y ys =>
      simp only [List.map_cons, List.cons_eq_cons, Function.comp_apply, List.forall_mem_cons,
        h x y, ih ys, id]
      constructor
      · intro hr
        obtain ⟨⟨hx, hy⟩, hxs, hys⟩ := hr
        exact ⟨⟨hx, hxs⟩, hy, hys⟩
      · intro hr
        obtain ⟨⟨hx, hxs⟩, hy, hys⟩ := hr
        exact ⟨⟨hx, hy⟩, hxs, hys⟩

theorem carries_of_forall {decode : Decoder α} {encode : α → Json}
    (h : ∀ a, decode (encode a) = .ok a) : Carries decode encode fun _ => True := by
  intro a b
  rw [h a]
  simp [eq_comm]

theorem carries_text : Carries asText .string fun _ => True := carries_of_forall fun _ => rfl

end DecisionRules.Serial
