import DecisionRules.Proofs.Appearance
import DecisionRules.Proofs.Building.Checks

/-! Membership entries given one after another. A field may be given more than once; what
remains is each field where it first appears, with the values that it was given last. A
group is therefore a map in order of insertion. -/
namespace DecisionRules.MembershipGroup

def lastFor? (es : List MembershipEntry) (field : String) : Option MembershipEntry :=
  es.findRev? (·.field = field)

/-- The last entry of each field, in the order in which the fields first appear. -/
def lastEntries (es : List MembershipEntry) : List MembershipEntry :=
  (es.map (·.field)).eraseDups.filterMap (lastFor? es)

private theorem lastFor?_cons (e : MembershipEntry) (es : List MembershipEntry) (field : String) :
    lastFor? (e :: es) field = (lastFor? es field).or (if e.field = field then some e else none) := by
  rw [lastFor?, lastFor?, List.findRev?]
  cases es.findRev? (·.field = field) <;> simp

theorem mem_of_lastFor? {es : List MembershipEntry} {field : String} {e : MembershipEntry}
    (h : lastFor? es field = some e) : e ∈ es ∧ e.field = field := by
  rw [lastFor?, List.findRev?_eq_find?_reverse] at h
  exact ⟨List.mem_reverse.mp (List.mem_of_find?_eq_some h), by simpa using List.find?_some h⟩

/-- The entries that remain are those that are the last of their fields. -/
theorem mem_lastEntries_iff {es : List MembershipEntry} {e : MembershipEntry} :
    e ∈ lastEntries es ↔ lastFor? es e.field = some e := by
  rw [lastEntries, List.mem_filterMap]
  constructor
  · intro h
    obtain ⟨field, _, hlast⟩ := h
    rwa [(mem_of_lastFor? hlast).2]
  · intro h
    have hfield := List.mem_map_of_mem (f := (·.field)) (mem_of_lastFor? h).1
    exact ⟨e.field, List.mem_eraseDups.mpr hfield, h⟩

/-- Putting entries in looks up to finding the last of them, and before them what was there. -/
private theorem find?_foldl_put (xs es : List MembershipEntry) (field : String) :
    (es.foldl put xs).find? (·.field = field) =
      (lastFor? es field).or (xs.find? (·.field = field)) := by
  induction es generalizing xs with
  | nil => rfl
  | cons e es ih =>
    rw [List.foldl_cons, ih, find?_put, lastFor?_cons]
    cases lastFor? es field with
    | some => rfl
    | none => by_cases h : e.field = field <;> simp [h]

/-- Putting entries in adds the fields that are new, each once. -/
private theorem map_field_foldl_put (xs es : List MembershipEntry) :
    (es.foldl put xs).map (·.field) = (es.map (·.field)).foldl addNew (xs.map (·.field)) := by
  induction es generalizing xs with
  | nil => rfl
  | cons e es ih =>
    rw [List.foldl_cons, ih, map_field_put]
    rfl

/-- In a list with one entry a field every entry is found by its field. -/
private theorem Distinct.find?_eq_some {xs : List MembershipEntry} (h : Distinct xs)
    {e : MembershipEntry}
    (he : e ∈ xs) : xs.find? (·.field = e.field) = some e := by
  induction xs with
  | nil => cases he
  | cons x xs ih =>
    obtain ⟨hnew, hrest⟩ := List.nodup_cons.mp h
    rcases List.mem_cons.mp he with rfl | he
    · simp
    · have hne : x.field ≠ e.field := by
        intro heq
        exact hnew (List.mem_map.mpr ⟨e, he, heq.symm⟩)
      rw [List.find?_cons_of_neg (by simpa using hne), ih hrest he]

/-- A list with one entry a field is told by its fields and by what is found for each. -/
private theorem Distinct.filterMap_find? {xs : List MembershipEntry} (h : Distinct xs) :
    (xs.map (·.field)).filterMap (fun field => xs.find? (·.field = field)) = xs := by
  rw [List.filterMap_map]
  calc xs.filterMap ((fun field => xs.find? (·.field = field)) ∘ (·.field))
      = xs.filterMap some := List.filterMap_congr fun e he => h.find?_eq_some he
    _ = xs := List.filterMap_some

/-- Merging keeps each field where it first appears. -/
theorem map_field_ofEntries (k : MembershipKind) (es : List MembershipEntry) :
    (ofEntries k es).entries.map (·.field) = (es.map (·.field)).eraseDups := by
  rw [ofEntries, map_field_foldl_put, List.map_nil, foldl_addNew_nil]

/-- Merging keeps the last entry of each field. -/
theorem ofEntries_eq_lastEntries (k : MembershipKind) (es : List MembershipEntry) :
    ofEntries k es = ⟨k, lastEntries es⟩ := by
  have hfind : (fun field => (es.foldl put []).find? (·.field = field)) = lastFor? es := by
    funext field
    rw [find?_foldl_put, List.find?_nil, Option.or_none]
  have hentries : (ofEntries k es).entries = lastEntries es := by
    rw [lastEntries, ← map_field_ofEntries k, ← hfind]
    exact (distinct_ofEntries k es).filterMap_find?.symm
  rw [← hentries]
  rfl

theorem lastEntries_eq_nil_iff {es : List MembershipEntry} : lastEntries es = [] ↔ es = [] := by
  have hfields := congrArg (fun g => g.entries.map (·.field)) (ofEntries_eq_lastEntries .memberOf es)
  rw [map_field_ofEntries] at hfields
  rw [← List.map_eq_nil_iff (f := (·.field)), ← hfields]
  cases es <;> simp [List.eraseDups_cons]

private theorem lastFor?_append (xs ys : List MembershipEntry) (field : String) :
    lastFor? (xs ++ ys) field = (lastFor? ys field).or (lastFor? xs field) := by
  rw [lastFor?, lastFor?, lastFor?, List.findRev?_eq_find?_reverse, List.findRev?_eq_find?_reverse,
    List.findRev?_eq_find?_reverse, List.reverse_append, List.find?_append]

/-- The entry given last for a field is the one behind which no other is given for it. -/
private theorem lastFor?_eq_some_iff {es : List MembershipEntry} {field : String}
    {e : MembershipEntry} :
    lastFor? es field = some e ↔ e.field = field ∧
      ∃ before behind, es = before ++ e :: behind ∧ ∀ x ∈ behind, x.field ≠ field := by
  constructor
  · intro h
    refine ⟨(mem_of_lastFor? h).2, ?_⟩
    rw [lastFor?, List.findRev?_eq_find?_reverse, List.find?_eq_some_iff_append] at h
    obtain ⟨_, behind, before, hes, hbehind⟩ := h
    refine ⟨before.reverse, behind.reverse, ?_, by simpa using hbehind⟩
    simpa using congrArg List.reverse hes
  · intro h
    obtain ⟨hfield, before, behind, rfl, hbehind⟩ := h
    rw [lastFor?, List.findRev?_eq_find?_reverse, List.find?_eq_some_iff_append]
    exact ⟨by simpa using hfield, behind.reverse, before.reverse, by simp, by simpa using hbehind⟩

private theorem lastFor?_eq_none_iff {es : List MembershipEntry} {field : String} :
    lastFor? es field = none ↔ field ∉ es.map (·.field) := by
  simp [lastFor?, List.findRev?_eq_find?_reverse]

theorem get?_ofEntries (k : MembershipKind) (es : List MembershipEntry) (field : String) :
    (ofEntries k es).get? field = (lastFor? es field).map (·.values) := by
  rw [get?, ofEntries, find?_foldl_put, List.find?_nil, Option.or_none]

theorem get?_ofEntries_eq_some_iff {k : MembershipKind} {es : List MembershipEntry} {field : String}
    {values : List Value} : (ofEntries k es).get? field = some values ↔
      ∃ before behind, es = before ++ ⟨field, values⟩ :: behind ∧ ∀ e ∈ behind, e.field ≠ field := by
  rw [get?_ofEntries, Option.map_eq_some_iff]
  constructor
  · intro h
    obtain ⟨e, he, rfl⟩ := h
    obtain ⟨rfl, hlast⟩ := lastFor?_eq_some_iff.mp he
    exact hlast
  · intro h
    exact ⟨⟨field, values⟩, lastFor?_eq_some_iff.mpr ⟨rfl, h⟩, rfl⟩

theorem get?_ofEntries_eq_none_iff {k : MembershipKind} {es : List MembershipEntry}
    {field : String} : (ofEntries k es).get? field = none ↔ field ∉ es.map (·.field) := by
  rw [get?_ofEntries, Option.map_eq_none_iff, lastFor?_eq_none_iff]

/-- More entries add the fields that are new behind those that are there. -/
theorem map_field_ofEntries_append (k : MembershipKind) (xs ys : List MembershipEntry) :
    (ofEntries k (xs ++ ys)).entries.map (·.field) =
      (ofEntries k xs).entries.map (·.field) ++ ((ofEntries k ys).entries.map (·.field)).filter
        fun field => field ∉ (ofEntries k xs).entries.map (·.field) := by
  simp only [map_field_ofEntries, List.map_append, List.eraseDups_append, List.removeAll,
    eraseDups_filter, List.mem_eraseDups]
  congr 1
  apply List.filter_congr
  intro field _
  rw [List.elem_eq_mem, decide_not]

/-- What is found for a field after more entries is what they give for it last. -/
theorem get?_ofEntries_append (k : MembershipKind) (xs ys : List MembershipEntry) (field : String) :
    (ofEntries k (xs ++ ys)).get? field = if field ∈ ys.map (·.field)
      then (ofEntries k ys).get? field else (ofEntries k xs).get? field := by
  simp only [get?_ofEntries, lastFor?_append]
  split
  · next hmem =>
    obtain ⟨e, he⟩ := Option.ne_none_iff_exists'.mp (mt lastFor?_eq_none_iff.mp (not_not.mpr hmem))
    rw [he]
    rfl
  · next hnew =>
    rw [lastFor?_eq_none_iff.mpr hnew, Option.none_or]

/-- A membership group is a map in order of insertion. It has each field once and where the
field first appears, with the values that were given last; entries that are added later add
their new fields behind the others and replace the values of the old ones; and a group made
of its own entries is the same again. -/
theorem ofEntries_is_ordered_map (k : MembershipKind) (xs ys : List MembershipEntry) :
    FirstAppearances ((ofEntries k xs).entries.map (·.field)) (xs.map (·.field)) ∧
      (∀ field values, (ofEntries k xs).get? field = some values ↔
        ∃ before behind, xs = before ++ ⟨field, values⟩ :: behind ∧ ∀ e ∈ behind, e.field ≠ field) ∧
      (∀ field, (ofEntries k xs).get? field = none ↔ field ∉ xs.map (·.field)) ∧
      (ofEntries k (xs ++ ys)).entries.map (·.field) =
        (ofEntries k xs).entries.map (·.field) ++ ((ofEntries k ys).entries.map (·.field)).filter
          (fun field => field ∉ (ofEntries k xs).entries.map (·.field)) ∧
      (∀ field, (ofEntries k (xs ++ ys)).get? field = if field ∈ ys.map (·.field)
        then (ofEntries k ys).get? field else (ofEntries k xs).get? field) ∧
      ofEntries k (ofEntries k xs).entries = ofEntries k xs := by
  refine ⟨?order, ?_, ?_, map_field_ofEntries_append k xs ys, get?_ofEntries_append k xs ys,
    ofEntries_ofEntries k k xs⟩
  case order =>
    rw [map_field_ofEntries]
    exact firstAppearances_eraseDups _
  · intro field values
    exact get?_ofEntries_eq_some_iff
  · intro field
    exact get?_ofEntries_eq_none_iff

/-- The first place and the last values of a field, which need not be of one entry. -/
example : (ofEntries .memberOf [⟨"A", [.int 1]⟩, ⟨"B", []⟩, ⟨"A", [.int 3, .int 3]⟩]).entries =
    [⟨"A", [.int 3, .int 3]⟩, ⟨"B", []⟩] := rfl

end DecisionRules.MembershipGroup
