import Mathlib.Data.List.Basic

/-! Things in the order in which they first appear in a list. Adding them one after another at
the end, unless they are there already, keeps each of them where it first appears. -/
namespace DecisionRules

variable {α : Type} [BEq α]

/-- The things that appear in a list, each of them once and where it first appears. -/
structure FirstAppearances (distinct xs : List α) : Prop where
  nodup : distinct.Nodup
  mem_iff (a : α) : a ∈ distinct ↔ a ∈ xs
  inOrder : distinct.Pairwise fun a b => xs.idxOf a < xs.idxOf b

private theorem FirstAppearances.nil : FirstAppearances ([] : List α) [] := ⟨.nil, by simp, .nil⟩

variable [LawfulBEq α]

def addNew (seen : List α) (a : α) : List α := if a ∈ seen then seen else seen ++ [a]

private theorem FirstAppearances.addNew {seen xs : List α} (h : FirstAppearances seen xs) (a : α) :
    FirstAppearances (addNew seen a) (xs ++ [a]) := by
  have hkept {b : α} (hb : b ∈ seen) : (xs ++ [a]).idxOf b = xs.idxOf b :=
    List.idxOf_append_of_mem ((h.mem_iff b).mp hb)
  have horder : seen.Pairwise fun b c => (xs ++ [a]).idxOf b < (xs ++ [a]).idxOf c := by
    refine h.inOrder.imp_of_mem ?_
    intro b c hb hc hbc
    rwa [hkept hb, hkept hc]
  rw [DecisionRules.addNew]
  split
  · next hold =>
    refine ⟨h.nodup, ?_, horder⟩
    intro b
    rw [List.mem_append, List.mem_singleton, ← h.mem_iff, or_iff_left_of_imp]
    rintro rfl
    exact hold
  · next hnew =>
    refine ⟨?_, by simp [h.mem_iff], ?_⟩
    · rw [List.nodup_append]
      refine ⟨h.nodup, by simp, ?_⟩
      rintro b hb _ hlast rfl
      exact hnew (List.mem_singleton.mp hlast ▸ hb)
    · rw [List.pairwise_append]
      refine ⟨horder, List.pairwise_singleton _ _, ?_⟩
      intro b hb c hc
      rw [List.mem_singleton.mp hc, hkept hb,
        List.idxOf_append_of_notMem ((not_congr (h.mem_iff a)).mp hnew)]
      exact Nat.lt_add_right _ (List.idxOf_lt_length_of_mem ((h.mem_iff b).mp hb))

/-- Adding things one after another keeps the order of their first appearances. -/
private theorem FirstAppearances.foldl_addNew {seen xs : List α} (h : FirstAppearances seen xs)
    (ys : List α) : FirstAppearances (ys.foldl DecisionRules.addNew seen) (xs ++ ys) := by
  induction ys generalizing seen xs with
  | nil => simpa using h
  | cons y ys ih =>
    rw [List.foldl_cons, List.append_cons]
    exact ih (h.addNew y)

private theorem removeAll_append_singleton (xs seen : List α) (a : α) :
    xs.removeAll (seen ++ [a]) = (xs.removeAll seen).filter fun b => !b == a := by
  rw [List.removeAll, List.removeAll, List.filter_filter]
  apply List.filter_congr
  intro b _
  by_cases h : b = a <;> simp [h]

/-- What is added is new, each thing once. -/
private theorem foldl_addNew (xs seen : List α) :
    xs.foldl addNew seen = seen ++ (xs.removeAll seen).eraseDups := by
  induction xs generalizing seen with
  | nil => simp
  | cons x xs ih =>
    rw [List.foldl_cons, ih, addNew, List.cons_removeAll]
    by_cases h : x ∈ seen
    · rw [if_pos h, if_neg (by simpa using h)]
    · rw [if_neg h, if_pos (by simpa using h), removeAll_append_singleton,
        List.eraseDups_cons, List.append_assoc, List.singleton_append]

theorem foldl_addNew_nil (xs : List α) : xs.foldl addNew [] = xs.eraseDups := by
  rw [foldl_addNew, List.removeAll_nil, List.nil_append]

theorem firstAppearances_eraseDups (xs : List α) : FirstAppearances xs.eraseDups xs := by
  rw [← foldl_addNew_nil]
  exact FirstAppearances.nil.foldl_addNew xs

/-- Leaving some things out keeps the order of the others. -/
private theorem filter_foldl_addNew (p : α → Bool) (xs seen : List α) :
    (xs.foldl addNew seen).filter p = (xs.filter p).foldl addNew (seen.filter p) := by
  induction xs generalizing seen with
  | nil => rfl
  | cons x xs ih =>
    rw [List.foldl_cons, ih, List.filter_cons]
    split
    · next hx =>
      have hstep : (addNew seen x).filter p = addNew (seen.filter p) x := by
        by_cases hseen : x ∈ seen <;> simp [addNew, hx, hseen]
      rw [hstep, List.foldl_cons]
    · next hx =>
      have hstep : (addNew seen x).filter p = seen.filter p := by
        by_cases hseen : x ∈ seen <;> simp [addNew, hx, hseen]
      rw [hstep]

theorem eraseDups_filter (p : α → Bool) (xs : List α) :
    (xs.filter p).eraseDups = xs.eraseDups.filter p := by
  rw [← foldl_addNew_nil, ← foldl_addNew_nil, filter_foldl_addNew, List.filter_nil]

theorem eraseDups_eq_singleton {a : α} {xs : List α} (hmem : a ∈ xs) (hall : ∀ b ∈ xs, b = a) :
    xs.eraseDups = [a] := by
  cases xs with
  | nil => cases hmem
  | cons b xs =>
    obtain rfl := hall b List.mem_cons_self
    have hsame : ∀ c ∈ xs, c = b := fun c hc => hall c (List.mem_cons_of_mem b hc)
    have hnone : (xs.filter fun c => !c == b) = [] := by simpa using hsame
    rw [List.eraseDups_cons, hnone, List.eraseDups_nil]

theorem eraseDups_append_of_disjoint {xs ys : List α} (h : ∀ a ∈ ys, a ∉ xs) :
    (xs ++ ys).eraseDups = xs.eraseDups ++ ys.eraseDups := by
  have hkept : ys.removeAll xs = ys := List.filter_eq_self.mpr fun a ha => by simpa using h a ha
  rw [List.eraseDups_append, hkept]

end DecisionRules
