import DecisionRules.Reading.Filler

/-! Items with commas between them. A sequence ends before the comma behind which the
reader of items misses; an item that fails for good fails the sequence. -/
namespace DecisionRules.Reading

variable {α : Type}

def symbol (x : Char) : Reader Unit where
  run
    | [] => .miss [] []
    | c :: cs => if c = x then .ok () cs else .miss (c :: cs) []
  suffix cs := by
    split
    · exact List.suffix_rfl
    · next c cs =>
      split
      · exact List.suffix_cons c cs
      · exact List.suffix_rfl

def behindComma? (cs : List Char) : Option (List Char) :=
  match skipFiller cs with
  | ',' :: rest => some rest
  | _ => none

theorem behindComma?_cons_suffix {cs rest : List Char} (h : behindComma? cs = some rest) :
    ',' :: rest <:+ cs := by
  have hs := skipFiller_suffix cs
  unfold behindComma? at h
  split at h
  · next heq => cases h; rwa [heq] at hs
  · cases h

def optionalComma : Reader Unit where
  run cs := .ok () ((behindComma? cs).getD cs)
  suffix cs := by
    cases h : behindComma? cs with
    | none => exact List.suffix_rfl
    | some rest => exact (List.suffix_cons ',' rest).trans (behindComma?_cons_suffix h)

def moreItems (item : Reader α) (cs : List Char) : Reply (List α) :=
  match hc : behindComma? cs with
  | none => .ok [] cs
  | some behind =>
    match hi : item.run behind with
    | .ok a rest =>
      have : rest.length < cs.length :=
        Nat.lt_of_le_of_lt (Reader.length_rest_le hi) (behindComma?_cons_suffix hc).length_le
      (moreItems item rest).bind fun items rest => .ok (a :: items) rest
    | .miss _ _ => .ok [] cs
    | .fatal rest expected => .fatal rest expected
termination_by cs.length

theorem moreItems_suffix (item : Reader α) (cs : List Char) : (moreItems item cs).rest <:+ cs := by
  fun_induction moreItems item cs with
  | case1 => exact List.suffix_rfl
  | case2 cs behind hc a rest hi _ ih =>
    have hr := item.suffix behind
    rw [hi] at hr
    have hb := (List.suffix_cons ',' behind).trans (behindComma?_cons_suffix hc)
    exact (Reply.rest_bind_suffix fun _ _ => List.suffix_rfl).trans (ih.trans (hr.trans hb))
  | case3 => exact List.suffix_rfl
  | case4 cs behind hc rest expected hi =>
    have hr := item.suffix behind
    rw [hi] at hr
    exact hr.trans ((List.suffix_cons ',' behind).trans (behindComma?_cons_suffix hc))

def separated (item : Reader α) : Reader (List α) where
  run cs :=
    match item.run cs with
    | .ok a rest => (moreItems item rest).bind fun items rest => .ok (a :: items) rest
    | .miss _ _ => .ok [] cs
    | .fatal rest expected => .fatal rest expected
  suffix cs := by
    have hr := item.suffix cs
    split
    · next heq =>
      rw [heq] at hr
      exact (Reply.rest_bind_suffix fun _ _ => List.suffix_rfl).trans
        ((moreItems_suffix item _).trans hr)
    · exact List.suffix_rfl
    · next heq => rwa [heq] at hr

end DecisionRules.Reading
