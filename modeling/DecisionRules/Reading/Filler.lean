import DecisionRules.Reading.Reader
import DecisionRules.Text.Blank

/-! Filler between tokens: blanks and comments, a comment running from `#` to the end
of its line. -/
namespace DecisionRules.Reading

/-- What follows a comment whose `#` has been read. A carriage return ends the line only
before a line feed; in front of anything else the `#` opens no comment. -/
def behindComment? (cs : List Char) : Option (List Char) :=
  match cs.dropWhile (fun c => c != '\n' && c != '\r') with
  | [] => some []
  | '\r' :: '\n' :: rest => some ('\r' :: '\n' :: rest)
  | '\r' :: _ => none
  | rest => some rest

theorem behindComment?_suffix {cs rest : List Char} (h : behindComment? cs = some rest) :
    rest <:+ cs := by
  have hd := List.dropWhile_suffix (l := cs) (fun c => c != '\n' && c != '\r')
  unfold behindComment? at h
  split at h
  · cases h; exact List.nil_suffix
  · next heq => cases h; rwa [heq] at hd
  · cases h
  · cases h; exact hd

def skipFiller (cs : List Char) : List Char :=
  match cs with
  | [] => []
  | c :: cs =>
    if Text.isBlank c then skipFiller cs
    else if c = '#' then
      match h : behindComment? cs with
      | some rest =>
        have := (behindComment?_suffix h).length_le
        skipFiller rest
      | none => c :: cs
    else c :: cs
termination_by cs.length

theorem skipFiller_suffix (cs : List Char) : skipFiller cs <:+ cs := by
  fun_induction skipFiller cs with
  | case1 => exact List.suffix_rfl
  | case2 c cs _ ih => exact ih.trans (List.suffix_cons c cs)
  | case3 cs rest h _ _ ih =>
    exact (ih.trans (behindComment?_suffix h)).trans (List.suffix_cons _ cs)
  | case4 | case5 => exact List.suffix_rfl

def filler : Reader Unit := ⟨fun cs => .ok () (skipFiller cs), skipFiller_suffix⟩

@[simp] theorem run_filler (cs : List Char) : filler.run cs = .ok () (skipFiller cs) := rfl

end DecisionRules.Reading
