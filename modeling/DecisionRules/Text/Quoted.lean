/-! Text between double quotes. A quote, a backslash, a line feed and a tab are written
with a backslash; line feeds and tabs are read in either form. -/
namespace DecisionRules.Text

def escapeMark : Char → Option Char
  | '"' => some '"'
  | '\\' => some '\\'
  | '\n' => some 'n'
  | '\t' => some 't'
  | _ => none

def escapedChar : Char → Option Char
  | '"' => some '"'
  | '\\' => some '\\'
  | 'n' => some '\n'
  | 't' => some '\t'
  | _ => none

def writeUnit (c : Char) : List Char :=
  match escapeMark c with
  | some mark => ['\\', mark]
  | none => [c]

def quote (cs : List Char) : List Char := '"' :: cs.flatMap writeUnit ++ ['"']

/-- How the reading of a quoted text ends: at its closing quote, with the text and what
follows the quote; after a backslash with no escaped character behind it; or at the
end of the input. -/
inductive Unquoted where
  | closed (text rest : List Char)
  | badEscape (rest : List Char)
  | unclosed
deriving DecidableEq, Repr

def Unquoted.push (c : Char) : Unquoted → Unquoted
  | .closed text rest => .closed (c :: text) rest
  | ending => ending

def unquote : List Char → Unquoted
  | [] => .unclosed
  | '"' :: rest => .closed [] rest
  | ['\\'] => .badEscape []
  | '\\' :: mark :: rest =>
    match escapedChar mark with
    | some c => (unquote rest).push c
    | none => .badEscape (mark :: rest)
  | c :: rest => (unquote rest).push c

theorem escapedChar_escapeMark {c mark : Char} (h : escapeMark c = some mark) :
    escapedChar mark = some c := by
  unfold escapeMark at h
  split at h <;> simp_all [escapedChar] <;> (subst h; rfl)

theorem escapeMark_eq_none {c : Char} (h : escapeMark c = none) : c ≠ '"' ∧ c ≠ '\\' := by
  constructor <;> rintro rfl <;> simp [escapeMark] at h

/-- What is written between quotes is read back, up to its closing quote and no further. -/
theorem unquote_flatMap_writeUnit (cs rest : List Char) :
    unquote (cs.flatMap writeUnit ++ '"' :: rest) = .closed cs rest := by
  induction cs with
  | nil => rfl
  | cons c cs ih =>
    rw [List.flatMap_cons, List.append_assoc]
    cases hm : escapeMark c with
    | some mark =>
      simp only [writeUnit, hm, List.cons_append, List.nil_append]
      rw [unquote]
      simp [escapedChar_escapeMark hm, ih, Unquoted.push]
    | none =>
      obtain ⟨hq, hb⟩ := escapeMark_eq_none hm
      simp only [writeUnit, hm, List.cons_append, List.nil_append]
      rw [unquote]
      · simp [ih, Unquoted.push]
      all_goals simp [hq, hb]

end DecisionRules.Text
