import DecisionRules.Reading.Reader

/-! What is reported about a text that does not read: the text, a caret under the place
where the reader stood, and what it was looking for there. -/
namespace DecisionRules

open Reading (Expectation)

/-- A text that a reader gave up, cut at the place where the reader stood. -/
structure Misreading where
  before : List Char
  after : List Char
  expected : List Expectation
deriving DecidableEq, Repr

namespace Misreading

def source (m : Misreading) : List Char := m.before ++ m.after

def byteLength : List Char → Nat
  | [] => 0
  | c :: cs => c.utf8Size + byteLength cs

theorem byteLength_eq_utf8ByteSize (cs : List Char) :
    byteLength cs = (String.ofList cs).utf8ByteSize := by
  induction cs with
  | nil => rfl
  | cons c cs ih =>
    have h : String.ofList (c :: cs) = String.singleton c ++ String.ofList cs := by
      rw [String.singleton_eq_ofList, ← String.ofList_append]; rfl
    rw [h, String.utf8ByteSize_append, String.utf8ByteSize_singleton, byteLength, ih]

def offset (m : Misreading) : Nat := byteLength m.before

/-- The text before the character that the place is shown at. The end of the text is
shown behind its last character and so on the line which that character ends. -/
def lead (m : Misreading) : List Char :=
  if m.after.isEmpty then m.before.dropLast else m.before

def line (m : Misreading) : Nat := m.lead.count '\n' + 1

private def lastLine (cs : List Char) : List Char :=
  (cs.reverse.takeWhile (· != '\n')).reverse

/-- The column, from one, in characters; in bytes before a character of several bytes. -/
def column (m : Misreading) : Nat :=
  let before := lastLine m.lead
  match m.after with
  | [] => before.length + 2
  | c :: _ => (if c.utf8Size = 1 then before.length else byteLength before) + 1

def lineText (m : Misreading) : List Char :=
  lastLine m.lead ++ (m.source.drop m.lead.length).takeWhile (· != '\n')

private def spaces (n : Nat) : String := String.ofList (List.replicate n ' ')

/-- The source with the caret. A text of one line is shown whole and the caret stands
under the place by bytes; of a longer text the line is shown with its number. -/
def excerpt (m : Misreading) : String :=
  if '\n' ∈ m.source then
    let number := m.line.repr
    let margin := spaces number.length
    "parse error at line " ++ number ++ ", column " ++ m.column.repr ++ "\n"
      ++ margin ++ " |\n"
      ++ number ++ " | " ++ String.ofList m.lineText ++ "\n"
      ++ margin ++ " | " ++ spaces (m.column - 1) ++ "^\n"
  else String.ofList m.source ++ "\n" ++ spaces m.offset ++ "^\n"

def expectation (m : Misreading) : String :=
  match m.expected with
  | [] => ""
  | es => "expected " ++ ", ".intercalate (es.map Expectation.label)

end Misreading

inductive ParseError where
  | unknownComparison (text : String)
  | malformed (misreading : Misreading)
deriving DecidableEq, Repr

namespace ParseError

def detail : ParseError → String
  | .unknownComparison text => "unknown operator '" ++ text ++ "'"
  | .malformed m => m.excerpt ++ m.expectation

def message (e : ParseError) : String := "parse error: " ++ e.detail

end ParseError

namespace Reading.Reader

variable {α : Type}

def upTo (source rest : List Char) : List Char := source.take (source.length - rest.length)

/-- Reads a whole text. What is left unread is an error at the place where it begins. -/
def parse (r : Reader α) (text : String) : Except ParseError α :=
  let source := text.toList
  match r.run source with
  | .ok a [] => .ok a
  | .ok _ rest => .error (.malformed ⟨upTo source rest, rest, []⟩)
  | .miss rest expected | .fatal rest expected =>
    .error (.malformed ⟨upTo source rest, rest, expected⟩)

theorem upTo_append {source rest : List Char} (h : rest <:+ source) :
    upTo source rest ++ rest = source := by
  obtain ⟨before, rfl⟩ := h
  simp [upTo]

end Reading.Reader
end DecisionRules
