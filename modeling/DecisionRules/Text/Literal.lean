import DecisionRules.Text.Printable

/-! Literals: a text shown on one line, every character that has no look of its own
given by its code point. -/
namespace DecisionRules.Text

def literalUnit (c : Char) : List Char :=
  match c with
  | '\x00' => ['\\', '0']
  | '\t' => ['\\', 't']
  | '\r' => ['\\', 'r']
  | '\n' => ['\\', 'n']
  | '"' => ['\\', '"']
  | '\\' => ['\\', '\\']
  | c =>
    if isPrintable c then [c]
    else ['\\', 'u', '{'] ++ Nat.toDigits 16 c.toNat ++ ['}']

def literal (s : String) : String :=
  String.ofList ('"' :: s.toList.flatMap literalUnit ++ ['"'])

def optionLiteral : Option String → String
  | none => "None"
  | some s => "Some(" ++ literal s ++ ")"

end DecisionRules.Text
