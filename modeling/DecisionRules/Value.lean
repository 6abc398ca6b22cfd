import DecisionRules.Binary64.Shortest
import DecisionRules.Text.Quoted

/-! Scalar values: what a field is compared with, a result and an output. -/
namespace DecisionRules

inductive Value where
  | int (n : Int64)
  | float (x : Binary64)
  | bool (b : Bool)
  | string (s : String)
deriving DecidableEq, Repr

namespace Value

/-- Values of one kind are equal as that kind is; a float equals a float numerically.
Values of two kinds differ. -/
def valueEq : Value → Value → Bool
  | .int m, .int n => m == n
  | .float x, .float y => x == y
  | .bool a, .bool b => a == b
  | .string s, .string t => s == t
  | _, _ => false

instance : BEq Value := ⟨valueEq⟩

def isNumeric : Value → Bool
  | .int _ | .float _ => true
  | _ => false

def kindName : Value → String
  | .int _ => "integer"
  | .float _ => "float"
  | .bool _ => "boolean"
  | .string _ => "string"

def isFinite : Value → Bool
  | .float x => x.isFinite
  | _ => true

/-- The text of a value. Floats show a fraction or an exponent, integers neither,
strings are quoted. -/
def spelling : Value → List Char
  | .int n => (Numeral.ofInt n.toInt).render
  | .float x => x.text
  | .bool true => "true".toList
  | .bool false => "false".toList
  | .string s => Text.quote s.toList

def text (v : Value) : String := String.ofList v.spelling

/-- A finite value equals itself. -/
theorem beq_self_of_isFinite {v : Value} (h : v.isFinite = true) : (v == v) = true := by
  cases v with
  | float x =>
    have hx : (x == x) = true := by
      rw [Binary64.beq_self_eq, Binary64.isNaN_eq_false_of_isFinite h]; rfl
    exact hx
  | _ => simp [BEq.beq, valueEq]

end Value
end DecisionRules
