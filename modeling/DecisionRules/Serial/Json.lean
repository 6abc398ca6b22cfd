import DecisionRules.Binary64.Rounding
import DecisionRules.RuleError

/-! The data that rules are stored as, and what can be wrong with it. -/
namespace DecisionRules

/-- A JSON value. A number written without fraction and exponent is an integer, any
other a floating-point number. -/
inductive Json where
  | null
  | bool (b : Bool)
  | integer (n : Int)
  | float (x : Binary64)
  | string (s : String)
  | array (items : List Json)
  | object (members : List (String × Json))
deriving Repr

inductive DecodeError where
  | missingField (key : String)
  | unknownVariant (name : String)
  | invalidType
  | invalidValue
  | invalidLength
  | refused (cause : RuleError)
deriving DecidableEq, Repr

def DecodeError.message : DecodeError → String
  | .missingField key => "missing field `" ++ key ++ "`"
  | .unknownVariant name => "unknown variant `" ++ name ++ "`"
  | .invalidType => "invalid type"
  | .invalidValue => "invalid value"
  | .invalidLength => "invalid length"
  | .refused cause => cause.message

end DecisionRules
