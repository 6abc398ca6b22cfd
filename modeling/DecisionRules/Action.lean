import DecisionRules.Value

/-! What a rule does when it fires. -/
namespace DecisionRules

inductive ResultCode where
  | ok | fail
deriving DecidableEq, Repr

namespace ResultCode

def all : List ResultCode := [.ok, .fail]

def label : ResultCode → String
  | .ok => "OK"
  | .fail => "FAIL"

end ResultCode

structure OutputField where
  name : String
  value : Value
deriving DecidableEq, BEq, Repr

structure Action where
  statusToSet : String
  resultCode : Option ResultCode
  result : Option Value
  outputs : List OutputField
deriving DecidableEq, BEq, Repr

end DecisionRules
