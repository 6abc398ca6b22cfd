import DecisionRules.Serial.Json

/-! Shapes of data: how values are taken out of JSON. -/
namespace DecisionRules.Serial

abbrev Decoder (α : Type) := Json → Except DecodeError α

variable {α β : Type}

def asText : Decoder String
  | .string s => .ok s
  | _ => .error .invalidType

def asBool : Decoder Bool
  | .bool b => .ok b
  | _ => .error .invalidType

/-- An integer of 64 bits. One that only an unsigned word holds is known to be an integer
and has the wrong value; one that no word holds counts as no integer. -/
def asInt64 : Decoder Int64
  | .integer n =>
    if Int64.minValue.toInt ≤ n ∧ n ≤ Int64.maxValue.toInt then .ok (Int64.ofInt n)
    else if 0 ≤ n ∧ n.toNat < UInt64.size then .error .invalidValue
    else .error .invalidType
  | _ => .error .invalidType

def asBinary64 : Decoder Binary64
  | .integer n => .ok (.ofInt n)
  | .float x => .ok x
  | _ => .error .invalidType

def asOption (decode : Decoder α) : Decoder (Option α)
  | .null => .ok none
  | j => some <$> decode j

def asList (decode : Decoder α) : Decoder (List α)
  | .array items => items.mapM decode
  | _ => .error .invalidType

def variantOf (all : List α) (name : α → String) (given : String) : Except DecodeError α :=
  match all.find? (name · = given) with
  | some a => .ok a
  | none => .error (.unknownVariant given)

/-- A variant by its name alone, or by its name as the only key of an object. -/
def asVariant (all : List α) (name : α → String) : Decoder α
  | .string given => variantOf all name given
  | .object [(given, content)] => do
    let a ← variantOf all name given
    match content with
    | .null => return a
    | _ => throw .invalidType
  | .object _ => .error .invalidValue
  | _ => .error .invalidType

/-- A variant with content, its name being the only key of an object. -/
def asTagged (decoders : List (String × Decoder α)) : Decoder α
  | .string name =>
    match decoders.lookup name with
    | some _ => .error .invalidType
    | none => .error (.unknownVariant name)
  | .object [(name, content)] =>
    match decoders.lookup name with
    | some decode => decode content
    | none => .error (.unknownVariant name)
  | .object _ => .error .invalidValue
  | _ => .error .invalidType

inductive RecordFault where
  | bad (key : String) (cause : DecodeError)
  | missing (key : String)
deriving DecidableEq, Repr

namespace RecordFault

/-- The fault to report of two: a bad member before a missing one, of two bad ones the
one with the lesser key, of two missing ones the first. -/
def first : RecordFault → RecordFault → RecordFault
  | .bad k e, .bad l f => if l < k then .bad l f else .bad k e
  | .bad k e, .missing _ => .bad k e
  | .missing _, .bad l f => .bad l f
  | .missing k, .missing _ => .missing k

def toDecodeError : RecordFault → DecodeError
  | .bad _ cause => cause
  | .missing key => .missingField key

end RecordFault

/-- A record, its members by key in an object or by position in an array. -/
structure Shape (α : Type) where
  ofMembers : (String → Option Json) → Except RecordFault α
  ofItems : List Json → Except DecodeError (α × List Json)

namespace Shape

def both (f : Except RecordFault (α → β)) (a : Except RecordFault α) : Except RecordFault β :=
  match f, a with
  | .ok f, .ok a => .ok (f a)
  | .error x, .ok _ => .error x
  | .ok _, .error y => .error y
  | .error x, .error y => .error (x.first y)

instance : Applicative Shape where
  pure a := ⟨fun _ => .ok a, fun items => .ok (a, items)⟩
  seq f a := {
    ofMembers := fun member? => both (f.ofMembers member?) ((a ()).ofMembers member?)
    ofItems := fun items => do
      let (g, items) ← f.ofItems items
      let (x, items) ← (a ()).ofItems items
      return (g x, items) }

def nextItem (decode : Decoder α) : List Json → Except DecodeError (α × List Json)
  | [] => .error .invalidLength
  | j :: items => do return (← decode j, items)

def memberOutcome (key : String) (decode : Decoder α) (j : Json) : Except RecordFault α :=
  match decode j with
  | .ok a => .ok a
  | .error cause => .error (.bad key cause)

def required (key : String) (decode : Decoder α) : Shape α where
  ofMembers member? :=
    match member? key with
    | none => .error (.missing key)
    | some j => memberOutcome key decode j
  ofItems := nextItem decode

/-- A member that may be absent from an object, or null. -/
def optional (key : String) (decode : Decoder α) : Shape (Option α) where
  ofMembers member? :=
    match member? key with
    | none => .ok none
    | some j => memberOutcome key (asOption decode) j
  ofItems := nextItem (asOption decode)

/-- The record in an object, where other members do not matter, or in an array, where
every position counts. -/
def decode (s : Shape α) : Decoder α
  | .object members =>
    match s.ofMembers fun key => members.lookup key with
    | .ok a => .ok a
    | .error fault => .error fault.toDecodeError
  | .array items =>
    match s.ofItems items with
    | .ok (a, []) => .ok a
    | .ok (_, _ :: _) => .error .invalidLength
    | .error e => .error e
  | _ => .error .invalidType

end Shape

def checking (decode : Decoder α) (check : α → Except RuleError β) : Decoder β := fun j => do
  let a ← decode j
  match check a with
  | .ok b => .ok b
  | .error cause => .error (.refused cause)

end DecisionRules.Serial
