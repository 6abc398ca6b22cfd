/-! Readers of text. A reader that finds nothing of its kind misses, and another may be
tried in its place; one that finds the beginning of its kind and then something else
fails for good. Either way it tells where it stood. -/
namespace DecisionRules.Reading

inductive Expectation where
  | fieldName
  | comparison
  | value
  | escapeSequence
  | closingQuote
  | membershipWord
  | valueList
deriving DecidableEq, Repr

def Expectation.label : Expectation → String
  | .fieldName => "field name"
  | .comparison => "comparison operator"
  | .value => "value"
  | .escapeSequence => "escape sequence"
  | .closingQuote => "`\"`"
  | .membershipWord => "`in`"
  | .valueList => "parenthesized value list"

/-- The outcome of reading, always with the text from where the reader stands. The
expectations of a failure go from the innermost outwards. -/
inductive Reply (α : Type) where
  | ok (value : α) (rest : List Char)
  | miss (rest : List Char) (expected : List Expectation)
  | fatal (rest : List Char) (expected : List Expectation)
deriving DecidableEq, Repr

namespace Reply

variable {α β : Type}

def rest : Reply α → List Char
  | .ok _ rest | .miss rest _ | .fatal rest _ => rest

def bind (r : Reply α) (f : α → List Char → Reply β) : Reply β :=
  match r with
  | .ok a rest => f a rest
  | .miss rest expected => .miss rest expected
  | .fatal rest expected => .fatal rest expected

def commit : Reply α → Reply α
  | .miss rest expected => .fatal rest expected
  | r => r

def expecting (e : Expectation) : Reply α → Reply α
  | .ok a rest => .ok a rest
  | .miss rest expected => .miss rest (expected ++ [e])
  | .fatal rest expected => .fatal rest (expected ++ [e])

theorem rest_bind_suffix {r : Reply α} {f : α → List Char → Reply β}
    (h : ∀ a cs, (f a cs).rest <:+ cs) : (r.bind f).rest <:+ r.rest := by
  cases r with
  | ok a cs => exact h a cs
  | miss | fatal => exact List.suffix_rfl

@[simp] theorem rest_commit (r : Reply α) : r.commit.rest = r.rest := by
  cases r <;> rfl

@[simp] theorem rest_expecting (e : Expectation) (r : Reply α) :
    (r.expecting e).rest = r.rest := by
  cases r <;> rfl

end Reply

structure Reader (α : Type) where
  run : List Char → Reply α
  suffix (cs : List Char) : (run cs).rest <:+ cs

namespace Reader

variable {α β : Type}

instance : Monad Reader where
  pure a := ⟨fun cs => .ok a cs, fun _ => List.suffix_rfl⟩
  bind r f := ⟨fun cs => (r.run cs).bind fun a rest => (f a).run rest,
    fun cs => (Reply.rest_bind_suffix fun a rest => (f a).suffix rest).trans (r.suffix cs)⟩

@[simp] theorem run_pure (a : α) (cs : List Char) : (pure a : Reader α).run cs = .ok a cs := rfl

@[simp] theorem run_bind (r : Reader α) (f : α → Reader β) (cs : List Char) :
    (r >>= f).run cs = (r.run cs).bind fun a rest => (f a).run rest := rfl

def commit (r : Reader α) : Reader α :=
  ⟨fun cs => (r.run cs).commit, fun cs => by simpa using r.suffix cs⟩

def expecting (e : Expectation) (r : Reader α) : Reader α :=
  ⟨fun cs => (r.run cs).expecting e, fun cs => by simpa using r.suffix cs⟩

def orElse (r s : Reader α) : Reader α where
  run cs :=
    match r.run cs with
    | .miss _ _ => s.run cs
    | reply => reply
  suffix cs := by
    split
    · exact s.suffix cs
    · exact r.suffix cs

def choice (rs : List (Reader α)) : Reader α :=
  rs.foldr orElse ⟨fun cs => .miss cs [], fun _ => List.suffix_rfl⟩

def word (text : String) (a : α) : Reader α where
  run cs :=
    if text.toList <+: cs then .ok a (cs.drop text.toList.length) else .miss cs []
  suffix cs := by
    split
    · exact List.drop_suffix _ cs
    · exact List.suffix_rfl

theorem length_rest_le {r : Reader α} {cs rest : List Char} {a : α} (h : r.run cs = .ok a rest) :
    rest.length ≤ cs.length := by
  have hs := r.suffix cs
  rw [h] at hs
  exact hs.length_le

end Reader
end DecisionRules.Reading
