import PromptTemplate.Value.Basic

/-!
# Equality of values

Containers have no identity, so strict equality compares them by their content, objects
without regard to the order of members. Loose equality of values of different kinds
compares what they stand for: truth values stand for numbers, containers and functions
for their texts, and a text beside a number for the number it names. One of the two values
gives way at a time, until the two are of one kind or known to differ.
-/

namespace PromptTemplate.Value

mutual

def strictEq : Value → Value → Bool
  | .undefined, .undefined => true
  | .null, .null => true
  | .bool a, .bool b => a == b
  | .number x, .number y => x == y
  | .string s, .string t => s == t
  | .array as, .array bs => itemsEq as bs
  | .object as, .object bs => as.length == bs.length && membersEq as bs
  | .function f, .function g => f == g
  | _, _ => false

def itemsEq : List Value → List Value → Bool
  | [], [] => true
  | a :: as, b :: bs => strictEq a b && itemsEq as bs
  | _, _ => false

/-- Whether every member of the first list has an equal one in the second. -/
def membersEq : List (String × Value) → List (String × Value) → Bool
  | [], _ => true
  | (k, a) :: as, bs =>
    (match Dictionary.get? bs k with
      | some b => strictEq a b
      | none => false) && membersEq as bs

end

/-- Arrays, objects and functions. -/
def isReference : Value → Bool
  | .array _ | .object _ | .function _ => true
  | _ => false

/-- What a loose comparison comes down to: an answer, or the comparison of two other values. -/
inductive Comparison where
  | settled (equal : Bool)
  | between (a b : Value)

/-- Values of one kind are compared strictly, and undefined and null are level with each other
only. Beside a value of another kind a truth value gives way to its number first, and then a
container or a function to its text. -/
def comparison (a b : Value) : Comparison :=
  if a.kind = b.kind then .settled (a.strictEq b)
  else if a.isNullish || b.isNullish then .settled (a.isNullish && b.isNullish)
  else
    match a, b with
    | .number x, .string _ => .settled (x == b.toNumber)
    | .string _, .number y => .settled (a.toNumber == y)
    | .bool _, _ => .between (.number a.toNumber) b
    | _, .bool _ => .between a (.number b.toNumber)
    | a, b =>
      if a.isReference && b.isReference then .settled false
      else if a.isReference then .between a.primitive b
      else .between a b.primitive

/-- How often a value can give way to another one. -/
def coercions : Value → Nat
  | .undefined | .null | .number _ | .string _ => 0
  | .bool _ | .array _ | .object _ | .function _ => 1

theorem coercions_lt {a b c d : Value} (h : comparison a b = .between c d) :
    c.coercions + d.coercions < a.coercions + b.coercions := by
  cases a <;> cases b <;> simp [comparison, kind, isNullish, isReference] at h <;>
    (obtain ⟨rfl, rfl⟩ := h; simp [coercions, primitive])

/-- Whether two values are equal after all that gives way has given way. -/
def looseEq (a b : Value) : Bool :=
  match h : comparison a b with
  | .settled equal => equal
  | .between c d =>
    have := coercions_lt h
    looseEq c d
termination_by a.coercions + b.coercions

end PromptTemplate.Value
