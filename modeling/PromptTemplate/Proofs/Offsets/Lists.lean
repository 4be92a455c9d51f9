import PromptTemplate.Expr.Parser
import PromptTemplate.Proofs.Offsets.Slices

/-!
# Lists of expressions

The arguments of a call, the elements of an array and the properties of an object are read in
rounds, each with what stands before a comma. No round leaves as many tokens as it has found,
whatever the tokens are.
-/

namespace PromptTemplate

namespace ByOffset

open Expr.Parser

variable {α : Type}

/-- What follows an element: its comma is taken off, unless the closing mark comes next. -/
def separated (stop : Token) (closing : Mark) (rest : List Token) : Except Error (List Token) :=
  if startsWith closing rest then .ok rest
  else (fun r => r.2.1) <$> expect stop .comma rest

/-- Reads in rounds up to a closing mark, with a check that every round takes tokens off. -/
def listOf (stop : Token) (closing : Mark) (one : List Token → Except Error (α × List Token))
    (ts : List Token) : Guarded (List α × Span × List Token) := do
  if startsWith closing ts then
    let (stopped, more) ← result (expect stop closing ts)
    return ([], stopped, more.1)
  else
    let (a, rest) ← result (one ts)
    let more ← result (separated stop closing rest)
    let ⟨_⟩ ← onward ts.length 0 (ts.length - more.length)
    let (as, stopped, last) ← listOf stop closing one more
    return (a :: as, stopped, last)
termination_by ts.length
decreasing_by omega

/-- What a reader leaves, without the promise that it takes something off. -/
def leaving {P : List Token → Prop} (x : α × { rest : List Token // P rest }) :
    α × List Token :=
  (x.1, x.2.1)

/-- The arguments of a call or the elements of an array. -/
def items (stop : Token) (closing : Mark) (ts : List Token) :
    Guarded (List Expr × Span × List Token) :=
  listOf stop closing (fun ts => leaving <$> assignment stop ts) ts

/-- The properties of an object. -/
def properties (stop : Token) (ts : List Token) : Guarded (List Property × Span × List Token) :=
  listOf stop .rightBrace (fun ts => leaving <$> property stop ts) ts

/-- What is left after a list, without the promise. -/
def leavingList {P : List Token → Prop} (x : List α × Span × { rest : List Token // P rest }) :
    List α × Span × List Token :=
  (x.1, x.2.1, x.2.2.1)

variable {stop : Token} {closing : Mark}

/-- How a list is read without checks, one round after another. -/
structure ReadsList (stop : Token) (closing : Mark)
    (one : (ts : List Token) → Except Error (α × Shorter ts))
    (list : (ts : List Token) → Except Error (List α × Span × Shorter ts)) : Prop where
  closed : ∀ ts, startsWith closing ts = true →
    leavingList <$> list ts = (fun r => ([], r.1, r.2.1)) <$> expect stop closing ts
  round : ∀ ts, ¬ startsWith closing ts = true →
    leavingList <$> list ts = do
      let x ← one ts
      let more ← separated stop closing x.2.1
      (fun y => (x.1 :: y.1, y.2)) <$> leavingList <$> list more

theorem readsList_items (stop : Token) (closing : Mark) :
    ReadsList stop closing (assignment stop) (Expr.Parser.items stop closing) where
  closed ts closes := by
    rw [Expr.Parser.items, if_pos closes]
    cases expect stop closing ts <;> rfl
  round ts opens := by
    rw [Expr.Parser.items, if_neg opens]
    cases assignment stop ts with
    | error e => rfl
    | ok x =>
      obtain ⟨e, rest, hrest⟩ := x
      change leavingList <$> (if startsWith closing rest = true then _ else _) =
        (separated stop closing rest >>= _)
      rw [separated]
      by_cases closes : startsWith closing rest = true
      · rw [if_pos closes, if_pos closes]
        change _ = _ <$> leavingList <$> Expr.Parser.items stop closing rest
        rw [Expr.Parser.items, if_pos closes]
        cases expect stop closing rest <;> rfl
      · rw [if_neg closes, if_neg closes]
        cases expect stop .comma rest with
        | error e => rfl
        | ok r =>
          obtain ⟨s, more, hmore⟩ := r
          change leavingList <$> (Expr.Parser.items stop closing more >>= _) =
            _ <$> leavingList <$> Expr.Parser.items stop closing more
          cases Expr.Parser.items stop closing more <;> rfl

theorem readsList_properties (stop : Token) :
    ReadsList stop .rightBrace (property stop) (Expr.Parser.properties stop) where
  closed ts closes := by
    rw [Expr.Parser.properties, if_pos closes]
    cases expect stop .rightBrace ts <;> rfl
  round ts opens := by
    rw [Expr.Parser.properties, if_neg opens]
    cases property stop ts with
    | error e => rfl
    | ok x =>
      obtain ⟨p, rest, hrest⟩ := x
      change leavingList <$> (if startsWith .rightBrace rest = true then _ else _) =
        (separated stop .rightBrace rest >>= _)
      rw [separated]
      by_cases closes : startsWith .rightBrace rest = true
      · rw [if_pos closes, if_pos closes]
        change _ = _ <$> leavingList <$> Expr.Parser.properties stop rest
        rw [Expr.Parser.properties, if_pos closes]
        cases expect stop .rightBrace rest <;> rfl
      · rw [if_neg closes, if_neg closes]
        cases expect stop .comma rest with
        | error e => rfl
        | ok r =>
          obtain ⟨s, more, hmore⟩ := r
          change leavingList <$> (Expr.Parser.properties stop more >>= _) =
            _ <$> leavingList <$> Expr.Parser.properties stop more
          cases Expr.Parser.properties stop more <;> rfl

theorem length_separated {rest more : List Token} (h : separated stop closing rest = .ok more) :
    more.length ≤ rest.length := by
  rw [separated] at h
  split at h
  · cases h
    exact Nat.le_refl _
  · cases hcomma : expect stop .comma rest with
    | error e =>
      rw [hcomma] at h
      cases h
    | ok r =>
      obtain ⟨s, left, hleft⟩ := r
      rw [hcomma] at h
      cases h
      exact Nat.le_of_lt hleft

/-- An element takes tokens off and a comma takes off one more, so that no round stands
still. -/
theorem listOf_eq {one : (ts : List Token) → Except Error (α × Shorter ts)}
    {list : (ts : List Token) → Except Error (List α × Span × Shorter ts)}
    (h : ReadsList stop closing one list) (ts : List Token) :
    listOf stop closing (fun ts => leaving <$> one ts) ts = result (leavingList <$> list ts) := by
  rw [listOf]
  by_cases closes : startsWith closing ts = true
  · rw [if_pos closes, h.closed ts closes]
    cases expect stop closing ts <;> rfl
  · rw [if_neg closes, h.round ts closes]
    cases one ts with
    | error e => rfl
    | ok x =>
      obtain ⟨a, rest, hrest⟩ := x
      change (result (separated stop closing rest) >>= _) =
        result (separated stop closing rest >>= _)
      cases hmore : separated stop closing rest with
      | error e => rfl
      | ok more =>
        have shorter : more.length < ts.length :=
          Nat.lt_of_le_of_lt (length_separated hmore) hrest
        change (onward ts.length 0 (ts.length - more.length) >>= _) = _
        rw [onward_eq ⟨by omega, by omega⟩, pure_bind, listOf_eq h more]
        change _ = result (_ <$> leavingList <$> list more)
        cases list more <;> rfl
termination_by ts.length

end ByOffset

end PromptTemplate
