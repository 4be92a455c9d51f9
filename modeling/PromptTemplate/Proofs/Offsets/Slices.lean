import PromptTemplate.Proofs.Text.Pieces

/-!
# Reading by offsets

A reader by offsets has the whole text and a number of bytes, and takes slices of the text.
It comes to a result, which may be an error, unless an accident stops it: a slice whose ends
are not between characters of the text, or a round of a loop that does not go on. A reader by
cursors has no accidents; one by offsets that copies it has none, either.
-/

namespace PromptTemplate

namespace ByOffset

open Text

inductive Accident where
  /-- A slice whose ends are not between characters of the text, one after the other. -/
  | badSlice (start stop : Nat)
  /-- A round of a loop after which the loop is not further on in the text. -/
  | stalled (offset : Nat)
deriving DecidableEq, Repr

/-- A reader that may have an accident, and otherwise comes to a result or to an error. -/
abbrev Guarded (α : Type) := ExceptT Error (Except Accident) α

/-- What stops a reader. -/
def accident {α : Type} (a : Accident) : Guarded α := ExceptT.mk (.error a)

/-- What a reader comes to. -/
def result {α : Type} (r : Except Error α) : Guarded α := ExceptT.mk (.ok r)

/-- The text from an offset on. -/
def textFrom (source : List Char) (start : Nat) : Guarded (List Char) :=
  match cut? source start with
  | some (_, back) => return back
  | none => accident (.badSlice start (byteLength source))

/-- The text from an offset to another. -/
def textBetween (source : List Char) (start stop : Nat) : Guarded (List Char) :=
  match slice? source start stop with
  | some cs => return cs
  | none => accident (.badSlice start stop)

/-- What a loop checks before it goes on at another offset. -/
def onward (limit offset next : Nat) : Guarded (PLift (offset < next ∧ next ≤ limit)) :=
  if h : offset < next ∧ next ≤ limit then return ⟨h⟩ else accident (.stalled offset)

/-- The span of a piece of the text, with the line and the column of its first offset. -/
def spanAt (source : List Char) (start stop : Nat) : Span :=
  let p := Position.ofOffset source start
  ⟨start, stop, p.line, p.column⟩

/-- The offset after the blank characters at an offset. -/
def skipBlankAt (source : List Char) (offset : Nat) : Guarded Nat := do
  let rest ← textFrom source offset
  return offset + byteLength (rest.takeWhile isBlank)

/-- A slice to the end of the text is an accident unless it begins between two characters or at
an end of the text. -/
theorem textFrom_accident_iff (source : List Char) (start : Nat) :
    textFrom source start = accident (.badSlice start (byteLength source)) ↔
      ¬ ∃ front back, source = front ++ back ∧ byteLength front = start := by
  rw [textFrom]
  constructor
  · rintro stopped ⟨front, back, rfl, rfl⟩
    rw [cut?_append] at stopped
    cases stopped
  · intro inside
    cases hcut : cut? source start with
    | none => rfl
    | some r =>
      obtain ⟨hsource, hfront⟩ := append_of_cut? hcut
      exact absurd ⟨r.1, r.2, hsource.symm, hfront⟩ inside

/-- Another slice is an accident unless both ends are such places, one after the other. -/
theorem textBetween_accident_iff (source : List Char) (start stop : Nat) :
    textBetween source start stop = accident (.badSlice start stop) ↔
      ¬ ∃ front used back, source = front ++ (used ++ back) ∧ byteLength front = start ∧
        byteLength (front ++ used) = stop := by
  rw [textBetween]
  constructor
  · rintro stopped ⟨front, used, back, rfl, rfl, rfl⟩
    rw [slice?_append] at stopped
    cases stopped
  · intro inside
    cases hslice : slice? source start stop with
    | none => rfl
    | some _ =>
      rw [slice?] at hslice
      split at hslice
      · rename_i hle
        obtain ⟨⟨front, rest⟩, hcut, hslice⟩ := Option.bind_eq_some_iff.mp hslice
        obtain ⟨⟨used, back⟩, hrest, -⟩ := Option.map_eq_some_iff.mp hslice
        obtain ⟨rfl, hfront⟩ := append_of_cut? hcut
        obtain ⟨hrest, hused⟩ := append_of_cut? hrest
        refine absurd ⟨front, used, back, by rw [← hrest], hfront, ?_⟩ inside
        rw [byteLength_append, hfront, hused, Nat.add_sub_cancel' hle]
      · cases hslice

/-- No slice begins inside a character. -/
example : (textFrom ['é'] 1).run = .error (.badSlice 1 2) := rfl

/-! ## Copies -/

variable {α β γ δ : Type} {source used rest : List Char} {c d : Cursor} {p : Position}

/-- A reader by offsets that has no accident, comes to the error that another reader comes to,
and otherwise to something related to its result. -/
def Copies (R : α → β → Prop) (r : Except Error α) (m : Guarded β) : Prop :=
  match r with
  | .ok a => ∃ b, m = pure b ∧ R a b
  | .error e => m = throw e

namespace Copies

variable {R : α → β → Prop} {S : γ → δ → Prop} {r : Except Error α} {m : Guarded β}

theorem pure {a : α} {b : β} (h : R a b) : Copies R (pure a) (pure b) := ⟨b, rfl, h⟩

theorem throw (e : Error) : Copies R (.error e) (throw e) := rfl

theorem bind {f : α → Except Error γ} {g : β → Guarded δ} (h : Copies R r m)
    (hf : ∀ a b, R a b → Copies S (f a) (g b)) : Copies S (r >>= f) (m >>= g) := by
  cases r with
  | error e =>
    obtain rfl : m = MonadExcept.throw e := h
    exact rfl
  | ok a =>
    obtain ⟨b, rfl, hab⟩ := h
    exact hf a b hab

/-- Both look at the same. -/
theorem ite {p : Prop} [Decidable p] {r' : Except Error α} {m' : Guarded β}
    (yes : p → Copies R r m) (no : ¬ p → Copies R r' m') :
    Copies R (if p then r else r') (if p then m else m') := by
  split
  · rename_i h
    exact yes h
  · rename_i h
    exact no h

/-- One of them keeps what it has seen. -/
theorem dite {p : Prop} [Decidable p] {r : p → Except Error α} {r' : ¬ p → Except Error α}
    {m' : Guarded β} (yes : ∀ h, Copies R (r h) m) (no : ∀ h, Copies R (r' h) m') :
    Copies R (if h : p then r h else r' h) (if p then m else m') := by
  split
  · rename_i h
    exact yes h
  · rename_i h
    exact no h

/-- What is read from what has been sliced is the same. -/
theorem reading {f : α → Except Error γ} {g : α → Guarded δ} (r : Except Error α)
    (hf : ∀ a, Copies S (f a) (g a)) : Copies S (r >>= f) (result r >>= g) := by
  cases r with
  | error e => exact rfl
  | ok a => exact hf a

end Copies

/-! ## Slices at cursors -/

theorem offset_le (h : c.On source) : c.offset ≤ byteLength source := h.position.le

theorem finish_eq (h : c.On source) : c.finish = byteLength source := by
  obtain ⟨front, rfl, hposition⟩ := h
  rw [Cursor.finish, hposition, Position.offset_advance, byteLength_append]
  exact congrArg (· + _) (Nat.zero_add _)

/-- A slice at a cursor is what is left there. -/
theorem textFrom_offset (h : c.On source) : textFrom source c.offset = pure c.rest := by
  obtain ⟨front, hsource, hposition⟩ := h
  have place : c.offset = byteLength front := by
    rw [Cursor.offset, hposition, Position.offset_advance]
    exact Nat.zero_add _
  rw [textFrom, place, hsource, cut?_append]

/-- A slice between two cursors is what has been taken between them. -/
theorem textBetween_takes (h : c.On source) (k : c.Takes used d) :
    textBetween source c.offset d.offset = pure used := by
  obtain ⟨front, hsource, hposition⟩ := h
  have start : c.offset = byteLength front := by
    rw [Cursor.offset, hposition, Position.offset_advance]
    exact Nat.zero_add _
  have stop : d.offset = byteLength (front ++ used) := by
    rw [k.offset, start, byteLength_append]
  rw [textBetween, hsource, k.rest, start, stop, slice?_append]

theorem on_advance (h : (Cursor.mk p (used ++ rest)).On source) :
    (Cursor.mk (p.advance used) rest).On source :=
  (h.takes (⟨rfl, rfl⟩ : (Cursor.mk p (used ++ rest)).Takes used ⟨p.advance used, rest⟩)).on

theorem textFrom_place (h : (Cursor.mk p rest).On source) :
    textFrom source p.offset = pure rest :=
  textFrom_offset h

theorem textBetween_advance (h : (Cursor.mk p (used ++ rest)).On source) :
    textBetween source p.offset (p.advance used).offset = pure used :=
  textBetween_takes h (⟨rfl, rfl⟩ : (Cursor.mk p (used ++ rest)).Takes used ⟨p.advance used, rest⟩)

theorem spanAt_offset (h : c.On source) (d : Cursor) :
    spanAt source c.offset d.offset = c.span d := by
  have place : Position.ofOffset source c.offset = c.position := h.position.ofOffset
  rw [spanAt, place]
  rfl

theorem offset_skip (c : Cursor) (n : Nat) :
    (c.skip n).offset = c.offset + byteLength (c.rest.take n) := by
  rw [Cursor.offset, Cursor.skip, Position.offset_advance]
  rfl

theorem offset_skipWhile (c : Cursor) (fits : Char → Bool) :
    (c.skipWhile fits).offset = c.offset + byteLength (c.rest.takeWhile fits) := by
  rw [Cursor.skipWhile, offset_skip, ← List.prefix_iff_eq_take.mp (List.takeWhile_prefix fits)]

theorem onward_eq {limit offset next : Nat} (h : offset < next ∧ next ≤ limit) :
    onward limit offset next = pure ⟨h⟩ := dif_pos h

theorem skipBlankAt_offset (h : c.On source) :
    skipBlankAt source c.offset = pure c.skipBlank.offset := by
  rw [skipBlankAt, textFrom_offset h, Cursor.skipBlank, offset_skipWhile]
  rfl

end ByOffset

end PromptTemplate
