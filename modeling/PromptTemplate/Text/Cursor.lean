import PromptTemplate.Text.Blank
import PromptTemplate.Text.Position

/-!
# Cursors

A cursor is a place in a text together with what is left of the text there. It moves
only forward, over characters of that rest.
-/

namespace PromptTemplate.Text

structure Cursor where
  position : Position
  rest : List Char

namespace Cursor

/-- The cursor at the beginning of a text. -/
def start (cs : List Char) : Cursor := ⟨Position.first, cs⟩

def offset (c : Cursor) : Nat := c.position.offset

/-- The offset of the end of the text. -/
def finish (c : Cursor) : Nat := c.position.offset + byteLength c.rest

def skip (c : Cursor) (n : Nat) : Cursor :=
  ⟨c.position.advance (c.rest.take n), c.rest.drop n⟩

def skipWhile (c : Cursor) (fits : Char → Bool) : Cursor :=
  c.skip (c.rest.takeWhile fits).length

def skipBlank (c : Cursor) : Cursor := c.skipWhile isBlank

/-- Whether the rest begins with a character. -/
def sees (c : Cursor) (x : Char) : Bool := c.rest.head? == some x

/-- The piece of the text between two cursors. -/
def span (c d : Cursor) : Span := Span.between c.position d.position

/-- A cursor further on in the text. -/
abbrev Shorter (c : Cursor) := { d : Cursor // d.rest.length < c.rest.length }

/-- The same cursor or one further on. -/
abbrev NoLonger (c : Cursor) := { d : Cursor // d.rest.length ≤ c.rest.length }

@[simp] theorem rest_skip (c : Cursor) (n : Nat) : (c.skip n).rest = c.rest.drop n := rfl

theorem length_skip_le (c : Cursor) (n : Nat) : (c.skip n).rest.length ≤ c.rest.length := by
  simp

theorem length_skip_lt {c : Cursor} {n : Nat} (h : c.rest ≠ []) (hn : 0 < n) :
    (c.skip n).rest.length < c.rest.length := by
  have := List.length_pos_iff.2 h
  simp only [rest_skip, List.length_drop]
  omega

theorem length_skipWhile_le (c : Cursor) (fits : Char → Bool) :
    (c.skipWhile fits).rest.length ≤ c.rest.length :=
  c.length_skip_le _

theorem finish_skip (c : Cursor) (n : Nat) : (c.skip n).finish = c.finish := by
  unfold finish skip
  rw [Position.offset_advance, Nat.add_assoc, ← byteLength_append, List.take_append_drop]

end Cursor

end PromptTemplate.Text
