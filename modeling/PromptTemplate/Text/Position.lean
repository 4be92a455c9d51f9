/-!
# Places in a text

Offsets count UTF-8 bytes, lines and columns start at one, and a column counts
characters. A position moves only by reading characters, so the position after
a list of characters depends on nothing but the list and where it begins.
-/

namespace PromptTemplate

namespace Text

/-- The number of UTF-8 bytes of a list of characters. -/
def byteLength : List Char → Nat
  | [] => 0
  | c :: cs => c.utf8Size + byteLength cs

theorem byteLength_append (a b : List Char) :
    byteLength (a ++ b) = byteLength a + byteLength b := by
  induction a with
  | nil => simp [byteLength]
  | cons c cs ih => simp [byteLength, ih, Nat.add_assoc]

/-- Cuts a text after the given number of bytes; there is no cut inside a
character or past the end. -/
def cut? : List Char → Nat → Option (List Char × List Char)
  | cs, 0 => some ([], cs)
  | [], _ + 1 => none
  | c :: cs, n + 1 =>
    if c.utf8Size ≤ n + 1 then
      (cut? cs (n + 1 - c.utf8Size)).map fun (front, back) => (c :: front, back)
    else none

/-- The characters from one byte offset up to another. -/
def slice? (cs : List Char) (start stop : Nat) : Option (List Char) :=
  if start ≤ stop then
    (cut? cs start).bind fun (_, back) => (cut? back (stop - start)).map (·.1)
  else none

theorem append_of_cut? {cs front back : List Char} {n : Nat}
    (h : cut? cs n = some (front, back)) : front ++ back = cs ∧ byteLength front = n := by
  fun_induction cut? cs n generalizing front back with
  | case1 cs => simp_all [byteLength]
  | case2 => simp at h
  | case3 c cs n hle ih =>
    obtain ⟨⟨f, b⟩, hfb, heq⟩ := Option.map_eq_some_iff.1 h
    obtain ⟨rfl, rfl⟩ := Prod.mk.injEq .. ▸ heq
    obtain ⟨happ, hlen⟩ := ih hfb
    exact ⟨by simp [happ], by simp [byteLength, hlen]; omega⟩
  | case4 => simp at h

end Text

/-- A place between two characters of a text. -/
structure Position where
  offset : Nat
  line : Nat
  column : Nat
deriving DecidableEq, Repr, Inhabited

namespace Position

def first : Position := ⟨0, 1, 1⟩

/-- The place after one more character. -/
def next (p : Position) (c : Char) : Position :=
  if c = '\n' then ⟨p.offset + c.utf8Size, p.line + 1, 1⟩
  else ⟨p.offset + c.utf8Size, p.line, p.column + 1⟩

/-- The place after reading some characters. -/
def advance (p : Position) (cs : List Char) : Position :=
  cs.foldl next p

@[simp] theorem advance_nil (p : Position) : p.advance [] = p := rfl

@[simp] theorem advance_cons (p : Position) (c : Char) (cs : List Char) :
    p.advance (c :: cs) = (p.next c).advance cs := rfl

theorem advance_append (p : Position) (a b : List Char) :
    p.advance (a ++ b) = (p.advance a).advance b := by
  simp [advance]

theorem offset_next (p : Position) (c : Char) : (p.next c).offset = p.offset + c.utf8Size := by
  unfold next
  split <;> rfl

theorem offset_advance (p : Position) (cs : List Char) :
    (p.advance cs).offset = p.offset + Text.byteLength cs := by
  induction cs generalizing p with
  | nil => rfl
  | cons c cs ih => rw [advance_cons, ih, offset_next, Text.byteLength, Nat.add_assoc]

/-- The place at a byte offset of a text. An offset past the end stands for the
end, and so does one inside a character. -/
def ofOffset (cs : List Char) (offset : Nat) : Position :=
  match Text.cut? cs offset with
  | some (front, _) => first.advance front
  | none => first.advance cs

end Position

/-- A piece of a text: the byte offsets of its two ends, with the line and the
column of the first. -/
structure Span where
  start : Nat
  stop : Nat
  line : Nat
  column : Nat
deriving DecidableEq, Repr

namespace Span

/-- The empty piece at the beginning of a text. -/
def none : Span := ⟨0, 0, 1, 1⟩

instance : Inhabited Span := ⟨none⟩

/-- The piece between two places. -/
def between (a b : Position) : Span := ⟨a.offset, b.offset, a.line, a.column⟩

/-- The piece that covers both, named by the line and the column of the first. -/
def cover (a b : Span) : Span :=
  ⟨min a.start b.start, max a.stop b.stop, a.line, a.column⟩

end Span

end PromptTemplate
