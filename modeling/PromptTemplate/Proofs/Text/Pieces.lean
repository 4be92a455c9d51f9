import PromptTemplate.Error
import PromptTemplate.Proofs.Text.Taking

/-!
# Pieces of a text

The spans that a reader gives to what it reads are those of pieces of the text. What stands
inside a piece has its pieces inside of it, one after the other.
-/

namespace PromptTemplate

open Text

/-! ## Places -/

/-- A place of a text. -/
def Position.In (source : List Char) (p : Position) : Prop :=
  ∃ front back, source = front ++ back ∧ p = Position.first.advance front

/-- A cursor of a text. -/
def Text.Cursor.On (source : List Char) (c : Cursor) : Prop :=
  ∃ front, source = front ++ c.rest ∧ c.position = Position.first.advance front

/-- A cursor of a text that is not before another one. -/
structure Text.Cursor.Reaches (source : List Char) (c d : Cursor) : Prop where
  on : d.On source
  le : c.offset ≤ d.offset

theorem Text.eq_nil_of_byteLength {cs : List Char} (h : byteLength cs = 0) : cs = [] := by
  cases cs with
  | nil => rfl
  | cons x cs =>
    have := Char.utf8Size_pos x
    rw [byteLength] at h
    omega

namespace Text.Cursor

variable {source used : List Char} {c d e : Cursor}

theorem on_start (source : List Char) : (Cursor.start source).On source := ⟨[], rfl, rfl⟩

theorem On.position (h : c.On source) : c.position.In source := by
  obtain ⟨front, hsource, hposition⟩ := h
  exact ⟨front, c.rest, hsource, hposition⟩

theorem On.takes (h : c.On source) (k : c.Takes used d) : c.Reaches source d := by
  obtain ⟨front, hsource, hposition⟩ := h
  refine ⟨⟨front ++ used, ?_, ?_⟩, ?_⟩
  · rw [hsource, k.rest, List.append_assoc]
  · rw [k.position, hposition, Position.advance_append]
  · rw [k.offset]
    exact Nat.le_add_right _ _

namespace Reaches

theorem refl (h : c.On source) : c.Reaches source c := ⟨h, Nat.le_refl _⟩

theorem trans (h : c.Reaches source d) (k : d.Reaches source e) : c.Reaches source e :=
  ⟨k.on, Nat.le_trans h.le k.le⟩

end Reaches

theorem On.skip (h : c.On source) (n : Nat) : c.Reaches source (c.skip n) :=
  h.takes (.skip c n)

theorem On.skipBlank (h : c.On source) : c.Reaches source c.skipBlank := h.skip _

theorem Reaches.skip (h : c.Reaches source d) (n : Nat) : c.Reaches source (d.skip n) :=
  h.trans (h.on.skip n)

theorem Reaches.skipBlank (h : c.Reaches source d) : c.Reaches source d.skipBlank := h.skip _

/-- At the end of the text. -/
theorem On.offset_of_nil (h : c.On source) (hnil : c.rest = []) :
    c.offset = byteLength source := by
  obtain ⟨front, rfl, hposition⟩ := h
  rw [offset, hposition, hnil, List.append_nil, Position.offset_advance]
  exact Nat.zero_add _

end Text.Cursor

/-! ## Spans -/

namespace Span

/-- A span with its ends between characters of a text, and with the line and the column that
an error there is given. -/
structure Locates (source : List Char) (s : Span) : Prop where
  le : s.start ≤ s.stop
  le_length : s.stop ≤ byteLength source
  front : (cut? source s.start).isSome = true
  back : (cut? source s.stop).isSome = true
  located : ∀ e : Error, e.span.start = s.start →
    (e.locate source).span.line = s.line ∧ (e.locate source).span.column = s.column

/-- A span between two places of a text. -/
def Piece (source : List Char) (s : Span) : Prop :=
  ∃ p q : Position, p.In source ∧ q.In source ∧ p.offset ≤ q.offset ∧ s = between p q

/-- Spans from one offset to another, one after the other. -/
def Ordered (low high : Nat) : List Span → Prop
  | [] => low ≤ high
  | s :: rest => low ≤ s.start ∧ s.start ≤ s.stop ∧ Ordered s.stop high rest

/-- Spans from one offset to another without anything between them. -/
def Contiguous (low high : Nat) : List Span → Prop
  | [] => low = high
  | s :: rest => s.start = low ∧ Contiguous s.stop high rest

end Span

/-! ### Places of a text -/

namespace Position

variable {source : List Char} {p : Position}

theorem In.cut? (h : p.In source) :
    ∃ front back, Text.cut? source p.offset = some (front, back) ∧ p = first.advance front := by
  obtain ⟨front, back, rfl, rfl⟩ := h
  refine ⟨front, back, ?_, rfl⟩
  rw [offset_advance, show first.offset = 0 from rfl, Nat.zero_add, Text.cut?_append]

theorem In.le (h : p.In source) : p.offset ≤ byteLength source := by
  obtain ⟨front, back, rfl, rfl⟩ := h
  rw [offset_advance, show first.offset = 0 from rfl, Nat.zero_add, byteLength_append]
  exact Nat.le_add_right _ _

/-- A place is the one that is found by its offset. -/
theorem In.ofOffset (h : p.In source) : Position.ofOffset source p.offset = p := by
  obtain ⟨front, back, hcut, hp⟩ := h.cut?
  rw [Position.ofOffset, hcut]
  exact hp.symm

end Position

namespace Span

variable {source : List Char} {s t : Span} {low high : Nat} {ss ts : List Span}

theorem Piece.locates (h : s.Piece source) : s.Locates source := by
  obtain ⟨p, q, hp, hq, hle, rfl⟩ := h
  obtain ⟨_, _, front, -⟩ := hp.cut?
  obtain ⟨_, _, back, -⟩ := hq.cut?
  refine ⟨hle, hq.le, ?_, ?_, fun e he => ?_⟩
  · exact Option.isSome_of_eq_some front
  · exact Option.isSome_of_eq_some back
  · have place : Position.ofOffset source e.span.start = p := by
      rw [he]
      exact hp.ofOffset
    rw [Error.locate, place]
    exact ⟨rfl, rfl⟩

theorem Piece.le (h : s.Piece source) : s.start ≤ s.stop := h.locates.le

/-- The span from the first of two pieces to the second. -/
theorem Piece.cover (hs : s.Piece source) (ht : t.Piece source) (hst : s.stop ≤ t.start) :
    (Span.cover s t).Piece source ∧ (Span.cover s t).start = s.start ∧
      (Span.cover s t).stop = t.stop := by
  have ordered := ht.le
  have first := hs.le
  obtain ⟨p, q, hp, -, -, rfl⟩ := hs
  obtain ⟨p', q', -, hq', -, rfl⟩ := ht
  have start : min p.offset p'.offset = p.offset :=
    Nat.min_eq_left (Nat.le_trans first hst)
  have stop : max q.offset q'.offset = q'.offset :=
    Nat.max_eq_right (Nat.le_trans hst ordered)
  refine ⟨⟨p, q', hp, hq', ?_, ?_⟩, start, stop⟩
  · exact Nat.le_trans first (Nat.le_trans hst ordered)
  · rw [Span.cover]
    simp only [between, start, stop]

theorem piece_span {c d : Cursor} (hc : c.On source) (h : c.Reaches source d) :
    (c.span d).Piece source :=
  ⟨c.position, d.position, hc.position, h.on.position, h.le, rfl⟩

/-! ### One after the other -/

namespace Ordered

theorem le (h : Ordered low high ss) : low ≤ high := by
  induction ss generalizing low with
  | nil => exact h
  | cons s ss ih => exact Nat.le_trans h.1 (Nat.le_trans h.2.1 (ih h.2.2))

theorem mono_low (h : Ordered low high ss) {less : Nat} (hless : less ≤ low) :
    Ordered less high ss := by
  cases ss with
  | nil => exact Nat.le_trans hless h
  | cons s ss => exact ⟨Nat.le_trans hless h.1, h.2⟩

theorem mono_high (h : Ordered low high ss) {more : Nat} (hmore : high ≤ more) :
    Ordered low more ss := by
  induction ss generalizing low with
  | nil => exact Nat.le_trans h hmore
  | cons s ss ih => exact ⟨h.1, h.2.1, ih h.2.2⟩

theorem tail (h : Ordered low high (s :: ss)) : Ordered low high ss :=
  h.2.2.mono_low (Nat.le_trans h.1 h.2.1)

theorem drop (h : Ordered low high (ss ++ ts)) : Ordered low high ts := by
  induction ss with
  | nil => exact h
  | cons s ss ih => exact ih h.tail

theorem append {middle : Nat} (h : Ordered low middle ss) (k : Ordered middle high ts) :
    Ordered low high (ss ++ ts) := by
  induction ss generalizing low with
  | nil => exact k.mono_low h
  | cons s ss ih => exact ⟨h.1, h.2.1, ih h.2.2⟩

/-- Some of the spans. -/
theorem sublist (h : Ordered low high ss) (hsub : ts.Sublist ss) : Ordered low high ts := by
  induction hsub generalizing low with
  | slnil => exact h
  | cons s _ ih => exact ih h.tail
  | cons_cons s _ ih => exact ⟨h.1, h.2.1, ih h.2.2⟩

/-- Spans up to the end of the first ones. -/
theorem front (h : Ordered low high (ss ++ t :: ts)) : Ordered low t.stop (ss ++ [t]) := by
  induction ss generalizing low with
  | nil => exact ⟨h.1, h.2.1, Nat.le_refl _⟩
  | cons s ss ih => exact ⟨h.1, h.2.1, ih h.2.2⟩

end Ordered

theorem Contiguous.append {middle : Nat} (h : Contiguous low middle ss)
    (k : Contiguous middle high ts) : Contiguous low high (ss ++ ts) := by
  induction ss generalizing low with
  | nil =>
    cases h
    exact k
  | cons s ss ih => exact ⟨h.1, ih h.2⟩

theorem Contiguous.ordered (h : Contiguous low high ss) (hss : ∀ s ∈ ss, s.start ≤ s.stop) :
    Ordered low high ss := by
  induction ss generalizing low with
  | nil => exact Nat.le_of_eq h
  | cons s ss ih =>
    obtain ⟨hs, rest⟩ := List.forall_mem_cons.mp hss
    exact ⟨Nat.le_of_eq h.1.symm, hs, ih h.2 rest⟩

end Span

/-! ## Trees of spans -/

/-- A span with the spans of what stands inside of it. -/
inductive SpanTree where
  | node (span : Span) (inside : List SpanTree)

namespace SpanTree

def span : SpanTree → Span
  | node s _ => s

def inside : SpanTree → List SpanTree
  | node _ ts => ts

/-- Every span stands for a piece of the text, and has the spans inside of it in itself, one
after the other. -/
inductive Faithful (source : List Char) : SpanTree → Prop where
  | node {s : Span} {ts : List SpanTree} (located : s.Locates source)
    (ordered : Span.Ordered s.start s.stop (ts.map span))
    (inside : ∀ t ∈ ts, t.Faithful source) : Faithful source (node s ts)

end SpanTree

end PromptTemplate
