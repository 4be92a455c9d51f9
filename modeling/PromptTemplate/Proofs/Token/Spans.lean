import PromptTemplate.Proofs.Number.Literals
import PromptTemplate.Proofs.Text.Pieces
import PromptTemplate.Proofs.Token.Shielding

/-!
# The spans of tokens

The tokens of a tag stand one after the other in the text, and every span is that of a piece
of the text, wherever in the text the tag begins.
-/

namespace PromptTemplate

open Text

/-- A token with the span of a piece of a text. A number that it names is one. -/
structure Token.Sound (source : List Char) (t : Token) : Prop where
  piece : t.span.Piece source
  named : ∀ x, t.kind = .number x → x.isNaN = false

/-- Tokens of a text from one offset to another, one after the other. -/
structure Tokens (source : List Char) (low high : Nat) (ts : List Token) : Prop where
  ordered : Span.Ordered low high (ts.map (·.span))
  sound : ∀ t ∈ ts, t.Sound source

namespace Tokens

variable {source : List Char} {low high : Nat} {t : Token} {ts us : List Token}

theorem nil (h : low ≤ high) : Tokens source low high [] := ⟨h, List.forall_mem_nil _⟩

theorem cons (ht : t.Sound source) (hlow : low ≤ t.span.start)
    (h : Tokens source t.span.stop high ts) : Tokens source low high (t :: ts) :=
  ⟨⟨hlow, ht.piece.le, h.ordered⟩, List.forall_mem_cons.mpr ⟨ht, h.sound⟩⟩

theorem head_low (h : Tokens source low high (t :: ts)) : low ≤ t.span.start := h.ordered.1

theorem head_sound (h : Tokens source low high (t :: ts)) : t.Sound source :=
  h.sound t List.mem_cons_self

theorem after (h : Tokens source low high (t :: ts)) : Tokens source t.span.stop high ts :=
  ⟨h.ordered.2.2, (List.forall_mem_cons.mp h.sound).2⟩

theorem sublist (h : Tokens source low high ts) (hsub : us.Sublist ts) :
    Tokens source low high us :=
  ⟨h.ordered.sublist (hsub.map _), fun t ht => h.sound t (hsub.subset ht)⟩

theorem drop (h : Tokens source low high (us ++ ts)) : Tokens source low high ts :=
  h.sublist (List.sublist_append_right us ts)

theorem tail (h : Tokens source low high (t :: ts)) : Tokens source low high ts :=
  h.sublist (List.sublist_cons_self t ts)

end Tokens

namespace Token

/-- A number that is read is one. -/
theorem isNaN_of_number {cs : List Char} {x : Float} (h : (number cs).1 = .number x) :
    x.isNaN = false := by
  unfold number at h
  split at h
  · dsimp only at h
    split at h
    · cases h
      exact Number.isNaN_ofNat _
    · cases h
  · dsimp only at h
    split at h
    · cases h
    · split at h
      · rename_i hx
        cases h
        exact Number.isNaN_of_decimal? hx
      · cases h

theorem isNaN_of_scan {mode : Mode} {depth : Nat} {c : Char} {cs : List Char} {x : Float}
    (h : (scan mode depth c cs).1 = .number x) : x.isNaN = false := by
  unfold scan at h
  split at h
  · split at h <;> cases h
  split at h
  · exact isNaN_of_number h
  split at h
  · unfold string at h
    split at h <;> cases h
  split at h
  · simp only [word] at h
    split at h <;> cases h
  split at h
  · cases h
  split at h
  · cases h
  split at h <;> cases h

theorem reaches_dropWhile {source cs : List Char} {p : Position} (h : (Cursor.mk p cs).On source) :
    (Cursor.mk p cs).Reaches source ⟨p.advance (cs.takeWhile isBlank), cs.dropWhile isBlank⟩ :=
  h.takes ⟨List.takeWhile_append_dropWhile.symm, rfl⟩

/-- The induction is the recursion of the reader, which goes on where a token ends. -/
theorem tokens_scanAll {source : List Char} (mode : Mode) (depth : Nat) (p : Position)
    (cs : List Char) (h : (Cursor.mk p cs).On source) :
    Tokens source p.offset (scanAll mode depth p cs).2.1.offset (scanAll mode depth p cs).1 := by
  have spaced := reaches_dropWhile h
  fun_induction scanAll mode depth p cs with
  | case1 depth p cs start none =>
    have piece := Span.piece_span spaced.on (.refl spaced.on)
    refine .cons ⟨piece, ?_⟩ spaced.le (.nil (Nat.le_refl _))
    intro x hx
    cases hx
  | case2 depth p cs start c more first scanned =>
    rw [first] at spaced
    have read := spaced.on.skip (more.length - scanned.2.length + 1)
    have piece := Span.piece_span spaced.on read
    exact .cons ⟨piece, fun x hx => isNaN_of_scan hx⟩ spaced.le (.nil (Nat.le_refl _))
  | case3 depth p cs start c more first scanned stop token goes_on tokens after rest ih =>
    rw [first] at spaced
    have read := spaced.on.skip (more.length - scanned.2.length + 1)
    have piece := Span.piece_span spaced.on read
    have left := suffix_scan mode depth c more
    have next : (Cursor.mk stop scanned.2).On source := by
      rw [List.suffix_iff_eq_drop.mp left]
      exact read.on
    have tokens := ih next (reaches_dropWhile next)
    rw [rest] at tokens
    exact .cons ⟨piece, fun x hx => isNaN_of_scan hx⟩ spaced.le tokens

end Token

end PromptTemplate
