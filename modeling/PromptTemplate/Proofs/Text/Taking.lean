import PromptTemplate.Text.Cursor

/-!
# What is taken off a text

Between two cursors a piece of the text has been taken. Reading from one to the other is
local if it does not depend on what stands before the piece or after it, so that the same
would be read off any other text that begins with the piece.
-/

namespace PromptTemplate.Text

theorem cut?_append (a b : List Char) : cut? (a ++ b) (byteLength a) = some (a, b) := by
  induction a with
  | nil => rw [byteLength, cut?, List.nil_append]
  | cons c a ih =>
    have positive := c.utf8Size_pos
    rw [List.cons_append, byteLength]
    obtain ⟨n, hn⟩ : ∃ n, c.utf8Size + byteLength a = n + 1 :=
      ⟨c.utf8Size + byteLength a - 1, by omega⟩
    rw [hn, cut?, if_pos (by omega), ← hn, Nat.add_sub_cancel_left, ih]
    rfl

theorem slice?_append (a b c : List Char) :
    slice? (a ++ (b ++ c)) (byteLength a) (byteLength (a ++ b)) = some b := by
  rw [byteLength_append, slice?, if_pos (Nat.le_add_right _ _), cut?_append, Option.bind_some,
    Nat.add_sub_cancel_left]
  dsimp only
  rw [cut?_append]
  rfl

namespace Cursor

/-- From one cursor to another a text has been read. -/
structure Takes (c : Cursor) (used : List Char) (d : Cursor) : Prop where
  rest : c.rest = used ++ d.rest
  position : d.position = c.position.advance used

namespace Takes

variable {c d e : Cursor} {used more : List Char}

theorem refl (c : Cursor) : c.Takes [] c := ⟨rfl, rfl⟩

theorem trans (h : c.Takes used d) (k : d.Takes more e) : c.Takes (used ++ more) e where
  rest := by rw [h.rest, k.rest, List.append_assoc]
  position := by rw [k.position, h.position, Position.advance_append]

theorem skip (c : Cursor) (n : Nat) : c.Takes (c.rest.take n) (c.skip n) :=
  ⟨(List.take_append_drop n c.rest).symm, rfl⟩

theorem offset (h : c.Takes used d) : d.offset = c.offset + byteLength used := by
  rw [Cursor.offset, h.position, Position.offset_advance, Cursor.offset]

end Takes

/-- Something is taken between two cursors, and with any text after it something is read
that is given as a relation between the cursors before it and after it. -/
def Local (c d : Cursor) (reads : Cursor → Cursor → Prop) : Prop :=
  ∃ used, used ≠ [] ∧ c.Takes used d ∧
    ∀ c' more, c'.rest = used ++ more → ∃ d', d'.rest = more ∧ reads c' d'

theorem skip_add (c : Cursor) (m n : Nat) : c.skip (m + n) = (c.skip m).skip n := by
  simp only [skip, List.take_add, Position.advance_append, List.drop_drop]

theorem takeWhile_front {fits : Char → Bool} {front back : List Char}
    (h : ∀ x ∈ front, fits x = true) (hback : ∀ x ∈ back.head?, fits x = false) :
    (front ++ back).takeWhile fits = front := by
  rw [List.takeWhile_append_of_pos h]
  cases back with
  | nil => simp
  | cons x back =>
    rw [List.takeWhile_cons_of_neg (by simp [hback x rfl]), List.append_nil]

theorem dropWhile_front {fits : Char → Bool} {front back : List Char}
    (h : ∀ x ∈ front, fits x = true) (hback : ∀ x ∈ back.head?, fits x = false) :
    (front ++ back).dropWhile fits = back := by
  rw [List.dropWhile_append_of_pos h]
  cases back with
  | nil => rfl
  | cons x back => exact List.dropWhile_cons_of_neg (by simp [hback x rfl])

theorem drop_length_takeWhile (fits : Char → Bool) (cs : List Char) :
    cs.drop (cs.takeWhile fits).length = cs.dropWhile fits := by
  induction cs with
  | nil => rfl
  | cons c cs ih =>
    by_cases h : fits c = true
    · rw [List.takeWhile_cons_of_pos h, List.dropWhile_cons_of_pos h, List.length_cons,
        List.drop_succ_cons, ih]
    · rw [List.takeWhile_cons_of_neg h, List.dropWhile_cons_of_neg h]
      rfl

theorem rest_skipWhile (c : Cursor) (fits : Char → Bool) :
    (c.skipWhile fits).rest = c.rest.dropWhile fits := by
  rw [skipWhile, rest_skip, drop_length_takeWhile]

theorem head?_dropWhile {fits : Char → Bool} {cs : List Char} {x : Char}
    (h : x ∈ (cs.dropWhile fits).head?) : fits x = false := by
  cases hcs : cs.dropWhile fits with
  | nil =>
    rw [hcs] at h
    cases h
  | cons y ys =>
    rw [hcs] at h
    obtain rfl : y = x := Option.some.inj h
    have := List.head_dropWhile_not fits (l := cs) (by rw [hcs]; exact List.cons_ne_nil _ _)
    simpa [hcs] using this

namespace Local

variable {c d e : Cursor} {reads reads' : Cursor → Cursor → Prop} {fits : Char → Bool}

theorem imp (h : Local c d reads) (himp : ∀ c' d', reads c' d' → reads' c' d') :
    Local c d reads' := by
  obtain ⟨used, nonempty, takes, again⟩ := h
  refine ⟨used, nonempty, takes, fun c' more hc' => ?_⟩
  obtain ⟨d', hd', hreads⟩ := again c' more hc'
  exact ⟨d', hd', himp c' d' hreads⟩

theorem rest_ne_nil (h : Local c d reads) : c.rest ≠ [] := by
  obtain ⟨used, nonempty, takes, -⟩ := h
  rw [takes.rest]
  exact List.append_ne_nil_of_left_ne_nil nonempty _

/-- The first character is a part of what is taken. -/
theorem head (h : Local c d reads) :
    Local c d fun c' d' => c'.rest.head? = c.rest.head? ∧ reads c' d' := by
  obtain ⟨used, nonempty, takes, again⟩ := h
  refine ⟨used, nonempty, takes, fun c' more hc' => ?_⟩
  obtain ⟨d', hd', hreads⟩ := again c' more hc'
  refine ⟨d', hd', ?_, hreads⟩
  rw [hc', takes.rest]
  cases used with
  | nil => exact absurd rfl nonempty
  | cons x used => rfl

theorem trans (h : Local c d reads) (k : Local d e reads') :
    Local c e fun c' e' => ∃ d', reads c' d' ∧ reads' d' e' := by
  obtain ⟨used, nonempty, takes, again⟩ := h
  obtain ⟨used', -, takes', again'⟩ := k
  refine ⟨used ++ used', List.append_ne_nil_of_left_ne_nil nonempty _, takes.trans takes',
    fun c' more hc' => ?_⟩
  rw [List.append_assoc] at hc'
  obtain ⟨d', hd', hreads⟩ := again c' (used' ++ more) hc'
  obtain ⟨e', he', hreads'⟩ := again' d' more hd'
  exact ⟨e', he', d', hreads, hreads'⟩

/-- Some characters alone. -/
theorem taken (c : Cursor) {n : Nat} (positive : 0 < n) (enough : n ≤ c.rest.length) :
    Local c (c.skip n) fun c' d' => c'.rest.take n = c.rest.take n ∧ d' = c'.skip n := by
  have length : (c.rest.take n).length = n := List.length_take_of_le enough
  refine ⟨c.rest.take n, List.ne_nil_of_length_pos (by omega), .skip c n, fun c' more hc' => ?_⟩
  refine ⟨c'.skip n, ?_, ?_, rfl⟩
  · rw [rest_skip, hc', List.drop_left' length]
  · rw [hc', List.take_left' length]

/-- A character that is seen. -/
theorem sees {x : Char} (h : c.sees x = true) :
    Local c (c.skip 1) fun c' d' => c'.sees x = true ∧ d' = c'.skip 1 := by
  have some : c.rest ≠ [] := by
    rintro none
    simp [Cursor.sees, none] at h
  refine (taken c Nat.one_pos (List.length_pos_iff.mpr some)).head.imp ?_
  rintro c' d' ⟨first, -, hd'⟩
  exact ⟨by rw [Cursor.sees, first]; exact h, hd'⟩

/-- Some characters in front. -/
theorem skip {n : Nat} (h : Local (c.skip n) d reads) :
    Local c d fun c' d' => c'.rest.take n = c.rest.take n ∧ reads (c'.skip n) d' := by
  by_cases positive : 0 < n
  · have enough : n ≤ c.rest.length := by
      have left := List.length_pos_iff.mpr h.rest_ne_nil
      rw [rest_skip, List.length_drop] at left
      omega
    refine ((taken c positive enough).trans h).imp ?_
    rintro c' d' ⟨_, ⟨same, rfl⟩, hreads⟩
    exact ⟨same, hreads⟩
  · obtain rfl : n = 0 := by omega
    exact h.imp fun c' d' hreads => ⟨rfl, hreads⟩

/-- The characters of a kind in front. The next one is a part of what is taken after them, so
that no more of them follow elsewhere, either. -/
theorem skipWhile (h : Local (c.skipWhile fits) d reads) :
    Local c d fun c' d' => c'.rest.takeWhile fits = c.rest.takeWhile fits ∧
      reads (c'.skipWhile fits) d' := by
  refine (skip h.head).imp ?_
  rintro c' d' ⟨same, first, hreads⟩
  have front : c.rest.take (c.rest.takeWhile fits).length = c.rest.takeWhile fits :=
    List.prefix_iff_eq_take.mp (List.takeWhile_prefix fits) |>.symm
  have run : c'.rest.takeWhile fits = c.rest.takeWhile fits := by
    rw [← List.take_append_drop (c.rest.takeWhile fits).length c'.rest, same, front]
    refine takeWhile_front (List.all_eq_true.mp List.all_takeWhile) fun x hx => ?_
    rw [rest_skip, rest_skipWhile] at first
    rw [first] at hx
    exact head?_dropWhile hx
  refine ⟨run, ?_⟩
  rw [Cursor.skipWhile, run]
  exact hreads

theorem skipBlank (h : Local c.skipBlank d reads) :
    Local c d fun c' d' => reads c'.skipBlank d' :=
  h.skipWhile.imp fun _ _ hreads => hreads.2

end Local

end Cursor

end PromptTemplate.Text
