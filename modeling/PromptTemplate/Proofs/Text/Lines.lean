import PromptTemplate.Proofs.Text.Pieces
import PromptTemplate.Text.Indent
import Mathlib.Data.List.Induction

/-!
# The indentations of lines

A text has an indentation for each of its lines that is not blank. They fall into two parts at
every line end of the text, and everything else follows from that: lines that are joined keep
their indentations, and trimming a text takes off the first one and leaves the others as they
are.
-/

namespace PromptTemplate.Text

/-- Lines one below the other. -/
def joined (ls : List (List Char)) : List Char := List.intercalate ['\n'] ls

/-- The indentations of the lines that are not blank. -/
def indentations (ls : List (List Char)) : List Nat :=
  (ls.filter (!isBlankLine ·)).map indentation

/-- Indentations of which the first has been taken off. -/
def flush : List Nat → List Nat
  | [] => []
  | _ :: ns => 0 :: ns

variable {cs blanks line front rest : List Char} {ls left : List (List Char)}

/-! ## Blanks at the start of a line -/

theorem isBlankLine_append (h : ∀ c ∈ front, isBlank c = true) :
    isBlankLine (front ++ rest) = isBlankLine rest := by
  rw [isBlankLine, List.all_append, List.all_eq_true.mpr h, Bool.true_and, isBlankLine]

theorem indentation_append (h : ∀ c ∈ front, isBlank c = true) :
    indentation (front ++ rest) = byteLength front + indentation rest := by
  rw [indentation, List.takeWhile_append_of_pos h, byteLength_append, indentation]

theorem isBlankLine_trimStart (line : List Char) :
    isBlankLine (trimStart line) = isBlankLine line := by
  have whole := List.takeWhile_append_dropWhile (p := isBlank) (l := line)
  rw [trimStart, ← isBlankLine_append (List.all_eq_true.mp List.all_takeWhile), whole]

theorem indentation_trimStart (line : List Char) : indentation (trimStart line) = 0 := by
  rw [indentation, trimStart, ← List.nil_append (line.dropWhile isBlank),
    Cursor.takeWhile_front (List.forall_mem_nil _) fun _ => Cursor.head?_dropWhile, byteLength]

/-- What is not longer than the indentation of a line lies inside of it. -/
theorem isBlank_of_byteLength_le (h : byteLength front ≤ indentation (front ++ rest)) :
    ∀ c ∈ front, isBlank c = true := by
  have inside := List.takeWhile_prefix isBlank (l := front ++ rest)
  rcases List.prefix_or_prefix_of_prefix inside (List.prefix_append front rest) with le | le
  · obtain ⟨more, hmore⟩ := le
    have bytes : byteLength more = 0 := by
      have whole := congrArg byteLength hmore
      rw [byteLength_append, ← indentation] at whole
      omega
    rw [eq_nil_of_byteLength bytes, List.append_nil] at hmore
    rw [← hmore]
    exact List.all_eq_true.mp List.all_takeWhile
  · exact fun c hc => List.all_eq_true.mp List.all_takeWhile c (le.subset hc)

/-! ## The indentations of some lines -/

@[simp] theorem indentations_nil : indentations [] = [] := rfl

@[simp] theorem indentations_append (ls left : List (List Char)) :
    indentations (ls ++ left) = indentations ls ++ indentations left := by
  rw [indentations, List.filter_append, List.map_append, indentations, indentations]

theorem indentations_cons (line : List Char) (ls : List (List Char)) :
    indentations (line :: ls) = indentations [line] ++ indentations ls :=
  indentations_append [line] ls

theorem indentations_blank (h : isBlankLine line = true) : indentations [line] = [] := by
  simp [indentations, h]

theorem indentations_text (h : isBlankLine line = false) :
    indentations [line] = [indentation line] := by
  simp [indentations, h]

theorem mem_indentations {n : Nat} :
    n ∈ indentations ls ↔ ∃ line ∈ ls, isBlankLine line = false ∧ indentation line = n := by
  simp [indentations, and_assoc]

theorem indentations_append_blanks (h : ∀ c ∈ blanks, isBlank c = true) (line : List Char) :
    indentations [line ++ blanks] = indentations [line] := by
  have same : isBlankLine (line ++ blanks) = isBlankLine line := by
    rw [isBlankLine, List.all_append, List.all_eq_true.mpr h, Bool.and_true, isBlankLine]
  cases text : isBlankLine line with
  | true => rw [indentations_blank (same.trans text), indentations_blank text]
  | false =>
    have stops : (line.takeWhile isBlank).length ≠ line.length := by
      intro full
      have all := List.all_takeWhile (p := isBlank) (l := line)
      rw [(List.takeWhile_prefix isBlank).eq_of_length full, ← isBlankLine, text] at all
      cases all
    rw [indentations_text (same.trans text), indentations_text text, indentation,
      List.takeWhile_append, if_neg stops, indentation]

/-- The first indentation is all that depends on blanks in front. -/
theorem flush_indentations_append (h : ∀ c ∈ front, isBlank c = true) (line : List Char)
    (ns : List Nat) :
    flush (indentations [front ++ line] ++ ns) = flush (indentations [line] ++ ns) := by
  cases text : isBlankLine line with
  | true => rw [indentations_blank ((isBlankLine_append h).trans text), indentations_blank text]
  | false =>
    rw [indentations_text ((isBlankLine_append h).trans text), indentations_text text]
    rfl

theorem eq_of_flush {α : Type} {xs : List α} {f g : α → Nat}
    (h : flush (xs.map f) = flush (xs.map g)) : ∀ x ∈ xs.tail, f x = g x := by
  cases xs with
  | nil => exact List.forall_mem_nil _
  | cons x xs => exact List.map_inj_left.mp (List.cons.inj h).2

/-! ## The lines of a text -/

/-- A text is one line, or a line in front of another text. -/
@[elab_as_elim]
theorem byLines {motive : List Char → Prop} (last : ∀ line, '\n' ∉ line → motive line)
    (line : ∀ line rest, '\n' ∉ line → motive rest → motive (line ++ '\n' :: rest))
    (cs : List Char) : motive cs := by
  induction hn : cs.length using Nat.strongRecOn generalizing cs with
  | ind n ih =>
    by_cases h : '\n' ∈ cs
    · obtain ⟨front, rest, rfl, hfront⟩ := List.eq_append_cons_of_mem h
      refine line front rest hfront (ih rest.length ?_ rest rfl)
      rw [← hn, List.length_append, List.length_cons]
      omega
    · exact last cs h

/-- A line is read without a carriage return before its end. -/
theorem exists_lines (h : '\n' ∉ line) (rest : List Char) :
    ∃ front blanks, line = front ++ blanks ∧ (∀ c ∈ blanks, isBlank c = true) ∧
      lines (line ++ '\n' :: rest) = front :: lines rest := by
  induction line with
  | nil => exact ⟨[], [], rfl, List.forall_mem_nil _, by rw [List.nil_append, lines, if_pos rfl]⟩
  | cons c line ih =>
    rw [List.mem_cons, not_or] at h
    obtain ⟨front, blanks, hline, hblanks, read⟩ := ih h.2
    rw [List.cons_append, lines, if_neg (Ne.symm h.1), read]
    split
    · rename_i ends
      obtain ⟨rfl, next⟩ := ends
      cases line with
      | nil =>
        obtain ⟨rfl, rfl⟩ := List.append_eq_nil_iff.mp hline.symm
        exact ⟨[], ['\r'], rfl, List.forall_mem_singleton.mpr rfl, rfl⟩
      | cons d line =>
        cases next
        exact absurd List.mem_cons_self h.2
    · exact ⟨c :: front, blanks, by rw [hline]; rfl, hblanks, rfl⟩

theorem lines_last (h : '\n' ∉ line) (hne : line ≠ []) : lines line = [line] := by
  induction line with
  | nil => exact absurd rfl hne
  | cons c line ih =>
    rw [List.mem_cons, not_or] at h
    have stays : ¬ (c = '\r' ∧ line.head? = some '\n') := fun ends =>
      h.2 (List.mem_of_mem_head? ends.2)
    rw [lines, if_neg (Ne.symm h.1), if_neg stays]
    by_cases hline : line = []
    · rw [hline, lines]
    · rw [ih h.2 hline]

theorem newline_not_mem (h : line ∈ lines cs) : '\n' ∉ line := by
  induction cs using byLines with
  | last last hlast =>
    by_cases hne : last = []
    · rw [hne, lines] at h
      cases h
    · rw [lines_last hlast hne, List.mem_singleton] at h
      rw [h]
      exact hlast
  | line first rest hfirst ih =>
    obtain ⟨front, blanks, rfl, -, read⟩ := exists_lines hfirst rest
    rw [read] at h
    rcases List.mem_cons.mp h with rfl | h
    · exact fun hmem => hfirst (List.mem_append_left _ hmem)
    · exact ih h

/-! ## The indentations of a text -/

theorem indentations_last (h : '\n' ∉ line) : indentations (lines line) = indentations [line] := by
  by_cases hline : line = []
  · rw [hline]
    rfl
  · rw [lines_last h hline]

/-- The indentations of a text are those of its two parts, at any line end. -/
theorem indentations_newline (cs rest : List Char) :
    indentations (lines (cs ++ '\n' :: rest)) =
      indentations (lines cs) ++ indentations (lines rest) := by
  have first {line : List Char} (h : '\n' ∉ line) (rest : List Char) :
      indentations (lines (line ++ '\n' :: rest)) =
        indentations [line] ++ indentations (lines rest) := by
    obtain ⟨front, blanks, rfl, hblanks, read⟩ := exists_lines h rest
    rw [read, indentations_cons, indentations_append_blanks hblanks]
  induction cs using byLines with
  | last line h => rw [first h, indentations_last h]
  | line line cs h ih =>
    rw [List.append_assoc, List.cons_append, first h, ih, first h, List.append_assoc]

theorem indentations_joined (h : ∀ line ∈ ls, '\n' ∉ line) :
    indentations (lines (joined ls)) = indentations ls := by
  induction ls with
  | nil => rfl
  | cons line ls ih =>
    obtain ⟨first, others⟩ := List.forall_mem_cons.mp h
    cases ls with
    | nil => rw [joined, List.intercalate_singleton, indentations_last first]
    | cons next ls =>
      rw [joined, List.intercalate_cons_cons, ← joined, List.append_assoc, List.singleton_append,
        indentations_newline, ih others, indentations_last first, ← indentations_cons]

/-! ### Trimming -/

theorem indentations_concat {c : Char} (h : isBlank c = true) (cs : List Char) :
    indentations (lines (cs ++ [c])) = indentations (lines cs) := by
  by_cases newline : c = '\n'
  · rw [newline, indentations_newline, lines, indentations_nil, List.append_nil]
  · induction cs using byLines with
    | last line hline =>
      have still : '\n' ∉ line ++ [c] := by
        rw [List.mem_append, List.mem_singleton]
        exact fun hmem => hmem.elim hline (newline ∘ Eq.symm)
      rw [indentations_last still, indentations_last hline,
        indentations_append_blanks (List.forall_mem_singleton.mpr h)]
    | line line rest _ ih =>
      rw [List.append_assoc, List.cons_append, indentations_newline, ih, indentations_newline]

theorem indentations_trimEnd (cs : List Char) :
    indentations (lines (trimEnd cs)) = indentations (lines cs) := by
  induction cs using List.reverseRecOn with
  | nil => rfl
  | append_singleton cs c ih =>
    rw [trimEnd, List.reverse_append, List.reverse_singleton, List.singleton_append]
    by_cases h : isBlank c = true
    · rw [List.dropWhile_cons_of_pos h, ← trimEnd, ih, indentations_concat h]
    · rw [List.dropWhile_cons_of_neg h, List.reverse_cons, List.reverse_reverse]

theorem flush_indentations_cons {c : Char} (h : isBlank c = true) (cs : List Char) :
    flush (indentations (lines (c :: cs))) = flush (indentations (lines cs)) := by
  by_cases newline : c = '\n'
  · rw [newline, ← List.nil_append ('\n' :: cs), indentations_newline, lines, indentations_nil,
      List.nil_append]
  · have blank : ∀ x ∈ [c], isBlank x = true := List.forall_mem_singleton.mpr h
    have still {line : List Char} (hline : '\n' ∉ line) : '\n' ∉ c :: line := by
      rw [List.mem_cons, not_or]
      exact ⟨newline ∘ Eq.symm, hline⟩
    induction cs using byLines with
    | last line hline =>
      have same := flush_indentations_append blank line []
      rw [List.append_nil, List.append_nil] at same
      rw [indentations_last (still hline), indentations_last hline]
      exact same
    | line line rest hline _ =>
      rw [← List.cons_append, indentations_newline, indentations_newline,
        indentations_last (still hline), indentations_last hline]
      exact flush_indentations_append blank line _

/-- A text that does not begin with blanks begins at the margin. -/
theorem flush_indentations_of_head (h : ∀ c ∈ cs.head?, isBlank c = false) :
    flush (indentations (lines cs)) = indentations (lines cs) := by
  have margin {c : Char} {line : List Char} (hc : isBlank c = false) :
      indentations [c :: line] = [0] := by
    have text : isBlankLine (c :: line) = false := by
      rw [isBlankLine, List.all_cons, hc, Bool.false_and]
    rw [indentations_text text, indentation, List.takeWhile_cons_of_neg (by simp [hc]), byteLength]
  induction cs using byLines with
  | last line newline =>
    rw [indentations_last newline]
    cases line with
    | nil => rfl
    | cons c line =>
      rw [margin (h c rfl)]
      rfl
  | line line rest newline _ =>
    rw [indentations_newline, indentations_last newline]
    cases line with
    | nil => exact absurd (h '\n' rfl) (by decide)
    | cons c line =>
      rw [margin (h c rfl)]
      rfl

theorem indentations_trimStart (cs : List Char) :
    indentations (lines (trimStart cs)) = flush (indentations (lines cs)) := by
  induction cs with
  | nil => rfl
  | cons c cs ih =>
    rw [trimStart]
    by_cases h : isBlank c = true
    · rw [List.dropWhile_cons_of_pos h, ← trimStart, ih, flush_indentations_cons h]
    · rw [List.dropWhile_cons_of_neg h, flush_indentations_of_head]
      rintro x ⟨⟩
      exact Bool.eq_false_iff.mpr h

/-- Trimming takes off the first indentation of a text and leaves the others. -/
theorem indentations_trim (cs : List Char) :
    indentations (lines (trim cs)) = flush (indentations (lines cs)) := by
  rw [trim, indentations_trimEnd, indentations_trimStart]

/-- Trimming lines that are joined takes off the indentation of the first that is not blank. -/
theorem indentations_trim_joined (h : ∀ line ∈ ls, '\n' ∉ line) :
    indentations (lines (trim (joined ls))) = flush (indentations ls) := by
  rw [indentations_trim, indentations_joined h]

end PromptTemplate.Text
