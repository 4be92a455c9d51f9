import PromptTemplate.Proofs.Text.Lines
import Mathlib.Data.List.Forall2

/-!
# Taking off the common indentation

Every line loses as many bytes as the least indented of the lines that are not blank begins
with, or all its indentation if a character lies across that place. So the lines have all lost
the same, and keep their distances, exactly if each that is not blank can be cut there. Lines
that are indented by characters of one width can; where widths are mixed it depends on the
lines.
-/

namespace PromptTemplate.Text

/-- After `k` bytes of a line there is a place between two characters, or one of its ends. -/
def PlaceAt (k : Nat) (line : List Char) : Prop :=
  ∃ front rest, line = front ++ rest ∧ byteLength front = k

/-- What is left of a line that loses blank characters of `k` bytes, or all its indentation if
there is no place to cut it. -/
inductive Loses (k : Nat) : List Char → List Char → Prop where
  | cut {front rest : List Char} (blank : ∀ c ∈ front, isBlank c = true)
    (bytes : byteLength front = k) : Loses k (front ++ rest) rest
  | whole {line : List Char} (across : ¬ PlaceAt k line) : Loses k line (trimStart line)

/-- What is left of a line that loses exactly its first `k` bytes, all of them blank characters.
A blank line may lose more or less. -/
inductive Shifted (k : Nat) : List Char → List Char → Prop where
  | text {front rest : List Char} (blank : ∀ c ∈ front, isBlank c = true)
    (bytes : byteLength front = k) (text : isBlankLine rest = false) :
    Shifted k (front ++ rest) rest
  | blank {line rest : List Char} (blank : isBlankLine line = true) (part : rest <:+ line) :
    Shifted k line rest

/-- Lines that are not blank are indented as far from each other as what is left of them. -/
def SameDistances (ls left : List (List Char)) : Prop :=
  ∀ p ∈ ls.zip left, ∀ q ∈ ls.zip left, isBlankLine p.1 = false → isBlankLine q.1 = false →
    (indentation p.1 : Int) - indentation q.1 = indentation p.2 - indentation q.2

/-- A text is what trimming leaves of the lines of another one, each that is not blank without
its first `k` bytes. -/
def Outdented (k : Nat) (s t : String) : Prop :=
  ∃ left, List.Forall₂ (Shifted k) (lines s.toList) left ∧ SameDistances (lines s.toList) left ∧
    t = trimmed (String.ofList (joined left))

/-- Every line that is not blank can be cut where the least indentation ends. -/
def Aligned (ls : List (List Char)) : Prop :=
  ∀ line ∈ ls, isBlankLine line = false → PlaceAt (commonIndentation ls) line

/-- What is left of the lines of a text. -/
def kept (ls : List (List Char)) : List (List Char) :=
  ls.map (removeIndentation (commonIndentation ls))

variable {line rest : List Char} {ls left : List (List Char)} {k : Nat} {s : String}

/-! ## Places -/

theorem isSome_cut?_iff : (cut? line k).isSome = true ↔ PlaceAt k line := by
  constructor
  · intro h
    obtain ⟨⟨front, rest⟩, hcut⟩ := Option.isSome_iff_exists.mp h
    obtain ⟨hline, hfront⟩ := append_of_cut? hcut
    exact ⟨front, rest, hline.symm, hfront⟩
  · rintro ⟨front, rest, rfl, rfl⟩
    rw [cut?_append]
    rfl

instance : Decidable (PlaceAt k line) := decidable_of_iff _ isSome_cut?_iff

instance : Decidable (Aligned ls) := inferInstanceAs (Decidable (∀ line ∈ ls, _))

theorem placeAt_indentation (line : List Char) : PlaceAt (indentation line) line :=
  ⟨_, _, List.takeWhile_append_dropWhile.symm, rfl⟩

/-- The least indentation is that of a line, and no line that is not blank has less. -/
theorem least_of_mem (h : line ∈ ls) (text : isBlankLine line = false) :
    (∃ least ∈ ls, isBlankLine least = false ∧ indentation least = commonIndentation ls) ∧
      commonIndentation ls ≤ indentation line := by
  have mem : indentation line ∈ indentations ls := mem_indentations.mpr ⟨line, h, text, rfl⟩
  obtain ⟨n, hn⟩ := Option.isSome_iff_exists.mp (List.isSome_min?_of_mem mem)
  have least : commonIndentation ls = n := by
    rw [commonIndentation, ← indentations, hn, Option.getD_some]
  rw [least, ← mem_indentations]
  obtain ⟨hmem, hle⟩ := List.min?_eq_some_iff.mp hn
  exact ⟨hmem, hle _ mem⟩

theorem byteLength_of_width {width : Nat} {cs : List Char} (h : ∀ c ∈ cs, c.utf8Size = width) :
    byteLength cs = width * cs.length := by
  induction cs with
  | nil => rfl
  | cons c cs ih =>
    obtain ⟨hc, hcs⟩ := List.forall_mem_cons.mp h
    rw [byteLength, hc, ih hcs, List.length_cons, Nat.mul_succ, Nat.add_comm]

theorem placeAt_of_width {width n : Nat} (h : ∀ c ∈ line.takeWhile isBlank, c.utf8Size = width)
    (le : n ≤ (line.takeWhile isBlank).length) : PlaceAt (width * n) line := by
  refine ⟨(line.takeWhile isBlank).take n,
    (line.takeWhile isBlank).drop n ++ line.dropWhile isBlank, ?_, ?_⟩
  · rw [← List.append_assoc, List.take_append_drop, List.takeWhile_append_dropWhile]
  · rw [byteLength_of_width fun c hc => h c (List.mem_of_mem_take hc), List.length_take_of_le le]

/-- Lines that are indented by characters of one width can all be cut where the least indentation
ends. -/
theorem aligned_of_width {width : Nat}
    (h : ∀ line ∈ ls, isBlankLine line = false → ∀ c ∈ line.takeWhile isBlank, c.utf8Size = width) :
    Aligned ls := by
  intro line hline text
  obtain ⟨⟨least, hleast, textleast, indented⟩, le⟩ := least_of_mem hline text
  have narrow := byteLength_of_width (h least hleast textleast)
  rw [← indented, indentation, narrow] at le ⊢
  rcases Nat.eq_zero_or_pos width with rfl | positive
  · exact ⟨[], line, rfl, (Nat.zero_mul _).symm⟩
  · rw [indentation, byteLength_of_width (h line hline text)] at le
    exact placeAt_of_width (h line hline text) (Nat.le_of_mul_le_mul_left le positive)

/-- Tabs and spaces have one byte each. -/
example : Aligned [['\t', ' ', 'a'], [' ', 'b']] := by decide

/-! ## What a line loses -/

theorem loses_removeIndentation (h : isBlankLine line = false → k ≤ indentation line) :
    Loses k line (removeIndentation k line) := by
  rw [removeIndentation]
  split
  · rename_i front rest hcut
    obtain ⟨rfl, rfl⟩ := append_of_cut? hcut
    refine .cut ?_ rfl
    cases text : isBlankLine (front ++ rest) with
    | true => exact fun c hc => List.all_eq_true.mp text c (List.mem_append_left _ hc)
    | false => exact isBlank_of_byteLength_le (h text)
  · rename_i hcut
    refine .whole fun place => ?_
    rw [← isSome_cut?_iff, hcut] at place
    cases place

namespace Loses

theorem suffix (h : Loses k line rest) : rest <:+ line := by
  cases h with
  | cut => exact List.suffix_append _ _
  | whole => exact List.dropWhile_suffix _

theorem isBlankLine_eq (h : Loses k line rest) : isBlankLine rest = isBlankLine line := by
  cases h with
  | cut blank => exact (isBlankLine_append blank).symm
  | whole => exact isBlankLine_trimStart line

theorem indentation_eq_zero (h : Loses k line rest) (across : ¬ PlaceAt k line) :
    indentation rest = 0 := by
  cases h with
  | cut _ bytes => exact absurd ⟨_, _, rfl, bytes⟩ across
  | whole => exact indentation_trimStart line

theorem shifted (h : Loses k line rest) (place : isBlankLine line = false → PlaceAt k line) :
    Shifted k line rest := by
  cases text : isBlankLine line with
  | true => exact .blank text h.suffix
  | false =>
    cases h with
    | cut blank bytes => exact .text blank bytes ((isBlankLine_append blank).symm.trans text)
    | whole across => exact absurd (place text) across

end Loses

namespace Shifted

theorem suffix (h : Shifted k line rest) : rest <:+ line := by
  cases h with
  | text => exact List.suffix_append _ _
  | blank _ part => exact part

theorem exists_front (h : Shifted k line rest) (text : isBlankLine line = false) :
    ∃ front, line = front ++ rest ∧ (∀ c ∈ front, isBlank c = true) ∧ byteLength front = k := by
  cases h with
  | text blank bytes => exact ⟨_, rfl, blank, bytes⟩
  | blank blank => exact absurd (text.symm.trans blank) Bool.false_ne_true

theorem place (h : Shifted k line rest) (text : isBlankLine line = false) : PlaceAt k line := by
  obtain ⟨front, hline, -, bytes⟩ := h.exists_front text
  exact ⟨front, rest, hline, bytes⟩

theorem indentation_eq (h : Shifted k line rest) (text : isBlankLine line = false) :
    indentation line = k + indentation rest := by
  obtain ⟨front, hline, blank, bytes⟩ := h.exists_front text
  rw [hline, indentation_append blank, bytes]

theorem eq_of_zero (h : Shifted 0 line rest) (text : isBlankLine line = false) : rest = line := by
  obtain ⟨front, hline, -, bytes⟩ := h.exists_front text
  rw [hline, eq_nil_of_byteLength bytes, List.nil_append]

theorem indentations_eq (h : Shifted k line rest) :
    indentations [rest] = (indentations [line]).map (· - k) := by
  cases h with
  | text blank bytes text =>
    rw [indentations_text text, indentations_text ((isBlankLine_append blank).trans text),
      indentation_append blank, bytes, List.map_singleton, Nat.add_sub_cancel_left]
  | blank blank part =>
    have still : isBlankLine rest = true :=
      List.all_eq_true.mpr fun c hc => List.all_eq_true.mp blank c (part.subset hc)
    rw [indentations_blank still, indentations_blank blank, List.map_nil]

end Shifted

/-! ## What all lines lose -/

theorem newline_not_mem_of_suffix (h : List.Forall₂ (fun line rest => rest <:+ line) ls left)
    (hls : ∀ line ∈ ls, '\n' ∉ line) : ∀ rest ∈ left, '\n' ∉ rest := by
  induction h with
  | nil => exact List.forall_mem_nil _
  | cons first _ ih =>
    obtain ⟨hline, hls⟩ := List.forall_mem_cons.mp hls
    exact List.forall_mem_cons.mpr ⟨fun hmem => hline (first.subset hmem), ih hls⟩

theorem exists_shifted (h : List.Forall₂ (Shifted k) ls left) (hline : line ∈ ls) :
    ∃ rest, Shifted k line rest := by
  induction h with
  | nil => cases hline
  | cons first _ ih =>
    rcases List.mem_cons.mp hline with rfl | hline
    · exact ⟨_, first⟩
    · exact ih hline

theorem eq_of_shifted_zero (h : List.Forall₂ (Shifted 0) ls left)
    (texts : ∀ line ∈ ls, isBlankLine line = false) : left = ls := by
  induction h with
  | nil => rfl
  | cons first _ ih =>
    obtain ⟨text, texts⟩ := List.forall_mem_cons.mp texts
    rw [first.eq_of_zero text, ih texts]

theorem indentations_of_shifted (h : List.Forall₂ (Shifted k) ls left) :
    indentations left = (indentations ls).map (· - k) := by
  induction h with
  | nil => rfl
  | cons first _ ih =>
    rw [indentations_cons, first.indentations_eq, ih, ← List.map_append, ← indentations_cons]

theorem sameDistances_of_shifted (h : List.Forall₂ (Shifted k) ls left) :
    SameDistances ls left := by
  intro p hp q hq textp textq
  rw [(List.forall₂_zip h hp).indentation_eq textp, (List.forall₂_zip h hq).indentation_eq textq]
  omega

theorem indentations_trim_shifted (h : List.Forall₂ (Shifted k) (lines s.toList) left) :
    indentations (lines (trim (joined left))) =
      flush ((indentations (lines s.toList)).map (· - k)) := by
  rw [indentations_trim_joined, indentations_of_shifted h]
  exact newline_not_mem_of_suffix (h.imp fun _ _ => Shifted.suffix) fun _ => newline_not_mem

theorem loses_of_mem (h : line ∈ ls) :
    Loses (commonIndentation ls) line (removeIndentation (commonIndentation ls) line) :=
  loses_removeIndentation fun text => (least_of_mem h text).2

theorem loses_kept (ls : List (List Char)) :
    List.Forall₂ (Loses (commonIndentation ls)) ls (kept ls) :=
  List.forall₂_map_right_iff.mpr (List.forall₂_same.mpr fun _ => loses_of_mem)

theorem shifted_kept (h : Aligned ls) :
    List.Forall₂ (Shifted (commonIndentation ls)) ls (kept ls) :=
  List.forall₂_map_right_iff.mpr
    (List.forall₂_same.mpr fun line hline => (loses_of_mem hline).shifted (h line hline))

theorem indentations_kept (ls : List (List Char)) :
    indentations (kept ls) = (ls.filter (!isBlankLine ·)).map fun line =>
      indentation (removeIndentation (commonIndentation ls) line) := by
  rw [indentations, kept, List.filter_map, List.map_map]
  refine congrArg _ (List.filter_congr fun line hline => ?_)
  exact congrArg _ (loses_of_mem hline).isBlankLine_eq

/-! ## The text that is left -/

theorem removeIndent_eq (s : String) :
    removeIndent s = trimmed (String.ofList (joined (kept (lines s.toList)))) := by
  rw [removeIndent, trimmed, String.toList_ofList]
  rfl

theorem indentations_trim_kept (s : String) :
    indentations (lines (trim (joined (kept (lines s.toList))))) =
      flush (indentations (kept (lines s.toList))) :=
  indentations_trim_joined
    (newline_not_mem_of_suffix ((loses_kept _).imp fun _ _ => Loses.suffix) fun _ =>
      newline_not_mem)

/-- Trimming hides what the first line that is not blank has lost, and nothing else. -/
theorem indentation_of_outdented (h : Outdented k s (removeIndent s)) :
    ∀ line ∈ ((lines s.toList).filter (!isBlankLine ·)).tail,
      indentation line - k =
        indentation (removeIndentation (commonIndentation (lines s.toList)) line) := by
  obtain ⟨left, shifted, -, result⟩ := h
  rw [removeIndent_eq, trimmed, trimmed, String.toList_ofList, String.toList_ofList,
    String.ofList_inj] at result
  have same := congrArg (indentations ∘ lines) result
  rw [Function.comp_apply, Function.comp_apply, indentations_trim_kept, indentations_kept,
    indentations_trim_shifted shifted, indentations, List.map_map] at same
  exact fun line hline => (eq_of_flush same line hline).symm

theorem mem_tail_of_ne {α : Type} {x y : α} {xs : List α} (hx : x ∈ xs) (hy : y ∈ xs)
    (hne : x ≠ y) : x ∈ xs.tail ∨ y ∈ xs.tail := by
  cases xs with
  | nil => cases hx
  | cons z zs =>
    rcases List.mem_cons.mp hx with rfl | hx
    · exact .inr ((List.mem_cons.mp hy).resolve_left hne.symm)
    · exact .inl hx

/-- If one number of bytes tells what all lines have lost, all of them can be cut where the least
indentation ends. -/
theorem aligned_of_outdented (h : Outdented k s (removeIndent s)) :
    Aligned (lines s.toList) := by
  have seen := indentation_of_outdented h
  obtain ⟨left, shifted, -, -⟩ := h
  intro line hline text
  by_contra across
  obtain ⟨⟨least, hleast, textleast, indented⟩, le⟩ := least_of_mem hline text
  have placed : PlaceAt (commonIndentation (lines s.toList)) least :=
    indented ▸ placeAt_indentation least
  have margin := ((loses_of_mem hleast).shifted fun _ => placed).indentation_eq textleast
  have zero := (loses_of_mem hline).indentation_eq_zero across
  obtain ⟨_, lost⟩ := exists_shifted shifted hline
  obtain ⟨_, lostleast⟩ := exists_shifted shifted hleast
  have bound := lostleast.indentation_eq textleast
  have different : least ≠ line := by
    rintro rfl
    exact across placed
  have mem {l : List Char} (hl : l ∈ lines s.toList) (text : isBlankLine l = false) :
      l ∈ (lines s.toList).filter (!isBlankLine ·) := by
    simp [hl, text]
  -- Trimming may hide what one of the two lines has lost, so the other tells what `k` is.
  have equal : k = commonIndentation (lines s.toList) := by
    rcases mem_tail_of_ne (mem hleast textleast) (mem hline text) different with later | later
    · have := seen least later
      omega
    · have := seen line later
      omega
  exact across (equal ▸ lost.place text)

/-- The lines of a text lose blank characters of as many bytes as the least indented line begins
with, or all their indentation if they cannot be cut there. They have all lost the same number of
bytes exactly if every line that is not blank can be cut there. Then they keep their distances,
and in the text that is left only the first has another indentation, since it is trimmed. -/
theorem outdented_removeIndent_iff (s : String) :
    (∃ left, List.Forall₂ (Loses (commonIndentation (lines s.toList))) (lines s.toList) left ∧
      removeIndent s = trimmed (String.ofList (joined left))) ∧
    ((∃ k, Outdented k s (removeIndent s)) ↔ Aligned (lines s.toList)) ∧
    (Aligned (lines s.toList) → indentations (lines (removeIndent s).toList) =
      flush ((indentations (lines s.toList)).map (· - commonIndentation (lines s.toList)))) := by
  refine ⟨⟨_, loses_kept _, removeIndent_eq s⟩, ⟨?_, fun aligned => ?_⟩, fun aligned => ?_⟩
  · rintro ⟨k, outdented⟩
    exact aligned_of_outdented outdented
  · have shifted := shifted_kept aligned
    exact ⟨_, _, shifted, sameDistances_of_shifted shifted, removeIndent_eq s⟩
  · rw [removeIndent_eq, trimmed, String.toList_ofList, String.toList_ofList,
      indentations_trim_shifted (shifted_kept aligned)]

/-- The first line can lose one byte, and the second begins with a character of two, so all that
the three could lose alike is nothing. They lose one byte, two and three, and the last two are no
longer apart. -/
theorem not_outdented_of_wide :
    removeIndent " a\n\u00a0b\n\u00a0 c" = "a\nb\nc" ∧
      (¬ ∃ k, Outdented k " a\n\u00a0b\n\u00a0 c" (removeIndent " a\n\u00a0b\n\u00a0 c")) ∧
      ∀ k t, Outdented k " a\n\u00a0b\n\u00a0 c" t → t = "a\n\u00a0b\n\u00a0 c" := by
  have only {k : Nat} {t : String} (h : Outdented k " a\n\u00a0b\n\u00a0 c" t) :
      t = "a\n\u00a0b\n\u00a0 c" := by
    obtain ⟨left, shifted, -, rfl⟩ := h
    have read : lines " a\n\u00a0b\n\u00a0 c".toList =
        [[' ', 'a'], ['\u00a0', 'b'], ['\u00a0', ' ', 'c']] := by decide +kernel
    rw [read] at shifted
    have narrow : k ≤ 1 := by
      obtain ⟨_, first⟩ := exists_shifted shifted List.mem_cons_self
      have lost : 1 = k + _ := first.indentation_eq (by decide)
      omega
    have wide : k ≠ 1 := by
      rintro rfl
      obtain ⟨_, second⟩ := exists_shifted shifted (List.mem_cons_of_mem _ List.mem_cons_self)
      exact absurd (second.place (by decide)) (by decide)
    obtain rfl : k = 0 := by omega
    rw [eq_of_shifted_zero shifted (by decide)]
    decide +kernel
  have left : removeIndent " a\n\u00a0b\n\u00a0 c" = "a\nb\nc" := by decide +kernel
  refine ⟨left, ?_, fun _ _ => only⟩
  rintro ⟨k, outdented⟩
  have same := only outdented
  rw [left] at same
  revert same
  decide

end PromptTemplate.Text
