import PromptTemplate.Proofs.Chain.Run
import PromptTemplate.Proofs.Template.Fences
import PromptTemplate.Proofs.Template.Lexemes

/-!
# Escaped texts

A backslash in front of every character that can take part in a mark makes a template out of
any text, which holds the text and nothing else.
-/

namespace PromptTemplate

open Text

namespace Template

/-- The characters that marks begin with, those that braces are closed with, and the one that
escapes them. -/
def markers : List Char := ['<', '\x7b', '\x7d', '/', '\\']

def escapeAll (cs : List Char) : List Char :=
  cs.flatMap fun c => if c ∈ markers then ['\\', c] else [c]

/-- A text with a backslash in front of each of its markers. -/
def escape (s : String) : String := String.ofList (escapeAll s.toList)

theorem isEscapable_iff {c : Char} : isEscapable c = true ↔ c ∈ markers := by
  simp [isEscapable, markers, or_assoc]

section

variable {c : Char} {cs : List Char}

theorem escapeAll_marker (h : c ∈ markers) : escapeAll (c :: cs) = '\\' :: c :: escapeAll cs := by
  simp [escapeAll, h]

theorem escapeAll_plain (h : c ∉ markers) : escapeAll (c :: cs) = c :: escapeAll cs := by
  simp [escapeAll, h]

theorem isBlank_marker (h : c ∈ markers) : isBlank c = false ∧ c ≠ '\n' ∧ c ≠ '-' := by
  simp only [markers, List.mem_cons, List.not_mem_nil, or_false] at h
  rcases h with rfl | rfl | rfl | rfl | rfl <;> decide

/-- No mark begins with a character that is not a marker. -/
theorem beginsMark_plain (h : c ∉ markers) : beginsMark (c :: cs) = false := by
  simp only [markers, List.mem_cons, List.not_mem_nil, or_false, not_or] at h
  simp [beginsMark, beginsMarkup, List.isPrefixOf, h, Ne.symm h.1, Ne.symm h.2.1,
    Ne.symm h.2.2.2.1]

end

/-- An escaped text is read as the text, to its end. -/
theorem literal_escapeAll (cs : List Char) :
    literal (escapeAll cs) = (cs, (escapeAll cs).length) := by
  induction cs with
  | nil => rw [escapeAll, List.flatMap_nil, literal]; rfl
  | cons c cs ih =>
    by_cases h : c ∈ markers
    · rw [escapeAll_marker h, literal_escape (isEscapable_iff.mpr h), ih]
      rfl
    · rw [escapeAll_plain h, literal_char (beginsMark_plain h), ih]
      rfl

/-! ## Fences -/

theorem trimStart_escapeAll (cs : List Char) :
    trimStart (escapeAll cs) = escapeAll (trimStart cs) := by
  induction cs with
  | nil => rfl
  | cons c cs ih =>
    by_cases h : c ∈ markers
    · have solid := (isBlank_marker h).1
      have backslash : isBlank '\\' = false := by decide
      simp [trimStart, escapeAll_marker h, solid, backslash]
    · cases blank : isBlank c with
      | true => simpa [trimStart, escapeAll_plain h, blank] using ih
      | false => simp [trimStart, escapeAll_plain h, blank]

/-- A line is blank if it is blank when it is escaped. -/
theorem blankLine_escapeAll (cs : List Char) :
    ((escapeAll cs).takeWhile (· ≠ '\n')).all isBlank = (cs.takeWhile (· ≠ '\n')).all isBlank := by
  induction cs with
  | nil => rfl
  | cons c cs ih =>
    by_cases h : c ∈ markers
    · have backslash : isBlank '\\' = false := by decide
      obtain ⟨solid, line, -⟩ := isBlank_marker h
      simp [escapeAll_marker h, solid, line, backslash]
    · rw [escapeAll_plain h]
      by_cases line : c = '\n'
      · simp [line]
      · rw [List.takeWhile_cons_of_pos (by simpa), List.takeWhile_cons_of_pos (by simpa)]
        exact congrArg (isBlank c && ·) ih

theorem exists_dash {cs ds : List Char} (h : escapeAll cs = '-' :: ds) :
    ∃ es, cs = '-' :: es ∧ ds = escapeAll es := by
  cases cs with
  | nil => cases h
  | cons c cs =>
    by_cases hc : c ∈ markers
    · rw [escapeAll_marker hc] at h
      cases h
    · rw [escapeAll_plain hc] at h
      cases h
      exact ⟨cs, rfl, rfl⟩

/-- Escaping does not make a fence. -/
theorem isFence_of_escapeAll {cs : List Char} (h : isFence (escapeAll cs) = true) :
    isFence cs = true := by
  rw [isFence, Bool.and_eq_true] at h
  obtain ⟨dashes, blank⟩ := h
  obtain ⟨ds, first⟩ := List.isPrefixOf_iff_prefix.mp dashes
  obtain ⟨cs, rfl, second⟩ := exists_dash first.symm
  obtain ⟨cs, rfl, third⟩ := exists_dash second.symm
  obtain ⟨cs, rfl, -⟩ := exists_dash third.symm
  have plain : '-' ∉ markers := by decide
  rw [escapeAll_plain plain, escapeAll_plain plain, escapeAll_plain plain] at blank
  rw [isFence, Bool.and_eq_true]
  exact ⟨by simp [List.isPrefixOf], (blankLine_escapeAll cs).symm.trans blank⟩

/-! ## The template of an escaped text -/

theorem trim_eq_nil_iff (cs : List Char) : trim cs = [] ↔ ∀ c ∈ cs, isBlank c = true := by
  have trimStart_eq_nil (cs : List Char) : trimStart cs = [] ↔ ∀ c ∈ cs, isBlank c = true :=
    List.dropWhile_eq_nil_iff
  have whole := List.takeWhile_append_dropWhile (p := isBlank) (l := cs)
  rw [trim, trimEnd, List.reverse_eq_nil_iff, ← trimStart, trimStart_eq_nil]
  constructor
  · intro blank c hc
    rw [← whole, List.mem_append] at hc
    rcases hc with hc | hc
    · exact List.all_eq_true.mp List.all_takeWhile c hc
    · exact blank c (List.mem_reverse.mpr hc)
  · intro blank c hc
    exact blank c ((List.dropWhile_sublist isBlank).subset (List.mem_reverse.mp hc))

/-- An escaped text is read as one node. -/
theorem read_escapeAll {cs : List Char} (plain : isFence (trimStart cs) = false) :
    let whole := Span.between Position.first (Position.first.advance (escapeAll cs))
    read (escapeAll cs) =
      .ok ⟨if cs.isEmpty then [] else [.text (String.ofList cs) whole], whole⟩ := by
  have unfenced : isFence (trimStart (escapeAll cs)) = false := by
    rw [trimStart_escapeAll]
    exact Bool.eq_false_iff.mpr fun fence =>
      absurd (isFence_of_escapeAll fence) (by rw [plain]; exact Bool.false_ne_true)
  have stop : (Cursor.start (escapeAll cs)).skip (escapeAll cs).length =
      ⟨Position.first.advance (escapeAll cs), []⟩ := by
    simp [Cursor.start, Cursor.skip]
  have text : literal (Cursor.start (escapeAll cs)).rest = (cs, (escapeAll cs).length) :=
    literal_escapeAll cs
  have nodes_eq : nodes Nesting.none (Cursor.start (escapeAll cs)) =
      .ok (if cs.isEmpty then [] else [.text (String.ofList cs)
        (Span.between Position.first (Position.first.advance (escapeAll cs)))], none) := by
    rw [nodes]
    simp only [text]
    rw [dif_pos (by rw [stop]), stop]
    rfl
  rw [read, configBlock_plain unfenced]
  simp only [bind, Except.bind, nodes_eq, stop]
  rfl

/-- The template that is a text, with no node for the empty one. -/
def single (s : String) (whole : Span) : Fragment := ⟨if s = "" then [] else [.text s whole], whole⟩

/-- Text alone becomes a message at the end. -/
theorem run_whole_single (host : Host) (s : String) (whole : Span) (world : World) :
    (Compile.whole host (single s whole)).run (Compilation.start world none) =
      (.ok .done, { Compilation.start world none with
        messages := if (trimmed s).isEmpty then [] else [Message.ofText .system (trimmed s)] }) := by
  by_cases h : s = ""
  · subst h
    rw [Compile.whole, single, if_pos rfl, Compile.walkAll]
    rfl
  · rw [Compile.whole, single, if_neg h, Compile.walkAll, Compile.walk, Compile.walkAll]
    have text : "" ++ s = s := String.empty_append
    rw [← text]
    rfl

theorem reference?_single (s : String) (whole : Span) : (single s whole).reference? = none := by
  rw [single]
  split <;> rfl

/-- An escaped text is a template with the text as its only node, if it does not begin with a
fence, and it becomes one system message, unless it is blank. -/
theorem ofText_escape (s : String) (plain : isFence (trimStart s.toList) = false) :
    (∃ whole, Fragment.ofText (escape s) =
      .ok ⟨if s = "" then [] else [.text s whole], whole⟩) ∧
      ∀ host parameters calls, (render host (escape s) parameters).run calls =
        (.ok ⟨[], if s.toList.all isBlank then [] else [Message.ofText .system (trimmed s)]⟩,
          calls) := by
  have chars : (escape s).toList = escapeAll s.toList := String.toList_ofList
  have parsed : ∃ whole, Fragment.ofText (escape s) = .ok (single s whole) := by
    refine ⟨Span.between Position.first (Position.first.advance (escapeAll s.toList)), ?_⟩
    rw [Fragment.ofText, chars, read_escapeAll plain]
    simp only [single, List.isEmpty_iff, String.toList_eq_nil_iff, String.ofList_toList]
  refine ⟨parsed, fun host parameters calls => ?_⟩
  obtain ⟨whole, parsed⟩ := parsed
  let c : Chain := ⟨escape s, single s whole, Scope.ofParameters parameters, [], [], .notStarted⟩
  have compiled : c.compilation host none calls = _ := run_whole_single host s whole _
  have stepped : (c.step host none).run calls = _ := Chain.step_eq rfl (reference?_single s whole)
  have blank : (trimmed s).isEmpty = s.toList.all isBlank := by
    rw [Bool.eq_iff_iff, String.isEmpty_iff, trimmed, ← String.toList_inj, String.toList_ofList,
      List.all_eq_true]
    exact trim_eq_nil_iff s.toList
  rw [compiled] at stepped
  have started : Chain.start (escape s) parameters = .ok c := by
    rw [Chain.start, parsed]
    rfl
  rw [Chain.run_render started stepped rfl, ← blank]
  generalize (if (trimmed s).isEmpty then [] else [Message.ofText .system (trimmed s)]) = messages
  rfl

/-- The markup of a comment, a tag and a block, with a backslash before it. -/
theorem ofText_escape_markup :
    ∃ s whole, s = " /*b*/</user>\\\x7b\x7b#if x\x7d\x7d" ∧ isFence (trimStart s.toList) = false ∧
      escape s = " \\/*b*\\/\\<\\/user>\\\\\\\x7b\\\x7b#if x\\\x7d\\\x7d" ∧
      Fragment.ofText (escape s) = .ok ⟨[.text s whole], whole⟩ := by
  obtain ⟨whole, reads⟩ := (ofText_escape " /*b*/</user>\\\x7b\x7b#if x\x7d\x7d" (by decide)).1
  exact ⟨_, whole, rfl, by decide, by decide, reads⟩

end Template

end PromptTemplate
