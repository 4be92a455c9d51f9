import PromptTemplate.Proofs.Token.Spans

/-!
# Token lists tile the text

From where a reader begins to where it stops the tokens stand one after the other, with
nothing but blanks between them, and the text under a token is what the token says it is.
-/

namespace PromptTemplate

open Text

/-! ## Lines and columns -/

namespace Position

/-- The line counts the line feeds before the place, and the column the characters since the
last of them. -/
theorem advance_first (front : List Char) :
    first.advance front = ⟨byteLength front, front.count '\n' + 1,
      (front.reverse.takeWhile (· ≠ '\n')).length + 1⟩ := by
  induction front using List.reverseRecOn with
  | nil => rfl
  | append_singleton front c ih =>
    rw [advance_append, ih, advance_cons, advance_nil, byteLength_append, List.count_append,
      List.reverse_concat]
    by_cases newline : c = '\n'
    · subst newline
      simp [next, byteLength]
    · simp [next, byteLength, newline]

end Position

/-! ## Characters of a piece -/

/-- A character that begins inside a piece of a text is a character of the piece. -/
theorem Text.exists_of_between {front used back before after : List Char} {c : Char}
    (same : front ++ (used ++ back) = before ++ c :: after)
    (low : byteLength front ≤ byteLength before)
    (high : byteLength before < byteLength (front ++ used)) :
    ∃ us vs, used = us ++ c :: vs ∧ before = front ++ us := by
  have positive := c.utf8Size_pos
  have inside : ∃ us, before = front ++ us ∧ used ++ back = us ++ c :: after := by
    rcases List.append_eq_append_iff.mp same with ⟨us, hbefore, hused⟩ | ⟨us, hfront, hrest⟩
    · exact ⟨us, hbefore, hused⟩
    · cases us with
      | nil =>
        rw [List.append_nil] at hfront
        exact ⟨[], by rw [hfront, List.append_nil], by rw [hrest]; rfl⟩
      | cons d us =>
        have wide := d.utf8Size_pos
        rw [hfront, byteLength_append, byteLength] at low
        omega
  obtain ⟨us, hbefore, hused⟩ := inside
  rw [hbefore, byteLength_append, byteLength_append] at high
  rcases List.append_eq_append_iff.mp hused with ⟨vs, rfl, -⟩ | ⟨vs, hu, hrest⟩
  · rw [byteLength_append] at high
    omega
  · cases vs with
    | nil =>
      rw [List.append_nil] at hu
      rw [hu] at high
      omega
    | cons d vs =>
      obtain ⟨rfl, -⟩ := List.cons.inj hrest
      exact ⟨us, vs, hu, hbefore⟩

namespace Token

/-! ## What stands under a token -/

/-- How a token stands in the text, if that can be told from it alone. -/
def Kind.text? : Kind → Option String
  | .identifier name => some name
  | .string _ | .number _ | .inputEnd | .invalid _ => none
  | k => some k.symbol

/-- A token is where its span says it is, and what stands there is the token. -/
structure Stands (source : List Char) (t : Token) : Prop where
  placed : ∃ front back, source = front ++ back ∧ t.span.start = byteLength front ∧
    t.span.line = front.count '\n' + 1 ∧
    t.span.column = (front.reverse.takeWhile (· ≠ '\n')).length + 1
  nonempty : t.kind ≠ .inputEnd → t.span.start < t.span.stop
  written : ∀ text, t.kind.text? = some text →
    slice? source t.span.start t.span.stop = some text.toList

/-- The tokens of a text from one offset to another. Every character there is a blank or a
part of a token, and only the last token ends the list. -/
structure Tiling (source : List Char) (low high : Nat) (ts : List Token) : Prop where
  ordered : Span.Ordered low high (ts.map (·.span))
  stands : ∀ t ∈ ts, t.Stands source
  terminated : ∃ front last, ts = front ++ [last] ∧ last.kind.isTerminator = true ∧
    last.span.stop = high ∧ ∀ t ∈ front, t.kind.isTerminator = false
  covered : ∀ before c after, source = before ++ c :: after → low ≤ byteLength before →
    byteLength before < high → isBlank c = true ∨
      ∃ t ∈ ts, t.span.start ≤ byteLength before ∧
        byteLength before + c.utf8Size ≤ t.span.stop

/-! ### One token -/

theorem text_keyword {name : List Char} {k : Keyword} (h : Keyword.ofWord? name = some k) :
    k.chars = name := by
  simpa using List.find?_some h

theorem text_word {cs : List Char} {text : String} (h : (word cs).1.text? = some text) :
    text.toList = cs.takeWhile isIdentifierPart := by
  revert h
  simp only [word]
  split
  · rename_i k hk
    intro h
    obtain rfl : k.symbol = text := Option.some.inj h
    rw [Keyword.symbol, String.toList_ofList, text_keyword hk]
  · intro h
    obtain rfl := Option.some.inj h
    rw [String.toList_ofList]

theorem text?_number (cs : List Char) : (number cs).1.text? = none := by
  unfold number
  split
  · dsimp only
    split <;> rfl
  · dsimp only
    split
    · rfl
    · split <;> rfl

theorem text?_string (quote : Char) (cs : List Char) : (string quote cs).1.text? = none := by
  unfold string
  split <;> rfl

/-- What is taken off the text for a token is how the token is written. -/
theorem text_scan {mode : Mode} {depth : Nat} {c : Char} {cs : List Char} {text : String}
    (h : (scan mode depth c cs).1.text? = some text) :
    text.toList ++ (scan mode depth c cs).2 = c :: cs := by
  revert h
  unfold scan
  split
  · rename_i closes
    split
    · rename_i again
      intro h
      obtain rfl := Option.some.inj h
      obtain ⟨more, rfl⟩ := List.head?_eq_some_iff.mp again
      simp [closes.1, Kind.symbol]
    · exact fun h => nomatch h
  split
  · intro h
    rw [text?_number] at h
    cases h
  split
  · intro h
    rw [text?_string] at h
    cases h
  split
  · intro h
    rw [text_word h]
    exact List.takeWhile_append_dropWhile
  split
  · exact fun h => nomatch h
  split
  · exact fun h => nomatch h
  split
  · rename_i m hm
    intro h
    obtain rfl := Option.some.inj h
    obtain ⟨rest, hrest⟩ := chars_markAt hm
    rw [Kind.symbol, Mark.symbol, String.toList_ofList, ← hrest, List.drop_left]
  · exact fun h => nomatch h

section

variable {source used : List Char} {c d : Cursor} {t : Token}

/-- A token that is read off a text stands where it was read. -/
theorem stands_read (h : c.On source) (reads : c.Takes used d) (hspan : t.span = c.span d)
    (nonempty : t.kind ≠ .inputEnd → used ≠ [])
    (written : ∀ text, t.kind.text? = some text → text.toList = used) : t.Stands source := by
  obtain ⟨front, hsource, hposition⟩ := h
  have place : c.position = ⟨byteLength front, front.count '\n' + 1,
      (front.reverse.takeWhile (· ≠ '\n')).length + 1⟩ := by
    rw [hposition, Position.advance_first]
  have start : t.span.start = byteLength front := by
    rw [hspan]
    exact congrArg Position.offset place
  have stop : t.span.stop = byteLength (front ++ used) := by
    rw [hspan, byteLength_append]
    change d.offset = _
    rw [reads.offset, Cursor.offset, place]
  refine ⟨⟨front, c.rest, hsource, start, ?_, ?_⟩, fun more => ?_, fun text htext => ?_⟩
  · rw [hspan]
    exact congrArg Position.line place
  · rw [hspan]
    exact congrArg Position.column place
  · have some := nonempty more
    cases used with
    | nil => exact absurd rfl some
    | cons x used =>
      have positive := x.utf8Size_pos
      rw [start, stop, byteLength_append, byteLength]
      omega
  · rw [start, stop, hsource, reads.rest, slice?_append, written text htext]

/-! ### One after the other -/

/-- Between two cursors of a text stands what is read from one to the other. -/
theorem mem_of_takes (h : c.On source) (reads : c.Takes used d) {before after : List Char}
    {x : Char} (same : source = before ++ x :: after) (low : c.offset ≤ byteLength before)
    (high : byteLength before < d.offset) :
    ∃ us vs, used = us ++ x :: vs ∧ byteLength before = c.offset + byteLength us := by
  obtain ⟨front, hsource, hposition⟩ := h
  have start : c.offset = byteLength front := by
    rw [Cursor.offset, hposition, Position.advance_first]
  rw [reads.rest] at hsource
  rw [reads.offset, start, ← byteLength_append] at high
  rw [start] at low
  obtain ⟨us, vs, hused, rfl⟩ := exists_of_between (hsource.symm.trans same) low high
  exact ⟨us, vs, hused, by rw [byteLength_append, start]⟩

end

namespace Tiling

variable {source blanks used : List Char} {c d e : Cursor} {t : Token} {ts : List Token}
  {high : Nat}

/-- The characters before the end of the first token. -/
theorem covered_first (hc : c.On source) (spaces : c.Takes blanks d)
    (hblanks : ∀ x ∈ blanks, isBlank x = true) (reads : d.Takes used e)
    (hspan : t.span = d.span e) {before after : List Char} {x : Char}
    (same : source = before ++ x :: after) (low : c.offset ≤ byteLength before)
    (high : byteLength before < e.offset) :
    isBlank x = true ∨
      (t.span.start ≤ byteLength before ∧ byteLength before + x.utf8Size ≤ t.span.stop) := by
  have hd := (hc.takes spaces).on
  by_cases early : byteLength before < d.offset
  · obtain ⟨us, vs, rfl, -⟩ := mem_of_takes hc spaces same low early
    exact Or.inl (hblanks x (by simp))
  · obtain ⟨us, vs, rfl, place⟩ := mem_of_takes hd reads same (Nat.le_of_not_lt early) high
    have stop : e.offset = d.offset + (byteLength us + (x.utf8Size + byteLength vs)) := by
      rw [reads.offset, byteLength_append, byteLength]
    rw [hspan]
    refine Or.inr ⟨Nat.le_of_not_lt early, ?_⟩
    change _ ≤ e.offset
    omega

/-- A list of one token. -/
theorem last (hc : c.On source) (spaces : c.Takes blanks d)
    (hblanks : ∀ x ∈ blanks, isBlank x = true) (reads : d.Takes used e)
    (hspan : t.span = d.span e) (stands : t.Stands source)
    (ends : t.kind.isTerminator = true) : Tiling source c.offset e.offset [t] := by
  have le := ((hc.takes spaces).on.takes reads).le
  refine ⟨?_, List.forall_mem_singleton.mpr stands, ?_, fun before x after same low high => ?_⟩
  · simp only [List.map_cons, List.map_nil, hspan]
    exact ⟨(hc.takes spaces).le, le, Nat.le_refl _⟩
  · refine ⟨[], t, rfl, ends, ?_, List.forall_mem_nil _⟩
    rw [hspan]
    rfl
  · have first := covered_first hc spaces hblanks reads hspan same low high
    exact first.imp_right fun inside => ⟨t, List.mem_singleton_self t, inside⟩

/-- One more token in front. -/
theorem cons (hc : c.On source) (spaces : c.Takes blanks d)
    (hblanks : ∀ x ∈ blanks, isBlank x = true) (reads : d.Takes used e)
    (hspan : t.span = d.span e) (stands : t.Stands source)
    (more : t.kind.isTerminator = false) (h : Tiling source e.offset high ts) :
    Tiling source c.offset high (t :: ts) := by
  have le := ((hc.takes spaces).on.takes reads).le
  refine ⟨?_, List.forall_mem_cons.mpr ⟨stands, h.stands⟩, ?_, ?_⟩
  · have ordered := h.ordered
    simp only [List.map_cons, hspan]
    exact ⟨(hc.takes spaces).le, le, ordered⟩
  · obtain ⟨front, last, rfl, ends, stop, goes_on⟩ := h.terminated
    exact ⟨t :: front, last, rfl, ends, stop, List.forall_mem_cons.mpr ⟨more, goes_on⟩⟩
  · intro before x after same low under
    by_cases early : byteLength before < e.offset
    · have first := covered_first hc spaces hblanks reads hspan same low early
      exact first.imp_right fun inside => ⟨t, List.mem_cons_self, inside⟩
    · rcases h.covered before x after same (Nat.le_of_not_lt early) under with blank | later
      · exact Or.inl blank
      · obtain ⟨u, hu, inside⟩ := later
        exact Or.inr ⟨u, List.mem_cons_of_mem t hu, inside⟩

end Tiling

/-! ## Readers -/

/-- From the first character of a token to what the reader leaves. -/
theorem takes_scan (mode : Mode) (depth : Nat) (p : Position) (c : Char) (more : List Char) :
    let left := (scan mode depth c more).2
    let used := c :: more.take (more.length - left.length)
    (Cursor.mk p (c :: more)).Takes used ⟨p.advance used, left⟩ := by
  intro left used
  refine ⟨?_, rfl⟩
  have rest : left = more.drop (more.length - left.length) :=
    List.suffix_iff_eq_drop.mp (suffix_scan mode depth c more)
  change c :: more = used ++ left
  rw [rest, List.cons_append, List.take_append_drop]

/-- The token that the reader has found stands where it was found. -/
theorem stands_scan {source : List Char} (mode : Mode) (depth : Nat) {p : Position} {c : Char}
    {more : List Char} (h : (Cursor.mk p (c :: more)).On source) :
    let scanned := scan mode depth c more
    let used := c :: more.take (more.length - scanned.2.length)
    Stands source ⟨scanned.1, Span.between p (p.advance used)⟩ := by
  intro scanned used
  have reads := takes_scan mode depth p c more
  refine stands_read h reads rfl (fun _ => List.cons_ne_nil _ _) fun text htext => ?_
  have whole := text_scan htext
  exact List.append_cancel_right (whole.trans reads.rest)

/-- The induction is the recursion of the reader, which goes on where a token ends. -/
theorem tiling_scanAll {source : List Char} (mode : Mode) (depth : Nat) (p : Position)
    (cs : List Char) (h : (Cursor.mk p cs).On source) :
    Tiling source p.offset (scanAll mode depth p cs).2.1.offset (scanAll mode depth p cs).1 := by
  have spaces : (Cursor.mk p cs).Takes (cs.takeWhile isBlank)
      ⟨p.advance (cs.takeWhile isBlank), cs.dropWhile isBlank⟩ :=
    ⟨List.takeWhile_append_dropWhile.symm, rfl⟩
  have hblanks : ∀ x ∈ cs.takeWhile isBlank, isBlank x = true :=
    List.all_eq_true.mp List.all_takeWhile
  fun_induction scanAll mode depth p cs with
  | case1 depth p cs start none =>
    have stands : Stands source ⟨.inputEnd, Span.between start start⟩ := by
      refine stands_read (h.takes spaces).on (.refl _) rfl (fun more => absurd rfl more) ?_
      intro _ written
      cases written
    exact .last h spaces hblanks (.refl _) rfl stands rfl
  | case2 depth p cs start c more first scanned stop token ends =>
    rw [first] at spaces
    have stands := stands_scan mode depth (h.takes spaces).on
    exact .last h spaces hblanks (takes_scan mode depth start c more) rfl stands ends
  | case3 depth p cs start c more first scanned stop token goes_on tokens after rest ih =>
    rw [first] at spaces
    have on := (h.takes spaces).on
    have stands := stands_scan mode depth on
    have reads := takes_scan mode depth start c more
    have later := ih (on.takes reads).on ⟨List.takeWhile_append_dropWhile.symm, rfl⟩
      (List.all_eq_true.mp List.all_takeWhile)
    rw [rest] at later
    exact .cons h spaces hblanks reads rfl stands (Bool.eq_false_iff.mpr goes_on) later

/-- The tokens of a text that stands alone tile it, and so do those of a tag of the text from
just after its opening braces, wherever it stands. -/
theorem tokens_tile (front back : List Char) :
    let source := front ++ back
    let opened := Position.ofOffset source (byteLength front)
    Tiling source 0 (scanAll .alone 0 Position.first source).2.1.offset (ofText source) ∧
      Tiling source (byteLength front) (ofTag opened back).2.1.offset (ofTag opened back).1 := by
  intro source opened
  have place : opened = Position.first.advance front := by
    simp only [opened, source, Position.ofOffset, cut?_append]
  constructor
  · exact tiling_scanAll .alone 0 Position.first source (Cursor.on_start source)
  · have on : (Cursor.mk opened back).On source := ⟨front, rfl, place⟩
    have tiles := tiling_scanAll .tag 0 opened back on
    rw [place, Position.advance_first] at tiles ⊢
    exact tiles

end Token

end PromptTemplate
