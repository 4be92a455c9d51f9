import PromptTemplate.Proofs.Template.Agreement

/-!
# Comments put into a text

A comment that is put after a blank of literal text is read, and everything else is read as
before. The config block of the text is not changed by it, either.
-/

namespace PromptTemplate

open Text Text.Cursor

namespace Template

/-! ## The comment -/

/-- A comment with some characters in it. -/
def commentText (data : List Char) : List Char := '/' :: '*' :: (data ++ ['*', '/'])

variable {data following : List Char}

/-- What is in a comment ends with the first closing mark. -/
theorem before?_comment (h : ¬ ['*', '/'] <:+: data) (following : List Char) :
    before? ['*', '/'] (data ++ '*' :: '/' :: following) = some data := by
  induction data with
  | nil => rfl
  | cons x data ih =>
    have early : ¬ ['*', '/'].isPrefixOf (x :: (data ++ '*' :: '/' :: following)) = true := by
      intro closes
      cases data with
      | nil => simp [List.isPrefixOf] at closes
      | cons y data =>
        simp only [List.cons_append, List.isPrefixOf, Bool.and_true, Bool.and_eq_true,
          beq_iff_eq] at closes
        obtain ⟨rfl, rfl⟩ := closes
        exact h ⟨[], data, rfl⟩
    have later := ih fun inside => h (inside.trans (List.suffix_cons x data).isInfix)
    rw [List.cons_append, before?, if_neg early, later]
    rfl

theorem isComment_commentText (h : ¬ ['*', '/'] <:+: data) (following : List Char) :
    IsComment (commentText data) following where
  begins := rfl
  read n c nonempty hc := by
    have text : c.rest = '/' :: '*' :: (data ++ '*' :: '/' :: following) := by
      rw [hc]
      simp [commentText]
    have closed := before?_comment h following
    have inside : before? ['*', '/'] (c.rest.drop ['/', '*'].length) = some data := by
      rw [text]
      exact closed
    have rest :
        (c.skip (['/', '*'].length + data.length + ['*', '/'].length)).rest = following := by
      rw [rest_skip, text, show ['/', '*'].length + data.length + ['*', '/'].length =
        (data.length + 2) + 1 + 1 by simp; omega, List.drop_succ_cons, List.drop_succ_cons,
        List.drop_length_add_append]
      rfl
    have front : ['/', '*'].isPrefixOf c.rest = true := by
      rw [text]
      rfl
    have shorter : (c.skip (['/', '*'].length + data.length + ['*', '/'].length)).rest.length <
        c.rest.length := length_skip_lt nonempty (by simp)
    refine ⟨String.ofList data, ignoredCodes data, _, shorter, item_comment front ?_, rest⟩
    rw [comment, inside]

/-! ## The config block -/

variable {cs inserted front u : List Char} {config : Option Node} {c : Cursor} {x : Char}

/-- What is no fence is not made one by a comment after a blank. -/
theorem isFence_append_comment (last : cs.getLast? = some x) (blank : isBlank x = true)
    (h : isFence (cs ++ following) = false) :
    isFence (cs ++ (commentText data ++ following)) = false := by
  obtain ⟨front, rfl⟩ := List.getLast?_eq_some_iff.mp last
  have other : x ∉ ['-', '-', '-'] := by
    intro hx
    simp only [List.mem_cons, List.not_mem_nil, or_false, or_self] at hx
    subst hx
    cases blank
  rw [List.append_assoc, List.singleton_append, isFence, Token.isPrefixOf_stop other] at h ⊢
  cases marks : ['-', '-', '-'].isPrefixOf front with
  | false => rfl
  | true =>
    obtain ⟨blanks, rfl⟩ := List.isPrefixOf_iff_prefix.mp marks
    have line (more : List Char) : (['-', '-', '-'] ++ blanks ++ x :: more).drop 3 =
        blanks ++ [x] ++ more := by simp
    have solid : isBlank '/' = false := rfl
    rw [marks, Bool.true_and, line, List.takeWhile_append] at h
    rw [Bool.true_and, line, List.takeWhile_append]
    -- either the line goes on up to the comment, which is not blank, or it has ended before
    split
    · simp [commentText, solid]
    · rename_i ended
      rwa [if_neg ended] at h

/-- A fence does not begin before a comment that comes after a blank if it does not begin
without it. -/
theorem isFence_comment (last : cs.getLast? = some x) (blank : isBlank x = true)
    (h : isFence (trimStart (cs ++ following)) = false) :
    isFence (trimStart (cs ++ (commentText data ++ following))) = false := by
  cases hcs : trimStart cs with
  | nil =>
    have start : trimStart (cs ++ (commentText data ++ following)) =
        commentText data ++ following := by
      have solid : isBlank '/' = false := rfl
      rw [trimStart] at hcs ⊢
      rw [List.dropWhile_append, hcs, commentText]
      simp [solid]
    rw [start]
    rfl
  | cons y t =>
    have start (more : List Char) : trimStart (cs ++ more) = y :: t ++ more := by
      rw [trimStart] at hcs ⊢
      rw [List.dropWhile_append, hcs]
      rfl
    have whole : cs = cs.takeWhile isBlank ++ (y :: t) := by
      rw [← hcs]
      exact List.takeWhile_append_dropWhile.symm
    rw [whole, List.getLast?_append_of_ne_nil _ (List.cons_ne_nil _ _)] at last
    rw [start] at h ⊢
    exact isFence_append_comment last blank h

/-- The config block in front is the same before a comment. -/
theorem Headed.comment (h : Headed (front ++ (u ++ following)) config c)
    (hc : c.rest = u ++ following) (last : u.getLast? = some x) (blank : isBlank x = true) :
    configBlock (Cursor.start (front ++ (u ++ (commentText data ++ following)))) =
      .ok (config, ⟨c.position, u ++ (commentText data ++ following)⟩) := by
  cases h with
  | plain fence =>
    obtain rfl : front = [] := List.append_left_eq_self.mp hc
    exact configBlock_plain (isFence_comment last blank fence)
  | block front' rest value s whole ends _ reads =>
    obtain rfl : rest = u ++ following := hc
    obtain rfl := List.append_cancel_right whole
    refine reads _ ?_
    cases u with
    | nil => cases last
    | cons y u => exact ends

/-! ## The place of the comment -/

/-- Lexemes of literal text end where a blank ends. -/
theorem exists_blank (last : u.getLast? = some x) (blank : isBlank x = true)
    (inside : u.length ≤ (literal (u ++ following)).2) :
    ∃ ps, Lexeme.textAll ps = u ∧ Lexeme.AllFit following ps ∧ ps.getLast? = some (.char x) := by
  induction n : u.length using Nat.strongRecOn generalizing u with
  | ind n ih =>
    cases u with
    | nil => cases last
    | cons y u =>
      cases mark : beginsMark (y :: (u ++ following)) with
      | false =>
        rw [List.cons_append, literal_char mark] at inside
        cases u with
        | nil =>
          cases last
          exact ⟨[.char y], rfl, ⟨mark, trivial⟩, rfl⟩
        | cons z u =>
          rw [List.getLast?_cons_cons] at last
          obtain ⟨ps, text, fits, last⟩ := ih _ (by simp [← n]) last
            (Nat.le_of_succ_le_succ inside) rfl
          refine ⟨.char y :: ps, ?_, ⟨?_, fits⟩, ?_⟩
          · rw [Lexeme.textAll_cons, text]
            rfl
          · rw [text]
            exact mark
          · rw [List.getLast?_cons, last]
            rfl
      | true =>
        rw [beginsMark, Bool.or_eq_true, Bool.and_eq_true] at mark
        rcases mark with mark | ⟨backslash, escaped⟩
        · rw [List.cons_append, literal_markup mark] at inside
          simp at inside
        · obtain rfl : y = '\\' := by simpa using backslash
          cases u with
          | nil =>
            cases last
            cases blank
          | cons z u =>
            rw [List.cons_append, List.cons_append, literal_escape escaped] at inside
            rw [List.getLast?_cons_cons] at last
            cases u with
            | nil =>
              obtain rfl : z = x := Option.some.inj last
              have plain := isEscapable_eq_false_of_blank blank
              rw [show isEscapable z = true from escaped] at plain
              cases plain
            | cons z' u =>
              rw [List.getLast?_cons_cons] at last
              obtain ⟨ps, text, fits, last⟩ := ih _ (by simp [← n]) last
                (Nat.le_of_succ_le_succ (Nat.le_of_succ_le_succ inside)) rfl
              refine ⟨.escape z :: ps, ?_, ⟨escaped, fits⟩, ?_⟩
              · rw [Lexeme.textAll_cons, text]
                rfl
              · rw [List.getLast?_cons, last]
                rfl

/-- A text that is not longer in bytes than some first characters is not longer than these. -/
theorem length_le_of_byteLength {n : Nat}
    (h : byteLength u ≤ byteLength ((u ++ following).take n)) : u.length ≤ n := by
  by_contra short
  have split : u = u.take n ++ u.drop n := (List.take_append_drop n u).symm
  rw [List.take_append_of_le_length (Nat.le_of_not_le short)] at h
  cases hrest : u.drop n with
  | nil => exact short (List.drop_eq_nil_iff.mp hrest)
  | cons y rest =>
    have bytes := congrArg byteLength split
    rw [hrest, byteLength_append, byteLength] at bytes
    have := Char.utf8Size_pos y
    omega

/-- A piece of literal text with a place after a blank in it: the text up to there is lexemes. -/
theorem Bounded.exists_lexemes {p : List Char} {s : Span} (h : Bounded c s)
    (whole : p ++ following = front ++ c.rest) (place : c.offset = byteLength front)
    (start : s.start < byteLength p) (stop : byteLength p ≤ s.stop)
    (last : p.getLast? = some x) (blank : isBlank x = true) :
    ∃ ps, p = front ++ Lexeme.textAll ps ∧ Lexeme.AllFit following ps ∧
      ps.getLast? = some (.char x) := by
  obtain ⟨ps, d, ⟨takes, fits⟩, rfl⟩ := h
  have offset : d.offset = byteLength (front ++ Lexeme.textAll ps) := by
    rw [takes.offset, place, byteLength_append]
  have start : d.offset < byteLength p := start
  have stop : byteLength p ≤ (d.skip (literal d.rest).2).offset := stop
  rw [takes.rest, ← List.append_assoc, List.append_eq_append_iff] at whole
  obtain ⟨v, before, -⟩ | ⟨u, rfl, rest⟩ := whole
  · rw [offset, before, byteLength_append] at start
    omega
  · rw [(Takes.skip d _).offset, offset, byteLength_append _ u] at stop
    rw [offset, byteLength_append _ u] at start
    have some : u ≠ [] := by
      rintro rfl
      exact absurd start (Nat.lt_irrefl _)
    rw [List.getLast?_append_of_ne_nil _ some] at last
    rw [rest] at stop fits
    have inside := length_le_of_byteLength (Nat.le_of_add_le_add_left stop)
    obtain ⟨qs, rfl, fits', last'⟩ := exists_blank last blank inside
    refine ⟨ps ++ qs, ?_, Lexeme.allFit_append.mpr ⟨fits, fits'⟩, ?_⟩
    · rw [Lexeme.textAll_append, List.append_assoc]
    · rw [List.getLast?_append, last']
      rfl

/-! ## Whole texts -/

open Node

theorem Headed.textSpans (h : Headed cs config c) : textSpans config.toList = [] := by
  cases h <;> rfl

theorem exists_of_read {f : Fragment} (h : read cs = .ok f) :
    ∃ config c children, configBlock (Cursor.start cs) = .ok (config, c) ∧
      nodes Nesting.none c = .ok (children, none) ∧ f.children = config.toList ++ children := by
  rw [read] at h
  cases hconfig : configBlock (Cursor.start cs) with
  | error err =>
    rw [hconfig] at h
    cases h
  | ok r =>
    obtain ⟨config, c⟩ := r
    rw [hconfig] at h
    dsimp only [bind, Except.bind] at h
    cases hnodes : nodes Nesting.none c with
    | error err =>
      rw [hnodes] at h
      cases h
    | ok r =>
      obtain ⟨children, _ | ⟨stop, d⟩⟩ := r
      · rw [hnodes] at h
        cases h
        exact ⟨config, c, children, rfl, hnodes, rfl⟩
      · rw [hnodes] at h
        cases h

theorem read_of_nodes {children : List Node}
    (hconfig : configBlock (Cursor.start cs) = .ok (config, c))
    (hnodes : nodes Nesting.none c = .ok (children, none)) :
    ∃ f, read cs = .ok f ∧ f.children = config.toList ++ children := by
  rw [read, hconfig]
  dsimp only [bind, Except.bind]
  rw [hnodes]
  exact ⟨_, rfl, rfl⟩

/-- A text ends, before another one, with a blank of literal text: after the config block, if there
is one, it is lexemes, and the last of them is the blank. -/
def EndsBlank (p following : List Char) : Prop :=
  ∃ config c ps x, configBlock (Cursor.start (p ++ following)) = .ok (config, c) ∧
    c.rest = Lexeme.textAll ps ++ following ∧ Lexeme.AllFit following ps ∧
      ps.getLast? = some (.char x) ∧ isBlank x = true

variable {p : List Char} {f : Fragment}

/-- A blank that a text node goes over is a blank of literal text. -/
theorem endsBlank_of_textSpan {s : Span} (h : read (p ++ following) = .ok f)
    (node : s ∈ Node.textSpans f.children) (start : s.start < byteLength p)
    (stop : byteLength p ≤ s.stop) (last : p.getLast? = some x) (blank : isBlank x = true) :
    EndsBlank p following := by
  obtain ⟨config, c, children, hconfig, hnodes, hf⟩ := exists_of_read h
  have headed := headed_of_configBlock hconfig
  obtain ⟨front, whole, position⟩ := headed.exists_front
  have place : c.offset = byteLength front := by
    rw [Cursor.offset, position, Position.offset_advance]
    exact Nat.zero_add _
  rw [hf, textSpans_append, headed.textSpans, List.nil_append] at node
  have bounded := (cut_nodes Nesting.none c _ hnodes).1 s node
  obtain ⟨ps, rfl, fits, ends⟩ := bounded.exists_lexemes whole place start stop last blank
  rw [List.append_assoc] at whole
  exact ⟨config, c, ps, x, hconfig, (List.append_cancel_left whole).symm, fits, ends, blank⟩

/-- A text with a comment after a blank of literal text is read, and if the comment leaves the
ends of all branches as they are, the same is seen of it. -/
theorem read_comment (h : read (p ++ following) = .ok f) (ends : EndsBlank p following)
    (closed : ¬ ['*', '/'] <:+: data) :
    ∃ g, read (p ++ (commentText data ++ following)) = .ok g ∧
      (AllLeaveEnds (byteLength p) following g.children →
        seenAll g.children = seenAll f.children) := by
  obtain ⟨config, c, children, hconfig, hnodes, hf⟩ := exists_of_read h
  obtain ⟨_, _, ps, x, hconfig', rest, fits, ends, blank⟩ := ends
  cases hconfig.symm.trans hconfig'
  have headed := headed_of_configBlock hconfig
  obtain ⟨front, whole, position⟩ := headed.exists_front
  obtain rfl : p = front ++ Lexeme.textAll ps := by
    rw [rest, ← List.append_assoc] at whole
    exact List.append_cancel_right whole
  have place : c.offset + byteLength (Lexeme.textAll ps) =
      byteLength (front ++ Lexeme.textAll ps) := by
    rw [Cursor.offset, position, Position.offset_advance, byteLength_append]
    exact congrArg (· + _) (Nat.zero_add _)
  have facing : Facing (commentText data) following (byteLength (front ++ Lexeme.textAll ps)) ps c
      ⟨c.position, Lexeme.textAll ps ++ (commentText data ++ following)⟩ :=
    ⟨rest, rfl, fits, ⟨x, ends, blank⟩, place⟩
  obtain ⟨children', stop', read', agree, stops⟩ :=
    agree_nodes (isComment_commentText closed following) Nesting.none c _ hnodes True _
      (.inr ⟨trivial, ps, facing⟩)
  -- the text without the comment has no stop, so the other one has none
  cases stops
  have last : (Lexeme.textAll ps).getLast? = some x := by
    obtain ⟨qs, rfl⟩ := List.getLast?_eq_some_iff.mp ends
    rw [Lexeme.textAll_append, Lexeme.textAll_cons, Lexeme.textAll_nil, List.append_nil,
      Lexeme.text, List.getLast?_concat]
  rw [List.append_assoc] at headed ⊢
  obtain ⟨g, read, hg⟩ :=
    read_of_nodes (headed.comment rest last blank) (nodes_of_listed_ended read')
  refine ⟨g, read, fun leaves => ?_⟩
  rw [hg] at leaves ⊢
  rw [hf, seenAll_append, seenAll_append, agree.seen (allLeaveEnds_append.mp leaves).2]

end Template

namespace Fragment

variable {p q data : String} {f : Fragment}

/-- The first part of the text of a template ends with a blank that belongs to a text node. -/
def EndsInText (f : Fragment) (p : List Char) : Prop :=
  (∃ s ∈ Node.textSpans f.children, s.start < byteLength p ∧ byteLength p ≤ s.stop) ∧
    p.getLast?.any isBlank = true

instance (f : Fragment) (p : List Char) : Decidable (f.EndsInText p) :=
  inferInstanceAs (Decidable (_ ∧ _))

theorem EndsInText.endsBlank (h : ofText (p ++ q) = .ok f) (ends : f.EndsInText p.toList) :
    Template.EndsBlank p.toList q.toList := by
  have read := read_of_ofText h
  rw [String.toList_append] at read
  obtain ⟨⟨s, node, start, stop⟩, last⟩ := ends
  obtain ⟨x, last, blank⟩ := (Option.any_eq_true _ _).mp last
  exact Template.endsBlank_of_textSpan read node start stop last blank

/-- A text with a comment after a blank of literal text is read, and if the comment leaves the
ends of all branches as they are, the same is seen of it. -/
theorem exists_ofText_comment (h : ofText (p ++ q) = .ok f)
    (ends : Template.EndsBlank p.toList q.toList) (closed : ¬ ['*', '/'] <:+: data.toList) :
    ∃ g, ofText (p ++ "/*" ++ data ++ "*/" ++ q) = .ok g ∧
      (Template.AllLeaveEnds (byteLength p.toList) q.toList g.children →
        Node.seenAll g.children = Node.seenAll f.children) := by
  have before := read_of_ofText h
  rw [String.toList_append] at before
  obtain ⟨g, read, same⟩ := Template.read_comment before ends closed
  refine ⟨g, ?_, same⟩
  have text : (p ++ "/*" ++ data ++ "*/" ++ q).toList =
      p.toList ++ (Template.commentText data.toList ++ q.toList) := by
    simp [Template.commentText]
  rw [ofText, text, read]

end Fragment

end PromptTemplate
