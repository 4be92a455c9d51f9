import PromptTemplate.Proofs.Offsets.Lists
import PromptTemplate.Proofs.Offsets.Tags

/-!
# Templates by offsets

Nodes are read from one offset to another. Every reader that goes on after it has read a tag
or a node checks that it is further on in the text, and the whole text is read without an
accident, to the result that reading by cursors comes to.
-/

namespace PromptTemplate

namespace ByOffset

open Text Template

/-! ## The reader -/

mutual

/-- The nodes from an offset on, up to a stop or to the end of the text. -/
def nodesAt (source : List Char) (n : Nesting) (offset : Nat) :
    Guarded (List Node × Option (Stop × Nat)) := do
  let (data, ⟨stop, _⟩) ← charsAt source (literalStep source) offset
  let front := if data.isEmpty then []
    else [Node.text (String.ofList data) (spanAt source offset stop)]
  let rest ← textFrom source stop
  if rest = [] then return (front, none)
  else do
    match ← itemAt source n stop with
    | (.inr found, next) => return (front, some (found, next))
    | (.inl a, next) =>
      let ⟨_⟩ ← onward (byteLength source) stop next
      let (more, found) ← nodesAt source n next
      return (front ++ a :: more, found)
termination_by (byteLength source - offset) * 4 + 2
decreasing_by all_goals omega

/-- The node or the stop that begins with a mark at an offset. -/
def itemAt (source : List Char) (n : Nesting) (start : Nat) : Guarded ((Node ⊕ Stop) × Nat) := do
  let rest ← textFrom source start
  if ['/', '*'].isPrefixOf rest then do
    let (a, stop) ← commentAt source ['/', '*'] ['*', '/'] start
    return (.inl a, stop)
  else if ['<', '!', '-', '-'].isPrefixOf rest then do
    let (a, stop) ← commentAt source ['<', '!', '-', '-'] ['-', '-', '>'] start
    return (.inl a, stop)
  else if ['\x7b', '\x7b'].isPrefixOf rest then do
    match ← braceTagAt source start with
    | (.output e, stop) => return (.inl (.mustache e (spanAt source start stop)), stop)
    | (.ifOpening e, stop) =>
      let ⟨_⟩ ← onward (byteLength source) start stop
      let (a, last) ← ifRestAt source n start e stop
      return (.inl a, last)
    | (.eachOpening header, stop) =>
      let ⟨_⟩ ← onward (byteLength source) start stop
      let (a, last) ← eachRestAt source n start header stop
      return (.inl a, last)
    | (.otherwise e, stop) =>
      return (.inr (.otherwise e (spanAt source start stop)), stop)
    | (.closing name, stop) =>
      return (.inr (.blockEnd name (spanAt source start stop)), stop)
  else if ['<', '/'].isPrefixOf rest then do
    let (name, stop) ← closingTagAt source start
    return (.inr (.tagEnd name (spanAt source start stop)), stop)
  else do
    let (a, stop) ← elementAt source n start
    return (.inl a, stop)
termination_by (byteLength source - start) * 4 + 1
decreasing_by all_goals omega

/-- The rest of an if block after its condition. -/
def ifRestAt (source : List Char) (n : Nesting) (start : Nat) (condition : Expr) (offset : Nat) :
    Guarded (Node × Nat) := do
  let (consequent, found) ← nodesAt source n offset
  match found with
  | some (.blockEnd "if" _, stop) =>
    return (.ifBlock condition (trimBlock consequent) none (spanAt source start stop), stop)
  | some (.otherwise none _, next) =>
    let ⟨_⟩ ← onward (byteLength source) offset next
    let (alternate, found) ← nodesAt source n next
    match found with
    | some (.blockEnd "if" _, stop) =>
      return (.ifBlock condition (trimBlock consequent) (some (trimBlock alternate))
        (spanAt source start stop), stop)
    | other => throw (Stop.unexpected (blockClosing "if") (other.map (·.1)))
  | some (.otherwise (some condition') s, next) =>
    let ⟨_⟩ ← onward (byteLength source) offset next
    let (nested, stop) ← ifRestAt source n s.start condition' next
    return (.ifBlock condition (trimBlock consequent) (some [nested]) (spanAt source start stop),
      stop)
  | other => throw (Stop.unexpected (blockClosing "if") (other.map (·.1)))
termination_by (byteLength source - offset) * 4 + 3
decreasing_by all_goals omega

/-- The rest of an each block after its header. -/
def eachRestAt (source : List Char) (n : Nesting) (start : Nat) (header : EachHeader)
    (offset : Nat) : Guarded (Node × Nat) := do
  let inside := { n with inEach := true }
  let (body, found) ← nodesAt source inside offset
  let block (alternate : Option (List Node)) (stop : Nat) : Node :=
    .eachBlock header.expression header.context header.index (trimBlock body) alternate
      (spanAt source start stop)
  match found with
  | some (.blockEnd "each" _, stop) => return (block none stop, stop)
  | some (.otherwise none _, next) =>
    let ⟨_⟩ ← onward (byteLength source) offset next
    let (alternate, found) ← nodesAt source inside next
    match found with
    | some (.blockEnd "each" _, stop) => return (block (some (trimBlock alternate)) stop, stop)
    | other => throw (Stop.unexpected (blockClosing "each") (other.map (·.1)))
  | some (.otherwise (some _) s, _) => throw (Cause.misplacedElseIf.on s)
  | other => throw (Stop.unexpected (blockClosing "each") (other.map (·.1)))
termination_by (byteLength source - offset) * 4 + 3
decreasing_by all_goals omega

/-- An element with what is inside it. -/
def elementAt (source : List Char) (n : Nesting) (start : Nat) : Guarded (Node × Nat) := do
  let (opening, opened) ← openingTagAt source start
  match ElementKind.ofName? opening.name with
  | none => throw ((Cause.unknownTag opening.name).on (spanAt source start opened))
  | some kind =>
    match kind.enter n with
    | .error cause => throw (cause.on (spanAt source start opened))
    | .ok inside =>
      if opening.closed then
        return (kind.node opening.attributes [] (spanAt source start opened), opened)
      else
        let ⟨_⟩ ← onward (byteLength source) start opened
        let (children, found) ← nodesAt source inside opened
        let closing := s!"</{opening.name}>"
        match found with
        | some (.tagEnd name s, stop) =>
          if name = opening.name then
            return (kind.node opening.attributes children (spanAt source start stop), stop)
          else throw ((Cause.mismatchedTagClose opening.name name).on s)
        | none => throw ((Cause.endOfInput closing).within start (byteLength source))
        | other => throw (Stop.unexpected closing (other.map (·.1)))
termination_by (byteLength source - start) * 4
decreasing_by all_goals omega

end

/-- A whole text; errors are not located. -/
def readAt (source : List Char) : Guarded Fragment := do
  let (config, start) ← configBlockAt source
  let (children, found) ← nodesAt source Nesting.none start
  match found with
  | some (stop, _) => throw (Stop.unexpected "end of input" (some stop))
  | none => return ⟨config.toList ++ children, spanAt source 0 (byteLength source)⟩

/-- The line and the column of an error, counted in the text before it; that an error may be
placed past the end of the text is taken care of. -/
def locateAt (source : List Char) (e : Error) : Guarded Error := do
  let front := ((cut? source (min e.span.start (byteLength source))).map (·.1)).getD source
  let (line, column) ← endOf front
  return { e with span := { e.span with line := line, column := column } }

/-- The template that a text is. -/
def fragment (source : List Char) : Guarded Fragment :=
  tryCatch (readAt source) fun e => do throw (← locateAt source e)

/-! ## Copies -/

variable {source : List Char} {c d : Cursor}

/-- A span that begins at a place of the text. -/
def Placed (source : List Char) (s : Span) : Prop :=
  Position.In source ⟨s.start, s.line, s.column⟩

/-- Another branch begins at a place of the text, where a block with its condition begins. -/
def StopPlaced (source : List Char) : Stop → Prop
  | .otherwise _ s => Placed source s
  | .blockEnd .. | .tagEnd .. => True

/-- Nodes that have been read, with the offset after their stop. -/
def NodesLand (source : List Char) (x : List Node × Option (Stop × c.Shorter))
    (y : List Node × Option (Stop × Nat)) : Prop :=
  y = (x.1, x.2.map fun s => (s.1, s.2.1.offset)) ∧
    ∀ s ∈ x.2, s.2.1.On source ∧ StopPlaced source s.1

/-- A node or a stop that has been read. -/
def ItemLands (source : List Char) (x : (Node ⊕ Stop) × c.Shorter) (y : (Node ⊕ Stop) × Nat) :
    Prop :=
  Lands source x y ∧ ∀ s, x.1 = .inr s → StopPlaced source s

theorem spanAt_between {p : Position} (h : p.In source) (d : Cursor) :
    spanAt source p.offset d.offset = Span.between p d.position := by
  rw [spanAt, h.ofOffset]
  rfl

/-- After a literal text there is nothing or a mark. -/
theorem beginsMarkup_of_literal (cs : List Char) (h : cs.drop (literal cs).2 ≠ []) :
    beginsMarkup (cs.drop (literal cs).2) = true := by
  obtain ⟨_, -, -, -, none | marks⟩ := exists_literal cs
  · exact absurd none h
  · exact marks

/-- What is left of the marks that a text may begin with. -/
theorem sees_of_beginsMarkup (h : beginsMarkup c.rest = true)
    (block : ¬ ['/', '*'].isPrefixOf c.rest = true)
    (markup : ¬ ['<', '!', '-', '-'].isPrefixOf c.rest = true)
    (braces : ¬ ['\x7b', '\x7b'].isPrefixOf c.rest = true) : c.sees '<' = true := by
  rw [beginsMarkup, Bool.or_eq_true, Bool.or_eq_true, Bool.or_eq_true] at h
  have tag := h.resolve_left (by simp [block, markup, braces])
  exact (Bool.and_eq_true_iff.mp tag).1

mutual

theorem copies_nodes (n : Nesting) {c : Cursor} (h : c.On source) :
    Copies (NodesLand source) (nodes n c) (nodesAt source n c.offset) := by
  have stop := (h.skip (literal c.rest).2).on
  rw [nodes, nodesAt, charsAt_literal h, pure_bind]
  dsimp only
  rw [textFrom_offset stop, pure_bind, spanAt_offset h]
  refine .dite (fun _ => .pure ⟨rfl, by simp⟩) fun hne => ?_
  have shorter := Cursor.length_skip_le c (literal c.rest).2
  refine .bind (copies_item n hne stop (beginsMarkup_of_literal c.rest hne)) ?_
  rintro ⟨a | found, e, he⟩ _ ⟨⟨rfl, on_e⟩, placed⟩
  · dsimp only
    rw [onward_eq (further stop on_e he), pure_bind]
    refine .bind (copies_nodes n on_e) ?_
    rintro ⟨more, _ | ⟨s, f, hf⟩⟩ _ ⟨rfl, stops⟩
    · exact .pure ⟨rfl, by simp⟩
    · exact .pure ⟨rfl, by simpa using stops⟩
  · exact .pure ⟨rfl, by simpa using ⟨on_e, placed found rfl⟩⟩
termination_by c.rest.length * 4 + 2

theorem copies_item (n : Nesting) {c : Cursor} (hne : c.rest ≠ []) (h : c.On source)
    (marks : beginsMarkup c.rest = true) :
    Copies (ItemLands source) (item n c hne) (itemAt source n c.offset) := by
  have node {a : Node} {d : Cursor} {hd : d.rest.length < c.rest.length} (on_stop : d.On source) :
      ItemLands source (.inl a, ⟨d, hd⟩) (.inl a, d.offset) := by
    refine ⟨⟨rfl, on_stop⟩, ?_⟩
    rintro _ ⟨⟩
  rw [item, itemAt, textFrom_offset h, pure_bind]
  refine .ite (fun block => ?_) fun block => .ite (fun markup => ?_) fun markup =>
    .ite (fun braces => ?_) fun braces => .ite (fun closing => ?_) fun _ => ?_
  · refine .bind (copies_comment (List.isPrefixOf_iff_prefix.mp block) h) ?_
    rintro ⟨a, d, hd⟩ _ ⟨rfl, on_stop⟩
    exact .pure (node on_stop)
  · refine .bind (copies_comment (List.isPrefixOf_iff_prefix.mp markup) h) ?_
    rintro ⟨a, d, hd⟩ _ ⟨rfl, on_stop⟩
    exact .pure (node on_stop)
  · refine .bind (copies_braceTag h braces) ?_
    rintro ⟨e | e | header | e | name, d, hd⟩ _ ⟨rfl, on_stop⟩
    · dsimp only
      rw [spanAt_offset h]
      exact .pure (node on_stop)
    · dsimp only
      rw [onward_eq (further h on_stop hd), pure_bind]
      refine .bind (copies_ifRest n h.position on_stop) ?_
      rintro ⟨a, f, hf⟩ _ ⟨rfl, on_last⟩
      exact .pure (node on_last)
    · dsimp only
      rw [onward_eq (further h on_stop hd), pure_bind]
      refine .bind (copies_eachRest n h.position on_stop) ?_
      rintro ⟨a, f, hf⟩ _ ⟨rfl, on_last⟩
      exact .pure (node on_last)
    · dsimp only
      rw [spanAt_offset h]
      refine .pure ⟨⟨rfl, on_stop⟩, ?_⟩
      rintro _ ⟨⟩
      exact h.position
    · dsimp only
      rw [spanAt_offset h]
      refine .pure ⟨⟨rfl, on_stop⟩, ?_⟩
      rintro _ ⟨⟩
      exact trivial
  · refine .bind (copies_closingTag h closing) ?_
    rintro ⟨name, d, hd⟩ _ ⟨rfl, on_stop⟩
    dsimp only
    rw [spanAt_offset h]
    refine .pure ⟨⟨rfl, on_stop⟩, ?_⟩
    rintro _ ⟨⟩
    exact trivial
  · refine .bind (copies_element n hne h (sees_of_beginsMarkup marks block markup braces)) ?_
    rintro ⟨a, d, hd⟩ _ ⟨rfl, on_stop⟩
    exact .pure (node on_stop)
termination_by c.rest.length * 4 + 1

theorem copies_ifRest (n : Nesting) {start : Position} {condition : Expr} {c : Cursor}
    (hs : start.In source) (h : c.On source) :
    Copies (Lands source) (ifRest n start condition c)
      (ifRestAt source n start.offset condition c.offset) := by
  rw [ifRest, ifRestAt]
  refine .bind (copies_nodes n h) ?_
  rintro ⟨consequent, _ | ⟨stop, d, hd⟩⟩ _ ⟨rfl, found⟩
  · exact .throw _
  obtain ⟨on_stop, placed⟩ := found _ rfl
  dsimp only [Option.map_some] at on_stop ⊢
  -- Each reader looks at its own pair of the stop and the place after it, so the cases of the
  -- one do not decide those of the other by themselves.
  split
  · rename_i heq
    cases heq
    refine .pure ⟨?_, on_stop⟩
    rw [spanAt_between hs]
  · rename_i heq
    cases heq
    dsimp only
    rw [onward_eq (further h on_stop hd), pure_bind]
    refine .bind (copies_nodes n on_stop) ?_
    rintro ⟨alternate, _ | ⟨stop, e, he⟩⟩ _ ⟨rfl, found⟩
    · exact .throw _
    obtain ⟨on_stop, -⟩ := found _ rfl
    dsimp only [Option.map_some] at on_stop ⊢
    split
    · rename_i heq
      cases heq
      refine .pure ⟨?_, on_stop⟩
      rw [spanAt_between hs]
    · rename_i closes
      split
      · rename_i heq
        cases heq
        exact absurd rfl (closes _ _ _)
      · exact .throw _
  · rename_i heq
    cases heq
    dsimp only
    rw [onward_eq (further h on_stop hd), pure_bind]
    refine .bind (copies_ifRest n placed on_stop) ?_
    rintro ⟨nested, e, he⟩ _ ⟨rfl, on_last⟩
    refine .pure ⟨?_, on_last⟩
    rw [spanAt_between hs]
  · rename_i closes otherwise elseIf
    split
    · rename_i heq
      cases heq
      exact absurd rfl (closes _ _ _)
    · rename_i heq
      cases heq
      exact absurd rfl (otherwise _ _ _)
    · rename_i heq
      cases heq
      exact absurd rfl (elseIf _ _ _ _)
    · exact .throw _
termination_by c.rest.length * 4 + 3

theorem copies_eachRest (n : Nesting) {start : Position} {header : EachHeader} {c : Cursor}
    (hs : start.In source) (h : c.On source) :
    Copies (Lands source) (eachRest n start header c)
      (eachRestAt source n start.offset header c.offset) := by
  rw [eachRest, eachRestAt]
  refine .bind (copies_nodes { n with inEach := true } h) ?_
  rintro ⟨body, _ | ⟨stop, d, hd⟩⟩ _ ⟨rfl, found⟩
  · exact .throw _
  obtain ⟨on_stop, -⟩ := found _ rfl
  dsimp only [Option.map_some] at on_stop ⊢
  split
  · rename_i heq
    cases heq
    refine .pure ⟨?_, on_stop⟩
    rw [spanAt_between hs]
  · rename_i heq
    cases heq
    dsimp only
    rw [onward_eq (further h on_stop hd), pure_bind]
    refine .bind (copies_nodes { n with inEach := true } on_stop) ?_
    rintro ⟨alternate, _ | ⟨stop, e, he⟩⟩ _ ⟨rfl, found⟩
    · exact .throw _
    obtain ⟨on_stop, -⟩ := found _ rfl
    dsimp only [Option.map_some] at on_stop ⊢
    split
    · rename_i heq
      cases heq
      refine .pure ⟨?_, on_stop⟩
      rw [spanAt_between hs]
    · rename_i closes
      split
      · rename_i heq
        cases heq
        exact absurd rfl (closes _ _ _)
      · exact .throw _
  · rename_i heq
    cases heq
    exact .throw _
  · rename_i closes otherwise elseIf
    split
    · rename_i heq
      cases heq
      exact absurd rfl (closes _ _ _)
    · rename_i heq
      cases heq
      exact absurd rfl (otherwise _ _ _)
    · rename_i heq
      cases heq
      exact absurd rfl (elseIf _ _ _)
    · exact .throw _
termination_by c.rest.length * 4 + 3

theorem copies_element (n : Nesting) {c : Cursor} (hne : c.rest ≠ []) (h : c.On source)
    (marks : c.sees '<' = true) :
    Copies (Lands source) (element n c hne) (elementAt source n c.offset) := by
  rw [element, elementAt]
  refine .bind (copies_openingTag h marks) ?_
  rintro ⟨opening, d, hd⟩ _ ⟨rfl, on_opened⟩
  dsimp only
  rw [spanAt_offset h]
  cases ElementKind.ofName? opening.name with
  | none => exact .throw _
  | some kind =>
    dsimp only
    cases kind.enter n with
    | error cause => exact .throw _
    | ok inside =>
      dsimp only
      refine .ite (fun _ => .pure ⟨rfl, on_opened⟩) fun _ => ?_
      rw [onward_eq (further h on_opened hd), pure_bind]
      refine .bind (copies_nodes inside on_opened) ?_
      rintro ⟨children, _ | ⟨stop, e, he⟩⟩ _ ⟨rfl, found⟩
      · rw [finish_eq h]
        exact .throw _
      · obtain ⟨on_stop, -⟩ := found _ rfl
        cases stop with
        | tagEnd name s =>
          dsimp only [Option.map_some]
          rw [spanAt_offset h]
          exact .ite (fun _ => .pure ⟨rfl, on_stop⟩) fun _ => .throw _
        | otherwise condition s => exact .throw _
        | blockEnd name s => exact .throw _
termination_by c.rest.length * 4

end

theorem copies_read (source : List Char) :
    Copies Eq (Template.read source) (readAt source) := by
  rw [Template.read, readAt]
  refine .bind (copies_configBlock source) ?_
  rintro ⟨config, c⟩ _ ⟨rfl, start⟩
  refine .bind (copies_nodes Nesting.none start) ?_
  rintro ⟨children, _ | ⟨stop, d, hd⟩⟩ _ ⟨rfl, found⟩
  · have finish : ((Cursor.start source).skip source.length).offset = byteLength source :=
      ((Cursor.on_start source).skip _).on.offset_of_nil List.drop_length
    rw [← spanAt_offset (Cursor.on_start source), finish]
    exact .pure rfl
  · exact .throw _

theorem locateAt_eq (source : List Char) (e : Error) :
    locateAt source e = pure (e.locate source) := by
  have place : Position.ofOffset source e.span.start = Position.first.advance
      (((cut? source (min e.span.start (byteLength source))).map (·.1)).getD source) := by
    rw [Position.ofOffset]
    by_cases inside : e.span.start ≤ byteLength source
    · rw [Nat.min_eq_left inside]
      cases cut? source e.span.start <;> rfl
    · have none : cut? source e.span.start = none := by
        by_contra cut
        obtain ⟨⟨front, back⟩, hcut⟩ := Option.ne_none_iff_exists'.mp cut
        obtain ⟨rfl, hfront⟩ := append_of_cut? hcut
        rw [byteLength_append] at inside
        omega
      have whole := cut?_append source []
      rw [List.append_nil] at whole
      rw [none, Nat.min_eq_right (Nat.le_of_not_le inside), whole]
      rfl
  rw [locateAt, Error.locate, place, endOf_eq]
  rfl

/-- The whole reader comes to what reading by cursors comes to. -/
theorem fragment_eq (source : String) :
    (fragment source.toList).run = .ok (Fragment.ofText source) := by
  have read := copies_read source.toList
  rw [fragment, Fragment.ofText]
  cases hread : Template.read source.toList with
  | ok f =>
    rw [hread] at read
    obtain ⟨_, hf, rfl⟩ := read
    rw [hf]
    rfl
  | error e =>
    rw [hread] at read
    have hf : readAt source.toList = throw e := read
    rw [hf]
    change (locateAt source.toList e >>= fun e => throw e) = _
    rw [locateAt_eq]
    rfl

end ByOffset

/-- Every text is read without an accident: all slices, those of the tokens too, have their ends
between characters of the text, and every round of a loop goes on. So the reader comes to the
template that the text is or to an error. No round of a list of expressions leaves its tokens
as they are, either, whatever tokens it is read from. -/
theorem Fragment.ofText_by_offset (source : String) :
    (ByOffset.fragment source.toList).run = .ok (Fragment.ofText source) ∧
      (∀ stop closing ts, ByOffset.items stop closing ts =
        ByOffset.result (ByOffset.leavingList <$> Expr.Parser.items stop closing ts)) ∧
      ∀ stop ts, ByOffset.properties stop ts =
        ByOffset.result (ByOffset.leavingList <$> Expr.Parser.properties stop ts) :=
  ⟨ByOffset.fragment_eq source,
    fun stop closing => ByOffset.listOf_eq (ByOffset.readsList_items stop closing),
    fun stop => ByOffset.listOf_eq (ByOffset.readsList_properties stop)⟩

end PromptTemplate
