import PromptTemplate.Proofs.Template.Recomposition

/-!
# How nodes are read

A list of nodes is literal text and then its end, a stop, or a node with more of the list after
it. There is one rule for every way in which a node can be read, without the lengths that the
reader keeps.
-/

namespace PromptTemplate

open Text

namespace Template

variable {n : Nesting} {c d e : Cursor} {ns ms : List Node} {stop : Stop}

/-! ## Lists of nodes -/

/-- The nodes at a cursor, with their stop and the cursor after it. -/
def listed (n : Nesting) (c : Cursor) : Except Error (List Node × Option (Stop × Cursor)) :=
  (nodes n c).map fun (ns, stop) => (ns, stop.map fun (s, d) => (s, d.1))

/-- The literal text at a cursor as a node, if there is any. -/
def textAt (c : Cursor) : List Node :=
  if (literal c.rest).1.isEmpty then []
  else [.text (String.ofList (literal c.rest).1) (c.span (c.skip (literal c.rest).2))]

/-- The cursor after the literal text. -/
abbrev afterText (c : Cursor) : Cursor := c.skip (literal c.rest).2

theorem listed_ended (h : (afterText c).rest = []) : listed n c = .ok (textAt c, none) := by
  rw [listed, nodes]
  dsimp only
  rw [dif_pos h]
  rfl

theorem listed_stopped {h : (afterText c).rest ≠ []} {d : (afterText c).Shorter}
    (found : item n (afterText c) h = .ok (.inr stop, d)) :
    listed n c = .ok (textAt c, some (stop, d.1)) := by
  rw [listed, nodes]
  dsimp only
  rw [dif_neg h, found]
  rfl

theorem listed_node {h : (afterText c).rest ≠ []} {a : Node} {d : (afterText c).Shorter}
    {more : List Node} {stop : Option (Stop × Cursor)}
    (found : item n (afterText c) h = .ok (.inl a, d)) (later : listed n d.1 = .ok (more, stop)) :
    listed n c = .ok (textAt c ++ a :: more, stop) := by
  rw [listed] at later
  rw [listed, nodes]
  dsimp only
  rw [dif_neg h, found]
  dsimp only [bind, Except.bind]
  cases hmore : nodes n d.1 with
  | error err =>
    rw [hmore] at later
    cases later
  | ok r =>
    rw [hmore] at later
    obtain ⟨ms, stop'⟩ := r
    cases later
    cases stop' <;> rfl

theorem nodes_of_listed (h : listed n c = .ok (ns, some (stop, d))) :
    ∃ hd, nodes n c = .ok (ns, some (stop, ⟨d, hd⟩)) := by
  rw [listed] at h
  cases hnodes : nodes n c with
  | error err =>
    rw [hnodes] at h
    cases h
  | ok r =>
    rw [hnodes] at h
    obtain ⟨ms, _ | ⟨stop', d', hd⟩⟩ := r
    · cases h
    · cases h
      exact ⟨hd, rfl⟩

theorem nodes_of_listed_ended (h : listed n c = .ok (ns, none)) : nodes n c = .ok (ns, none) := by
  rw [listed] at h
  cases hnodes : nodes n c with
  | error err =>
    rw [hnodes] at h
    cases h
  | ok r =>
    rw [hnodes] at h
    obtain ⟨ms, _ | ⟨stop', d', hd⟩⟩ := r
    · cases h
      rfl
    · cases h

/-! ## Comments and tags -/

variable {h : c.rest ≠ []}

theorem item_comment {a : Node} (front : ['/', '*'].isPrefixOf c.rest = true)
    {hd : d.rest.length < c.rest.length}
    (read : comment ['/', '*'] ['*', '/'] c h (by decide) = .ok (a, ⟨d, hd⟩)) :
    item n c h = .ok (.inl a, ⟨d, hd⟩) := by
  rw [item, if_pos front, read]
  rfl

theorem item_htmlComment {a : Node} (front : ['<', '!', '-', '-'].isPrefixOf c.rest = true)
    {hd : d.rest.length < c.rest.length}
    (read : comment ['<', '!', '-', '-'] ['-', '-', '>'] c h (by decide) = .ok (a, ⟨d, hd⟩)) :
    item n c h = .ok (.inl a, ⟨d, hd⟩) := by
  have other : ¬ ['/', '*'].isPrefixOf c.rest = true := by
    obtain ⟨more, hmore⟩ := List.isPrefixOf_iff_prefix.mp front
    simp [← hmore, List.isPrefixOf]
  rw [item, if_neg other, if_pos front, read]
  rfl

section

variable (braces : ['\x7b', '\x7b'].isPrefixOf c.rest = true) {hd : d.rest.length < c.rest.length}
include braces

theorem item_output {x : Expr} (read : braceTag c h = .ok (.output x, ⟨d, hd⟩)) :
    item n c h = .ok (.inl (.mustache x (c.span d)), ⟨d, hd⟩) := by
  obtain ⟨h₁, h₂⟩ := notComment_of_braces braces
  rw [item, if_neg h₁, if_neg h₂, if_pos braces, read]
  rfl

theorem item_otherwise {x : Option Expr} (read : braceTag c h = .ok (.otherwise x, ⟨d, hd⟩)) :
    item n c h = .ok (.inr (.otherwise x (c.span d)), ⟨d, hd⟩) := by
  obtain ⟨h₁, h₂⟩ := notComment_of_braces braces
  rw [item, if_neg h₁, if_neg h₂, if_pos braces, read]
  rfl

theorem item_blockEnd {name : String} (read : braceTag c h = .ok (.closing name, ⟨d, hd⟩)) :
    item n c h = .ok (.inr (.blockEnd name (c.span d)), ⟨d, hd⟩) := by
  obtain ⟨h₁, h₂⟩ := notComment_of_braces braces
  rw [item, if_neg h₁, if_neg h₂, if_pos braces, read]
  rfl

theorem item_ifBlock {x : Expr} {a : Node} {he : e.rest.length < d.rest.length}
    (read : braceTag c h = .ok (.ifOpening x, ⟨d, hd⟩))
    (rest : ifRest n c.position x d = .ok (a, ⟨e, he⟩)) :
    item n c h = .ok (.inl a, ⟨e, Nat.lt_trans he hd⟩) := by
  obtain ⟨h₁, h₂⟩ := notComment_of_braces braces
  rw [item, if_neg h₁, if_neg h₂, if_pos braces, read]
  dsimp only [bind, Except.bind]
  rw [rest]
  rfl

theorem item_eachBlock {header : EachHeader} {a : Node} {he : e.rest.length < d.rest.length}
    (read : braceTag c h = .ok (.eachOpening header, ⟨d, hd⟩))
    (rest : eachRest n c.position header d = .ok (a, ⟨e, he⟩)) :
    item n c h = .ok (.inl a, ⟨e, Nat.lt_trans he hd⟩) := by
  obtain ⟨h₁, h₂⟩ := notComment_of_braces braces
  rw [item, if_neg h₁, if_neg h₂, if_pos braces, read]
  dsimp only [bind, Except.bind]
  rw [rest]
  rfl

end

theorem item_tagEnd {name : String} (slash : ['<', '/'].isPrefixOf c.rest = true)
    {hd : d.rest.length < c.rest.length} (read : closingTag c h = .ok (name, ⟨d, hd⟩)) :
    item n c h = .ok (.inr (.tagEnd name (c.span d)), ⟨d, hd⟩) := by
  obtain ⟨h₁, h₂, h₃⟩ := notBraces_of_slash slash
  rw [item, if_neg h₁, if_neg h₂, if_neg h₃, if_pos slash, read]
  rfl

theorem item_element {a : Node} (angle : c.rest.head? = some '<')
    (letter : (c.rest.drop 1).head?.any Char.isAlpha = true) {hd : d.rest.length < c.rest.length}
    (read : element n c h = .ok (a, ⟨d, hd⟩)) : item n c h = .ok (.inl a, ⟨d, hd⟩) := by
  obtain ⟨h₁, h₂, h₃, h₄⟩ := notSlash_of_letter angle letter
  rw [item, if_neg h₁, if_neg h₂, if_neg h₃, if_neg h₄, read]
  rfl

/-! ## Blocks -/

variable {start : Position} {x : Expr} {header : EachHeader} {s : Span}

theorem ifRest_plain (body : listed n c = .ok (ns, some (.blockEnd "if" s, d))) :
    ∃ hd, ifRest n start x c =
      .ok (.ifBlock x (trimBlock ns) none (Span.between start d.position), ⟨d, hd⟩) := by
  obtain ⟨hd, hnodes⟩ := nodes_of_listed body
  exact ⟨hd, by rw [ifRest, hnodes]; rfl⟩

theorem ifRest_else {s' : Span} (body : listed n c = .ok (ns, some (.otherwise none s, d)))
    (other : listed n d = .ok (ms, some (.blockEnd "if" s', e))) :
    ∃ he, ifRest n start x c = .ok (.ifBlock x (trimBlock ns) (some (trimBlock ms))
      (Span.between start e.position), ⟨e, he⟩) := by
  obtain ⟨hd, hnodes⟩ := nodes_of_listed body
  obtain ⟨he, hnodes'⟩ := nodes_of_listed other
  refine ⟨Nat.lt_trans he hd, ?_⟩
  rw [ifRest, hnodes]
  dsimp only [bind, Except.bind]
  rw [hnodes']
  rfl

theorem ifRest_elseIf {x' : Expr} {a : Node} {he : e.rest.length < d.rest.length}
    (body : listed n c = .ok (ns, some (.otherwise (some x') s, d)))
    (other : ifRest n ⟨s.start, s.line, s.column⟩ x' d = .ok (a, ⟨e, he⟩)) :
    ∃ he', ifRest n start x c = .ok (.ifBlock x (trimBlock ns) (some [a])
      (Span.between start e.position), ⟨e, he'⟩) := by
  obtain ⟨hd, hnodes⟩ := nodes_of_listed body
  refine ⟨Nat.lt_trans he hd, ?_⟩
  rw [ifRest, hnodes]
  dsimp only [bind, Except.bind]
  rw [other]
  rfl

theorem eachRest_plain
    (body : listed { n with inEach := true } c = .ok (ns, some (.blockEnd "each" s, d))) :
    ∃ hd, eachRest n start header c = .ok (.eachBlock header.expression header.context
      header.index (trimBlock ns) none (Span.between start d.position), ⟨d, hd⟩) := by
  obtain ⟨hd, hnodes⟩ := nodes_of_listed body
  exact ⟨hd, by rw [eachRest, hnodes]; rfl⟩

theorem eachRest_else {s' : Span}
    (body : listed { n with inEach := true } c = .ok (ns, some (.otherwise none s, d)))
    (other : listed { n with inEach := true } d = .ok (ms, some (.blockEnd "each" s', e))) :
    ∃ he, eachRest n start header c = .ok (.eachBlock header.expression header.context
      header.index (trimBlock ns) (some (trimBlock ms)) (Span.between start e.position),
        ⟨e, he⟩) := by
  obtain ⟨hd, hnodes⟩ := nodes_of_listed body
  obtain ⟨he, hnodes'⟩ := nodes_of_listed other
  refine ⟨Nat.lt_trans he hd, ?_⟩
  rw [eachRest, hnodes]
  dsimp only [bind, Except.bind]
  rw [hnodes']
  rfl

end Template

end PromptTemplate
