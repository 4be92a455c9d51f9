import PromptTemplate.Proofs.Template.Nesting
import PromptTemplate.Proofs.Template.Tags

/-!
# The spans of templates

The nodes of a template follow each other without anything between them, from its beginning to
its end. A node has its attributes, its expressions and the nodes inside it in its own span, in
the order in which they are written. Only blanks before a config block belong to no node.
-/

namespace PromptTemplate

open Template Text

namespace Node

mutual

/-- The span of a node with those of its attributes, its expressions and the nodes inside it. -/
def spans : Node → SpanTree
  | .text _ s | .config _ s | .comment _ _ s | .response _ s => .node s []
  | .mustache e s => .node s [e.spans]
  | .reference as s => .node s (as.map Attribute.spans)
  | .message _ as children s | .content _ as children s | .step as children s =>
    .node s (as.map Attribute.spans ++ spansAll children)
  | .ifBlock e nodes alternate s | .eachBlock e _ _ nodes alternate s =>
    .node s (e.spans :: (spansAll nodes ++ spansOption alternate))
  | .scoped children s => .node s (spansAll children)

def spansAll : List Node → List SpanTree
  | [] => []
  | a :: rest => a.spans :: spansAll rest

def spansOption : Option (List Node) → List SpanTree
  | none => []
  | some nodes => spansAll nodes

end

theorem span_spans (a : Node) : a.spans.span = a.span := by
  cases a <;> rfl

theorem spansAll_eq_map (ns : List Node) : spansAll ns = ns.map spans := by
  induction ns with
  | nil => rfl
  | cons a ns ih => rw [spansAll, List.map_cons, ih]

theorem spansAll_append (ns ms : List Node) : spansAll (ns ++ ms) = spansAll ns ++ spansAll ms := by
  simp only [spansAll_eq_map, List.map_append]

end Node

/-- The span of a template with those of all that is in it. -/
def Fragment.spans (f : Fragment) : SpanTree := .node f.span (Node.spansAll f.children)

namespace Template

variable {source : List Char}

/-! ## Nodes -/

section

variable {c d e f : Cursor} {a : Node} {nodes more : List Node} {ts : List SpanTree}

/-- In a list of nodes. -/
abbrev HoldsNodes (source : List Char) (c d : Cursor) (nodes : List Node) : Prop :=
  Holds source c d (Node.spansAll nodes) (Node.allExpressions nodes)

/-- In the nodes of another branch, if there is one. -/
abbrev HoldsBranch (source : List Char) (c d : Cursor) (alternate : Option (List Node)) : Prop :=
  Holds source c d (Node.spansOption alternate)
    ((Node.walkOption alternate).flatMap Node.expressions)

/-- From one cursor to another there are nodes without anything between them. -/
structure Filled (source : List Char) (c d : Cursor) (nodes : List Node) : Prop where
  holds : HoldsNodes source c d nodes
  contiguous : Span.Contiguous c.offset d.offset (nodes.map Node.span)

theorem Filled.nil (hc : c.On source) : Filled source c c [] := ⟨.nil (.refl hc), rfl⟩

theorem Filled.append (h : Filled source c d nodes) (k : Filled source d e more) :
    Filled source c e (nodes ++ more) where
  holds := by
    rw [HoldsNodes, Node.spansAll_append, Node.allExpressions_append]
    exact h.holds.append k.holds
  contiguous := by
    rw [List.map_append]
    exact h.contiguous.append k.contiguous

/-- One node. -/
theorem Filled.single (hc : c.On source) (hspans : a.spans = .node (c.span d) ts)
    (inside : Holds source c d ts (a.walk.flatMap Node.expressions)) : Filled source c d [a] := by
  have hspan : a.span = c.span d := by rw [← a.span_spans, hspans, SpanTree.span]
  refine ⟨?_, ?_, ?_⟩
  · rw [HoldsNodes, Node.allExpressions_singleton, Node.spansAll, Node.spansAll, hspans]
    exact inside.node hc
  · rw [hspan]
    rfl
  · rw [hspan]
    rfl

/-- A block whose first tag has been read, with the nodes inside it. -/
theorem holds_block {x : Expr} {alternate : Option (List Node)}
    (opening : Holds source c d [x.spans] [x]) (inside : HoldsNodes source d e nodes)
    (other : HoldsBranch source e f alternate) :
    Holds source c f (x.spans :: (Node.spansAll nodes ++ Node.spansOption alternate))
      (x :: (Node.walkAll nodes ++ Node.walkOption alternate).flatMap Node.expressions) := by
  rw [List.flatMap_append]
  exact opening.append (inside.append other)

theorem spansAll_trimFirst (nodes : List Node) :
    Node.spansAll (trimFirst nodes) = Node.spansAll nodes := by
  unfold trimFirst
  split <;> rfl

theorem spansAll_trimLast (nodes : List Node) :
    Node.spansAll (trimLast nodes) = Node.spansAll nodes := by
  fun_induction trimLast nodes with
  | case1 => rfl
  | case2 data s => rfl
  | case3 a rest _ ih => rw [Node.spansAll, ih, Node.spansAll]

/-- The texts at the ends of a block keep their spans when they lose their blanks. -/
theorem HoldsNodes.trim (h : HoldsNodes source c d nodes) :
    HoldsNodes source c d (trimBlock nodes) := by
  have spans : (Node.spansAll (trimBlock nodes)).Sublist (Node.spansAll nodes) := by
    rw [← spansAll_trimFirst nodes, ← spansAll_trimLast (trimFirst nodes),
      Node.spansAll_eq_map, Node.spansAll_eq_map]
    exact List.filter_sublist.map _
  refine ⟨h.reaches, h.laid.within.sublist spans, ?_⟩
  rw [Node.allExpressions_trimBlock]
  exact h.laid.literals

/-- An element whose opening tag has been read, with the nodes inside it. -/
theorem filled_element {kind : ElementKind} {as : List Attribute} {children : List Node}
    (hc : c.On source) (opening : HoldsAttributes source c d as)
    (inside : HoldsNodes source d e children) :
    Filled source c e [kind.node as children (c.span e)] := by
  have all := Holds.append opening inside
  cases kind with
  | message role => exact .single hc rfl all
  | content kind => exact .single hc rfl all
  | step => exact .single hc rfl all
  | reference =>
    refine .single hc rfl ?_
    change Holds source c e _ (Attribute.expressions as ++ [])
    rw [List.append_nil]
    exact Holds.before opening inside.reaches

end

/-! ## What is read -/

/-- A stop that is read from one cursor to another. -/
def Stop.Read (source : List Char) (c d : Cursor) : Stop → Prop
  | .otherwise condition s =>
    s = c.span d ∧ Holds source c d (condition.toList.map Expr.spans) condition.toList
  | .blockEnd .. | .tagEnd .. => c.Reaches source d

theorem Stop.Read.reaches {c d : Cursor} {stop : Stop} (h : stop.Read source c d) :
    c.Reaches source d := by
  cases stop with
  | otherwise condition s => exact h.2.reaches
  | blockEnd name s => exact h
  | tagEnd name s => exact h

/-- Nodes that are read up to a stop or to the end of the text. -/
def NodesRead (source : List Char) (c : Cursor) (r : List Node × Option (Stop × c.Shorter)) :
    Prop :=
  ∃ d, Filled source c d r.1 ∧
    match r.2 with
    | none => d.rest = []
    | some (stop, e) => stop.Read source d e.1

/-- A node or a stop that is read. -/
def ItemRead (source : List Char) (c : Cursor) (r : (Node ⊕ Stop) × c.Shorter) : Prop :=
  match r.1 with
  | .inl a => Filled source c r.2.1 [a]
  | .inr stop => stop.Read source c r.2.1

theorem literal_isEmpty {cs : List Char} (h : (literal cs).1.isEmpty = true) :
    (literal cs).2 = 0 := by
  fun_cases literal cs with
  | case1 => rfl
  | case2 c cs escaped data n hrest =>
    rw [literal, if_pos escaped, hrest] at h
    cases cs with
    | nil => cases escaped.2
    | cons x cs => cases h
  | case3 => rfl
  | case4 c cs plain text data n hrest =>
    rw [literal, if_neg plain, if_neg text, hrest] at h
    cases h

variable {c : Cursor}

theorem filled_literal (hc : c.On source) :
    Filled source c (c.skip (literal c.rest).2) (if (literal c.rest).1.isEmpty then []
      else [.text (String.ofList (literal c.rest).1) (c.span (c.skip (literal c.rest).2))]) := by
  split
  · rename_i empty
    rw [literal_isEmpty empty]
    exact .nil hc
  · exact .single hc rfl (.nil (hc.skip _))

theorem filled_comment {opening closing : List Char} {h : c.rest ≠ []} {ho : 0 < opening.length}
    (hc : c.On source) :
    Yields (fun r => Filled source c r.2.1 [r.1]) (comment opening closing c h ho) := by
  rw [comment]
  split
  · exact .error _
  · exact .ok (.single hc rfl (.nil (hc.skip _)))

theorem reaches_of_closingTag {h : c.rest ≠ []} (hc : c.On source) :
    Yields (fun r => c.Reaches source r.2.1) (closingTag c h) := by
  rintro ⟨name, d, hd⟩ hread
  exact reaches_of_local hc (local_closingTag hread)

mutual

theorem read_nodes (n : Nesting) {c : Cursor} (hc : c.On source) :
    Yields (NodesRead source c) (nodes n c) := by
  rw [nodes]
  have shorter := Cursor.length_skip_le c (literal c.rest).2
  have first := filled_literal hc
  have hd := first.holds.reaches.on
  dsimp only
  split
  · rename_i none
    exact .ok ⟨_, first, none⟩
  · refine .bind (read_item n _ hd) ?_
    rintro ⟨a | stop, e, he⟩ ha
    · refine .bind (read_nodes n ha.holds.reaches.on) ?_
      rintro ⟨more, stop⟩ ⟨f, hmore, hstop⟩
      refine .ok ⟨f, first.append (ha.append hmore), ?_⟩
      cases stop <;> exact hstop
    · exact .ok ⟨_, first, ha⟩
termination_by c.rest.length * 4 + 2

theorem read_item (n : Nesting) {c : Cursor} (h : c.rest ≠ []) (hc : c.On source) :
    Yields (ItemRead source c) (item n c h) := by
  rw [item]
  split
  · exact .bind (filled_comment hc) fun _ ha => .ok ha
  · split
    · exact .bind (filled_comment hc) fun _ ha => .ok ha
    · split
      · refine .bind (fun r => holds_of_braceTag hc) ?_
        rintro ⟨x | x | header | x | name, d, hd⟩ tag
        · exact .ok (.single hc rfl tag)
        · exact .bind (read_ifRest n hc tag) fun _ ha => .ok ha
        · exact .bind (read_eachRest n hc tag) fun _ ha => .ok ha
        · exact .ok ⟨rfl, tag⟩
        · exact .ok tag.reaches
      · split
        · exact .bind (reaches_of_closingTag hc) fun _ hd => .ok hd
        · exact .bind (read_element n h hc) fun _ ha => .ok ha
termination_by c.rest.length * 4 + 1

/-- A block starts where its first tag does, which is read from the one cursor to the other. -/
theorem read_ifRest (n : Nesting) {start c : Cursor} {condition : Expr} (hstart : start.On source)
    (opening : Holds source start c [condition.spans] [condition]) :
    Yields (fun r => Filled source start r.2.1 [r.1]) (ifRest n start.position condition c) := by
  rw [ifRest]
  refine .bind (read_nodes n opening.reaches.on) ?_
  rintro ⟨consequent, stop⟩ ⟨d, inside, hstop⟩
  have first := inside.holds.trim
  dsimp only at hstop ⊢
  split
  · exact .ok (.single hstart rfl (holds_block opening first (.nil hstop.reaches)))
  · refine .bind (read_nodes n hstop.reaches.on) ?_
    rintro ⟨alternate, stop⟩ ⟨f, other, hend⟩
    dsimp only at hend ⊢
    split
    · have second := Holds.after hstop.reaches (other.holds.trim.before hend.reaches)
      exact .ok (.single hstart rfl (holds_block opening first second))
    · exact .error _
  · obtain ⟨rfl, tag⟩ := hstop
    have hd := inside.holds.reaches.on
    have nested : Yields (fun r : Node × Cursor.Shorter _ => Filled source d r.2.1 [r.1]) _ :=
      read_ifRest n hd tag
    refine .bind nested fun _ hnested => ?_
    exact .ok (.single hstart rfl (holds_block opening first hnested.holds))
  · exact .error _
termination_by c.rest.length * 4 + 3

theorem read_eachRest (n : Nesting) {start c : Cursor} {header : EachHeader}
    (hstart : start.On source)
    (opening : Holds source start c [header.expression.spans] [header.expression]) :
    Yields (fun r => Filled source start r.2.1 [r.1]) (eachRest n start.position header c) := by
  rw [eachRest]
  refine .bind (read_nodes { n with inEach := true } opening.reaches.on) ?_
  rintro ⟨body, stop⟩ ⟨d, inside, hstop⟩
  have first := inside.holds.trim
  dsimp only at hstop ⊢
  split
  · exact .ok (.single hstart rfl (holds_block opening first (.nil hstop.reaches)))
  · refine .bind (read_nodes { n with inEach := true } hstop.reaches.on) ?_
    rintro ⟨alternate, stop⟩ ⟨f, other, hend⟩
    dsimp only at hend ⊢
    split
    · have second := Holds.after hstop.reaches (other.holds.trim.before hend.reaches)
      exact .ok (.single hstart rfl (holds_block opening first second))
    · exact .error _
  · exact .error _
  · exact .error _
termination_by c.rest.length * 4 + 3

theorem read_element (n : Nesting) {c : Cursor} (h : c.rest ≠ []) (hc : c.On source) :
    Yields (fun r => Filled source c r.2.1 [r.1]) (element n c h) := by
  rw [element]
  refine .bind (fun r => holds_of_openingTag hc) ?_
  rintro ⟨o, d, hd⟩ opening
  dsimp only
  split
  · exact .error _
  · split
    · exact .error _
    · split
      · exact .ok (filled_element hc opening (.nil (.refl opening.reaches.on)))
      · refine .bind (read_nodes _ opening.reaches.on) ?_
        rintro ⟨children, stop⟩ ⟨e, inside, hstop⟩
        dsimp only at hstop ⊢
        split
        · split
          · exact .ok (filled_element hc opening (inside.holds.before hstop.reaches))
          · exact .error _
        · exact .error _
        · exact .error _
termination_by c.rest.length * 4

end

/-- A config block that is read, perhaps after blanks, or nothing. -/
def ConfigRead (source : List Char) (c : Cursor) (r : Option Node × Cursor) : Prop :=
  match r.1 with
  | none => r.2 = c
  | some a => (∃ v s, a = .config v s) ∧ Filled source c.skipBlank r.2 [a]

theorem read_configBlock (hc : c.On source) : Yields (ConfigRead source c) (configBlock c) := by
  rw [configBlock]
  have spaced := hc.skipBlank
  dsimp only
  split
  · exact .ok rfl
  · split
    · exact .error _
    · split
      · exact .error _
      · exact .ok ⟨⟨_, _, rfl⟩, .single spaced.on rfl (.nil ((spaced.on.skip _).skip _))⟩

end Template

namespace Fragment

/-- Where the first node of a template begins. Only blanks before a config block belong to no
node. -/
def front (source : List Char) (f : Fragment) : Cursor :=
  match f.children with
  | .config .. :: _ => (Cursor.start source).skipBlank
  | _ => Cursor.start source

theorem front_of_allPlaced {n : Nesting} {f : Fragment} (h : Node.AllPlaced n f.children)
    (source : List Char) : f.front source = Cursor.start source := by
  rw [front]
  split
  · rename_i config
    rw [config] at h
    exact h.1.elim
  · rfl

/-- What has been read of a text to its end. -/
structure Whole (source : List Char) (f : Fragment) : Prop where
  span : f.span = (Cursor.start source).span ((Cursor.start source).skip source.length)
  filled : ∃ d, Filled source (f.front source) d f.children ∧ d.rest = []

theorem read_template (source : List Char) : Yields (Whole source) (Template.read source) := by
  have hc := Cursor.on_start source
  have read {c : Cursor} (hc : c.On source) :
      Yields (fun r => Node.AllPlaced Nesting.none r.1 ∧ NodesRead source c r)
        (nodes Nesting.none c) :=
    fun r hr => ⟨yields_nodes Nesting.none c r hr, read_nodes Nesting.none hc r hr⟩
  rw [Template.read]
  refine .bind (read_configBlock hc) ?_
  rintro ⟨_ | a, c⟩ front
  · cases front
    refine .bind (read hc) ?_
    rintro ⟨children, _ | stop⟩ ⟨placed, d, filled, stops⟩
    · refine .ok ⟨rfl, d, ?_, stops⟩
      rw [front_of_allPlaced placed]
      exact filled
    · exact .error _
  · obtain ⟨⟨v, s, rfl⟩, block⟩ := front
    refine .bind (read block.holds.reaches.on) ?_
    rintro ⟨children, _ | stop⟩ ⟨-, d, filled, stops⟩
    · exact .ok ⟨rfl, d, block.append filled, stops⟩
    · exact .error _

variable {source : String} {f : Fragment}

theorem whole_of_ofText (h : ofText source = .ok f) : f.Whole source.toList :=
  read_template _ f (read_of_ofText h)

/-- No number literal that has been read is not a number. -/
theorem nameable_of_ofText (h : ofText source = .ok f) {e : Expr}
    (he : e ∈ Node.allExpressions f.children) : Expr.AllNameable e.subexpressions := by
  obtain ⟨-, d, filled, -⟩ := whole_of_ofText h
  exact filled.holds.laid.literals e he

end Fragment

end PromptTemplate
