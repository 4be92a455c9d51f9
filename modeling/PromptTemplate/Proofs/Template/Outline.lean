import PromptTemplate.Proofs.Expr.Printing
import PromptTemplate.Template.Node

/-!
# Outlines of templates

The outline of a template has its tags, blocks and expressions, but neither its texts and
comments nor the places that anything was read from. In the place of a reference tag other
nodes can be put.
-/

namespace PromptTemplate

/-- The same piece without the places that it was read from. -/
def Piece.bare : Piece → Piece
  | .text data _ => .text data Span.none
  | .mustache e _ => .mustache e.bare Span.none

def AttributeValue.bare : AttributeValue → AttributeValue
  | .flag => .flag
  | .pieces ps => .pieces (ps.map Piece.bare)

def Attribute.bare (x : Attribute) : Attribute := ⟨x.name, x.value.bare, Span.none⟩

namespace Node

mutual

/-- The outline of a node, with nodes in the place of each reference tag. -/
def outline (inside : List Attribute → List Node) : Node → List Node
  | .text .. | .config .. | .comment .. => []
  | .mustache e _ => [.mustache e.bare Span.none]
  | .message role as children _ =>
    [.message role (as.map Attribute.bare) (outlineAll inside children) Span.none]
  | .content kind as children _ =>
    [.content kind (as.map Attribute.bare) (outlineAll inside children) Span.none]
  | .reference as _ => inside as
  | .step as children _ =>
    [.step (as.map Attribute.bare) (outlineAll inside children) Span.none]
  | .ifBlock e consequent alternate _ =>
    [.ifBlock e.bare (outlineAll inside consequent) (outlineOption inside alternate) Span.none]
  | .eachBlock e context index body alternate _ =>
    [.eachBlock e.bare context index (outlineAll inside body) (outlineOption inside alternate)
      Span.none]
  | .scoped children _ => [.scoped (outlineAll inside children) Span.none]
  | .response name _ => [.response name Span.none]

def outlineAll (inside : List Attribute → List Node) : List Node → List Node
  | [] => []
  | a :: rest => outline inside a ++ outlineAll inside rest

def outlineOption (inside : List Attribute → List Node) :
    Option (List Node) → Option (List Node)
  | none => none
  | some nodes => some (outlineAll inside nodes)

end

variable (inside : List Attribute → List Node)

theorem outlineAll_eq_flatMap (ns : List Node) : outlineAll inside ns = ns.flatMap (outline inside) := by
  induction ns with
  | nil => rfl
  | cons a ns ih => rw [outlineAll, ih, List.flatMap_cons]

theorem outlineAll_append (ns ms : List Node) :
    outlineAll inside (ns ++ ms) = outlineAll inside ns ++ outlineAll inside ms := by
  simp only [outlineAll_eq_flatMap, List.flatMap_append]

theorem outlineAll_singleton (a : Node) : outlineAll inside [a] = outline inside a := by
  rw [outlineAll, outlineAll, List.append_nil]

/-! ## Reference tags -/

/-- A reference tag with its place. -/
def reference? : Node → Option (List Attribute × Span)
  | .reference as s => some (as, s)
  | _ => none

/-- The reference tags in nodes, in their order. -/
def references (ns : List Node) : List (List Attribute × Span) := (walkAll ns).filterMap reference?

theorem references_eq_flatMap (ns : List Node) :
    references ns = ns.flatMap fun a => a.walk.filterMap reference? := by
  induction ns with
  | nil => rfl
  | cons a ns ih => rw [references, walkAll, List.filterMap_append, List.flatMap_cons, ← ih, references]

theorem references_append (ns ms : List Node) :
    references (ns ++ ms) = references ns ++ references ms := by
  simp only [references_eq_flatMap, List.flatMap_append]

/-! ## What an outline tells of reference tags -/

theorem walkAll_append (ns ms : List Node) : walkAll (ns ++ ms) = walkAll ns ++ walkAll ms := by
  induction ns with
  | nil => rfl
  | cons a ns ih => rw [List.cons_append, walkAll, walkAll, ih, List.append_assoc]

/-- As many nodes as there are reference tags are put in their places. -/
def placeholder (_ : List Attribute) : List Node := [.response none Span.none]

mutual

theorem length_walk_outline (a : Node) :
    (walkAll (outline placeholder a)).length =
      (walkAll (outline (fun _ => []) a)).length + (a.walk.filterMap reference?).length := by
  match a with
  | .text .. | .config .. | .mustache .. | .comment .. | .response .. | .reference .. => rfl
  | .message _ _ children _ | .content _ _ children _ | .step _ children _ | .scoped children _ =>
    have := length_walk_outlineAll children
    simp [outline, walkAll, walk, List.filterMap_cons, reference?, references] at this ⊢
    omega
  | .ifBlock e consequent alternate s =>
    have := length_walk_outlineAll consequent
    have := length_walk_outlineOption alternate
    simp [outline, walkAll, walk, List.filterMap_cons, reference?, references] at *
    omega
  | .eachBlock e context index body alternate s =>
    have := length_walk_outlineAll body
    have := length_walk_outlineOption alternate
    simp [outline, walkAll, walk, List.filterMap_cons, reference?, references] at *
    omega

theorem length_walk_outlineAll (ns : List Node) :
    (walkAll (outlineAll placeholder ns)).length =
      (walkAll (outlineAll (fun _ => []) ns)).length + (references ns).length := by
  cases ns with
  | nil => rfl
  | cons a ns =>
    have := length_walk_outline a
    have := length_walk_outlineAll ns
    simp [outlineAll, references, walkAll, walkAll_append] at *
    omega

theorem length_walk_outlineOption (alternate : Option (List Node)) :
    (walkOption (outlineOption placeholder alternate)).length =
      (walkOption (outlineOption (fun _ => []) alternate)).length +
        ((walkOption alternate).filterMap reference?).length := by
  cases alternate with
  | none => rfl
  | some ns => exact length_walk_outlineAll ns

end

/-- Nodes have no reference tags if it does not matter for their outline what is put in the place
of those. -/
theorem references_eq_nil {ns ms : List Node} (h : ∀ inside, outlineAll inside ns = ms) :
    references ns = [] := by
  have lengths := length_walk_outlineAll ns
  rw [h, h] at lengths
  exact List.length_eq_zero_iff.mp (by omega)

end Node

end PromptTemplate
