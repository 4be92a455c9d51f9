import PromptTemplate.Proofs.Template.Outline

/-!
# What a compilation sees of nodes

A compilation sees neither the places that nodes were read from nor comments, and it makes no
difference to it how literal text is cut into nodes.
-/

namespace PromptTemplate

namespace Node

/-- One character of literal text. -/
def character (x : Char) : Node := .text (String.ofList [x]) Span.none

mutual

/-- What is seen of a node: a node for every character of a text, and nothing of a comment. -/
def seen : Node → List Node
  | .text data _ => data.toList.map character
  | .comment .. => []
  | .config value _ => [.config value Span.none]
  | .mustache e _ => [.mustache e.bare Span.none]
  | .message role as children _ =>
    [.message role (as.map Attribute.bare) (seenAll children) Span.none]
  | .content kind as children _ =>
    [.content kind (as.map Attribute.bare) (seenAll children) Span.none]
  | .reference as _ => [.reference (as.map Attribute.bare) Span.none]
  | .step as children _ => [.step (as.map Attribute.bare) (seenAll children) Span.none]
  | .ifBlock e consequent alternate _ =>
    [.ifBlock e.bare (seenAll consequent) (seenOption alternate) Span.none]
  | .eachBlock e context index body alternate _ =>
    [.eachBlock e.bare context index (seenAll body) (seenOption alternate) Span.none]
  | .scoped children _ => [.scoped (seenAll children) Span.none]
  | .response name _ => [.response name Span.none]

def seenAll : List Node → List Node
  | [] => []
  | a :: rest => seen a ++ seenAll rest

def seenOption : Option (List Node) → Option (List Node)
  | none => none
  | some nodes => some (seenAll nodes)

end

theorem seenAll_eq_flatMap (ns : List Node) : seenAll ns = ns.flatMap seen := by
  induction ns with
  | nil => rfl
  | cons a ns ih => rw [seenAll, ih, List.flatMap_cons]

theorem seenAll_append (ns ms : List Node) : seenAll (ns ++ ms) = seenAll ns ++ seenAll ms := by
  simp only [seenAll_eq_flatMap, List.flatMap_append]

/-! ## Reference tags -/

/-- A reference tag without its place. -/
def bareReference (r : List Attribute × Span) : List Attribute × Span :=
  (r.1.map Attribute.bare, Span.none)

theorem references_characters (cs : List Char) : references (cs.map character) = [] := by
  rw [references_eq_flatMap, List.flatMap_map, List.flatMap_eq_nil_iff]
  exact fun _ _ => rfl

mutual

/-- All reference tags are seen. -/
theorem references_seen (a : Node) :
    references (seen a) = (references [a]).map bareReference := by
  match a with
  | .text data _ => exact references_characters data.toList
  | .comment .. | .config .. | .mustache .. | .response .. | .reference .. => rfl
  | .message _ _ children _ | .content _ _ children _ | .step _ children _ | .scoped children _ =>
    have := references_seenAll children
    simpa [seen, references, walkAll, walk, List.filterMap_cons, reference?] using this
  | .ifBlock e consequent alternate s =>
    have := references_seenAll consequent
    have := references_seenOption alternate
    simp_all [seen, references, walkAll, walk, List.filterMap_cons, reference?]
  | .eachBlock e context index body alternate s =>
    have := references_seenAll body
    have := references_seenOption alternate
    simp_all [seen, references, walkAll, walk, List.filterMap_cons, reference?]

theorem references_seenAll (ns : List Node) :
    references (seenAll ns) = (references ns).map bareReference := by
  match ns with
  | [] => rfl
  | a :: rest =>
    rw [seenAll, references_append, references_seen a, references_seenAll rest, ← List.map_append,
      ← references_append, List.singleton_append]

theorem references_seenOption (alternate : Option (List Node)) :
    (walkOption (seenOption alternate)).filterMap reference? =
      ((walkOption alternate).filterMap reference?).map bareReference := by
  match alternate with
  | none => rfl
  | some ns => exact references_seenAll ns

end

end Node

end PromptTemplate
