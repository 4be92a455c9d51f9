import PromptTemplate.Proofs.Parameters.Careful
import PromptTemplate.Proofs.Template.Outline

/-!
# Parameters of outlines

An analysis does not look at the places of expressions nor at texts, so a template may be
analysed in its outline. A relation between analyses that expressions, definitions and blocks
keep holds after a template and after its outline, if it also holds after each reference tag and
what is put in its place.
-/

namespace PromptTemplate

namespace Analysis

/-! ## Expressions without their places -/

mutual

theorem expr_bare (a : Analysis) (e : Expr) : a.expr e.bare = a.expr e := by
  match e with
  | .literal .. | .identifier .. => rfl
  | .array items _ => exact exprs_bareAll a items
  | .object ps _ => exact properties_bareProperties a ps
  | .member base k _ _ =>
    simp only [Expr.bare, expr, expr_bare a base]
    exact key_bareKey _ k
  | .call callee arguments _ _ =>
    simp only [Expr.bare, expr, expr_bare a callee]
    exact exprs_bareAll _ arguments
  | .unary _ argument _ => exact expr_bare a argument
  | .binary _ left right _ =>
    simp only [Expr.bare, expr, expr_bare a left]
    exact expr_bare _ right
  | .logical _ left right _ =>
    simp only [Expr.bare, expr, expr_bare a left]
    exact expr_bare _ right
  | .conditional test consequent alternate _ =>
    simp only [Expr.bare, expr, expr_bare a test]
    rw [expr_bare _ consequent, expr_bare _ alternate]
  | .assign op target value _ =>
    have first := expr_bare a target
    cases target with
    | identifier name s =>
      simp only [Expr.bare, expr]
      rw [expr_bare _ value]
    | _ => exact (congrArg (expr · value.bare) first).trans (expr_bare _ value)
  | .update _ _ argument _ => exact expr_bare a argument

theorem exprs_bareAll (a : Analysis) (es : List Expr) : a.exprs (Expr.bareAll es) = a.exprs es := by
  match es with
  | [] => rfl
  | e :: rest =>
    simp only [Expr.bareAll, exprs, expr_bare a e]
    exact exprs_bareAll _ rest

theorem key_bareKey (a : Analysis) (k : Key) : a.key (Expr.bareKey k) = a.key k := by
  match k with
  | .named _ => rfl
  | .computed e => exact expr_bare a e

theorem properties_bareProperties (a : Analysis) (ps : List Property) :
    a.properties (Expr.bareProperties ps) = a.properties ps := by
  match ps with
  | [] => rfl
  | .mk k value :: rest =>
    simp only [Expr.bareProperties, properties, key_bareKey a k]
    rw [expr_bare _ value]
    exact properties_bareProperties _ rest

end

theorem staticText?_bare (value : AttributeValue) : value.bare.staticText? = value.staticText? := by
  cases value with
  | flag => rfl
  | pieces ps =>
    have same : (ps.map Piece.bare).mapM AttributeValue.pieceText? =
        ps.mapM AttributeValue.pieceText? := by
      rw [List.mapM_map]
      congr 1
      funext p
      cases p <;> rfl
    rw [AttributeValue.bare, AttributeValue.staticText?, AttributeValue.staticText?, same]

theorem responseName?_bare (as : List Attribute) :
    responseName? (as.map Attribute.bare) = responseName? as := by
  rw [responseName?, responseName?, List.filter_map, List.getLast?_map]
  have same : (fun x : Attribute => x.name == "as") ∘ Attribute.bare = fun x => x.name == "as" := rfl
  rw [same]
  cases (as.filter fun x => x.name == "as").getLast? with
  | none => rfl
  | some x => exact staticText?_bare x.value

/-! ## Relations between analyses -/

/-- A relation between analyses that expressions, definitions and blocks keep. -/
structure Stable (R : Analysis → Analysis → Prop) : Prop where
  expr : ∀ {e a} (x : Expr), R e a → R (e.expr x) (a.expr x)
  define : ∀ {e a} (name : String), R e a → R (e.define name) (a.define name)
  inside : ∀ {e a e' a'}, R e a → R e' a' →
    R { e' with defined := e.defined } { a' with defined := a.defined }

namespace Stable

variable {R : Analysis → Analysis → Prop} {e a : Analysis}

theorem pieces (h : Stable R) (ps : List Piece) (hR : R e a) :
    R (e.pieces ps) (a.pieces (ps.map Piece.bare)) := by
  induction ps generalizing e a with
  | nil => exact hR
  | cons p ps ih =>
    cases p with
    | text data s => exact ih hR
    | mustache x s =>
      apply ih
      rw [expr_bare]
      exact h.expr x hR

theorem attributes (h : Stable R) (as : List Attribute) (hR : R e a) :
    R (e.attributes as) (a.attributes (as.map Attribute.bare)) := by
  induction as generalizing e a with
  | nil => exact hR
  | cons x as ih =>
    obtain ⟨name, value, s⟩ := x
    cases value with
    | flag => exact ih hR
    | pieces ps => exact ih (h.pieces ps hR)

theorem defineOption (h : Stable R) (name : Option String) (hR : R e a) :
    R (e.defineOption name) (a.defineOption name) := by
  cases name with
  | none => exact hR
  | some name => exact h.define name hR

end Stable

theorem nodes_append (included : Included) (a : Analysis) (ns ms : List Node) :
    nodes included a (ns ++ ms) = nodes included (nodes included a ns) ms := by
  induction ns generalizing a with
  | nil => rfl
  | cons x ns ih => exact ih _

section

variable {R : Analysis → Analysis → Prop} {included : Included}
  {inside : List Attribute → List Node}

/-- What holds after a reference tag and what is put in its place. -/
def Replaces (R : Analysis → Analysis → Prop) (included : Included)
    (inside : List Attribute → List Node) (tag : List Attribute × Span) : Prop :=
  ∀ e a, R e a → R (e.reference included tag.1 tag.2) (nodes [] a (inside tag.1))

mutual

theorem stable_node (h : Stable R) (x : Node)
    (hrefs : ∀ tag ∈ x.walk.filterMap Node.reference?, Replaces R included inside tag)
    {e a : Analysis} (hR : R e a) :
    R (node included e x) (nodes [] a (x.outline inside)) := by
  match x with
  | .text .. | .config .. | .comment .. => exact hR
  | .mustache x _ =>
    rw [Node.outline, nodes, node, node, expr_bare]
    exact h.expr x hR
  | .message _ as children _ | .content _ as children _ =>
    rw [Node.walk, List.filterMap_cons_none rfl] at hrefs
    exact stable_nodes h children hrefs (h.attributes as hR)
  | .step as children _ =>
    rw [Node.walk, List.filterMap_cons_none rfl] at hrefs
    rw [Node.outline, nodes, node, node, responseName?_bare]
    exact h.defineOption _ (stable_nodes h children hrefs (h.attributes as hR))
  | .reference as s => exact hrefs (as, s) List.mem_cons_self e a hR
  | .ifBlock x consequent alternate _ =>
    rw [Node.walk, List.filterMap_cons_none rfl, List.filterMap_append, List.forall_mem_append] at hrefs
    rw [Node.outline, nodes, node, node, expr_bare]
    have condition := h.expr x hR
    exact stable_option h alternate hrefs.2
      (h.inside condition (stable_nodes h consequent hrefs.1 condition))
  | .eachBlock x context index body alternate _ =>
    rw [Node.walk, List.filterMap_cons_none rfl, List.filterMap_append, List.forall_mem_append] at hrefs
    rw [Node.outline, nodes, node, node, expr_bare]
    have items := h.expr x hR
    exact stable_option h alternate hrefs.2 (h.inside items
      (stable_nodes h body hrefs.1 (h.defineOption index (h.define context items))))
  | .scoped children _ =>
    rw [Node.walk, List.filterMap_cons_none rfl] at hrefs
    exact stable_nodes h children hrefs hR
  | .response name _ => exact h.defineOption name hR

theorem stable_nodes (h : Stable R) (ns : List Node)
    (hrefs : ∀ tag ∈ Node.references ns, Replaces R included inside tag)
    {e a : Analysis} (hR : R e a) :
    R (nodes included e ns) (nodes [] a (Node.outlineAll inside ns)) := by
  match ns with
  | [] => exact hR
  | x :: rest =>
    rw [Node.references, Node.walkAll, List.filterMap_append, List.forall_mem_append] at hrefs
    rw [Node.outlineAll, nodes_append, nodes]
    exact stable_nodes h rest hrefs.2 (stable_node h x hrefs.1 hR)

theorem stable_option (h : Stable R) (alternate : Option (List Node))
    (hrefs : ∀ tag ∈ (Node.walkOption alternate).filterMap Node.reference?,
      Replaces R included inside tag)
    {e a : Analysis} (hR : R e a) :
    R (nodesOption included e alternate)
      (nodesOption [] a (Node.outlineOption inside alternate)) := by
  match alternate with
  | none => exact hR
  | some branch => exact h.inside hR (stable_nodes h branch hrefs hR)

end

end

/-- A template without reference tags has the parameters of its outline. -/
theorem stable_eq : Stable Eq where
  expr x h := by rw [h]
  define name h := by rw [h]
  inside h h' := by rw [h, h']

theorem nodes_outlineAll {ns : List Node} (none : Node.references ns = [])
    (included : Included) (a : Analysis) (inside : List Attribute → List Node) :
    nodes included a ns = nodes [] a (Node.outlineAll inside ns) := by
  refine stable_nodes stable_eq ns ?_ rfl
  rw [none]
  exact fun tag htag => by cases htag

end Analysis

end PromptTemplate
