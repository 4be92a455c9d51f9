import PromptTemplate.Proofs.Expr.Json
import PromptTemplate.Proofs.Template.Expressions
import PromptTemplate.Template.Json

/-!
# Reading templates back

A template whose number literals are finite is read back from its JSON form, what a compilation
leaves of one included.
-/

namespace PromptTemplate

open Json

/-- All number literals in expressions have a JSON form. -/
def Expr.AllStorable (es : List Expr) : Prop := ∀ e ∈ es, ∀ x ∈ e.subexpressions, x.Storable

theorem Piece.ofJson?_toJson {p : Piece} (h : Expr.AllStorable p.expression?.toList) :
    Piece.ofJson? p.toJson = some p := by
  cases p with
  | text data s => rfl
  | mustache e s =>
    have read := Expr.ofJson?_toJson (h e List.mem_cons_self)
    simp [toJson, Piece.ofJson?, variant, variant?, member?, Dictionary.get?,
      Span.ofJson?_toJson, read]

theorem AttributeValue.ofJson?_toJson {value : AttributeValue}
    (h : Expr.AllStorable value.expressions) : AttributeValue.ofJson? value.toJson = some value := by
  cases value with
  | flag => rfl
  | pieces ps =>
    have read : (array (ps.map Piece.toJson)).list? Piece.ofJson? = some ps := by
      refine list?_map fun p hp => Piece.ofJson?_toJson fun e he => h e ?_
      exact List.mem_filterMap.mpr ⟨p, hp, Option.mem_toList.mp he⟩
    simp [toJson, AttributeValue.ofJson?, variant, variant?, read]

theorem Attribute.ofJson?_toJson {x : Attribute} (h : Expr.AllStorable x.value.expressions) :
    Attribute.ofJson? x.toJson = some x := by
  have read := AttributeValue.ofJson?_toJson h
  simp [toJson, Attribute.ofJson?, member?, Dictionary.get?, text?, Span.ofJson?_toJson, read]

theorem Attribute.list?_allToJson {as : List Attribute}
    (h : Expr.AllStorable (Attribute.expressions as)) :
    (allToJson as).list? Attribute.ofJson? = some as :=
  list?_map fun x hx => ofJson?_toJson fun e he => h e (List.mem_flatMap.mpr ⟨x, hx, he⟩)

theorem Role.optional?_name (role : Option Role) :
    optional? (fun j => j.text?.bind Role.ofName?) (some (.optional (.string ·.name) role)) =
      some role := by
  refine optional?_optional fun x => ⟨by simp, ?_⟩
  cases x <;> rfl

theorem ContentKind.ofName?_name (kind : ContentKind) : ofName? kind.name = some kind := by
  cases kind <;> rfl

theorem optional?_string (name : Option String) :
    optional? text? (some (.optional .string name)) = some name :=
  optional?_optional fun _ => ⟨by simp, rfl⟩

namespace Node

theorem within?_variant (bound : Nat) (name : String) (data : Json) :
    within? (bound + 1) (.variant name data) = kind? (within? bound) name data := rfl

theorem allStorable_block {e : Expr} {ns : List Node} {alternate : Option (List Node)}
    (h : Expr.AllStorable (e :: (walkAll ns ++ walkOption alternate).flatMap expressions)) :
    (∀ x ∈ e.subexpressions, x.Storable) ∧ Expr.AllStorable (allExpressions ns) ∧
      Expr.AllStorable ((walkOption alternate).flatMap expressions) := by
  rw [List.flatMap_append] at h
  obtain ⟨he, inside⟩ := List.forall_mem_cons.mp h
  exact ⟨he, List.forall_mem_append.mp inside⟩

mutual

/-- The induction is on the node: the nodes inside it are nested less deep than it is. -/
theorem within?_toJson {bound : Nat} (a : Node) (h : a.toJson.depth < bound)
    (storable : Expr.AllStorable (a.walk.flatMap expressions)) :
    within? bound a.toJson = some a := by
  obtain ⟨bound, rfl⟩ : ∃ n, bound = n + 1 := ⟨bound - 1, by omega⟩
  match a with
  | .text data s => rfl
  | .config value s => rfl
  | .response name s =>
    rw [toJson, within?_variant]
    simp [kind?, member?, Dictionary.get?, Span.ofJson?_toJson, optional?_string]
  | .mustache e s =>
    have read := Expr.ofJson?_toJson (storable e List.mem_cons_self)
    rw [toJson, within?_variant]
    simp [kind?, member?, Dictionary.get?, Span.ofJson?_toJson, read]
  | .comment data ignores s =>
    have read : (array (ignores.map .string)).list? text? = some ignores :=
      list?_map fun _ _ => rfl
    rw [toJson, within?_variant]
    simp [kind?, member?, Dictionary.get?, text?, Span.ofJson?_toJson, read]
  | .reference as s =>
    have attributes := Attribute.list?_allToJson fun e he => storable e (List.mem_append_left _ he)
    rw [toJson, within?_variant]
    simp [kind?, member?, Dictionary.get?, Span.ofJson?_toJson, attributes]
  | .message role as children s =>
    rw [toJson] at h ⊢
    obtain ⟨-, -, hchildren, -⟩ := allBelow_of_depth (depth_data_lt h)
    obtain ⟨sas, schildren⟩ := List.forall_mem_append.mp storable
    have attributes := Attribute.list?_allToJson sas
    have children := list?_toJsonAll children hchildren schildren
    rw [within?_variant]
    simp [kind?, member?, Dictionary.get?, Span.ofJson?_toJson, Role.optional?_name, attributes,
      children]
  | .content kind as children s =>
    rw [toJson] at h ⊢
    obtain ⟨-, -, hchildren, -⟩ := allBelow_of_depth (depth_data_lt h)
    obtain ⟨sas, schildren⟩ := List.forall_mem_append.mp storable
    have attributes := Attribute.list?_allToJson sas
    have children := list?_toJsonAll children hchildren schildren
    rw [within?_variant]
    simp [kind?, member?, Dictionary.get?, text?, Span.ofJson?_toJson, ContentKind.ofName?_name,
      attributes, children]
  | .step as children s =>
    rw [toJson] at h ⊢
    obtain ⟨-, hchildren, -⟩ := allBelow_of_depth (depth_data_lt h)
    obtain ⟨sas, schildren⟩ := List.forall_mem_append.mp storable
    have attributes := Attribute.list?_allToJson sas
    have children := list?_toJsonAll children hchildren schildren
    rw [within?_variant]
    simp [kind?, member?, Dictionary.get?, Span.ofJson?_toJson, attributes, children]
  | .scoped children s =>
    rw [toJson] at h ⊢
    obtain ⟨hchildren, -⟩ := allBelow_of_depth (depth_data_lt h)
    have children := list?_toJsonAll children hchildren storable
    rw [within?_variant]
    simp [kind?, member?, Dictionary.get?, Span.ofJson?_toJson, children]
  | .ifBlock e consequent alternate s =>
    rw [toJson] at h ⊢
    obtain ⟨-, hconsequent, halternate, -⟩ := allBelow_of_depth (depth_data_lt h)
    obtain ⟨se, sconsequent, salternate⟩ := allStorable_block storable
    have condition := Expr.ofJson?_toJson se
    have consequent := list?_toJsonAll consequent hconsequent sconsequent
    have alternate := optional?_toJsonOption alternate halternate salternate
    rw [within?_variant]
    simp [kind?, member?, Dictionary.get?, Span.ofJson?_toJson, condition, consequent, alternate]
  | .eachBlock e context index body alternate s =>
    rw [toJson] at h ⊢
    obtain ⟨-, -, -, hbody, halternate, -⟩ := allBelow_of_depth (depth_data_lt h)
    obtain ⟨se, sbody, salternate⟩ := allStorable_block storable
    have expression := Expr.ofJson?_toJson se
    have body := list?_toJsonAll body hbody sbody
    have alternate := optional?_toJsonOption alternate halternate salternate
    rw [within?_variant]
    simp [kind?, member?, Dictionary.get?, text?, Span.ofJson?_toJson, optional?_string,
      expression, body, alternate]

theorem mapM_toJsonAll {bound : Nat} (ns : List Node) (h : depthItems (toJsonAll ns) < bound)
    (storable : Expr.AllStorable (allExpressions ns)) :
    (toJsonAll ns).mapM (within? bound) = some ns := by
  match ns with
  | [] => rfl
  | a :: ns =>
    obtain ⟨first, later⟩ := Nat.max_lt.mp h
    rw [allExpressions, walkAll, List.flatMap_append] at storable
    obtain ⟨sa, sns⟩ := List.forall_mem_append.mp storable
    rw [toJsonAll, List.mapM_cons, within?_toJson a first sa, mapM_toJsonAll ns later sns]
    rfl

theorem list?_toJsonAll {bound : Nat} (ns : List Node)
    (h : (array (toJsonAll ns)).depth < bound) (storable : Expr.AllStorable (allExpressions ns)) :
    (array (toJsonAll ns)).list? (within? bound) = some ns :=
  mapM_toJsonAll ns (depthItems_lt h) storable

theorem optional?_toJsonOption {bound : Nat} : ∀ alternate : Option (List Node),
    (toJsonOption alternate).depth < bound →
    Expr.AllStorable ((walkOption alternate).flatMap expressions) →
      optional? (list? (within? bound)) (some (toJsonOption alternate)) = some alternate
  | none, _, _ => rfl
  | some ns, h, storable => by
    rw [toJsonOption] at h ⊢
    exact optional?_some (by simp) (list?_toJsonAll ns h storable)

end

theorem ofJson?_toJson {a : Node} (storable : Expr.AllStorable (a.walk.flatMap expressions)) :
    ofJson? a.toJson = some a :=
  within?_toJson a (Nat.lt_succ_self _) storable

theorem toJsonAll_eq_map (ns : List Node) : toJsonAll ns = ns.map toJson := by
  induction ns with
  | nil => rfl
  | cons a ns ih => rw [toJsonAll, List.map_cons, ih]

end Node

/-- A template whose number literals have a JSON form is read back. -/
theorem Fragment.ofJson?_toJson {f : Fragment}
    (storable : Expr.AllStorable (Node.allExpressions f.children)) :
    Fragment.ofJson? f.toJson = some f := by
  have children : (array (Node.toJsonAll f.children)).list? Node.ofJson? = some f.children := by
    rw [Node.toJsonAll_eq_map]
    rw [Node.allExpressions_eq_flatMap] at storable
    refine list?_map fun a ha => Node.ofJson?_toJson fun e he => storable e ?_
    exact List.mem_flatMap.mpr ⟨a, ha, he⟩
  simp [toJson, Fragment.ofJson?, member?, Dictionary.get?, Span.ofJson?_toJson, children]

end PromptTemplate
