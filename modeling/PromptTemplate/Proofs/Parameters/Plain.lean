import PromptTemplate.Proofs.Parameters.Careful
import PromptTemplate.Proofs.Template.Expressions

/-!
# Templates with plain assignments

An assignment that is all of an expression in braces cannot be skipped where the expression is
evaluated. If a template has no other assignments, the careful analysis defines what the analysis
of parameters defines, and reports nothing else.
-/

namespace PromptTemplate

/-- Whether there is no assignment in an expression. -/
def Expr.Still (e : Expr) : Prop := ∀ x ∈ e.subexpressions, x.isAssignment = false

/-- Whether there is no assignment inside an expression, which may be one itself. -/
def Expr.Plain (e : Expr) : Prop := ∀ x ∈ e.inside, x.isAssignment = false

/-- Whether there are no assignments in the values of attributes. -/
def Attribute.AllStill (as : List Attribute) : Prop :=
  ∀ x ∈ as, ∀ e ∈ x.value.expressions, e.Still

/-- Whether the expressions of a node itself have assignments only where these are all of an
expression in braces. -/
def Node.Plain : Node → Prop
  | .mustache e _ => e.Plain
  | .ifBlock e _ _ _ | .eachBlock e _ _ _ _ _ => e.Still
  | .message _ as _ _ | .content _ as _ _ | .step as _ _ | .reference as _ =>
    Attribute.AllStill as
  | .text .. | .config .. | .comment .. | .scoped .. | .response .. => True

instance (e : Expr) : Decidable e.Still :=
  inferInstanceAs (Decidable (∀ x ∈ e.subexpressions, x.isAssignment = false))

instance (e : Expr) : Decidable e.Plain :=
  inferInstanceAs (Decidable (∀ x ∈ e.inside, x.isAssignment = false))

instance (as : List Attribute) : Decidable (Attribute.AllStill as) :=
  inferInstanceAs (Decidable (∀ x ∈ as, ∀ e ∈ x.value.expressions, e.Still))

instance : ∀ x : Node, Decidable x.Plain
  | .mustache e _ => inferInstanceAs (Decidable e.Plain)
  | .ifBlock e _ _ _ | .eachBlock e _ _ _ _ _ => inferInstanceAs (Decidable e.Still)
  | .message _ as _ _ | .content _ as _ _ | .step as _ _ | .reference as _ =>
    inferInstanceAs (Decidable (Attribute.AllStill as))
  | .text .. | .config .. | .comment .. | .scoped .. | .response .. => .isTrue trivial

namespace Expr.Still

variable {e : Expr} {s : Span}

theorem inside (h : e.Still) : ∀ x ∈ e.inside, x.isAssignment = false :=
  fun x hx => h x (List.mem_cons_of_mem _ hx)

theorem not_assign {op : AssignOp} {target value : Expr} :
    ¬ (Expr.assign op target value s).Still := by
  intro h
  cases h _ (mem_subexpressions_self _)

end Expr.Still

namespace Analysis

/-! ## What the analysis of parameters has read -/

mutual

theorem used_expr (a : Analysis) (e : Expr) : a.used ⊆ (a.expr e).used := by
  match e with
  | .literal .. => exact List.Subset.refl _
  | .identifier name _ => exact used_read a name
  | .array items _ => exact used_exprs a items
  | .object ps _ => exact used_properties a ps
  | .member base k _ _ => exact List.Subset.trans (used_expr a base) (used_key _ k)
  | .call callee arguments _ _ => exact List.Subset.trans (used_expr a callee) (used_exprs _ arguments)
  | .unary _ argument _ => exact used_expr a argument
  | .binary _ left right _ => exact List.Subset.trans (used_expr a left) (used_expr _ right)
  | .logical _ left right _ => exact List.Subset.trans (used_expr a left) (used_expr _ right)
  | .conditional test consequent alternate _ =>
    exact List.Subset.trans (List.Subset.trans (used_expr a test) (used_expr _ consequent))
      (used_expr _ alternate)
  | .assign op target value _ =>
    have first := used_expr a target
    cases target with
    | identifier name s =>
      simp only [expr]
      split
      · exact List.Subset.trans (used_read a name) (used_expr _ value)
      · exact used_expr a value
    | _ => exact List.Subset.trans first (used_expr _ value)
  | .update _ _ argument _ => exact used_expr a argument

theorem used_exprs (a : Analysis) (es : List Expr) : a.used ⊆ (a.exprs es).used := by
  match es with
  | [] => exact List.Subset.refl _
  | e :: rest => exact List.Subset.trans (used_expr a e) (used_exprs _ rest)

theorem used_key (a : Analysis) (k : Key) : a.used ⊆ (a.key k).used := by
  match k with
  | .named _ => exact List.Subset.refl _
  | .computed e => exact used_expr a e

theorem used_properties (a : Analysis) (ps : List Property) : a.used ⊆ (a.properties ps).used := by
  match ps with
  | [] => exact List.Subset.refl _
  | .mk k value :: rest =>
    exact List.Subset.trans (List.Subset.trans (used_key a k) (used_expr _ value))
      (used_properties _ rest)

end

/-! ## Expressions without assignments -/

/-- An analysis has defined the same as another one, and has reported nothing but some names. -/
structure Within (names : List String) (x y : Analysis) : Prop where
  defined : x.defined = y.defined
  used : x.used ⊆ names

/-- A step of the careful analysis from a state and a step of the other from another one: nothing
is defined, and the first reports nothing else. -/
structure Reads (names : List String) (x y x' y' : Analysis) : Prop where
  within : Within names x' y'
  still : y'.defined = y.defined

variable {names : List String} {x y x' y' x'' y'' : Analysis}

namespace Reads

theorem refl (h : Within names x y) : Reads names x y x y := ⟨h, rfl⟩

theorem trans (h : Reads names x y x' y') (k : Reads names x' y' x'' y'') :
    Reads names x y x'' y'' := ⟨k.within, k.still.trans h.still⟩

theorem before (h : Within names x y) (k : Reads names x y x' y') : x'.defined = x.defined := by
  rw [k.within.defined, k.still, h.defined]

theorem read (h : Within names x y) (name : String) (hy : (y.read name).used ⊆ names) :
    Reads names x y (x.read name) (y.read name) := by
  refine ⟨⟨by rw [defined_read, defined_read, h.defined], fun m hm => ?_⟩, defined_read y name⟩
  obtain old | ⟨rfl, fresh⟩ := mem_used_read_iff.mp hm
  · exact h.used old
  · rw [h.defined] at fresh
    exact hy ((mem_used_read y m).resolve_left fresh)

/-- What is forgotten was not defined anyway. -/
theorem inside {block : Analysis → Analysis} (k : Reads names x y (block x) y')
    (h : Within names x y) : Reads names x y (x.inside block) y' :=
  ⟨⟨(before h k).symm.trans k.within.defined, k.within.used⟩, k.still⟩

theorem perhaps {part : Analysis → Analysis} (h : Within names x y)
    (k : Reads names x y (part x) y') (skippable : Bool) :
    Reads names x y (x.perhaps skippable part) y' := by
  rw [Analysis.perhaps]
  split
  · exact k.inside h
  · exact k

end Reads

mutual

theorem reads_expr {x y : Analysis} {e : Expr} (still : e.Still) (h : Within names x y)
    (hy : (y.expr e).used ⊆ names) : Reads names x y (x.carefulExpr e) (y.expr e) := by
  match e with
  | .literal .. => exact .refl h
  | .identifier name _ => exact .read h name hy
  | .array items _ => exact reads_exprs still.inside h hy
  | .object ps _ => exact reads_properties still.inside h hy
  | .member base k optional _ =>
    obtain ⟨hbase, hkey⟩ := List.forall_mem_append.mp still.inside
    have first := reads_expr hbase h (List.Subset.trans (used_key _ k) hy)
    exact first.trans (.perhaps first.within (reads_key hkey first.within hy) _)
  | .call callee arguments optional _ =>
    obtain ⟨hcallee, harguments⟩ := List.forall_mem_append.mp still.inside
    have first := reads_expr hcallee h (List.Subset.trans (used_exprs _ arguments) hy)
    exact first.trans (.perhaps first.within (reads_exprs harguments first.within hy) _)
  | .unary op argument _ =>
    have inner := reads_expr (e := argument) still.inside h hy
    rw [carefulExpr]
    split
    · exact ⟨⟨(Reads.before h inner).symm.trans inner.within.defined, h.used⟩, inner.still⟩
    · exact inner
  | .binary _ left right _ =>
    obtain ⟨hleft, hright⟩ := List.forall_mem_append.mp still.inside
    have first := reads_expr hleft h (List.Subset.trans (used_expr _ right) hy)
    exact first.trans (reads_expr hright first.within hy)
  | .logical _ left right _ =>
    obtain ⟨hleft, hright⟩ := List.forall_mem_append.mp still.inside
    have first := reads_expr hleft h (List.Subset.trans (used_expr _ right) hy)
    exact first.trans ((reads_expr hright first.within hy).inside first.within)
  | .conditional test consequent alternate _ =>
    obtain ⟨hboth, halternate⟩ := List.forall_mem_append.mp still.inside
    obtain ⟨htest, hconsequent⟩ := List.forall_mem_append.mp hboth
    have used := List.Subset.trans (used_expr ((y.expr test).expr consequent) alternate) hy
    have first := reads_expr htest h (List.Subset.trans (used_expr _ consequent) used)
    have second := reads_expr hconsequent first.within used
    -- the other branch is looked at with what was defined before the first one
    have again : Within names
        { (x.carefulExpr test).carefulExpr consequent with
          defined := (x.carefulExpr test).defined } ((y.expr test).expr consequent) :=
      ⟨(Reads.before first.within second).symm.trans second.within.defined, second.within.used⟩
    have third := reads_expr halternate again hy
    refine (first.trans second).trans ⟨⟨?_, third.within.used⟩, third.still⟩
    have common : ({ (x.carefulExpr test).carefulExpr consequent with
          defined := (x.carefulExpr test).defined }.carefulExpr alternate).defined =
        ((x.carefulExpr test).carefulExpr consequent).defined := by
      rw [third.within.defined, third.still, second.within.defined]
    refine Eq.trans ?_ third.within.defined
    exact List.filter_eq_self.mpr fun name hname => List.contains_iff_mem.mpr (common ▸ hname)
  | .assign .. => exact absurd still Expr.Still.not_assign
  | .update _ _ argument _ => exact reads_expr (e := argument) still.inside h hy

theorem reads_exprs {x y : Analysis} {es : List Expr}
    (still : ∀ e ∈ Expr.insideAll es, e.isAssignment = false) (h : Within names x y)
    (hy : (y.exprs es).used ⊆ names) :
    Reads names x y (x.carefulExprs es) (y.exprs es) := by
  match es with
  | [] => exact .refl h
  | e :: rest =>
    obtain ⟨hfirst, hrest⟩ := List.forall_mem_append.mp still
    have first := reads_expr hfirst h (List.Subset.trans (used_exprs _ rest) hy)
    exact first.trans (reads_exprs hrest first.within hy)

theorem reads_key {x y : Analysis} {k : Key}
    (still : ∀ e ∈ k.inside, e.isAssignment = false) (h : Within names x y)
    (hy : (y.key k).used ⊆ names) :
    Reads names x y (x.carefulKey k) (y.key k) := by
  match k with
  | .named _ => exact .refl h
  | .computed e => exact reads_expr still h hy

theorem reads_properties {x y : Analysis} {ps : List Property}
    (still : ∀ e ∈ Expr.insideProperties ps, e.isAssignment = false)
    (h : Within names x y) (hy : (y.properties ps).used ⊆ names) :
    Reads names x y (x.carefulProperties ps) (y.properties ps) := by
  match ps with
  | [] => exact .refl h
  | .mk k value :: rest =>
    obtain ⟨hboth, hrest⟩ := List.forall_mem_append.mp still
    obtain ⟨hkey, hvalue⟩ := List.forall_mem_append.mp hboth
    have used := List.Subset.trans (used_properties ((y.key k).expr value) rest) hy
    have first := reads_key hkey h (List.Subset.trans (used_expr _ value) used)
    have second := reads_expr hvalue first.within used
    exact (first.trans second).trans (reads_properties hrest second.within hy)

end

/-- An assignment that is all of an expression defines its name in both analyses. -/
theorem within_plain {e : Expr} (plain : e.Plain) (h : Within names x y)
    (hy : (y.expr e).used ⊆ names) : Within names (x.carefulExpr e) (y.expr e) := by
  cases e with
  | assign op target value s =>
    obtain ⟨htarget, hvalue⟩ := List.forall_mem_append.mp plain
    cases named : target.name? with
    | some name =>
      obtain ⟨t, rfl⟩ := Expr.eq_of_name? named
      rw [carefulExpr, Expr.name?]
      rw [expr] at hy ⊢
      dsimp only at hy ⊢
      split at hy
      · rename_i compound
        rw [if_pos compound, if_pos compound]
        have first := Reads.read h name (List.Subset.trans (used_expr _ value) hy)
        have second := reads_expr hvalue first.within hy
        exact ⟨congrArg (name :: ·) second.within.defined, second.within.used⟩
      · rename_i simple
        rw [if_neg simple, if_neg simple]
        have first := reads_expr hvalue h hy
        exact ⟨congrArg (name :: ·) first.within.defined, first.within.used⟩
    | none =>
      have other : y.expr (.assign op target value s) = (y.expr target).expr value := by
        cases target with
        | identifier name t => cases named
        | _ => rfl
      rw [other] at hy ⊢
      rw [carefulExpr, named]
      have first := reads_expr htarget h (List.Subset.trans (used_expr _ value) hy)
      exact (reads_expr hvalue first.within hy).within
  | _ => exact (reads_expr (List.forall_mem_cons.mpr ⟨rfl, plain⟩) h hy).within

/-! ## Attributes -/

theorem used_pieces (a : Analysis) (ps : List Piece) : a.used ⊆ (a.pieces ps).used := by
  induction ps generalizing a with
  | nil => exact List.Subset.refl _
  | cons p rest ih =>
    cases p with
    | text => exact ih a
    | mustache e => exact List.Subset.trans (used_expr a e) (ih _)

theorem used_attributes (a : Analysis) (as : List Attribute) :
    a.used ⊆ (a.attributes as).used := by
  induction as generalizing a with
  | nil => exact List.Subset.refl _
  | cons z rest ih =>
    rw [attributes]
    split
    · exact ih a
    · exact List.Subset.trans (used_pieces a _) (ih _)

theorem reads_pieces {ps : List Piece} (still : ∀ e ∈ ps.filterMap Piece.expression?, e.Still)
    (h : Within names x y) (hy : (y.pieces ps).used ⊆ names) :
    Reads names x y (x.carefulPieces ps) (y.pieces ps) := by
  induction ps generalizing x y with
  | nil => exact .refl h
  | cons p rest ih =>
    cases p with
    | text => exact ih still h hy
    | mustache e s =>
      obtain ⟨he, hrest⟩ := List.forall_mem_cons.mp still
      have first := reads_expr he h (List.Subset.trans (used_pieces _ rest) hy)
      exact first.trans (ih hrest first.within hy)

/-- One of some attributes defines nothing, and reads nothing that all of them do not read. -/
theorem within_attribute {as : List Attribute} (still : Attribute.AllStill as) {z : Attribute}
    (hz : z ∈ as) (h : Within names x y) (hy : (y.attributes as).used ⊆ names) :
    Within names (x.carefulAttribute z) y := by
  induction as generalizing y with
  | nil => cases hz
  | cons first rest ih =>
    obtain ⟨hfirst, hrest⟩ := List.forall_mem_cons.mp still
    rw [attributes] at hy
    split at hy
    · rename_i flag
      rcases List.mem_cons.mp hz with rfl | hz
      · rw [carefulAttribute, flag]
        exact h
      · exact ih hrest hz h hy
    · rename_i ps value
      rw [value] at hfirst
      have read := reads_pieces hfirst h (List.Subset.trans (used_attributes _ rest) hy)
      rcases List.mem_cons.mp hz with rfl | hz
      · rw [carefulAttribute, value]
        exact ⟨read.within.defined.trans read.still, read.within.used⟩
      · have later := ih hrest hz ⟨h.defined.trans read.still.symm, h.used⟩ hy
        exact ⟨later.defined.trans read.still, later.used⟩

theorem defined_attributes {as : List Attribute} (still : Attribute.AllStill as) (a : Analysis) :
    (a.attributes as).defined = a.defined := by
  induction as generalizing a with
  | nil => rfl
  | cons z rest ih =>
    obtain ⟨hz, hrest⟩ := List.forall_mem_cons.mp still
    rw [attributes]
    split
    · exact ih hrest a
    · rename_i ps value
      rw [value] at hz
      have same : Within (a.used ++ (a.pieces ps).used) a a := ⟨rfl, List.subset_append_left _ _⟩
      exact (ih hrest _).trans (reads_pieces hz same (List.subset_append_right _ _)).still

theorem within_attributes {as : List Attribute} (still : Attribute.AllStill as)
    (h : Within names x y) (hy : (y.attributes as).used ⊆ names) :
    Within names (x.carefulAttributes as) (y.attributes as) := by
  have every : ∀ more ⊆ as, Within names (x.carefulAttributes more) y := by
    intro more
    induction more generalizing x with
    | nil => exact fun _ => h
    | cons z rest ih =>
      intro hmore
      obtain ⟨hz, hrest⟩ := List.cons_subset.mp hmore
      exact ih (within_attribute still hz h hy) hrest
  have all := every as (List.Subset.refl _)
  exact ⟨all.defined.trans (defined_attributes still y).symm, all.used⟩

theorem within_named {as : List Attribute} (still : Attribute.AllStill as) (name : String)
    (h : Within names x y) (hy : (y.attributes as).used ⊆ names) :
    Within names (x.carefulNamed as name) y := by
  rw [carefulNamed]
  split
  · rename_i z found
    exact within_attribute still (List.mem_of_find?_eq_some found) h hy
  · exact h

theorem within_message {as : List Attribute} (still : Attribute.AllStill as) (role : Option Role)
    (h : Within names x y) (hy : (y.attributes as).used ⊆ names) :
    Within names (x.carefulMessage role as) (y.attributes as) := by
  have first : Within names (x.carefulRole role as) y := by
    cases role with
    | some _ => exact h
    | none => exact within_named still "role" h hy
  have second := within_named still "id" first hy
  exact ⟨second.defined.trans (defined_attributes still y).symm, second.used⟩

/-! ## Nodes -/

theorem Within.define (h : Within names x y) (name : String) :
    Within names (x.define name) (y.define name) := ⟨congrArg (name :: ·) h.defined, h.used⟩

theorem Within.defineOption (h : Within names x y) (name : Option String) :
    Within names (x.defineOption name) (y.defineOption name) := by
  cases name with
  | none => exact h
  | some name => exact h.define name

/-- What two blocks define is forgotten after them. -/
theorem Within.inside {first second : Analysis → Analysis} (h : Within names x y)
    (k : Within names (first x) (second y)) : Within names (x.inside first) (y.inside second) :=
  ⟨h.defined, k.used⟩

mutual

theorem used_node (a : Analysis) (z : Node) : a.used ⊆ (node [] a z).used := by
  match z with
  | .text .. | .config .. | .comment .. => exact List.Subset.refl _
  | .mustache e _ => exact used_expr a e
  | .ifBlock e consequent alternate _ =>
    have second := used_nodesOption ((a.expr e).inside fun b => nodes [] b consequent) alternate
    exact List.Subset.trans (List.Subset.trans (used_expr a e) (used_nodes _ consequent)) second
  | .eachBlock e context index body alternate _ =>
    have entered := used_nodes (((a.expr e).define context).defineOption index) body
    rw [used_defineOption] at entered
    have second := used_nodesOption ((a.expr e).inside fun b =>
      nodes [] ((b.define context).defineOption index) body) alternate
    exact List.Subset.trans (List.Subset.trans (used_expr a e) entered) second
  | .message _ as children _ | .content _ as children _ =>
    exact List.Subset.trans (used_attributes a as) (used_nodes _ children)
  | .step as children _ =>
    rw [node, used_defineOption]
    exact List.Subset.trans (used_attributes a as) (used_nodes _ children)
  | .reference as _ => exact used_attributes a as
  | .scoped children _ => exact used_nodes a children
  | .response name _ =>
    rw [node, used_defineOption]
    exact List.Subset.refl _

theorem used_nodes (a : Analysis) (zs : List Node) : a.used ⊆ (nodes [] a zs).used := by
  match zs with
  | [] => exact List.Subset.refl _
  | z :: rest => exact List.Subset.trans (used_node a z) (used_nodes _ rest)

theorem used_nodesOption (a : Analysis) (zs : Option (List Node)) :
    a.used ⊆ (nodesOption [] a zs).used := by
  match zs with
  | none => exact List.Subset.refl _
  | some branch => exact used_nodes a branch

end

mutual

theorem within_node {x y : Analysis} {z : Node} (plain : ∀ w ∈ z.walk, w.Plain)
    (h : Within names x y) (hy : (node [] y z).used ⊆ names) :
    Within names (x.carefulNode z) (node [] y z) := by
  match z with
  | .text .. | .config .. | .comment .. => exact h
  | .mustache e _ => exact within_plain (plain _ (List.mem_singleton.mpr rfl)) h hy
  | .ifBlock e consequent alternate _ =>
    obtain ⟨still, hinside⟩ := List.forall_mem_cons.mp plain
    obtain ⟨hconsequent, halternate⟩ := List.forall_mem_append.mp hinside
    have used := List.Subset.trans (used_nodesOption _ alternate) hy
    have first := (reads_expr still h (List.Subset.trans (used_nodes _ consequent) used)).within
    exact within_nodesOption halternate (first.inside (within_nodes hconsequent first used)) hy
  | .eachBlock e context index body alternate _ =>
    obtain ⟨still, hinside⟩ := List.forall_mem_cons.mp plain
    obtain ⟨hbody, halternate⟩ := List.forall_mem_append.mp hinside
    have used := List.Subset.trans (used_nodesOption _ alternate) hy
    have entered := List.Subset.trans
      (used_nodes (((y.expr e).define context).defineOption index) body) used
    rw [used_defineOption] at entered
    have first := (reads_expr still h entered).within
    have inner := within_nodes hbody ((first.define context).defineOption index) used
    exact within_nodesOption halternate (first.inside inner) hy
  | .message role as children _ =>
    obtain ⟨still, hchildren⟩ := List.forall_mem_cons.mp plain
    have opened := within_message still role h (List.Subset.trans (used_nodes _ children) hy)
    exact within_nodes hchildren opened hy
  | .content _ as children _ =>
    obtain ⟨still, hchildren⟩ := List.forall_mem_cons.mp plain
    exact within_nodes hchildren ⟨h.defined.trans (defined_attributes still y).symm, h.used⟩ hy
  | .step as children _ =>
    obtain ⟨still, hchildren⟩ := List.forall_mem_cons.mp plain
    rw [node, used_defineOption] at hy
    have read := within_attributes still h (List.Subset.trans (used_nodes _ children) hy)
    exact (within_nodes hchildren read hy).defineOption _
  | .reference as _ =>
    have still : Attribute.AllStill as := plain _ (List.mem_singleton.mpr rfl)
    exact ⟨h.defined.trans (defined_attributes still y).symm, h.used⟩
  | .scoped children _ => exact within_nodes (List.forall_mem_cons.mp plain).2 h hy
  | .response name _ => exact h.defineOption name

theorem within_nodes {x y : Analysis} {zs : List Node} (plain : ∀ w ∈ Node.walkAll zs, w.Plain)
    (h : Within names x y) (hy : (nodes [] y zs).used ⊆ names) :
    Within names (x.carefulNodes zs) (nodes [] y zs) := by
  match zs with
  | [] => exact h
  | z :: rest =>
    obtain ⟨hz, hrest⟩ := List.forall_mem_append.mp plain
    have first := within_node hz h (List.Subset.trans (used_nodes _ rest) hy)
    have later : Within names ((x.carefulNode z).carefulNodes rest) (nodes [] (node [] y z) rest) :=
      within_nodes hrest first hy
    exact later

theorem within_nodesOption {x y : Analysis} {zs : Option (List Node)}
    (plain : ∀ w ∈ Node.walkOption zs, w.Plain) (h : Within names x y)
    (hy : (nodesOption [] y zs).used ⊆ names) :
    Within names (x.carefulOption zs) (nodesOption [] y zs) := by
  match zs with
  | none => exact h
  | some branch => exact ⟨h.defined, (within_nodes plain h hy).used⟩

end

end Analysis

/-- On a template with plain assignments the careful analysis reports nothing that the analysis
of parameters does not report. -/
theorem Fragment.carefulParameters_subset {f : Fragment} (plain : ∀ w ∈ f.walk, w.Plain) :
    f.carefulParameters ⊆ f.parameters [] := by
  have same : Analysis.Within (f.parameters []) Analysis.empty Analysis.empty :=
    ⟨rfl, List.nil_subset _⟩
  exact (Analysis.within_nodes plain same (List.Subset.refl _)).used

end PromptTemplate
