import PromptTemplate.Parameters
import Mathlib.Data.List.Basic

/-!
# A careful analysis of parameters

An evaluation may skip the right operand of a logical operator, one of the branches of a
conditional, and what stands behind an optional link; and of the attributes of messages and
content tags it evaluates only some. The careful analysis looks at templates like the
analysis of parameters, but forgets what is defined where an evaluation may not come, and
looks at attributes in the order in which they are evaluated.
-/

namespace PromptTemplate

/-- The name that an expression is. -/
def Expr.name? : Expr → Option String
  | .identifier name _ => some name
  | _ => none

theorem Expr.eq_of_name? {e : Expr} {name : String} (h : e.name? = some name) :
    ∃ s, e = .identifier name s := by
  cases e <;> cases h
  exact ⟨_, rfl⟩

/-- Whether an operator asks for the kind of a name, which need not be declared then. -/
def UnaryOp.asksKind (op : UnaryOp) (argument : Expr) : Bool :=
  op == .typeof && argument.name?.isSome

namespace Analysis

/-- What two ways that exclude each other have in common, of which the second was looked at
after the first. -/
def either (first second : Analysis) : Analysis :=
  { second with defined := second.defined.filter (first.defined.contains ·) }

/-- Looks at what may be skipped. -/
def perhaps (a : Analysis) (skippable : Bool) (part : Analysis → Analysis) : Analysis :=
  if skippable then a.inside part else part a

/-! ## Expressions -/

mutual

def carefulExpr (a : Analysis) : Expr → Analysis
  | .literal .. => a
  | .identifier name _ => a.read name
  | .array items _ => a.carefulExprs items
  | .object ps _ => a.carefulProperties ps
  | .member base key optional _ =>
    (a.carefulExpr base).perhaps (optional || base.hasOptionalLink) fun b => b.carefulKey key
  | .call callee arguments optional _ =>
    (a.carefulExpr callee).perhaps (optional || callee.hasOptionalLink) fun b =>
      b.carefulExprs arguments
  | .unary op argument _ => if op.asksKind argument then a else a.carefulExpr argument
  | .binary _ left right _ => (a.carefulExpr left).carefulExpr right
  | .logical _ left right _ => (a.carefulExpr left).inside fun b => b.carefulExpr right
  | .conditional test consequent alternate _ =>
    let a := a.carefulExpr test
    let b := a.carefulExpr consequent
    b.either ({ b with defined := a.defined }.carefulExpr alternate)
  | .assign op target value _ =>
    match target.name? with
    | some name =>
      ((if op.binary?.isSome then a.read name else a).carefulExpr value).define name
    | none => (a.carefulExpr target).carefulExpr value
  | .update _ _ argument _ => a.carefulExpr argument

def carefulExprs (a : Analysis) : List Expr → Analysis
  | [] => a
  | e :: rest => (a.carefulExpr e).carefulExprs rest

def carefulKey (a : Analysis) : Key → Analysis
  | .named _ => a
  | .computed e => a.carefulExpr e

def carefulProperties (a : Analysis) : List Property → Analysis
  | [] => a
  | .mk k value :: rest => ((a.carefulKey k).carefulExpr value).carefulProperties rest

end

/-! ## Nodes -/

def carefulPieces (a : Analysis) : List Piece → Analysis
  | [] => a
  | .text .. :: rest => a.carefulPieces rest
  | .mustache e _ :: rest => (a.carefulExpr e).carefulPieces rest

def carefulAttribute (a : Analysis) (x : Attribute) : Analysis :=
  match x.value with
  | .flag => a
  | .pieces ps => a.carefulPieces ps

def carefulAttributes (a : Analysis) : List Attribute → Analysis
  | [] => a
  | x :: rest => (a.carefulAttribute x).carefulAttributes rest

/-- Looks at the attribute with a name, if there is one. -/
def carefulNamed (a : Analysis) (as : List Attribute) (name : String) : Analysis :=
  match Attribute.find? as name with
  | some x => a.carefulAttribute x
  | none => a

/-- Looks at the role of a message tag, unless the tag names it. -/
def carefulRole (a : Analysis) (role : Option Role) (as : List Attribute) : Analysis :=
  match role with
  | some _ => a
  | none => a.carefulNamed as "role"

/-- Looks at the attributes of a message tag that are evaluated. -/
def carefulMessage (a : Analysis) (role : Option Role) (as : List Attribute) : Analysis :=
  (a.carefulRole role as).carefulNamed as "id"

mutual

def carefulNode (a : Analysis) : Node → Analysis
  | .text .. | .config .. | .comment .. | .reference .. => a
  | .mustache e _ => a.carefulExpr e
  | .ifBlock e consequent alternate _ =>
    let a := (a.carefulExpr e).inside fun b => b.carefulNodes consequent
    a.carefulOption alternate
  | .eachBlock e context index body alternate _ =>
    let a := (a.carefulExpr e).inside fun b =>
      ((b.define context).defineOption index).carefulNodes body
    a.carefulOption alternate
  | .message role as children _ => (a.carefulMessage role as).carefulNodes children
  | .content _ _ children _ => a.carefulNodes children
  | .step as children _ =>
    ((a.carefulAttributes as).carefulNodes children).defineOption (responseName? as)
  | .scoped children _ => a.carefulNodes children
  | .response name _ => a.defineOption name

def carefulNodes (a : Analysis) : List Node → Analysis
  | [] => a
  | x :: rest => (a.carefulNode x).carefulNodes rest

def carefulOption (a : Analysis) : Option (List Node) → Analysis
  | none => a
  | some branch => a.inside fun b => b.carefulNodes branch

end

/-! ## What is used -/

theorem used_read (a : Analysis) (name : String) : a.used ⊆ (a.read name).used := by
  rw [read]
  split
  · intro _ h
    exact h
  · intro _ h
    exact List.mem_append_left _ h

/-- A name that is read is defined, or reported. -/
theorem mem_used_read (a : Analysis) (name : String) :
    name ∈ a.defined ∨ name ∈ (a.read name).used := by
  rw [read]
  split
  · rename_i h
    simpa using h
  · exact .inr (by simp)

/-- Nothing else is reported than was before, and a name that was not defined. -/
theorem mem_used_read_iff {a : Analysis} {name m : String} :
    m ∈ (a.read name).used ↔ m ∈ a.used ∨ (m = name ∧ name ∉ a.defined) := by
  rw [read]
  split
  · rename_i known
    constructor
    · exact .inl
    · rintro (h | ⟨rfl, fresh⟩)
      · exact h
      · simpa [fresh] using known
  · rename_i fresh
    simp only [Bool.or_eq_true, List.contains_iff_mem, not_or] at fresh
    simp [fresh.1]

theorem defined_read (a : Analysis) (name : String) : (a.read name).defined = a.defined := by
  rw [read]
  split <;> rfl

theorem used_defineOption (a : Analysis) (name : Option String) :
    (a.defineOption name).used = a.used := by
  cases name <;> rfl

theorem used_perhaps (a : Analysis) (skippable : Bool) (part : Analysis → Analysis) :
    (a.perhaps skippable part).used = (part a).used := by
  rw [perhaps]
  split <;> rfl

mutual

theorem used_carefulExpr : ∀ (a : Analysis) (e : Expr), a.used ⊆ (a.carefulExpr e).used
  | a, .literal .. => fun _ h => h
  | a, .identifier name _ => used_read a name
  | a, .array items _ => used_carefulExprs a items
  | a, .object ps _ => used_carefulProperties a ps
  | a, .member base key optional _ => by
    rw [carefulExpr, used_perhaps]
    exact List.Subset.trans (used_carefulExpr a base) (used_carefulKey _ key)
  | a, .call callee arguments optional _ => by
    rw [carefulExpr, used_perhaps]
    exact List.Subset.trans (used_carefulExpr a callee) (used_carefulExprs _ arguments)
  | a, .unary op argument _ => by
    rw [carefulExpr]
    split
    · intro _ h
      exact h
    · exact used_carefulExpr a argument
  | a, .binary _ left right _ =>
    List.Subset.trans (used_carefulExpr a left) (used_carefulExpr _ right)
  | a, .logical _ left right _ =>
    List.Subset.trans (used_carefulExpr a left) (used_carefulExpr _ right)
  | a, .conditional test consequent alternate _ =>
    List.Subset.trans (used_carefulExpr a test)
      (List.Subset.trans (used_carefulExpr _ consequent)
        (used_carefulExpr { (a.carefulExpr test).carefulExpr consequent with
          defined := (a.carefulExpr test).defined } alternate))
  | a, .assign op target value _ => by
    rw [carefulExpr]
    split
    · split
      · exact List.Subset.trans (used_read a _) (used_carefulExpr _ value)
      · exact used_carefulExpr a value
    · exact List.Subset.trans (used_carefulExpr a target) (used_carefulExpr _ value)
  | a, .update _ _ argument _ => used_carefulExpr a argument

theorem used_carefulExprs : ∀ (a : Analysis) (es : List Expr), a.used ⊆ (a.carefulExprs es).used
  | _, [] => fun _ h => h
  | a, e :: rest => List.Subset.trans (used_carefulExpr a e) (used_carefulExprs _ rest)

theorem used_carefulKey : ∀ (a : Analysis) (k : Key), a.used ⊆ (a.carefulKey k).used
  | _, .named _ => fun _ h => h
  | a, .computed e => used_carefulExpr a e

theorem used_carefulProperties : ∀ (a : Analysis) (ps : List Property),
    a.used ⊆ (a.carefulProperties ps).used
  | _, [] => fun _ h => h
  | a, .mk k value :: rest =>
    List.Subset.trans (used_carefulKey a k)
      (List.Subset.trans (used_carefulExpr _ value) (used_carefulProperties _ rest))

end

theorem used_carefulPieces (a : Analysis) (ps : List Piece) :
    a.used ⊆ (a.carefulPieces ps).used := by
  induction ps generalizing a with
  | nil => exact fun _ h => h
  | cons p rest ih =>
    cases p with
    | text data s => exact ih a
    | mustache e s => exact List.Subset.trans (used_carefulExpr a e) (ih _)

theorem used_carefulAttribute (a : Analysis) (x : Attribute) :
    a.used ⊆ (a.carefulAttribute x).used := by
  rw [carefulAttribute]
  split
  · intro _ h
    exact h
  · exact used_carefulPieces a _

theorem used_carefulAttributes (a : Analysis) (as : List Attribute) :
    a.used ⊆ (a.carefulAttributes as).used := by
  induction as generalizing a with
  | nil => exact fun _ h => h
  | cons x rest ih => exact List.Subset.trans (used_carefulAttribute a x) (ih _)

theorem used_carefulNamed (a : Analysis) (as : List Attribute) (name : String) :
    a.used ⊆ (a.carefulNamed as name).used := by
  rw [carefulNamed]
  split
  · exact used_carefulAttribute a _
  · intro _ h
    exact h

theorem used_carefulRole (a : Analysis) (role : Option Role) (as : List Attribute) :
    a.used ⊆ (a.carefulRole role as).used := by
  cases role with
  | some _ => exact fun _ h => h
  | none => exact used_carefulNamed a as "role"

theorem used_carefulMessage (a : Analysis) (role : Option Role) (as : List Attribute) :
    a.used ⊆ (a.carefulMessage role as).used :=
  List.Subset.trans (used_carefulRole a role as) (used_carefulNamed _ as "id")

mutual

theorem used_carefulNode : ∀ (a : Analysis) (x : Node), a.used ⊆ (a.carefulNode x).used
  | _, .text .. | _, .config .. | _, .comment .. | _, .reference .. => fun _ h => h
  | a, .mustache e _ => used_carefulExpr a e
  | a, .ifBlock e consequent alternate _ => by
    rw [carefulNode]
    refine List.Subset.trans ?_ (used_carefulOption _ alternate)
    exact List.Subset.trans (used_carefulExpr a e) (used_carefulNodes _ consequent)
  | a, .eachBlock e context index body alternate _ => by
    have entered := used_carefulNodes (((a.carefulExpr e).define context).defineOption index) body
    rw [used_defineOption] at entered
    rw [carefulNode]
    refine List.Subset.trans ?_ (used_carefulOption _ alternate)
    exact List.Subset.trans (used_carefulExpr a e) entered
  | a, .message role as children _ =>
    List.Subset.trans (used_carefulMessage a role as) (used_carefulNodes _ children)
  | a, .content _ _ children _ => used_carefulNodes a children
  | a, .step as children _ => by
    rw [carefulNode, used_defineOption]
    exact List.Subset.trans (used_carefulAttributes a as) (used_carefulNodes _ children)
  | a, .scoped children _ => used_carefulNodes a children
  | a, .response name _ => by
    rw [carefulNode, used_defineOption]
    intro _ h
    exact h

theorem used_carefulNodes : ∀ (a : Analysis) (nodes : List Node),
    a.used ⊆ (a.carefulNodes nodes).used
  | _, [] => fun _ h => h
  | a, x :: rest => List.Subset.trans (used_carefulNode a x) (used_carefulNodes _ rest)

theorem used_carefulOption : ∀ (a : Analysis) (nodes : Option (List Node)),
    a.used ⊆ (a.carefulOption nodes).used
  | _, none => fun _ h => h
  | a, some branch => used_carefulNodes a branch

end

end Analysis

/-- The parameters of a template according to the careful analysis. -/
def Fragment.carefulParameters (f : Fragment) : List String :=
  (Analysis.empty.carefulNodes f.children).used

end PromptTemplate
