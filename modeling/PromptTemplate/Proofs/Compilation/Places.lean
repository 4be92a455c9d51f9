import PromptTemplate.Proofs.Chain.Run
import PromptTemplate.Proofs.Compilation.Actions
import PromptTemplate.Proofs.Compilation.Leaves
import PromptTemplate.Proofs.Compilation.Resumed
import PromptTemplate.Proofs.Template.Inside

/-!
# The places of errors

An evaluation that fails has its error at a part of the expression. A compilation that fails
has it there or at the node that it was walking. The nodes that are left of a template have
their places from the nodes that they are left of. So however often a template has been
compiled up to a step, an error points into the text that it was read from.
-/

namespace PromptTemplate

/-- Where the errors of an expression can be. -/
def Expr.places (e : Expr) : List Span := e.subexpressions.map Expr.span

/-- Where the errors of a node can be, without those of the nodes inside it. -/
def Node.places (a : Node) : List Span := a.span :: a.expressions.flatMap Expr.places

/-- An error that has been placed at one of some spans. -/
def Error.Among (places : List Span) (err : Error) : Prop :=
  ∃ s ∈ places, ∃ c : Cause, err = c.on s

theorem Error.Among.mono {places more : List Span} {err : Error} (h : err.Among places)
    (sub : places ⊆ more) : err.Among more := by
  obtain ⟨s, hs, c, rfl⟩ := h
  exact ⟨s, sub hs, c, rfl⟩

theorem Cause.among {places : List Span} {s : Span} (h : s ∈ places) (c : Cause) :
    (c.on s).Among places := ⟨s, h, c, rfl⟩

/-! ## Evaluations -/

/-- An evaluation has its errors at subexpressions. -/
theorem Expr.among_evaluate (host : Host) (e : Expr) :
    Keeps (World.Writes fun _ _ => True) (Error.Among e.places) (evaluate host e) := by
  refine keeps_evaluate host fun x hx => ⟨fun c _ => Cause.among (List.mem_map_of_mem hx) c, ?_⟩
  split
  · exact fun _ => trivial
  · exact fun _ _ _ _ => trivial
  · exact fun _ _ _ _ => trivial
  · trivial

/-! ## Walks -/

namespace Compile

variable {host : Host} {blame : Error → Prop}

instance : IsPreorder Compilation fun _ _ => True where
  refl _ := trivial
  trans _ _ _ _ _ := trivial

/-- A computation that has only some errors. -/
abbrev Blames {α : Type} (blame : Error → Prop) (p : Compile α) : Prop :=
  Keeps (fun _ _ => True) blame p

/-- The errors at an expression are among these. -/
def Covers (blame : Error → Prop) (e : Expr) : Prop := ∀ err, err.Among e.places → blame err

theorem blames_evaluate (host : Host) {e : Expr} (h : Covers blame e) :
    Blames blame (evaluate host e) := by
  intro c
  rw [ends_evaluate]
  exact (Expr.among_evaluate host e c.world).imp (fun _ _ _ => trivial)
    fun err _ failed => ⟨trivial, h err failed.2⟩

theorem blames_piecesText {ps : List Piece}
    (h : ∀ e ∈ (AttributeValue.pieces ps).expressions, Covers blame e) :
    Blames blame (piecesText host ps) := by
  induction ps with
  | nil => exact .pure _
  | cons p rest ih =>
    cases p with
    | text data s => exact .bind (ih h) fun _ => .pure _
    | mustache e s =>
      obtain ⟨first, later⟩ := List.forall_mem_cons.mp h
      exact .bind (blames_evaluate host first) fun _ => .bind (ih later) fun _ => .pure _

theorem blames_attributeValue {a : Attribute} (h : ∀ e ∈ a.value.expressions, Covers blame e) :
    Blames blame (attributeValue host a) := by
  obtain ⟨name, value, s⟩ := a
  rw [attributeValue]
  split
  · exact .pure _
  · rename_i e place hvalue
    refine blames_evaluate host (h e ?_)
    rw [show value = _ from hvalue]
    exact List.mem_cons_self
  · rename_i ps _ hvalue
    refine .bind (blames_piecesText fun e he => h e ?_) fun _ => .pure _
    rw [show value = _ from hvalue]
    exact he

section

variable {as : List Attribute} {s : Span}

theorem blames_found (h : ∀ e ∈ Attribute.expressions as, Covers blame e) {name : String}
    {a : Attribute} (found : Attribute.find? as name = some a) :
    Blames blame (attributeValue host a) :=
  blames_attributeValue fun e he =>
    h e (List.mem_flatMap.mpr ⟨a, List.mem_of_find?_eq_some found, he⟩)

theorem blames_roleOf (h : ∀ e ∈ Attribute.expressions as, Covers blame e)
    (hs : ∀ c : Cause, blame (c.on s)) (role : Option Role) :
    Blames blame (roleOf host role as s) := by
  cases role with
  | some role => exact .pure _
  | none =>
    refine .bind ?_ fun v => ?_
    · rw [valueNamed]
      split
      · rename_i found
        exact blames_found h found
      · exact .pure _
    · split
      · exact .pure _
      · exact .throw (hs _)

theorem blames_toolIdOf (h : ∀ e ∈ Attribute.expressions as, Covers blame e) :
    Blames blame (toolIdOf host as) := by
  rw [toolIdOf]
  split
  · rename_i found
    exact .bind (blames_found h found) fun _ => .pure _
  · exact .pure _

theorem blames_stepAttributes (h : ∀ e ∈ Attribute.expressions as, Covers blame e)
    (name : Option String) (config : Config) :
    Blames blame (stepAttributes host name config as) := by
  induction as generalizing name config with
  | nil => exact .pure _
  | cons a rest ih =>
    obtain ⟨first, later⟩ := List.forall_mem_append.mp h
    refine .bind (blames_attributeValue first) fun v => ?_
    exact .ite (ih later _ _) (ih later _ _)

theorem blames_emit (text : String) : Blames blame (emit text) := .modify fun _ => trivial

theorem blames_flush : Blames blame flush := .modify fun _ => trivial

theorem blames_changeScope (f : Scope → Scope) : Blames blame (changeScope f) :=
  .modify fun _ => trivial

theorem blames_openMessage (h : ∀ e ∈ Attribute.expressions as, Covers blame e)
    (hs : ∀ c : Cause, blame (c.on s)) (role : Option Role) :
    Blames blame (openMessage host role as s) := by
  refine .bind (fun _ => trivial) fun c => .ite (.throw (hs _)) ?_
  refine .bind blames_flush fun _ => .bind (blames_roleOf h hs role) fun role => ?_
  exact .bind (blames_toolIdOf h) fun id => .ite (.throw (hs _)) (.modify fun _ => trivial)

theorem blames_openContent (hs : ∀ c : Cause, blame (c.on s)) (kind : ContentKind) :
    Blames blame (openContent kind s) := by
  refine .bind (fun _ => trivial) fun c => ?_
  split
  · exact .throw (hs _)
  · exact .ite (.throw (hs _)) (.ite (.throw (hs _)) (.modify fun _ => trivial))

theorem blames_respond (hs : ∀ c : Cause, blame (c.on s)) (name : Option String) :
    Blames blame (respond name s) := by
  refine .bind (fun _ => trivial) fun c => ?_
  split
  · exact .throw (hs _)
  · refine .bind (.modify fun _ => trivial) fun _ => ?_
    split
    · exact blames_changeScope _
    · exact .pure _

theorem blames_leave (s : Span) (flow : Flow) : Blames blame (leave s flow) := by
  cases flow with
  | done => exact .bind (.modify fun _ => trivial) fun _ => .pure _
  | suspended rest => exact .pure _

theorem blames_inFrame (s : Span) {body : Compile Flow} (h : Blames blame body) :
    Blames blame (inFrame s body) :=
  .bind (blames_changeScope _) fun _ => .bind h fun flow => blames_leave s flow

theorem blames_forItems (hs : ∀ c : Cause, blame (c.on s)) {body : Compile Flow}
    (h : Blames blame body) (context : String) (index : Option String) (i : Nat)
    (items : List Value) : Blames blame (forItems context index s body i items) := by
  induction items generalizing i with
  | nil => exact .pure _
  | cons v rest ih =>
    refine .bind (blames_changeScope _) fun _ => .bind h fun flow => ?_
    cases flow with
    | suspended left => exact .throw (hs _)
    | done => exact .bind (.modify fun _ => trivial) fun _ => ih (i + 1)

end

/-- The errors at a node are among these. -/
structure CoversNode (blame : Error → Prop) (a : Node) : Prop where
  own : ∀ c : Cause, blame (c.on a.span)
  expressions : ∀ e ∈ a.expressions, Covers blame e

mutual

/-- A walk has its errors at the nodes that it comes to. -/
theorem blames_walk (host : Host) : ∀ a : Node, (∀ b ∈ a.walk, CoversNode blame b) →
    Blames blame (walk host a)
  | .text .., _ => by
    rw [walk]
    exact .bind (blames_emit _) fun _ => .pure _
  | .config .., _ => by
    rw [walk]
    exact .bind (.modify fun _ => trivial) fun _ => .pure _
  | .comment .., _ => by
    rw [walk]
    exact .pure _
  | .mustache e _, h => by
    have own := List.forall_mem_singleton.mp h
    rw [walk]
    refine .bind (blames_evaluate host (own.expressions e List.mem_cons_self)) fun v => ?_
    exact .ite (.bind (blames_emit _) fun _ => .pure _) (.pure _)
  | .ifBlock e consequent alternate s, h => by
    obtain ⟨own, inner⟩ := List.forall_mem_cons.mp h
    obtain ⟨first, other⟩ := List.forall_mem_append.mp inner
    rw [walk]
    refine .bind (blames_evaluate host (own.expressions e List.mem_cons_self)) fun v => ?_
    exact .ite (blames_inFrame s (blames_walkAll host consequent first))
      (blames_walkOption host s alternate other)
  | .eachBlock e context index body alternate s, h => by
    obtain ⟨own, inner⟩ := List.forall_mem_cons.mp h
    obtain ⟨first, other⟩ := List.forall_mem_append.mp inner
    rw [walk]
    refine .bind (blames_evaluate host (own.expressions e List.mem_cons_self)) fun v => ?_
    refine .ite (.bind (blames_walkOption host s alternate other) fun flow => ?_) ?_
    · cases flow with
      | suspended left => exact .throw (own.own _)
      | done => exact .pure _
    · exact .bind (blames_forItems own.own (blames_walkAll host body first) context index 0 _)
        fun _ => .pure _
  | .message role as children s, h => by
    obtain ⟨own, inner⟩ := List.forall_mem_cons.mp h
    rw [walk]
    refine .bind (blames_openMessage own.expressions own.own role) fun _ => ?_
    refine .bind (blames_walkAll host children inner) fun _ => ?_
    exact .bind (.modify fun _ => trivial) fun _ => .pure _
  | .content kind as children s, h => by
    obtain ⟨own, inner⟩ := List.forall_mem_cons.mp h
    rw [walk]
    refine .bind (blames_openContent own.own kind) fun _ => ?_
    refine .bind (blames_walkAll host children inner) fun _ => ?_
    exact .bind (.modify fun _ => trivial) fun _ => .pure _
  | .reference as s, h => by
    rw [walk]
    exact .throw ((List.forall_mem_singleton.mp h).own _)
  | .step as children s, h => by
    obtain ⟨own, inner⟩ := List.forall_mem_cons.mp h
    rw [walk]
    refine .bind (blames_stepAttributes own.expressions none []) fun (name, config) => ?_
    refine .bind (blames_walkAll host children inner) fun flow => ?_
    cases flow with
    | suspended left => exact .throw (own.own _)
    | done => exact .bind blames_flush fun _ => .bind (.modify fun _ => trivial) fun _ => .pure _
  | .scoped children s, h => by
    obtain ⟨-, inner⟩ := List.forall_mem_cons.mp h
    rw [walk]
    exact .bind (blames_walkAll host children inner) fun flow => blames_leave s flow
  | .response name s, h => by
    rw [walk]
    exact .bind (blames_respond (List.forall_mem_singleton.mp h).own name) fun _ => .pure _

theorem blames_walkAll (host : Host) : ∀ nodes : List Node,
    (∀ b ∈ Node.walkAll nodes, CoversNode blame b) → Blames blame (walkAll host nodes)
  | [], _ => by
    rw [walkAll]
    exact .pure _
  | a :: rest, h => by
    obtain ⟨first, later⟩ := List.forall_mem_append.mp h
    rw [walkAll]
    refine .bind (blames_walk host a first) fun flow => ?_
    cases flow with
    | suspended left => exact .pure _
    | done => exact blames_walkAll host rest later

theorem blames_walkOption (host : Host) (s : Span) : ∀ nodes : Option (List Node),
    (∀ b ∈ Node.walkOption nodes, CoversNode blame b) → Blames blame (walkOption host s nodes)
  | none, _ => by
    rw [walkOption]
    exact .pure _
  | some nodes, h => by
    rw [walkOption]
    exact blames_inFrame s (blames_walkAll host nodes h)

end

theorem blames_whole (host : Host) {f : Fragment} (h : ∀ b ∈ f.walk, CoversNode blame b) :
    Blames blame (whole host f) :=
  .bind (blames_walkAll host f.children h) fun _ => .bind blames_flush fun _ => .pure _

end Compile

/-! ## What is left of a template -/

/-- Nodes whose errors can only be where those of other nodes can be. -/
def Node.PlacedIn (nodes more : List Node) : Prop :=
  ∀ b ∈ Node.walkAll more, ∃ a ∈ Node.walkAll nodes, b.places ⊆ a.places

open Node

theorem Node.PlacedIn.refl (nodes : List Node) : PlacedIn nodes nodes :=
  fun a ha => ⟨a, ha, List.Subset.refl _⟩

theorem Node.PlacedIn.trans {nodes more left : List Node} (h : PlacedIn nodes more)
    (k : PlacedIn more left) : PlacedIn nodes left := by
  intro c hc
  obtain ⟨b, hb, sub⟩ := k c hc
  obtain ⟨a, ha, sub'⟩ := h b hb
  exact ⟨a, ha, List.Subset.trans sub sub'⟩

/-- One node in the place of another, before the same nodes. -/
theorem Node.PlacedIn.cons {a b : Node} (h : ∀ y ∈ b.walk, ∃ x ∈ a.walk, y.places ⊆ x.places)
    (rest : List Node) : PlacedIn (a :: rest) (b :: rest) := by
  intro y hy
  rcases List.mem_append.mp hy with hy | hy
  · obtain ⟨x, hx, sub⟩ := h y hy
    exact ⟨x, List.mem_append_left _ hx, sub⟩
  · exact ⟨y, List.mem_append_right _ hy, List.Subset.refl _⟩

/-- What is left of the nodes inside a block, in the place of the block. -/
theorem Node.PlacedIn.opened {a : Node} {inside left : List Node} (h : PlacedIn inside left)
    (own : a ∈ a.walk) (inner : walkAll inside ⊆ a.walk) (rest : List Node) :
    PlacedIn (a :: rest) (.scoped left a.span :: rest) := by
  refine .cons (fun y hy => ?_) rest
  rcases List.mem_cons.mp hy with rfl | hy
  · exact ⟨a, own, List.cons_subset_cons _ (List.nil_subset _)⟩
  · obtain ⟨x, hx, sub⟩ := h y hy
    exact ⟨x, inner hx, sub⟩

/-- What a walk that stops at a step leaves has its places from the nodes that it is left of. -/
theorem Leaves.placedIn {nodes left : List Node} (h : Leaves nodes left) : PlacedIn nodes left := by
  induction h with
  | step as children name s rest =>
    refine .cons (fun y hy => ?_) rest
    cases List.mem_singleton.mp hy
    exact ⟨_, List.mem_cons_self, List.cons_subset_cons _ (List.nil_subset _)⟩
  | consequent h e alternate s rest ih =>
    exact ih.opened List.mem_cons_self
      (List.subset_cons_of_subset _ (List.subset_append_left _ _)) rest
  | alternate h e consequent s rest ih =>
    exact ih.opened List.mem_cons_self
      (List.subset_cons_of_subset _ (List.subset_append_right _ _)) rest
  | inside h s rest ih => exact ih.opened List.mem_cons_self (List.subset_cons_self _ _) rest
  | later a _ ih =>
    intro y hy
    obtain ⟨x, hx, sub⟩ := ih y hy
    exact ⟨x, List.mem_append_right _ hx, sub⟩

namespace Fragment

open Compile

variable {source : String} {f g : Fragment} {host : Host} {scope : Scope}
  {response : Option (List Part)} {calls after : List Call}

/-- A compilation that fails has its error at a node of the template or at an expression there. -/
theorem among_compile {err : Error}
    (h : (f.compile host source scope response).run calls = (.error err, after)) :
    ∃ a ∈ f.walk, ∃ s ∈ a.places, ∃ c : Cause, err = (c.on s).locate source.toList := by
  have walked : Blames (fun err => ∃ a ∈ f.walk, err.Among a.places) (whole host f) := by
    refine blames_whole host fun a ha => ⟨fun c => ?_, fun e he err among => ?_⟩
    · exact ⟨a, ha, c.among List.mem_cons_self⟩
    · refine ⟨a, ha, among.mono (List.subset_cons_of_subset _ ?_)⟩
      exact fun s hs => List.mem_flatMap.mpr ⟨e, he, hs⟩
  obtain ⟨s, refused, hcompile⟩ | ⟨-, ⟨e, d, hwalk, hcompile⟩ | ⟨flow, d, hwalk, hcompile⟩⟩ :=
    compile_cases host source f scope response calls
  · obtain ⟨a, ha, found⟩ := List.exists_of_findSome?_eq_some refused
    cases h.symm.trans hcompile
    split at found
    · cases found
      exact ⟨_, ha, _, List.mem_cons_self, _, rfl⟩
    · cases found
  · cases h.symm.trans hcompile
    obtain ⟨-, a, ha, s, hs, c, rfl⟩ := (walked _).of_error hwalk
    exact ⟨a, ha, s, hs, c, rfl⟩
  · cases h.symm.trans hcompile

/-- What compilations leave of a template that has been read has its places from the template. -/
theorem Resumed.placedIn (h : Resumed source f) :
    ∃ g, ofText source = .ok g ∧ PlacedIn g.children f.children := by
  induction h with
  | @read f h => exact ⟨f, h, .refl _⟩
  | @rest f _ host scope response calls after o hrun ih =>
    obtain ⟨g, hg, placed⟩ := ih
    refine ⟨g, hg, placed.trans ?_⟩
    obtain ⟨s, -, hcompile⟩ | ⟨-, ⟨e, d, hwalk, hcompile⟩ | ⟨flow, d, hwalk, hcompile⟩⟩ :=
      compile_cases host source f scope response calls
    · cases hrun.symm.trans hcompile
    · cases hrun.symm.trans hcompile
    · cases hrun.symm.trans hcompile
      cases flow with
      | done => exact List.forall_mem_nil _
      | suspended left => exact ((leaving_whole host f _).of_ok hwalk left rfl).placedIn

/-- The places of a node of a template that has been read are pieces of the text inside of the
node. -/
theorem locates_of_places (h : ofText source = .ok f) {a : Node} (ha : a ∈ f.walk) {s : Span}
    (hs : s ∈ a.places) :
    s.Locates source.toList ∧ a.span.start ≤ s.start ∧ s.stop ≤ a.span.stop := by
  have faithful := faithful_of_walk h ha
  have inside {t : SpanTree} (part : a.spans.Part t) :
      t.span.Locates source.toList ∧ a.span.start ≤ t.span.start ∧ t.span.stop ≤ a.span.stop := by
    rw [← a.span_spans]
    exact ⟨(faithful.part part).1.locates, (faithful.part part).2⟩
  rcases List.mem_cons.mp hs with rfl | hs
  · have own := inside (.refl _)
    rw [a.span_spans] at own
    exact own
  · obtain ⟨e, he, hs⟩ := List.mem_flatMap.mp hs
    obtain ⟨x, hx, rfl⟩ := List.mem_map.mp hs
    rw [← x.span_spans]
    exact inside ((part_of_expressions he).trans (Expr.part_of_subexpressions hx))

end Fragment

/-! ## Errors of what has been read -/

namespace Span

variable {source : List Char} {s : Span}

/-- The line and the column of a span are those of the place where it begins. -/
theorem Locates.exists_front (h : s.Locates source) :
    ∃ front back, source = front ++ back ∧
      Position.first.advance front = ⟨s.start, s.line, s.column⟩ := by
  obtain ⟨⟨front, back⟩, hcut⟩ := Option.isSome_iff_exists.mp h.front
  obtain ⟨hsource, hlength⟩ := Text.append_of_cut? hcut
  have place : Position.ofOffset source s.start = Position.first.advance front := by
    rw [Position.ofOffset, hcut]
  obtain ⟨line, column⟩ := h.located ⟨.missingResponse, s⟩ rfl
  rw [Error.locate, place] at line column
  have offset : (Position.first.advance front).offset = s.start := by
    rw [Position.offset_advance, hlength]
    exact Nat.zero_add _
  exact ⟨front, back, hsource.symm, by rw [← offset, ← line, ← column]⟩

/-- An error that has been placed at a piece of the text and located has the span of the piece. -/
theorem Locates.span_locate (h : s.Locates source) (c : Cause) :
    ((c.on s).locate source).span = s := by
  obtain ⟨line, column⟩ := h.located (c.on s) rfl
  have stop : ((c.on s).locate source).span.stop = s.stop := Nat.max_eq_left h.le
  calc ((c.on s).locate source).span
      = ⟨s.start, ((c.on s).locate source).span.stop, ((c.on s).locate source).span.line,
          ((c.on s).locate source).span.column⟩ := rfl
    _ = s := by rw [stop, line, column]

end Span

/-- The expressions that are read from a text: the text is the expression, or it is the header of
an each block, or a template with the expression in it. -/
inductive Expr.ReadFrom (source : String) : Expr → Prop where
  | text {e : Expr} (h : Expr.ofText source = .ok e) : ReadFrom source e
  | header {header : EachHeader} {s : Span}
    (h : EachHeader.ofTokens (Token.ofText source.toList) s = .ok header) :
    ReadFrom source header.expression
  | node {f : Fragment} {e : Expr} (h : Fragment.ofText source = .ok f)
    (he : e ∈ Node.allExpressions f.children) : ReadFrom source e

theorem Expr.ReadFrom.faithful {source : String} {e : Expr} (h : ReadFrom source e) :
    e.spans.Faithful source.toList := by
  have tokens := Token.tokens_scanAll .alone 0 Position.first source.toList
    (Text.Cursor.on_start source.toList)
  cases h with
  | text h => exact (Expr.laidOut_of_ofTokens tokens h).within.faithful _ List.mem_cons_self
  | header h => exact (Template.laidOut_of_header tokens h).within.faithful _ List.mem_cons_self
  | node h he =>
    obtain ⟨a, ha, he⟩ := List.mem_flatMap.mp he
    exact ((Fragment.faithful_of_walk h ha).part (Node.part_of_expressions he)).1

namespace Chain

variable {source : String} {parameters : List (String × Value)} {first c : Chain} {host : Host}
  {calls : List Call} {response : Option (List Part)}

/-- What a chain has left is left of the template that it was started with. -/
theorem resumed_of_reaches (started : start source parameters = .ok first)
    (h : Reaches host first c calls) : c.source = source ∧ Fragment.Resumed source c.rest := by
  induction h with
  | start calls =>
    obtain ⟨f, hf, rfl⟩ := exists_of_start started
    exact ⟨rfl, .read hf⟩
  | @call c calls h response ih =>
    obtain ⟨fault, -, hstep⟩ | ⟨s, -, hstep⟩ |
        ⟨-, hr, ⟨e, d, hrun, hstep⟩ | ⟨flow, d, hrun, hstep⟩⟩ := step_cases host c response calls
    · rw [hstep]
      exact ih
    · rw [hstep]
      exact ih
    · rw [hstep]
      exact ih
    · rw [hstep]
      obtain ⟨same, resumed⟩ := ih
      have compiled := @run_compile host c response calls hr
      rw [hrun, same] at compiled
      exact ⟨same, resumed.rest compiled⟩

/-- The error of a call is that of a compilation of what is left. -/
theorem compile_of_step {err : Error}
    (h : ((c.step host response).run calls).1.1 = .error (.compile err)) :
    ∃ after, (c.rest.compile host c.source c.scope response).run calls = (.error err, after) := by
  obtain ⟨fault, refused, hstep⟩ | ⟨s, hr, hstep⟩ |
      ⟨-, hr, ⟨e, d, hrun, hstep⟩ | ⟨flow, d, hrun, hstep⟩⟩ := step_cases host c response calls
  · rw [hstep] at h
    exact absurd (Except.error.inj h) (ne_compile_of_objection refused err)
  · rw [hstep] at h
    cases h
    exact ⟨_, Fragment.compile_of_reference hr⟩
  · rw [hstep] at h
    cases h
    have compiled := @run_compile host c response calls hr
    rw [hrun] at compiled
    exact ⟨_, compiled⟩
  · rw [hstep] at h
    cases h

/-- The error of an evaluation of an expression that has been read begins and ends where a part
of the expression does. The error of a call of a chain, however many calls have been made before
it, has the span of a node of the template that was read, or of a part of an expression in it,
and lies inside of the node; and its line and its column are those of the place where it begins
in the text. -/
theorem errors_inside :
    (∀ source e, Expr.ReadFrom source e → ∀ (host : Host) (w : World) (err : Error)
      (after : World), (Expr.evaluate host e).run w = (.error err, after) →
        ∃ x ∈ e.subexpressions, err.span.start = x.span.start ∧ err.span.stop = x.span.stop) ∧
    ∀ source parameters first, start source parameters = .ok first →
      ∃ f, Fragment.ofText source = .ok f ∧
        ∀ (host : Host) (c : Chain) (calls : List Call), Reaches host first c calls →
          ∀ (response : Option (List Part)) (err : Error),
            ((c.step host response).run calls).1.1 = .error (.compile err) →
            ∃ a ∈ f.walk,
              (err.span = a.span ∨
                ∃ e ∈ a.expressions, ∃ x ∈ e.subexpressions, err.span = x.span) ∧
              a.span.start ≤ err.span.start ∧ err.span.stop ≤ a.span.stop ∧
              ∃ front back, source.toList = front ++ back ∧
                Position.first.advance front =
                  ⟨err.span.start, err.span.line, err.span.column⟩ := by
  constructor
  · intro source e h host w err after hrun
    obtain ⟨-, s, hs, cause, rfl⟩ := (Expr.among_evaluate host e w).of_error hrun
    obtain ⟨x, hx, rfl⟩ := List.mem_map.mp hs
    have located := (h.faithful.part (Expr.part_of_subexpressions hx)).1.locates
    rw [x.span_spans] at located
    exact ⟨x, hx, rfl, Nat.max_eq_left located.le⟩
  · intro source parameters first started
    obtain ⟨f, hf, -⟩ := exists_of_start started
    refine ⟨f, hf, fun host c calls reached response err failed => ?_⟩
    obtain ⟨same, resumed⟩ := resumed_of_reaches started reached
    obtain ⟨after, hcompile⟩ := compile_of_step failed
    rw [same] at hcompile
    -- the place is that of a node that is left, and so that of one that was read
    obtain ⟨b, hb, s, hs, cause, rfl⟩ := Fragment.among_compile hcompile
    obtain ⟨g, hg, placed⟩ := resumed.placedIn
    cases hf.symm.trans hg
    obtain ⟨a, ha, sub⟩ := placed b hb
    obtain ⟨located, start, stop⟩ := Fragment.locates_of_places hf ha (sub hs)
    refine ⟨a, ha, ?_⟩
    rw [located.span_locate cause]
    refine ⟨?_, start, stop, located.exists_front⟩
    rcases List.mem_cons.mp (sub hs) with rfl | inner
    · exact .inl rfl
    · obtain ⟨e, he, place⟩ := List.mem_flatMap.mp inner
      obtain ⟨x, hx, rfl⟩ := List.mem_map.mp place
      exact .inr ⟨e, he, x, hx, rfl⟩

/-- Where a call fails in a compilation. -/
def failedAt? : Except ChainFault ChainStep → Option Span
  | .error (.compile e) => some e.span
  | _ => none

theorem exists_of_failedAt? {r : Except ChainFault ChainStep} {s : Span}
    (h : failedAt? r = some s) : ∃ e, r = .error (.compile e) ∧ e.span = s := by
  unfold failedAt? at h
  split at h
  · exact ⟨_, rfl, Option.some.inj h⟩
  · cases h

/-- A variable that is not there, on the line after a step inside a block. -/
theorem errors_inside_step :
    ∃ source first next calls err,
      source = "\x7b\x7b#if true\x7d\x7d<step/>\n\x7b\x7b!b\x7d\x7d\x7b\x7b/if\x7d\x7d" ∧
      start source [] = .ok first ∧ Reaches (fun _ _ => .error "") first next calls ∧
      ((next.step (fun _ _ => .error "") (some [])).run calls).1.1 = .error (.compile err) ∧
      err.span = ⟨23, 24, 2, 4⟩ ∧
      ∃ f, Fragment.ofText source = .ok f ∧ ∃ a ∈ f.walk,
        (err.span = a.span ∨ ∃ e ∈ a.expressions, ∃ x ∈ e.subexpressions, err.span = x.span) ∧
        a.span.start ≤ err.span.start ∧ err.span.stop ≤ a.span.stop ∧
        ∃ front back, source.toList = front ++ back ∧
          Position.first.advance front = ⟨err.span.start, err.span.line, err.span.column⟩ := by
  have fails : ((start
      "\x7b\x7b#if true\x7d\x7d<step/>\n\x7b\x7b!b\x7d\x7d\x7b\x7b/if\x7d\x7d" []).toOption.any
      fun first =>
        let next := (first.step (fun _ _ => .error "") none).run []
        failedAt? ((next.1.2.step (fun _ _ => .error "") (some [])).run next.2).1.1 ==
          some ⟨23, 24, 2, 4⟩) = true := by decide +kernel
  cases h : start
      "\x7b\x7b#if true\x7d\x7d<step/>\n\x7b\x7b!b\x7d\x7d\x7b\x7b/if\x7d\x7d" [] with
  | error e => simp [h, Except.toOption] at fails
  | ok first =>
    rw [h] at fails
    obtain ⟨err, failed, place⟩ := exists_of_failedAt? (eq_of_beq fails)
    have reached : Reaches (fun _ _ => .error "") first _ _ := .call (.start []) none
    obtain ⟨f, hf, inside⟩ := errors_inside.2 _ [] first h
    exact ⟨_, first, _, _, err, rfl, h, reached, failed, place, f, hf,
      inside _ _ _ reached (some []) err failed⟩

end Chain

end PromptTemplate
