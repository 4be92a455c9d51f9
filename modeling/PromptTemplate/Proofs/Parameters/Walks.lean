import PromptTemplate.Proofs.Parameters.Actions
import PromptTemplate.Proofs.Template.Nesting

/-!
# Direct walks and the careful analysis

A direct walk over nodes that stand where they may is assured by what the careful analysis
makes of the nodes. A frame that a block opens is closed after it, so what the block
defines is forgotten; the response to a step stays defined after the step.
-/

namespace PromptTemplate

open Analysis Template

/-! ## Names of responses -/

namespace Compile

theorem returns_piecesText (host : Host) : ∀ {ps : List Piece} {texts : List String},
    ps.mapM AttributeValue.pieceText? = some texts →
    Returns (fun s => s = String.join texts) (piecesText host ps)
  | [], texts, h => by
    cases h
    exact .pure rfl
  | .text data s :: rest, texts, h => by
    obtain ⟨more, hmore, rfl⟩ : ∃ more, rest.mapM AttributeValue.pieceText? = some more ∧
        data :: more = texts := by
      simpa [AttributeValue.pieceText?, Option.bind_eq_some_iff] using h
    refine .bind (returns_piecesText host hmore) ?_
    rintro _ rfl
    exact .pure String.join_cons.symm
  | .mustache e s :: rest, texts, h => by
    simp [AttributeValue.pieceText?] at h

/-- An attribute without expressions has its text as its value. -/
theorem returns_attributeValue (host : Host) {x : Attribute} {s : String}
    (h : x.value.staticText? = some s) :
    Returns (fun v => v.output = s) (attributeValue host x) := by
  rw [attributeValue]
  split
  · rename_i hx
    simp [hx, AttributeValue.staticText?] at h
  · rename_i e place hx
    simp [hx, AttributeValue.staticText?, AttributeValue.pieceText?] at h
  · rename_i ps _ hx
    rw [hx] at h
    obtain ⟨texts, htexts, rfl⟩ := Option.map_eq_some_iff.mp h
    refine .bind (returns_piecesText host htexts) ?_
    rintro _ rfl
    exact .pure rfl

/-- A response gets the name that its step has as plain text. -/
theorem returns_stepAttributes (host : Host) (as : List Attribute) (name : Option String)
    (config : Config) :
    Returns (fun r => (∀ s, responseName? as = some s → r.1 = some s) ∧
        (as.filter (·.name == "as") = [] → r.1 = name))
      (stepAttributes host name config as) := by
  induction as generalizing name config with
  | nil =>
    refine .pure ⟨fun s h => ?_, fun _ => rfl⟩
    cases h
  | cons x rest ih =>
    have named : Returns (fun v => ∀ s, x.value.staticText? = some s → v.output = s)
        (attributeValue host x) := by
      cases hs : x.value.staticText? with
      | none =>
        refine fun c => Ends.any.imp (fun v d _ s h => ?_) fun _ _ h => h
        cases h
      | some s =>
        refine fun c => (returns_attributeValue host hs c).imp ?_ fun _ _ h => h
        rintro v d rfl _ ⟨⟩
        rfl
    rw [stepAttributes]
    refine .bind named fun v hv => ?_
    by_cases hx : x.name = "as"
    · rw [if_pos hx]
      refine fun c => (ih (some v.output) config c).imp ?_ fun _ _ h => h
      rintro r d ⟨hlast, honly⟩
      have first : (x :: rest).filter (·.name == "as") = x :: rest.filter (·.name == "as") := by
        simp [hx]
      refine ⟨fun s hs => ?_, fun hnone => absurd (first.symm.trans hnone) (List.cons_ne_nil _ _)⟩
      rw [responseName?] at hs hlast
      rw [first] at hs
      cases hrest : rest.filter (·.name == "as") with
      | nil =>
        rw [hrest] at hs
        rw [honly hrest, hv s hs]
      | cons y more =>
        rw [hrest] at hs hlast
        exact hlast s (by simpa using hs)
    · rw [if_neg hx]
      have other : (x :: rest).filter (·.name == "as") = rest.filter (·.name == "as") := by
        simp [hx]
      rw [responseName?]
      rw [other]
      exact ih name _

end Compile

/-! ## Actions of direct walks -/

namespace Direct

open Compile

variable {given : List String} {a b : Analysis}

theorem assures_perform {α : Type} {p : Compile α} (h : Assures given a b p) :
    Assures given a b (perform p) := by
  rintro ⟨c, left⟩ hc
  have ended := h c hc
  rw [Ends] at ended ⊢
  rw [run_perform]
  rcases hrun : p.run c with ⟨e | x, d⟩
  · rw [hrun] at ended
    exact ended
  · rw [hrun] at ended
    exact ended

theorem assures_say (ps : List Part) {name known : Option String}
    (h : ∀ s, known = some s → name = some s) :
    Assures given a (a.defineOption known) (say ps name) := by
  have defines : ∀ s v, Assures given a (a.define s) (changeScope (·.set s v)) :=
    fun s v c hc => ⟨.set c.world.scope s v, hc.set s v⟩
  refine .bind (.modify fun _ => rfl) (fun _ => ?_) (by rw [used_defineOption]; exact fun _ h => h)
  cases known with
  | some s =>
    rw [h s rfl]
    exact defines s _
  | none =>
    cases name with
    | none => exact .pure _
    | some s => exact (defines s _).imp (fun _ h => h) (List.subset_cons_self _ _) (fun _ h => h)

theorem returns_perform {α : Type} {good : α → Prop} {p : Compile α} (h : Returns good p) :
    Returns good (perform p) := by
  rintro ⟨c, left⟩
  have ended := h c
  rw [Ends] at ended ⊢
  rw [run_perform]
  rcases hrun : p.run c with ⟨e | x, d⟩
  · trivial
  · rw [hrun] at ended
    exact ended

/-- A response is defined after it if it has a name. -/
theorem assures_answer {name known : Option String} (h : ∀ s, known = some s → name = some s) :
    Assures given a (a.defineOption known) (answer name) := by
  rintro ⟨c, responses⟩ hc
  cases responses with
  | nil =>
    intro e he
    cases he
  | cons ps rest => exact assures_perform (assures_say ps h) ⟨c, rest⟩ hc

/-- A frame that is opened is closed after what is inside it. -/
theorem assures_framed {opens : Scope → Scope} {inner : Analysis} {body : Direct Unit}
    (hopens : ∀ s, a.Covers given s → (opens s).outer = s.frames ∧ inner.Covers given (opens s))
    (h : Assures given inner b body) :
    Assures given a { b with defined := a.defined } (do
      perform (changeScope opens)
      body
      perform closeFrame) := by
  rintro ⟨c, left⟩ hc
  obtain ⟨houter, hinner⟩ := hopens c.world.scope hc
  rw [ends_bind]
  change Ends (body >>= fun _ => perform closeFrame)
    ⟨{ c with world := { c.world with scope := opens c.world.scope } }, left⟩ _ _
  rw [ends_bind]
  refine (h _ hinner).imp ?_ fun _ _ he => he
  rintro _ t ⟨hgrows, ht⟩
  have frames : t.compilation.world.scope.outer = c.world.scope.frames := hgrows.outer.trans houter
  have covered : a.Covers given t.compilation.world.scope.pop :=
    hc.grow (.pop frames) ht.wellFormed.pop
  exact ⟨.pop frames, covered.of_defined fun _ h => h⟩

theorem assures_inFrame {body : Direct Unit} (h : Assures given a b body) :
    Assures given a { b with defined := a.defined } (inFrame body) :=
  assures_framed (fun _ hs => ⟨rfl, hs.push⟩) h

/-- What the body of an each block defines is defined for one item only. -/
theorem assures_forItems {context : String} {index : Option String} {body : Direct Unit}
    (h : Assures given ((a.define context).defineOption index) b body) (hused : a.used ⊆ b.used)
    (i : Nat) (vs : List Value) :
    Assures given a { b with defined := a.defined } (forItems context index body i vs) := by
  induction vs generalizing i with
  | nil => exact (Assures.pure ()).imp (fun _ h => h) (fun _ h => h) hused
  | cons v rest ih =>
    have first : Assures given a { b with defined := a.defined } (do
        perform (changeScope (·.pushItem context index i v))
        body
        perform closeFrame) :=
      assures_framed (fun s hs => ⟨Scope.outer_pushItem s context index i v,
        hs.pushItem context index i v⟩) h
    have split : forItems context index body i (v :: rest) = (do
        perform (changeScope (·.pushItem context index i v))
        body
        perform closeFrame) >>= fun _ => forItems context index body (i + 1) rest := by
      simp [forItems]
    rw [split]
    exact first.bind fun _ => (ih (i + 1)).imp (fun _ h => h) (fun _ h => h) (fun _ h => h)

/-! ## Nodes -/

theorem defined_carefulOption (a : Analysis) (nodes : Option (List Node)) :
    (a.carefulOption nodes).defined = a.defined := by
  cases nodes <;> rfl

mutual

theorem assures_walk (host : Host) : ∀ (x : Node) {n : Nesting} {given : List String}
    {a : Analysis}, x.Placed n → Assures given a (a.carefulNode x) (walk host x)
  | .text data _, _, _, _, _ => by
    rw [walk, carefulNode]
    exact assures_perform (assures_emit data)
  | .config .., _, _, _, h => False.elim h
  | .comment .., _, _, _, _ => by
    rw [walk, carefulNode]
    exact .pure _
  | .mustache e _, _, _, _, _ => by
    rw [walk, carefulNode]
    exact assures_perform (.bind (assures_evaluate host e) fun v => .ite (assures_emit _) (.pure _))
  | .ifBlock e consequent alternate _, _, given, a, h => by
    rw [walk, carefulNode]
    have usedFirst := used_carefulNodes (a.carefulExpr e) consequent
    have usedSecond := used_carefulOption
      ((a.carefulExpr e).inside fun b => b.carefulNodes consequent) alternate
    refine .bind (assures_perform (assures_evaluate host e)) (fun v => .ite ?_ ?_)
      (List.Subset.trans usedFirst usedSecond)
    · refine (assures_inFrame (assures_walkAll host consequent h.1)).imp (fun _ h => h) ?_
        usedSecond
      rw [defined_carefulOption]
      intro _ h
      exact h
    · have other : Assures given ((a.carefulExpr e).inside fun b => b.carefulNodes consequent) _
          (walkOption host alternate) := assures_walkOption host alternate h.2
      exact other.imp (fun _ h => h) (fun _ h => h) (fun _ h => h)
  | .eachBlock e context index body alternate _, _, given, a, h => by
    rw [walk, carefulNode]
    have usedFirst : (a.carefulExpr e).used ⊆
        ((((a.carefulExpr e).define context).defineOption index).carefulNodes body).used := by
      have entered := used_carefulNodes (((a.carefulExpr e).define context).defineOption index) body
      rw [used_defineOption] at entered
      exact entered
    have usedSecond := used_carefulOption ((a.carefulExpr e).inside fun b =>
      ((b.define context).defineOption index).carefulNodes body) alternate
    refine .bind (assures_perform (assures_evaluate host e)) (fun v => .ite ?_ ?_)
      (List.Subset.trans usedFirst usedSecond)
    · have other : Assures given ((a.carefulExpr e).inside fun b =>
          ((b.define context).defineOption index).carefulNodes body) _
          (walkOption host alternate) := assures_walkOption host alternate h.2
      exact other.imp (fun _ h => h) (fun _ h => h) (fun _ h => h)
    · refine (assures_forItems (assures_walkAll host body h.1) usedFirst 0 _).imp (fun _ h => h) ?_
        usedSecond
      rw [defined_carefulOption]
      intro _ h
      exact h
  | .message role as children s, _, _, _, ⟨_, _, h⟩ => by
    rw [walk, carefulNode]
    refine .bind (assures_perform (assures_openMessage host role as s)) (fun _ => ?_)
      (used_carefulNodes _ children)
    exact .bind (assures_walkAll host children h) fun _ => assures_perform assures_closeMessage
  | .content kind _ children s, _, _, a, ⟨_, _, h⟩ => by
    rw [walk, carefulNode]
    refine .bind (assures_perform (assures_openContent kind s)) (fun _ => ?_)
      (used_carefulNodes a children)
    exact .bind (assures_walkAll host children h) fun _ =>
      assures_perform (assures_closeContent kind)
  | .reference _ s, _, _, _, _ => by
    rw [walk, carefulNode]
    refine .throw ?_
    rintro e ⟨⟩ ⟨⟩
  | .step as children _, _, given, a, ⟨_, _, h⟩ => by
    rw [walk, carefulNode]
    have used := used_carefulNodes (a.carefulAttributes as) children
    have named := returns_perform (returns_stepAttributes host as none [])
    refine .bind_of (assures_perform (assures_stepAttributes host none [] as)) named ?_
      (by rw [used_defineOption]; exact used)
    rintro ⟨name, config⟩ ⟨hname, -⟩
    refine .bind (assures_walkAll host children h) (fun _ => ?_)
      (by rw [used_defineOption]; exact fun _ h => h)
    refine .bind (assures_perform assures_flush) (fun _ => assures_answer hname)
      (by rw [used_defineOption]; exact fun _ h => h)
  | .scoped .., _, _, _, h => False.elim h
  | .response .., _, _, _, h => False.elim h

theorem assures_walkAll (host : Host) : ∀ (nodes : List Node) {n : Nesting} {given : List String}
    {a : Analysis}, Node.AllPlaced n nodes →
    Assures given a (a.carefulNodes nodes) (walkAll host nodes)
  | [], _, _, _, _ => by
    rw [walkAll, carefulNodes]
    exact .pure _
  | x :: rest, _, _, _, h => by
    rw [walkAll, carefulNodes]
    exact .bind (assures_walk host x h.1) (fun _ => assures_walkAll host rest h.2)
      (used_carefulNodes _ rest)

theorem assures_walkOption (host : Host) : ∀ (nodes : Option (List Node)) {n : Nesting}
    {given : List String} {a : Analysis}, Node.OptionPlaced n nodes →
    Assures given a (a.carefulOption nodes) (walkOption host nodes)
  | none, _, _, _, _ => by
    rw [walkOption, carefulOption]
    exact .pure _
  | some branch, _, _, _, h => by
    rw [walkOption, carefulOption]
    exact assures_inFrame (assures_walkAll host branch h)

end

/-- A direct walk over a template as it is written lacks a variable only if the careful
analysis reports it. -/
theorem assures_whole (host : Host) {f : Fragment} (h : f.WellNested) :
    Assures given Analysis.empty (Analysis.empty.carefulNodes f.children)
      (whole host f.children) := by
  obtain ⟨front, written, hchildren, hnodes⟩ := h
  have walked : Assures given Analysis.empty (Analysis.empty.carefulNodes f.children)
      (walkAll host f.children) := by
    rw [hchildren]
    cases front with
    | none => exact assures_walkAll host written hnodes
    | some found =>
      simp only [Option.map_some, Option.toList_some, List.cons_append, List.nil_append, walkAll,
        walk, carefulNodes, carefulNode]
      exact .bind (assures_perform (.modify fun _ => rfl))
        (fun _ => assures_walkAll host written hnodes) (used_carefulNodes _ written)
  exact walked.bind fun _ => assures_perform assures_flush

end Direct

end PromptTemplate
