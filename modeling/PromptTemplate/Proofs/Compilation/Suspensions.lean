import PromptTemplate.Proofs.Compilation.Visits
import PromptTemplate.Proofs.Compilation.Closure
import PromptTemplate.Proofs.Compilation.Whole

/-!
# Where walks stop

A walk that stops has come to a step outside of messages and content tags, and a walk that
ends with settings of a step without stopping has come to a step inside a message or a
content tag. So no stop is lost outside of them, for any nodes and in any state.
-/

namespace PromptTemplate

/-- What a walk over some nodes followed by others leaves, if a walk over the first is not
followed by another. -/
def Flow.followedBy (rest : List Node) : Flow → Flow
  | .done => .done
  | .suspended left => .suspended (left ++ rest)

namespace Compile

open Compilation

/-- What a walk can show for how it ends: the step at which it has stopped; or no settings of
a step that it has not found, unless it has come to a step inside a message or a content tag. -/
def Accounts (host : Host) (nodes : List Node) (c : Compilation) : Flow → Compilation → Prop
  | .done, e => e.stepConfig = c.stepConfig ∨
      ∃ v, Visits host nodes c v ∧ v.node.isStep = true ∧ ¬ v.Outside
  | .suspended left, e => ∃ v as children s, Visits host nodes c v ∧ v.Outside ∧
      v.node = .step as children s ∧ v.Stops host as (.suspended left) e

variable {host : Host} {a : Node} {children rest : List Node} {c d e : Compilation}

/-- A walk that accounts for how it ends. -/
def Accounted (host : Host) (a : Node) (rest : List Node) (c : Compilation) (p : Compile Flow)
    (d : Compilation) : Prop :=
  Ends p d (fun flow e => Accounts host (a :: rest) c (flow.followedBy rest) e) (fun _ _ => True)

theorem accounted_done (h : d.stepConfig = c.stepConfig) :
    Accounted host a rest c (return .done) d := Or.inl h

/-- An action before the rest of a walk. -/
theorem Accounted.after {α : Type} {p : Compile α} {f : α → Compile Flow}
    (hp : Keeps (Fixes (·.stepConfig)) (fun _ => True) p) (hd : d.stepConfig = c.stepConfig)
    (hf : ∀ x e, p.run d = (.ok x, e) → e.stepConfig = c.stepConfig →
      Accounted host a rest c (f x) e) : Accounted host a rest c (p >>= f) d := by
  rw [Accounted, ends_bind]
  rcases hrun : p.run d with ⟨err | x, e⟩
  · rw [Ends, hrun]
    trivial
  · have fixed := (hp d).of_ok hrun
    rw [Ends, hrun]
    exact hf x e hrun (fixed.trans hd)

theorem Accounts.under_done (enters : Enters host a c children d)
    (hd : d.stepConfig = c.stepConfig) (h : Accounts host children d .done e) (rest : List Node) :
    Accounts host (a :: rest) c .done e := by
  rcases h with h | ⟨v, hv, hstep, inside⟩
  · exact Or.inl (h.trans hd)
  · refine Or.inr ⟨v.under a rest, .inside enters hv rest, hstep, fun outside => inside ?_⟩
    exact (List.forall_mem_cons.mp outside).2

theorem Accounts.under_suspended (enters : Enters host a c children d)
    (plain : a.isMessage = false ∧ a.isContent = false) {left : List Node}
    (h : Accounts host children d (.suspended left) e) (rest : List Node) :
    Accounts host (a :: rest) c (.suspended (.scoped left a.span :: rest)) e := by
  obtain ⟨v, as, inner, s, hv, outside, hnode, name, config, f, hattributes, heq, hconfig⟩ := h
  cases heq
  refine ⟨v.under a rest, as, inner, s, .inside enters hv rest, ?_, hnode, ?_⟩
  · exact List.forall_mem_cons.mpr ⟨plain, outside⟩
  · exact ⟨name, config, f, hattributes, rfl, hconfig⟩

/-- A stop inside a message or a content tag is not reported, but the step is found. -/
theorem Accounts.under_tag (enters : Enters host a c children d)
    (tag : a.isMessage = true ∨ a.isContent = true) (hd : d.stepConfig = c.stepConfig)
    {flow : Flow} (h : Accounts host children d flow e) (rest : List Node) :
    Accounts host (a :: rest) c .done e := by
  cases flow with
  | done => exact h.under_done enters hd rest
  | suspended left =>
    obtain ⟨v, as, inner, s, hv, outside, hnode, -⟩ := h
    refine Or.inr ⟨v.under a rest, .inside enters hv rest, by rw [Visit.under, hnode]; rfl, ?_⟩
    intro none_around
    obtain ⟨hmessage, hcontent⟩ := (List.forall_mem_cons.mp none_around).1
    rcases tag with tag | tag
    · rw [hmessage] at tag
      cases tag
    · rw [hcontent] at tag
      cases tag

/-- The end of a walk over the body of a block. -/
theorem Accounts.leave (enters : Enters host a c children d)
    (plain : a.isMessage = false ∧ a.isContent = false) (hd : d.stepConfig = c.stepConfig)
    {flow : Flow} (h : Accounts host children d flow e) (rest : List Node) :
    Accounted host a rest c (leave a.span flow) e := by
  cases flow with
  | done => exact h.under_done enters hd rest
  | suspended left => exact h.under_suspended enters plain rest

theorem Accounted.inFrame (enters : Enters host a c children d.framed)
    (plain : a.isMessage = false ∧ a.isContent = false) (hd : d.stepConfig = c.stepConfig)
    (h : Ends (walkAll host children) d.framed (Accounts host children d.framed) (fun _ _ => True))
    (rest : List Node) : Accounted host a rest c (inFrame a.span (walkAll host children)) d := by
  simp only [Accounted, Compile.inFrame, changeScope, ends_bind, ends_modify]
  exact h.imp (fun flow e he => he.leave enters plain hd rest) (fun _ _ h => h)

theorem Accounts.congr {nodes : List Node} {f : Compilation} (h : Accounts host nodes c .done e)
    (hf : f.stepConfig = e.stepConfig) : Accounts host nodes c .done f := by
  rcases h with h | found
  · exact Or.inl (hf.trans h)
  · exact Or.inr found

/-- Something after a walk that is done. -/
theorem Accounts.finish {p : Compile Unit} (h : Accounts host (a :: rest) c .done e)
    (hp : Keeps (Fixes (·.stepConfig)) (fun _ => True) p) :
    Accounted host a rest c (do
      p
      return .done) e := by
  rw [Accounted, ends_bind]
  exact (hp e).imp (fun _ f fixed => h.congr fixed) (fun _ _ _ => trivial)

/-- The walk of the nodes after a node. -/
theorem Accounts.later (first : Accounts host (a :: rest) c .done d)
    (done : (walk host a).run c = (.ok .done, d)) {flow : Flow}
    (h : Accounts host rest d flow e) : Accounts host (a :: rest) c flow e := by
  cases flow with
  | done =>
    rcases h with h | ⟨v, hv, hstep, inside⟩
    · rcases first with first | found
      · exact Or.inl (h.trans first)
      · exact Or.inr found
    · exact Or.inr ⟨v, .later done hv, hstep, inside⟩
  | suspended left =>
    obtain ⟨v, as, inner, s, hv, hstops⟩ := h
    exact ⟨v, as, inner, s, .later done hv, hstops⟩

theorem run_forItems_concat {context : String} {index : Option String} {s : Span}
    {body : Compile Flow} {before : List Value} {w : Value}
    (hbefore : (forItems context index s body 0 before).run c = (.ok (), d))
    (hw : body.run (d.atItem context index before.length w) = (.ok .done, e)) :
    (forItems context index s body 0 (before ++ [w])).run c = closeFrame.run e := by
  rw [run_forItems_append [w] hbefore, Nat.zero_add, run_forItems_cons]
  exact run_bind_ok hw _

/-- The walk over the items of an each block accounts for how it ends if the walk over its body
does. -/
theorem accounted_forItems {x : Expr} {v : Value} {context : String} {index : Option String}
    {body : List Node} {alternate : Option (List Node)} {s : Span}
    (hv : (evaluate host x).run c = (.ok v, d))
    (hbody : ∀ f, Ends (walkAll host body) f (Accounts host body f) (fun _ _ => True))
    (before after : List Value) (hitems : v.iterated = before ++ after)
    (hbefore : (forItems context index s (walkAll host body) 0 before).run d = (.ok (), e))
    (he : Accounts host (.eachBlock x context index body alternate s :: rest) c .done e) :
    Ends (forItems context index s (walkAll host body) before.length after) e
      (fun _ f => Accounts host (.eachBlock x context index body alternate s :: rest) c .done f)
      (fun _ _ => True) := by
  -- The items before are part of the statement, because a visit inside an item has to say them.
  induction after generalizing before e with
  | nil => exact he
  | cons w more ih =>
    rcases he with fixed | found
    · have enters : Enters host (.eachBlock x context index body alternate s) c body
          (e.atItem context index before.length w) := .item hv hitems hbefore alternate
      rw [Ends, run_forItems_cons]
      have walked := hbody (e.atItem context index before.length w)
      rcases hrun : (walkAll host body).run (e.atItem context index before.length w) with
        ⟨err | ⟨_ | left⟩, f⟩
      · rw [run_bind_error hrun]
        trivial
      · obtain ⟨g, hclose, hg⟩ : ∃ g, closeFrame.run f = (.ok (), g) ∧
            g.stepConfig = f.stepConfig := ⟨_, rfl, rfl⟩
        have accounts := ((walked.of_ok hrun).under_done enters fixed rest).congr hg
        have next := ih (before ++ [w]) (by simp [hitems])
          ((run_forItems_concat hbefore hrun).trans hclose) accounts
        rw [List.length_append] at next
        rw [run_bind_ok hrun, run_bind_ok hclose]
        exact next
      · rw [run_bind_ok hrun]
        trivial
    · exact Ends.any.imp (fun _ _ _ => Or.inr found) (fun _ _ h => h)

mutual

theorem accounted_walk (host : Host) : ∀ (a : Node) (rest : List Node) (c : Compilation),
    Accounted host a rest c (walk host a) c
  | .text data _, rest, c => by
    rw [walk]
    exact .after ((closed_stepConfig host).change (.emit data)) rfl fun _ _ _ h => accounted_done h
  | .config v _, rest, c => by
    rw [walk]
    exact .after (.modify fun _ => rfl) rfl fun _ _ _ h => accounted_done h
  | .comment .., rest, c => by
    rw [walk]
    exact accounted_done rfl
  | .mustache e _, rest, c => by
    rw [walk]
    refine .after ((closed_stepConfig host).evaluate e) rfl fun v d _ hd => ?_
    split
    · exact .after ((closed_stepConfig host).change (.emit _)) hd fun _ _ _ h => accounted_done h
    · exact accounted_done hd
  | .ifBlock e consequent alternate s, rest, c => by
    rw [walk]
    refine .after ((closed_stepConfig host).evaluate e) rfl fun v d hv hd => ?_
    split
    · rename_i truthy
      exact .inFrame (.consequent hv truthy consequent alternate s) ⟨rfl, rfl⟩ hd
        (accounted_walkAll host consequent _) rest
    · rename_i falsy
      cases alternate with
      | none =>
        rw [walkOption]
        exact accounted_done hd
      | some nodes =>
        rw [walkOption]
        exact .inFrame (.alternate hv (by simpa using falsy) consequent nodes s) ⟨rfl, rfl⟩ hd
          (accounted_walkAll host nodes _) rest
  | .eachBlock e context index body alternate s, rest, c => by
    rw [walk]
    refine .after ((closed_stepConfig host).evaluate e) rfl fun v d hv hd => ?_
    dsimp only
    split
    · rename_i no_items
      cases alternate with
      | none => exact accounted_done hd
      | some nodes =>
        have enters := Enters.noItem hv (List.isEmpty_iff.mp no_items) context index body nodes s
        have walked := Accounted.inFrame enters ⟨rfl, rfl⟩ hd (accounted_walkAll host nodes _) rest
        rw [walkOption, Accounted, ends_bind]
        refine walked.imp (fun flow f hf => ?_) (fun _ _ h => h)
        cases flow with
        | done => exact hf
        | suspended left => trivial
    · rw [Accounted, ends_bind]
      exact accounted_forItems hv (accounted_walkAll host body) [] _ rfl rfl (Or.inl hd)
  | .message role as children s, rest, c => by
    rw [walk]
    refine .after ((closed_stepConfig host).openMessage role as s) rfl fun _ d hopen hd => ?_
    rw [Accounted, ends_bind]
    refine (accounted_walkAll host children d).imp (fun flow e he => ?_) (fun _ _ h => h)
    have accounts := he.under_tag (.message hopen children) (Or.inl rfl) hd rest
    exact accounts.finish ((closed_stepConfig host).change .closeMessage)
  | .content kind as children s, rest, c => by
    rw [walk]
    refine .after ((closed_stepConfig host).openContent kind s) rfl fun _ d hopen hd => ?_
    rw [Accounted, ends_bind]
    refine (accounted_walkAll host children d).imp (fun flow e he => ?_) (fun _ _ h => h)
    have accounts := he.under_tag (.content hopen as children) (Or.inr rfl) hd rest
    exact accounts.finish ((closed_stepConfig host).change (.closeContent kind))
  | .reference .., rest, c => by
    rw [walk]
    trivial
  | .step as children s, rest, c => by
    rw [walk]
    refine .after ((closed_stepConfig host).stepAttributes as none []) rfl ?_
    rintro ⟨name, config⟩ d has -
    rw [Accounted, ends_bind]
    refine Ends.any.imp (fun flow e _ => ?_) (fun _ _ h => h)
    cases flow with
    | suspended left => trivial
    | done =>
      exact ⟨⟨[], .step as children s, rest, c⟩, as, children, s, .here _ rest c,
        List.forall_mem_nil _, rfl, name, config, d, has, rfl, rfl⟩
  | .scoped children s, rest, c => by
    rw [walk, Accounted, ends_bind]
    refine (accounted_walkAll host children c).imp (fun flow e he => ?_) (fun _ _ h => h)
    exact he.leave (.resumed children s c) ⟨rfl, rfl⟩ rfl rest
  | .response name s, rest, c => by
    rw [walk]
    exact .after ((closed_stepConfig host).respond name s) rfl fun _ _ _ h => accounted_done h

theorem accounted_walkAll (host : Host) : ∀ (nodes : List Node) (c : Compilation),
    Ends (walkAll host nodes) c (Accounts host nodes c) (fun _ _ => True)
  | [], c => by
    rw [walkAll]
    exact Or.inl rfl
  | a :: rest, c => by
    rw [walkAll]
    rcases hrun : (walk host a).run c with ⟨err | ⟨_ | left⟩, d⟩
    · rw [Ends, run_bind_error hrun]
      trivial
    · have first := (accounted_walk host a rest c).of_ok hrun
      rw [ends_bind_of_ok hrun]
      exact (accounted_walkAll host rest d).imp (fun _ _ h => first.later hrun h) (fun _ _ h => h)
    · have first := (accounted_walk host a rest c).of_ok hrun
      rw [ends_bind_of_ok hrun]
      exact first

end

/-- What holds at the end of the walk over all nodes holds of the whole, if it does not depend
on the text that has been gathered by then. -/
theorem ends_whole_of_walkAll {f : Fragment} {good : Flow → Compilation → Prop}
    {bad : Error → Compilation → Prop} (h : Ends (walkAll host f.children) c good bad)
    (hflush : ∀ flow d, good flow d → good flow (Change.flush.apply d)) :
    Ends (whole host f) c good bad := by
  rw [whole, ends_bind]
  exact h.imp (fun flow d hd => hflush flow d hd) (fun _ _ h => h)

end Compile

namespace Fragment

open Compile

variable {host : Host} {source : String} {f : Fragment} {scope : Scope}
  {response : Option (List Part)} {calls : List Call} {v : Visit} {as : List Attribute}
  {children : List Node} {s : Span}

/-- A compilation that comes to a step outside of messages and content tags fails, or it does
not complete and leaves the place of the response to the step, followed by the nodes that it
has not walked. -/
theorem suspended_of_visits (source : String)
    (hv : Visits host f.children (Compilation.start ⟨scope, calls⟩ response) v)
    (hs : v.node = .step as children s) (outside : v.Outside) :
    match (f.compile host source scope response).run calls with
    | (.error _, _) => True
    | (.ok o, _) => o.completed = false ∧ ∃ name config d,
      (stepAttributes host none [] as).run v.state = (.ok (name, config), d) ∧
        o.rest = ⟨v.leaves name, f.span⟩ ∧ o.stepConfig = some config := by
  have halts : Ends (whole host f) (Compilation.start ⟨scope, calls⟩ response) (v.Stops host as)
      (fun _ _ => True) :=
    ends_whole_of_walkAll (halts_of_visits hv outside hs) fun _ d hd =>
      hd.congr (Change.stepConfig_apply .flush d)
  rcases compile_cases host source f scope response calls with
    ⟨s, -, hcompile⟩ | ⟨-, ⟨e, d, -, hcompile⟩ | ⟨flow, d, hrun, hcompile⟩⟩
  · rw [hcompile]
    trivial
  · rw [hcompile]
    trivial
  · obtain ⟨name, config, g, hattributes, rfl, hconfig⟩ := halts.of_ok hrun
    rw [hcompile]
    exact ⟨rfl, name, config, g, hattributes, rfl, hconfig⟩

/-- A step in a block leaves the rest of the block in its frame, and what follows the block. -/
theorem suspended_of_visits_block :
    ∃ (f : Fragment) (v : Visit) (o : Outcome),
      f.children = [.ifBlock (.literal (.bool true) Span.none)
        [.step [] [] Span.none, .text "a" Span.none] none Span.none, .text "b" Span.none] ∧
      Visits (fun _ _ => .error "") f.children (Compilation.start ⟨Scope.empty, []⟩ none) v ∧
      v.node = .step [] [] Span.none ∧ v.Outside ∧
      (f.compile (fun _ _ => .error "") "" Scope.empty none).run [] = (.ok o, []) ∧
      o.completed = false ∧ o.rest.children =
        [.scoped [.response none Span.none, .text "a" Span.none] Span.none,
          .text "b" Span.none] := by
  have hv : Visits (fun _ _ => .error "")
      [.ifBlock (.literal (.bool true) Span.none)
        [.step [] [] Span.none, .text "a" Span.none] none Span.none, .text "b" Span.none]
      (Compilation.start ⟨Scope.empty, []⟩ none) _ :=
    .inside (.consequent rfl rfl _ _ _) (.here _ _ _) _
  have stopped := suspended_of_visits (f := ⟨_, Span.none⟩) "" hv rfl
    (List.forall_mem_singleton.mpr ⟨rfl, rfl⟩)
  obtain ⟨hcompleted, name, config, d, hattributes, hrest, -⟩ := stopped
  cases hattributes
  refine ⟨⟨_, Span.none⟩, _, _, rfl, hv, rfl, ?_, rfl, hcompleted,
    congrArg Fragment.children hrest⟩
  exact List.forall_mem_singleton.mpr ⟨rfl, rfl⟩

/-- A step in a message is not stopped at. -/
theorem completed_of_step_in_message :
    ∃ (f : Fragment) (v : Visit) (o : Outcome),
      f.children = [.message (some .user) [] [.step [] [] Span.none] Span.none] ∧
      Visits (fun _ _ => .error "") f.children (Compilation.start ⟨Scope.empty, []⟩ none) v ∧
      v.node = .step [] [] Span.none ∧
      (f.compile (fun _ _ => .error "") "" Scope.empty none).run [] = (.ok o, []) ∧
      o.completed = true ∧ o.rest.children = [] :=
  ⟨⟨_, Span.none⟩, _, _, rfl, .inside (.message rfl _) (.here _ _ _) _, rfl, rfl, rfl, rfl⟩

end Fragment

end PromptTemplate
