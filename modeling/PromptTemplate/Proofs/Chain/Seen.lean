import PromptTemplate.Proofs.Chain.Run
import PromptTemplate.Proofs.Compilation.Seen

/-!
# Chains over what is seen

Chains over templates of which the same is seen answer alike: with the same conversations, and
with the same faults up to the places of errors.
-/

namespace PromptTemplate

open Compile

/-- There is a reference tag if one is found. -/
theorem Fragment.reference?_eq_none_iff (f : Fragment) :
    f.reference? = none ↔ Node.references f.children = [] := by
  rw [reference?, walk, Node.references, List.findSome?_eq_none_iff, List.filterMap_eq_nil_iff]
  refine forall₂_congr fun a _ => ?_
  cases a <;> simp [Node.reference?]

namespace Chain

/-- A result without the place of its error. -/
def withoutPlace : Except ChainFault ChainStep → Except ChainFault ChainStep
  | .error (.compile e) => .error (.compile (Error.unplaced e.cause))
  | r => r

/-- Two chains that differ in the text that they are over, but not in what is seen of it. -/
structure Similar (c c' : Chain) : Prop where
  seen : Node.seenAll c'.rest.children = Node.seenAll c.rest.children
  scope : c'.scope = c.scope
  messages : c'.messages = c.messages
  config : c'.config = c.config
  state : c'.state = c.state

variable {c c' : Chain}

namespace Similar

theorem objection? (h : Similar c c') (response : Option (List Part)) :
    c'.objection? response = c.objection? response := by
  unfold Chain.objection?
  rw [h.state]

theorem reference? (h : Similar c c') : c'.rest.reference? = none ↔ c.rest.reference? = none := by
  have same := congrArg Node.references h.seen
  rw [Node.references_seenAll, Node.references_seenAll] at same
  rw [Fragment.reference?_eq_none_iff, Fragment.reference?_eq_none_iff,
    ← List.map_eq_nil_iff (f := Node.bareReference), same, List.map_eq_nil_iff]

/-- Similar chains are advanced alike. -/
theorem advanced (h : Similar c c') {flow flow' : Flow} (hflow : flow'.seen = flow.seen)
    (d : Compilation) :
    Similar (c.advanced flow d) (c'.advanced flow' d) ∧
      c'.stepAfter flow' d = c.stepAfter flow d := by
  have same : Similar (c.advanced flow d) (c'.advanced flow' d) := by
    refine ⟨?_, rfl, ?_, ?_, ?_⟩
    · cases flow <;> cases flow' <;> first | rfl | exact Flow.suspended.inj hflow | cases hflow
    · exact congrArg (· ++ d.messages) h.messages
    · exact congrArg (d.config.getD ·) h.config
    · cases flow <;> cases flow' <;> first | rfl | cases hflow
  refine ⟨same, ?_⟩
  have completed : (d.outcome c'.rest flow').completed = (d.outcome c.rest flow).completed := by
    cases flow <;> cases flow' <;> first | rfl | cases hflow
  rw [stepAfter, stepAfter, same.config, same.messages, completed]

/-- A call of similar chains. -/
theorem step (h : Similar c c') (host : Host) (response : Option (List Part)) (calls : List Call) :
    withoutPlace ((c'.step host response).run calls).1.1 =
        withoutPlace ((c.step host response).run calls).1.1 ∧
      Similar ((c.step host response).run calls).1.2 ((c'.step host response).run calls).1.2 ∧
      ((c'.step host response).run calls).2 = ((c.step host response).run calls).2 := by
  cases ho : c.objection? response with
  | some fault =>
    rw [step_of_objection ho, step_of_objection ((h.objection? response).trans ho)]
    exact ⟨rfl, h, rfl⟩
  | none =>
    have ho' := (h.objection? response).trans ho
    cases hr : c.rest.reference? with
    | some s =>
      cases hr' : c'.rest.reference? with
      | none =>
        rw [h.reference?.mp hr'] at hr
        cases hr
      | some s' =>
        rw [step_of_reference ho hr, step_of_reference ho' hr']
        exact ⟨rfl, h, rfl⟩
    | none =>
      rw [step_eq ho hr, step_eq ho' (h.reference?.mpr hr)]
      obtain ⟨results, states⟩ :=
        resembles_whole host h.seen (Compilation.start ⟨c.scope, calls⟩ response)
      rw [compilation, compilation, h.scope]
      rcases hp : (whole host c.rest).run (Compilation.start ⟨c.scope, calls⟩ response) with ⟨r, d⟩
      rcases hq : (whole host c'.rest).run (Compilation.start ⟨c.scope, calls⟩ response) with
        ⟨r', d'⟩
      rw [hp, hq] at results states
      cases states
      cases results with
      | error same =>
        refine ⟨?_, h, rfl⟩
        exact congrArg (fun cause => Except.error (ChainFault.compile (Error.unplaced cause))) same
      | ok same =>
        obtain ⟨advanced, after⟩ := h.advanced same d
        exact ⟨congrArg (fun step => withoutPlace (.ok step)) after, advanced, rfl⟩

/-- Calls of similar chains one after another. -/
theorem run (h : Similar c c') (host : Host) (inputs : List (Option (List Part)))
    (calls : List Call) :
    ((c'.run host inputs).run calls).1.1.map withoutPlace =
        ((c.run host inputs).run calls).1.1.map withoutPlace ∧
      ((c'.run host inputs).run calls).2 = ((c.run host inputs).run calls).2 := by
  induction inputs generalizing c c' calls with
  | nil => exact ⟨rfl, rfl⟩
  | cons response rest ih =>
    obtain ⟨result, next, recorded⟩ := h.step host response calls
    obtain ⟨results, recorded'⟩ := ih next ((c.step host response).run calls).2
    rw [run_cons, run_cons]
    dsimp only
    rw [recorded, List.map_cons, List.map_cons, result, results]
    exact ⟨rfl, recorded'⟩

end Similar

end Chain

end PromptTemplate
