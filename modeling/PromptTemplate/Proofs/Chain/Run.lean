import PromptTemplate.Proofs.Compilation.Whole
import PromptTemplate.Chain

/-!
# Runs of chains

A run of a chain is a list of calls, each with a response or without one. A call that is
refused, and one that fails, leaves the chain as it was; every other call compiles what is
left up to the next step.
-/

namespace PromptTemplate

namespace Chain

/-- The results of calls one after another, and the chain after them. -/
def run (host : Host) (c : Chain) : List (Option (List Part)) →
    StateM (List Call) (List (Except ChainFault ChainStep) × Chain)
  | [] => return ([], c)
  | response :: rest => do
    let (result, next) ← c.step host response
    let (results, last) ← next.run host rest
    return (result :: results, last)

/-- The chains that calls lead to from a chain, with the calls of functions of the host
that are recorded by then. -/
inductive Reaches (host : Host) (first : Chain) : Chain → List Call → Prop where
  | start (calls : List Call) : Reaches host first first calls
  | call {c : Chain} {calls : List Call} (h : Reaches host first c calls)
    (response : Option (List Part)) :
    Reaches host first ((c.step host response).run calls).1.2 ((c.step host response).run calls).2

/-- A chain starts with all of a template that can be read. -/
theorem exists_of_start {source : String} {parameters : List (String × Value)} {c : Chain}
    (h : start source parameters = .ok c) :
    ∃ f, Fragment.ofText source = .ok f ∧
      c = ⟨source, f, Scope.ofParameters parameters, [], [], .notStarted⟩ := by
  rw [start] at h
  cases hf : Fragment.ofText source with
  | error e =>
    rw [hf] at h
    cases h
  | ok f =>
    rw [hf] at h
    cases h
    exact ⟨f, rfl, rfl⟩

variable {host : Host} {c : Chain} {response : Option (List Part)} {calls : List Call}

/-- The compilation behind a call. -/
def compilation (host : Host) (c : Chain) (response : Option (List Part)) (calls : List Call) :
    Except Error Flow × Compilation :=
  (Compile.whole host c.rest).run (Compilation.start ⟨c.scope, calls⟩ response)

/-- The chain after a compilation that went well. -/
def advanced (c : Chain) (flow : Flow) (d : Compilation) : Chain := c.after (d.outcome c.rest flow)

/-- What a call returns after a compilation that went well. -/
def stepAfter (c : Chain) (flow : Flow) (d : Compilation) : ChainStep :=
  ⟨⟨Dictionary.overlay (c.advanced flow d).config (d.stepConfig.getD []),
    (c.advanced flow d).messages⟩, (d.outcome c.rest flow).completed⟩

theorem run_cons (host : Host) (c : Chain) (response : Option (List Part))
    (rest : List (Option (List Part))) (calls : List Call) :
    (c.run host (response :: rest)).run calls =
      (fun step => (fun more => ((step.1.1 :: more.1.1, more.1.2), more.2))
        ((step.1.2.run host rest).run step.2)) ((c.step host response).run calls) := rfl

theorem step_of_objection {fault : ChainFault} (h : c.objection? response = some fault) :
    (c.step host response).run calls = ((.error fault, c), calls) := by
  rw [step]
  rw [h]
  rfl

theorem step_of_reference {s : Span} (h : c.objection? response = none)
    (hr : c.rest.reference? = some s) :
    (c.step host response).run calls =
      ((.error (.compile ((Cause.unresolvedReference.on s).locate c.source.toList)), c),
        calls) := by
  rw [step, Fragment.compile]
  rw [h, hr]
  rfl

/-- A call that is not refused compiles what is left. -/
theorem run_compile (hr : c.rest.reference? = none) :
    (c.rest.compile host c.source c.scope response).run calls =
      match c.compilation host response calls with
      | (.ok flow, d) => (.ok (d.outcome c.rest flow), d.world.calls)
      | (.error e, d) => (.error (e.locate c.source.toList), d.world.calls) := by
  rw [Fragment.compile_eq hr]
  rfl

theorem step_eq (h : c.objection? response = none) (hr : c.rest.reference? = none) :
    (c.step host response).run calls =
      match c.compilation host response calls with
      | (.ok flow, d) => ((.ok (c.stepAfter flow d), c.advanced flow d), d.world.calls)
      | (.error e, d) => ((.error (.compile (e.locate c.source.toList)), c), d.world.calls) := by
  have compiled : StateT.run (c.rest.compile host c.source c.scope response).run calls = _ :=
    run_compile hr
  rw [step]
  rw [h]
  rcases hrun : c.compilation host response calls with ⟨_ | _, d⟩ <;>
  · rw [hrun] at compiled
    dsimp only
    rw [StateT.run_bind, compiled]
    rfl

/-- A prompt without steps is rendered by one call. -/
theorem run_render {source : String} {parameters : List (String × Value)} {next : Chain}
    {s : ChainStep} {after : List Call} (started : start source parameters = .ok c)
    (stepped : (c.step host none).run calls = ((.ok s, next), after)) (done : s.completed = true) :
    (render host source parameters).run calls = (.ok s.conversation, after) := by
  rw [render, started]
  dsimp only
  rw [StateT.run_bind, stepped]
  dsimp only [bind, pure, StateT.pure, StateT.run]
  rw [if_pos done]
  rfl

theorem ne_compile_of_objection {fault : ChainFault} (h : c.objection? response = some fault)
    (e : Error) : fault ≠ .compile e := by
  rintro rfl
  simp only [objection?] at h
  split at h <;> cases h

/-- What a call can do: it is refused, or what is left has a reference tag, or the compilation
fails, or the chain is advanced. -/
theorem step_cases (host : Host) (c : Chain) (response : Option (List Part)) (calls : List Call) :
    (∃ fault, c.objection? response = some fault ∧
      (c.step host response).run calls = ((.error fault, c), calls)) ∨
    (∃ s, c.rest.reference? = some s ∧ (c.step host response).run calls =
      ((.error (.compile ((Cause.unresolvedReference.on s).locate c.source.toList)), c), calls)) ∨
    (c.objection? response = none ∧ c.rest.reference? = none ∧
      ((∃ e d, c.compilation host response calls = (.error e, d) ∧
        (c.step host response).run calls =
          ((.error (.compile (e.locate c.source.toList)), c), d.world.calls)) ∨
      ∃ flow d, c.compilation host response calls = (.ok flow, d) ∧
        (c.step host response).run calls =
          ((.ok (c.stepAfter flow d), c.advanced flow d), d.world.calls))) := by
  cases ho : c.objection? response with
  | some fault => exact .inl ⟨fault, rfl, step_of_objection ho⟩
  | none =>
    cases hr : c.rest.reference? with
    | some s => exact .inr (.inl ⟨s, rfl, step_of_reference ho hr⟩)
    | none =>
      refine .inr (.inr ⟨rfl, rfl, ?_⟩)
      rw [step_eq ho hr]
      rcases c.compilation host response calls with ⟨e | flow, d⟩
      · exact .inl ⟨e, d, rfl, rfl⟩
      · exact .inr ⟨flow, d, rfl, rfl⟩

/-- A chain that has completed refuses all calls. -/
theorem results_of_completed (h : c.state = .completed) (inputs : List (Option (List Part))) :
    ((c.run host inputs).run calls).1.1 = inputs.map fun _ => .error .alreadyCompleted := by
  induction inputs with
  | nil => rfl
  | cons response rest ih =>
    have refused : c.objection? response = some .alreadyCompleted := by simp [objection?, h]
    rw [run_cons, step_of_objection refused]
    exact congrArg (_ :: ·) ih

end Chain

end PromptTemplate
