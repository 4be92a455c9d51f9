import PromptTemplate.Proofs.Chain.Frames
import PromptTemplate.Proofs.Compilation.Growth
import PromptTemplate.Proofs.Compilation.Settings

/-!
# The protocol of chains

A call that fails leaves the chain as it was, so it can be left out of a run. Of the calls
that go well, the first has no response and every later one has the response to the step
before it, which it uses once, before anything else; none goes well after the last step.
Each adds to the messages of those before it. Its config is the config block of the template,
with the settings of the step that it stops at, and of no other.
-/

namespace PromptTemplate

open Template

/-! ## The place of the response -/

namespace Compile

variable {host : Host} {nodes : List Node} {c : Compilation} {v : Visit}

/-- A walk over nodes as they are written comes to no place of a response. -/
theorem Visits.written (hv : Visits host nodes c v) (h : Node.AllPlaced Nesting.none nodes)
    (hc : c.tags = (false, false)) : v.node.isResponse = false := by
  obtain ⟨m, hnode, -⟩ := hv.placed h hc
  cases hresponse : v.node with
  | response name s =>
    rw [hresponse] at hnode
    exact hnode.elim
  | _ => rfl

/-- A walk over what is left comes to exactly one place of a response. -/
theorem existsUnique_response (host : Host) {k : Nat} (h : Remainder k nodes)
    (hc : c.tags = (false, false)) :
    ∃! v, Visits host nodes c v ∧ v.node.isResponse = true := by
  induction h with
  | @here name s rest hrest =>
    refine ⟨⟨[], .response name s, rest, c⟩, ⟨.here _ rest c, rfl⟩, ?_⟩
    rintro w ⟨hw, found⟩
    cases hw with
    | here => rfl
    | @later _ _ _ d _ done hw =>
      have unchanged : d.tags = c.tags := (ends_response name s c).of_ok done
      rw [hw.written hrest (unchanged.trans hc)] at found
      cases found
    | inside enters => cases enters
  | @inside _ children hchildren s rest hrest ih =>
    -- What comes after the node has been written, and holds no place of a response.
    obtain ⟨v, ⟨hv, hresponse⟩, unique⟩ := ih
    refine ⟨v.under (.scoped children s) rest, ⟨.inside (.resumed children s c) hv rest,
      hresponse⟩, ?_⟩
    rintro w ⟨hw, found⟩
    cases hw with
    | here => cases found
    | later done hw =>
      have closed := (ends_scoped host hchildren hc s).of_ok done
      rw [hw.written hrest closed.1] at found
      cases found
    | inside enters hw =>
      cases enters
      rw [unique _ ⟨hw, found⟩]

end Compile

namespace Chain

open Compile Compilation

variable {host : Host} {c : Chain} {response : Option (List Part)} {calls : List Call}

/-! ## Calls that fail -/

/-- A call that fails leaves the chain as it was. -/
theorem next_of_error {fault : ChainFault} {next : Chain} {after : List Call}
    (h : (c.step host response).run calls = ((.error fault, next), after)) : next = c := by
  rcases step_cases host c response calls with ⟨_, -, hstep⟩ | ⟨_, -, hstep⟩ |
    ⟨-, -, ⟨_, _, -, hstep⟩ | ⟨_, _, -, hstep⟩⟩ <;>
  rw [hstep] at h
  · cases h
    rfl
  · cases h
    rfl
  · cases h
    rfl
  · cases h

/-- What a call does, it does whatever has been called before. -/
theorem step_of_calls (host : Host) (c : Chain) (response : Option (List Part))
    (calls calls' : List Call) :
    ((c.step host response).run calls').1 = ((c.step host response).run calls).1 := by
  cases ho : c.objection? response with
  | some fault => rw [step_of_objection ho, step_of_objection ho]
  | none =>
    cases hr : c.rest.reference? with
    | some s => rw [step_of_reference ho hr, step_of_reference ho hr]
    | none =>
      have same : SameBesideCalls (Compilation.start ⟨c.scope, calls⟩ response)
          (Compilation.start ⟨c.scope, calls'⟩ response) := ⟨calls', rfl⟩
      obtain ⟨hresult, hstate⟩ := whole_sameBesideCalls host c.rest _ _ same
      rw [step_eq ho hr, step_eq ho hr, compilation, compilation]
      rcases hd : (whole host c.rest).run (Compilation.start ⟨c.scope, calls⟩ response) with
        ⟨e | flow, d⟩ <;>
      · rw [hd] at hresult hstate
        rcases hd' : (whole host c.rest).run (Compilation.start ⟨c.scope, calls'⟩ response) with
          ⟨r, d'⟩
        rw [hd'] at hresult hstate
        obtain ⟨after, rfl⟩ : ∃ after, d' = d.recording after := hstate
        cases hresult
        rfl

/-- The calls of a run that go well, with their responses. -/
def successes (host : Host) (c : Chain) (inputs : List (Option (List Part)))
    (calls : List Call) : List (Option (List Part) × ChainStep) :=
  (inputs.zip ((c.run host inputs).run calls).1.1).filterMap fun (response, result) =>
    result.toOption.map fun s => (response, s)

theorem successes_of_error {fault : ChainFault} {next : Chain} {after : List Call}
    (h : (c.step host response).run calls = ((.error fault, next), after))
    (rest : List (Option (List Part))) :
    c.successes host (response :: rest) calls = next.successes host rest after := by
  simp [successes, run_cons, h, Except.toOption]

theorem successes_of_ok {s : ChainStep} {next : Chain} {after : List Call}
    (h : (c.step host response).run calls = ((.ok s, next), after))
    (rest : List (Option (List Part))) :
    c.successes host (response :: rest) calls =
      (response, s) :: next.successes host rest after := by
  simp [successes, run_cons, h, Except.toOption]

/-- Calls that fail can be left out of a run. -/
theorem run_successes (host : Host) (c : Chain) (inputs : List (Option (List Part)))
    (calls calls' : List Call) :
    ((c.run host ((c.successes host inputs calls).map (·.1))).run calls').1 =
      ((c.successes host inputs calls).map fun p => .ok p.2,
        ((c.run host inputs).run calls).1.2) := by
  induction inputs generalizing c calls calls' with
  | nil => rfl
  | cons response rest ih =>
    have same := step_of_calls host c response calls calls'
    rcases hstep : (c.step host response).run calls with ⟨⟨fault | s, next⟩, after⟩
    · obtain rfl := next_of_error hstep
      rw [successes_of_error hstep, ih next after calls', run_cons, hstep]
    · rcases hstep' : (c.step host response).run calls' with ⟨r, after'⟩
      rw [hstep, hstep'] at same
      obtain rfl : r = (.ok s, next) := same
      rw [successes_of_ok hstep]
      simp only [List.map_cons, run_cons, hstep, hstep', ih next after after']

/-! ## Calls that go well -/

/-- The messages after the last of some calls. -/
def messagesAfter (before : List (Option (List Part) × ChainStep)) : List Message :=
  (before.getLast?.map (·.2.conversation.messages)).getD []

/-- A compilation uses its response once. -/
def UsesOnce (host : Host) (f : Fragment) (c : Compilation) : Prop :=
  ∃! v, Visits host f.children c v ∧ v.node.isResponse = true

/-- A call has stopped at a step: it leaves what comes after the step, and its config is that
of the template with the values of the other attributes of the step than `as`. -/
def StopsWith (host : Host) (f : Fragment) (c : Compilation) (document config : Config)
    (left : List Node) : Prop :=
  ∃ v as children s vs d, Visits host f.children c v ∧ v.Outside ∧
    v.node = .step as children s ∧ (as.mapM (attributeValue host)).run v.state = (.ok vs, d) ∧
    left = v.leaves (responseName none (as.zip vs)) ∧
    config = Dictionary.overlay document (Dictionary.ofList (settings (as.zip vs)))

/-- The call that may come after some calls that went well: one without a response if there are
none, one with a response otherwise, and none after the last step. -/
def Due (before : List (Option (List Part) × ChainStep)) (response : Option (List Part)) : Prop :=
  (response = none ↔ before = []) ∧ ∀ p ∈ before, p.2.completed = false

/-- How a call goes well after others that did. -/
structure Answers (host : Host) (document : Config) (before : List (Option (List Part) × ChainStep))
    (c : Chain) (response : Option (List Part)) (calls : List Call) (s : ChainStep)
    (next : Chain) : Prop where
  due : Due before response
  messages : ∃ more, s.conversation.messages = messagesAfter before ++ more ∧
    ∀ ps, response = some ps → more.head? = some (Message.ofParts .assistant ps none)
  once : ∀ ps, response = some ps →
    UsesOnce host c.rest (Compilation.start ⟨c.scope, calls⟩ response)
  config : if s.completed then s.conversation.config = document
    else StopsWith host c.rest (Compilation.start ⟨c.scope, calls⟩ response) document
      s.conversation.config next.rest.children

/-- Where a chain stands after calls that went well. -/
structure Stands (f : Fragment) (before : List (Option (List Part) × ChainStep)) (c : Chain) :
    Prop where
  fits : c.Fits
  begun : c.state = .notStarted ↔ before = []
  unfinished : c.state ≠ .completed ↔ ∀ p ∈ before, p.2.completed = false
  messages : c.messages = messagesAfter before
  untouched : before = [] → c.rest = f ∧ c.config = []
  config : before ≠ [] → c.config = f.configBlock?.getD []

theorem stands_start {source : String} {parameters : List (String × Value)} {first : Chain}
    (h : start source parameters = .ok first) : first.Stands first.rest [] := by
  have fits := fits_start h
  obtain ⟨f, -, rfl⟩ := exists_of_start h
  have unfinished : ChainState.notStarted ≠ .completed := by decide
  exact ⟨fits, ⟨fun _ => rfl, fun _ => rfl⟩,
    ⟨fun _ => List.forall_mem_nil _, fun _ => unfinished⟩, rfl, fun _ => ⟨rfl, rfl⟩,
    fun h => absurd rfl h⟩

theorem Fits.remainder (h : c.Fits) (running : c.state = .running) :
    ∃ k, Remainder k c.rest.children := by
  obtain ⟨k, hk, -⟩ : ∃ k, Remainder k c.rest.children ∧ c.scope.depth = 1 + k := by
    simpa [Fits, running] using h
  exact ⟨k, hk⟩

theorem Fits.compilable (h : c.Fits) : c.rest.Compilable := by
  cases hs : c.state with
  | notStarted =>
    obtain ⟨nested, -⟩ : c.rest.WellNested ∧ c.scope.depth = 1 := by simpa [Fits, hs] using h
    exact Or.inl nested
  | running => exact Or.inr (h.remainder hs)
  | completed =>
    obtain ⟨none_left, -⟩ : c.rest.children = [] ∧ c.scope.depth = 1 := by
      simpa [Fits, hs] using h
    exact Or.inl ⟨none, [], none_left, trivial⟩

/-- A chain objects to a response before it has been started, to none afterwards, and to
everything after the last step. -/
theorem objection?_eq_none_iff : c.objection? response = none ↔
    (response = none ↔ c.state = .notStarted) ∧ c.state ≠ .completed := by
  cases hs : c.state <;> cases response <;> simp [objection?, hs]

/-- A response is given to what is left of a template. -/
theorem Fits.remainder_of_response (h : c.Fits) (allowed : c.objection? response = none)
    {ps : List Part} (hresponse : response = some ps) : ∃ k, Remainder k c.rest.children := by
  subst hresponse
  refine h.remainder ?_
  cases hs : c.state <;> simp [objection?, hs] at allowed ⊢

variable {f : Fragment} {before : List (Option (List Part) × ChainStep)} {flow : Flow}
  {d : Compilation}

/-- A chain objects to the calls that may not come. -/
theorem Stands.due_iff (h : c.Stands f before) :
    Due before response ↔ c.objection? response = none := by
  rw [objection?_eq_none_iff, h.begun, h.unfinished, Due]

/-- The config of a chain that has been started is the config block of its template. -/
theorem Stands.config_advanced (h : c.Stands f before) (allowed : c.objection? response = none)
    (hd : d.config = c.rest.configBlock?) :
    (c.advanced flow d).config = f.configBlock?.getD [] := by
  change d.config.getD c.config = _
  rw [hd]
  -- Only the first compilation can come by the config block.
  by_cases hb : before = []
  · obtain ⟨hrest, hconfig⟩ := h.untouched hb
    rw [hrest, hconfig]
  · cases response with
    | none => exact absurd ((h.due_iff.mpr allowed).1.mp rfl) hb
    | some ps =>
      obtain ⟨k, hk⟩ := h.fits.remainder_of_response allowed rfl
      rw [configBlock?_eq_none (Remainder.not_isConfig hk)]
      exact h.config hb

/-- The response comes before all other messages of a compilation. -/
theorem head?_messages (h : c.Fits) (allowed : c.objection? response = none)
    (hrun : c.compilation host response calls = (.ok flow, d)) {ps : List Part}
    (hresponse : response = some ps) :
    d.messages.head? = some (Message.ofParts .assistant ps none) := by
  obtain ⟨k, hk⟩ := h.remainder_of_response allowed hresponse
  have walked := ends_answered (c := Compilation.start ⟨c.scope, calls⟩ response) host hk hresponse
  have answered := ends_whole_of_walkAll walked fun _ e he =>
    he.trans (Change.messages_apply .flush e)
  obtain ⟨more, hmore⟩ := answered.of_ok hrun
  rw [← hmore]
  rfl

/-- The config of a call is that of the chain, with the settings of the step that it stops at. -/
theorem config_stepAfter (h : c.Fits)
    (hrun : c.compilation host response calls = (.ok flow, d)) :
    if (c.stepAfter flow d).completed then
      (c.stepAfter flow d).conversation.config = (c.advanced flow d).config
    else StopsWith host c.rest (Compilation.start ⟨c.scope, calls⟩ response)
      (c.advanced flow d).config (c.stepAfter flow d).conversation.config
      (c.advanced flow d).rest.children := by
  have stopped := (ends_stepConfig host h.compilable rfl rfl).of_ok hrun
  have overlaid : (c.stepAfter flow d).conversation.config =
      Dictionary.overlay (c.advanced flow d).config (d.stepConfig.getD []) := rfl
  cases flow with
  | done =>
    have plain : d.stepConfig = none := stopped
    rw [plain] at overlaid
    exact overlaid
  | suspended left =>
    obtain ⟨v, as, children, s, hv, outside, hnode, name, config, e, hattributes, hleft,
      hconfig⟩ := stopped
    obtain ⟨vs, hvs, rfl, rfl⟩ := run_stepAttributes hattributes
    cases hleft
    rw [hconfig] at overlaid
    exact ⟨v, as, children, s, vs, e, hv, outside, hnode, hvs, rfl, overlaid⟩

/-- A compilation that goes well goes on where the calls before it have stopped. -/
theorem Stands.answers (h : c.Stands f before) (allowed : c.objection? response = none)
    (hrun : c.compilation host response calls = (.ok flow, d)) :
    Answers host (f.configBlock?.getD []) before c response calls (c.stepAfter flow d)
      (c.advanced flow d) := by
  have document : (c.advanced flow d).config = f.configBlock?.getD [] :=
    h.config_advanced allowed ((ends_config host h.fits.compilable rfl).of_ok hrun)
  refine ⟨h.due_iff.mpr allowed, ?_, ?_, ?_⟩
  · exact ⟨d.messages, congrArg (· ++ d.messages) h.messages,
      fun ps hresponse => head?_messages h.fits allowed hrun hresponse⟩
  · intro ps hresponse
    obtain ⟨k, hk⟩ := h.fits.remainder_of_response allowed hresponse
    exact existsUnique_response host hk rfl
  · rw [← document]
    exact config_stepAfter h.fits hrun

/-- A call that goes well is the last of those that did. -/
theorem Stands.advanced (h : c.Stands f before) (allowed : c.objection? response = none)
    (hrun : c.compilation host response calls = (.ok flow, d)) :
    (c.advanced flow d).Stands f (before ++ [(response, c.stepAfter flow d)]) := by
  have document : (c.advanced flow d).config = f.configBlock?.getD [] :=
    h.config_advanced allowed ((ends_config host h.fits.compilable rfl).of_ok hrun)
  refine ⟨((ends_compilation h.fits host allowed calls).of_ok hrun).2, ?_, ?_, ?_, ?_, ?_⟩
  · cases flow <;> simp [Chain.advanced, Chain.after, Compilation.outcome]
  · have unfinished := (h.due_iff.mpr allowed).2
    have last : (c.advanced flow d).state ≠ .completed ↔
        (c.stepAfter flow d).completed = false := by
      cases flow <;> simp [Chain.advanced, Chain.after, stepAfter, Compilation.outcome]
    rw [last, List.forall_mem_append, List.forall_mem_singleton]
    exact (and_iff_right unfinished).symm
  · simp [messagesAfter, stepAfter]
  · intro no_calls
    simp at no_calls
  · exact fun _ => document

/-- A call that may come goes well after the calls before it, or its compilation fails; every
other call is refused. Both leave the chain where it stood. -/
theorem stands_step (h : c.Stands f before) (host : Host) (response : Option (List Part))
    (calls : List Call) :
    match (c.step host response).run calls with
    | ((.ok s, next), _) =>
      Answers host (f.configBlock?.getD []) before c response calls s next ∧
        next.Stands f (before ++ [(response, s)])
    | ((.error fault, next), _) =>
      next = c ∧ (Due before response ↔ ∃ e, fault = .compile e) := by
  cases ho : c.objection? response with
  | some fault =>
    have refused : ¬ Due before response := by
      rw [h.due_iff, ho]
      exact Option.some_ne_none fault
    rw [step_of_objection ho]
    exact ⟨rfl, iff_of_false refused fun ⟨e, he⟩ => ne_compile_of_objection ho e he⟩
  | none =>
    have due : Due before response := h.due_iff.mpr ho
    cases hr : c.rest.reference? with
    | some s =>
      rw [step_of_reference ho hr]
      exact ⟨rfl, iff_of_true due ⟨_, rfl⟩⟩
    | none =>
      rw [step_eq ho hr]
      rcases hrun : c.compilation host response calls with ⟨e | flow, d⟩
      · exact ⟨rfl, iff_of_true due ⟨_, rfl⟩⟩
      · exact ⟨h.answers ho hrun, h.advanced ho hrun⟩

/-- A chain stands after a run where the calls that went well have led it. -/
theorem stands_run (h : c.Stands f before) (host : Host) (inputs : List (Option (List Part)))
    (calls : List Call) :
    ((c.run host inputs).run calls).1.2.Stands f (before ++ c.successes host inputs calls) := by
  -- The calls before the run are general: a call that goes well joins them for the rest of it.
  induction inputs generalizing c before calls with
  | nil =>
    have none_called : c.successes host [] calls = [] := rfl
    rw [none_called, List.append_nil]
    exact h
  | cons response rest ih =>
    have stepped := stands_step h host response calls
    rcases hstep : (c.step host response).run calls with ⟨⟨fault | s, next⟩, after⟩
    · rw [hstep] at stepped
      obtain ⟨rfl, -⟩ := stepped
      rw [successes_of_error hstep, run_cons, hstep]
      exact ih h after
    · rw [hstep] at stepped
      rw [successes_of_ok hstep, run_cons, hstep, ← List.singleton_append, ← List.append_assoc]
      exact ih stepped.2 after

end Chain

end PromptTemplate
