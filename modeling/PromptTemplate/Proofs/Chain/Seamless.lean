import PromptTemplate.Proofs.Chain.Frames
import PromptTemplate.Proofs.Compilation.Leaves
import PromptTemplate.Proofs.Compilation.Tracking

/-!
# Suspending and resuming is seamless

The calls of a chain come to what a direct walk comes to that is given all responses at
once: as long as the direct walk has steps, the calls stop at them; where it ends, a call
completes the chain with the same messages; and where it fails, a call fails with the same
error.
-/

namespace PromptTemplate

open Compile Compilation Template

/-- How a direct walk over a whole template goes on after a compilation. -/
def Flow.finished (host : Host) : Flow → Direct Unit
  | .done => return ()
  | .suspended rest => Direct.whole host rest

namespace Direct

/-- A direct walk over what is left comes to a step first. -/
theorem starved_of_remainder (host : Host) {k : Nat} {nodes : List Node} (h : Remainder k nodes)
    (d : Compilation) : (walkAll host nodes).run ⟨d, []⟩ = (.error .starved, ⟨d, []⟩) := by
  induction h with
  | here name s _ =>
    have asked : (answer name).run ⟨d, []⟩ = (.error .starved, ⟨d, []⟩) := rfl
    rw [walkAll, walk]
    exact run_bind_error asked _
  | inside _ s _ ih =>
    rw [walkAll, walk]
    exact run_bind_error (run_bind_error ih _) _

/-- What a direct walk says about the results of the calls of a chain, one without a
response and then one with each response in turn. -/
def Foretells (source : String) (responses : Nat) (results : List (Except ChainFault ChainStep)) :
    Except Halt Unit × Dialogue → Prop
  | (.ok (), s) => ∃ steps : List ChainStep, ∃ last : ChainStep, results = steps.map .ok ++
      .ok last :: s.responses.map (fun _ => .error .alreadyCompleted) ∧
      steps.length + s.responses.length = responses ∧
      (∀ x ∈ steps, x.completed = false) ∧ last.completed = true ∧
      last.conversation.messages = s.compilation.messages
  | (.error (.failed e), s) => ∃ steps : List ChainStep,
      ∃ others : List (Except ChainFault ChainStep), results = steps.map .ok ++ .error (.compile (e.locate source.toList)) :: others ∧
      steps.length + s.responses.length = responses ∧ ∀ x ∈ steps, x.completed = false
  | (.error .starved, s) => ∃ steps : List ChainStep, results = steps.map .ok ∧
      steps.length = responses + 1 ∧ s.responses = [] ∧ ∀ x ∈ steps, x.completed = false

theorem Foretells.cons {source : String} {responses : Nat}
    {results : List (Except ChainFault ChainStep)} {outcome : Except Halt Unit × Dialogue}
    (h : Foretells source responses results outcome) {s : ChainStep} (hs : s.completed = false) :
    Foretells source (responses + 1) (.ok s :: results) outcome := by
  obtain ⟨(e | _) | _, t⟩ := outcome
  · obtain ⟨steps, others, rfl, hlength, hsteps⟩ := h
    refine ⟨s :: steps, others, rfl, ?_, List.forall_mem_cons.mpr ⟨hs, hsteps⟩⟩
    rw [List.length_cons]
    omega
  · obtain ⟨steps, rfl, hlength, hleft, hsteps⟩ := h
    refine ⟨s :: steps, rfl, ?_, hleft, List.forall_mem_cons.mpr ⟨hs, hsteps⟩⟩
    rw [List.length_cons, hlength]
  · obtain ⟨steps, last, rfl, hlength, hsteps, hlast⟩ := h
    refine ⟨s :: steps, last, rfl, ?_, List.forall_mem_cons.mpr ⟨hs, hsteps⟩, hlast⟩
    rw [List.length_cons]
    omega

end Direct

namespace Chain

/-- A direct walk stands where a chain stands. -/
structure Continues (c : Chain) (d : Compilation) : Prop where
  scope : d.world.scope = c.scope
  messages : d.messages = c.messages
  text : d.text = ""
  draft : d.draft = none

variable {host : Host} {c : Chain} {calls : List Call} {d : Compilation}
  {response : Option (List Part)}

theorem Continues.alike (h : c.Continues d) (calls : List Call) (response : Option (List Part)) :
    Alike c.messages (Compilation.start ⟨c.scope, calls⟩ response) d :=
  ⟨h.scope, h.messages.trans (List.append_nil _).symm, h.text, h.draft⟩

/-- A direct walk comes to the same as the nodes of a chain, walked in one call. -/
theorem tracks_rest (h : c.Fits) (allowed : c.objection? response = none)
    (hd : c.Continues d) (left : List (List Part)) :
    Ends (walkAll host c.rest.children) (Compilation.start ⟨c.scope, calls⟩ response)
      (Tracks host c.messages (Direct.walkAll host c.rest.children)
        ⟨d, response.toList ++ left⟩ left)
      (fun e _ => Breaks (Direct.walkAll host c.rest.children)
        ⟨d, response.toList ++ left⟩ left e) := by
  cases hs : c.state with
  | notStarted =>
    obtain ⟨⟨front, nodes, hchildren, hnodes⟩, -⟩ : c.rest.WellNested ∧ c.scope.depth = 1 := by
      simpa [Fits, hs] using h
    cases response with
    | some ps => simp [objection?, hs] at allowed
    | none =>
      rw [hchildren]
      have standing : Standing Nesting.none (Compilation.start ⟨c.scope, calls⟩ none) := rfl
      exact mirrors_config host front hnodes _ _ d standing (hd.alike calls none) left
  | running =>
    obtain ⟨k, hk, hdepth⟩ : ∃ k, Remainder k c.rest.children ∧ c.scope.depth = 1 + k := by
      simpa [Fits, hs] using h
    cases response with
    | none => simp [objection?, hs] at allowed
    | some ps =>
      have deeper : Deeper k outermost (Compilation.start ⟨c.scope, calls⟩ (some ps)) :=
        ⟨hdepth, rfl, rfl⟩
      exact tracks_resume hk deeper rfl rfl (hd.alike calls (some ps)) left
  | completed => simp [objection?, hs] at allowed

/-- A call and a direct walk come to the same. -/
theorem tracks_compilation (h : c.Fits) (allowed : c.objection? response = none)
    (hd : c.Continues d) (left : List (List Part)) :
    Ends (whole host c.rest) (Compilation.start ⟨c.scope, calls⟩ response)
      (fun flow e => ∃ d', (c.advanced flow e).Continues d' ∧
        (Direct.whole host c.rest.children).run ⟨d, response.toList ++ left⟩ =
          (flow.finished host).run ⟨d', left⟩)
      (fun e _ =>
        Breaks (Direct.whole host c.rest.children) ⟨d, response.toList ++ left⟩ left e) := by
  have advanced_scope : ∀ flow e, (c.advanced flow e).scope = e.world.scope :=
    fun _ _ => Scope.ofStash_stash _
  rw [whole, ends_bind]
  refine ((follows_rest h host allowed calls).and (tracks_rest h allowed hd left)).imp ?_
    (fun _ _ hf => hf.2.bind _)
  rintro flow c' ⟨hfollows, d', hd', hrun⟩
  have walked := run_bind_congr hrun fun _ => Direct.perform flush
  rw [ends_bind]
  cases flow with
  | done =>
    refine (ends_flush.and (uniform_flush.perform hd' left)).imp ?_ ?_
    · rintro _ e ⟨⟨hadvances, htext⟩, f, hf, hrun'⟩
      have shut : e.tags = (false, false) := hadvances.tags.trans hfollows.tags
      have hdraft : e.draft = none := draft_eq_none (Prod.mk.inj shut).1
      refine ⟨f, ⟨?_, hf.messages, hf.text.trans htext, hf.draft.trans hdraft⟩, walked.trans hrun'⟩
      rw [advanced_scope]
      exact hf.scope
    · rintro err e ⟨-, f, hrun'⟩
      exact ⟨f, walked.trans hrun'⟩
  | suspended rest =>
    obtain ⟨-, -, -, hdraft, htext⟩ := hfollows
    rw [Ends]
    rw [run_flush_of_empty htext]
    refine ⟨d', ⟨?_, hd'.messages, hd'.text.trans htext, hd'.draft.trans hdraft⟩, walked⟩
    rw [advanced_scope]
    exact hd'.scope

/-- What is left of a template without reference tags has none. -/
theorem reference?_advanced {flow : Flow} {e : Compilation} (h : c.rest.reference? = none)
    (hcomp : c.compilation host response calls = (.ok flow, e)) :
    (c.advanced flow e).rest.reference? = none := by
  cases flow with
  | done => rfl
  | suspended left =>
    have leaves : Leaves c.rest.children left := by
      have walked := leaving_whole host c.rest (Compilation.start ⟨c.scope, calls⟩ response)
      rw [Ends] at walked
      rw [compilation] at hcomp
      rw [hcomp] at walked
      exact walked left rfl
    rw [Fragment.reference?] at h ⊢
    rw [List.findSome?_eq_none_iff] at h ⊢
    exact leaves.forall_walk (fun _ _ => rfl) (fun _ _ => rfl) h

/-- The result of one call is foretold if those after it are. -/
theorem foretold_of_next (h : c.Fits) (hr : c.rest.reference? = none)
    (allowed : c.objection? response = none) (hd : c.Continues d)
    (responses : List (List Part))
    (next : ∀ rest e d', (c.advanced (.suspended rest) e).Fits →
      (c.advanced (.suspended rest) e).rest.reference? = none →
      (c.advanced (.suspended rest) e).Continues d' →
      Direct.Foretells c.source responses.length
        (.ok (c.stepAfter (.suspended rest) e) :: (((c.advanced (.suspended rest) e).run host
          (responses.map some)).run e.world.calls).1.1)
        ((Direct.whole host rest).run ⟨d', responses⟩)) :
    Direct.Foretells c.source responses.length
      ((c.run host (response :: responses.map some)).run calls).1.1
      ((Direct.whole host c.rest.children).run ⟨d, response.toList ++ responses⟩) := by
  have ended := (ends_compilation h host allowed calls).and
    (tracks_compilation h allowed hd responses)
  rw [Ends] at ended
  rw [run_cons, step_eq allowed hr]
  rw [compilation]
  split at ended
  · rename_i flow e hrun
    obtain ⟨⟨-, hfits⟩, d', hd', hdirect⟩ := ended
    rw [hrun, hdirect]
    cases flow with
    | done =>
      have refused : (((c.advanced .done e).run host (responses.map some)).run e.world.calls).1.1 =
          (responses.map some).map fun _ => .error .alreadyCompleted := results_of_completed rfl _
      rw [List.map_map] at refused
      refine ⟨[], c.stepAfter .done e, ?_, Nat.zero_add _, List.forall_mem_nil _, rfl, ?_⟩
      · exact congrArg (_ :: ·) refused
      · exact hd'.messages.symm
    | suspended rest => exact next rest e d' hfits (reference?_advanced hr hrun) hd'
  · rename_i err e hrun
    obtain ⟨-, d', hdirect⟩ := ended
    rw [hrun, hdirect]
    exact ⟨[], _, rfl, Nat.zero_add _, List.forall_mem_nil _⟩

/-- The results of calls are foretold by a direct walk from any place on. -/
theorem foretold (h : c.Fits) (hr : c.rest.reference? = none)
    (allowed : c.objection? response = none) (hd : c.Continues d)
    (responses : List (List Part)) :
    Direct.Foretells c.source responses.length
      ((c.run host (response :: responses.map some)).run calls).1.1
      ((Direct.whole host c.rest.children).run ⟨d, response.toList ++ responses⟩) := by
  induction responses generalizing c calls d response with
  | nil =>
    refine foretold_of_next h hr allowed hd [] fun rest e d' hfits _ _ => ?_
    obtain ⟨k, hk, -⟩ : ∃ k, Remainder k rest ∧ _ := hfits
    have starved := run_bind_error (Direct.starved_of_remainder host hk d')
      fun _ => Direct.perform flush
    rw [Direct.whole]
    rw [starved]
    exact ⟨[c.stepAfter (.suspended rest) e], rfl, rfl, rfl, List.forall_mem_singleton.mpr rfl⟩
  | cons ps more ih =>
    refine foretold_of_next h hr allowed hd (ps :: more) fun rest e d' hfits hfree hd' => ?_
    have resumed : (c.advanced (.suspended rest) e).objection? (some ps) = none := rfl
    exact (ih hfits hfree resumed hd').cons rfl

/-- A direct walk over the template of a chain, with all responses. -/
def direct (host : Host) (c : Chain) (responses : List (List Part)) (calls : List Call) :
    Except Halt Unit × Dialogue :=
  (Direct.whole host c.rest.children).run ⟨Compilation.start ⟨c.scope, calls⟩ none, responses⟩

/-- Suspending and resuming is seamless: a direct walk foretells the results of all calls of
a chain, its messages and its errors. -/
theorem foretold_of_start {source : String} {parameters : List (String × Value)} {first : Chain}
    (h : start source parameters = .ok first) (hr : first.rest.reference? = none) (host : Host)
    (responses : List (List Part)) (calls : List Call) :
    Direct.Foretells source responses.length
      ((first.run host (none :: responses.map some)).run calls).1.1
      (first.direct host responses calls) := by
  obtain ⟨f, -, rfl⟩ := exists_of_start h
  exact foretold (fits_start h) hr rfl ⟨rfl, rfl, rfl, rfl⟩ responses

/-- A response inside a block is followed by what follows the step in the block. -/
theorem foretold_of_start_block :
    ∃ first : Chain, ∃ before after : ChainStep, ∃ s : Dialogue,
      start "\x7b\x7b#if x\x7d\x7d<step as=\"y\"></step>\x7b\x7by\x7d\x7d\x7b\x7b/if\x7d\x7d"
        [("x", .bool true)] = .ok first ∧
      first.direct (fun _ _ => .error "") [[.text "z"]] [] = (.ok (), s) ∧ s.responses = [] ∧
      ((first.run (fun _ _ => .error "") [none, some [.text "z"]]).run []).1.1 =
        [.ok before, .ok after] ∧
      before.completed = false ∧ after.completed = true ∧
      after.conversation.messages = s.compilation.messages := by
  have ends : (match start
      "\x7b\x7b#if x\x7d\x7d<step as=\"y\"></step>\x7b\x7by\x7d\x7d\x7b\x7b/if\x7d\x7d"
      [("x", .bool true)] with
      | .ok first => first.rest.reference?.isNone &&
        match first.direct (fun _ _ => .error "") [[.text "z"]] [] with
        | (.ok (), s) => s.responses.isEmpty
        | _ => false
      | .error _ => false) = true := by decide +kernel
  cases h : start "\x7b\x7b#if x\x7d\x7d<step as=\"y\"></step>\x7b\x7by\x7d\x7d\x7b\x7b/if\x7d\x7d"
      [("x", .bool true)] with
  | error e => simp [h] at ends
  | ok first =>
    rw [h] at ends
    obtain ⟨hr, hdirect⟩ := Bool.and_eq_true_iff.mp ends
    have said := foretold_of_start h (Option.isNone_iff_eq_none.mp hr) (fun _ _ => .error "")
      [[.text "z"]] []
    rcases hrun : first.direct (fun _ _ => .error "") [[.text "z"]] [] with ⟨_ | _, s⟩
    · simp [hrun] at hdirect
    · rw [hrun] at said hdirect
      have none_left : s.responses = [] := List.isEmpty_iff.mp hdirect
      obtain ⟨steps, last, hresults, hlength, hsteps, hlast, hmessages⟩ := said
      rw [none_left] at hresults hlength
      obtain ⟨before, rfl⟩ := List.length_eq_one_iff.mp hlength
      exact ⟨first, before, last, s, rfl, hrun, none_left, hresults, hsteps before (by simp), hlast,
        hmessages⟩

end Chain

end PromptTemplate
