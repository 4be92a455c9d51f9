import PromptTemplate.Proofs.Chain.Run
import PromptTemplate.Proofs.Compilation.Remainder

/-!
# Frames of suspended chains

After every call that stops at a step, one place for the response is left, inside one
node for every open frame, and the scope has these frames and the outermost one. So no
call closes the outermost frame, and none lacks the response that it resumes with.
-/

namespace PromptTemplate

open Template

namespace Node

def isResponse : Node → Bool
  | .response .. => true
  | _ => false

def isScoped : Node → Bool
  | .scoped .. => true
  | _ => false

/-- The number of nodes for open frames that the first children lead through to the place
of the response, if they lead there. -/
def openFrames? : List Node → Option Nat
  | .response .. :: _ => some 0
  | .scoped children _ :: _ => (openFrames? children).map (· + 1)
  | _ => none

mutual

/-- Nodes that stand where they may are nodes that were written. -/
theorem Placed.written {n : Nesting} : ∀ {a : Node}, a.Placed n →
    ∀ x ∈ a.walk, x.isResponse = false ∧ x.isScoped = false
  | .text .., _, x, hx => by
    cases List.mem_singleton.mp hx
    exact ⟨rfl, rfl⟩
  | .mustache .., _, x, hx => by
    cases List.mem_singleton.mp hx
    exact ⟨rfl, rfl⟩
  | .comment .., _, x, hx => by
    cases List.mem_singleton.mp hx
    exact ⟨rfl, rfl⟩
  | .reference .., _, x, hx => by
    cases List.mem_singleton.mp hx
    exact ⟨rfl, rfl⟩
  | .message _ _ children _, ⟨_, _, h⟩, x, hx => by
    rcases List.mem_cons.mp hx with rfl | hx
    · exact ⟨rfl, rfl⟩
    · exact AllPlaced.written h x hx
  | .content _ _ children _, ⟨_, _, h⟩, x, hx => by
    rcases List.mem_cons.mp hx with rfl | hx
    · exact ⟨rfl, rfl⟩
    · exact AllPlaced.written h x hx
  | .step _ children _, ⟨_, _, h⟩, x, hx => by
    rcases List.mem_cons.mp hx with rfl | hx
    · exact ⟨rfl, rfl⟩
    · exact AllPlaced.written h x hx
  | .ifBlock _ consequent alternate _, h, x, hx => by
    rcases List.mem_cons.mp hx with rfl | hx
    · exact ⟨rfl, rfl⟩
    · rcases List.mem_append.mp hx with hx | hx
      · exact AllPlaced.written h.1 x hx
      · exact OptionPlaced.written h.2 x hx
  | .eachBlock _ _ _ body alternate _, h, x, hx => by
    rcases List.mem_cons.mp hx with rfl | hx
    · exact ⟨rfl, rfl⟩
    · rcases List.mem_append.mp hx with hx | hx
      · exact AllPlaced.written h.1 x hx
      · exact OptionPlaced.written h.2 x hx

theorem AllPlaced.written {n : Nesting} : ∀ {nodes : List Node}, AllPlaced n nodes →
    ∀ x ∈ walkAll nodes, x.isResponse = false ∧ x.isScoped = false
  | [], _, _, hx => absurd hx List.not_mem_nil
  | a :: rest, h, x, hx => by
    rcases List.mem_append.mp hx with hx | hx
    · exact Placed.written h.1 x hx
    · exact AllPlaced.written h.2 x hx

theorem OptionPlaced.written {n : Nesting} : ∀ {nodes : Option (List Node)},
    OptionPlaced n nodes → ∀ x ∈ walkOption nodes, x.isResponse = false ∧ x.isScoped = false
  | none, _, _, hx => absurd hx List.not_mem_nil
  | some nodes, h, x, hx => @AllPlaced.written n nodes h x hx

end

end Node

/-- What is left has exactly one place for a response, and the nodes for open frames are
exactly those around it. -/
theorem Remainder.shape {k : Nat} {nodes : List Node} (h : Remainder k nodes) :
    Node.openFrames? nodes = some k ∧ (Node.walkAll nodes).countP Node.isResponse = 1 ∧
      (Node.walkAll nodes).countP Node.isScoped = k := by
  have none_written : ∀ {rest : List Node}, Node.AllPlaced Nesting.none rest →
      (Node.walkAll rest).countP Node.isResponse = 0 ∧
        (Node.walkAll rest).countP Node.isScoped = 0 := by
    intro rest hrest
    simp only [List.countP_eq_zero, Bool.not_eq_true]
    exact ⟨fun x hx => (hrest.written x hx).1, fun x hx => (hrest.written x hx).2⟩
  induction h with
  | here name s hrest =>
    obtain ⟨hresponse, hscoped⟩ := none_written hrest
    simp [Node.openFrames?, Node.walkAll, Node.walk, List.countP_cons, Node.isResponse,
      Node.isScoped, hresponse, hscoped]
  | inside hc s hrest ih =>
    obtain ⟨hresponse, hscoped⟩ := none_written hrest
    obtain ⟨hframes, hone, hk⟩ := ih
    simp [Node.openFrames?, Node.walkAll, Node.walk, List.countP_cons, Node.isResponse,
      Node.isScoped, hresponse, hscoped, hframes, hone, hk]

namespace Chain

open Compile Compilation

/-- What is left of a chain fits its scope. -/
def Fits (c : Chain) : Prop :=
  match c.state with
  | .notStarted => c.rest.WellNested ∧ c.scope.depth = 1
  | .running => ∃ k, Remainder k c.rest.children ∧ c.scope.depth = 1 + k
  | .completed => c.rest.children = [] ∧ c.scope.depth = 1

theorem fits_start {source : String} {parameters : List (String × Value)} {c : Chain}
    (h : start source parameters = .ok c) : c.Fits := by
  obtain ⟨f, hf, rfl⟩ := exists_of_start h
  exact ⟨Fragment.wellNested_of_ofText hf, (Scope.writes_ofParameters parameters).depth_eq⟩

/-- What a compilation that went well leaves fits the scope that it leaves. -/
theorem fits_advanced (c : Chain) {b d : Compilation} {flow : Flow} (hb : b.depth = 1)
    (hd : Follows Nesting.none b flow d) : (c.advanced flow d).Fits := by
  have scope : (c.advanced flow d).scope = d.world.scope := Scope.ofStash_stash _
  cases flow with
  | done => exact ⟨rfl, (congrArg Scope.depth scope).trans (hd.depth.trans hb)⟩
  | suspended rest =>
    obtain ⟨-, ⟨k, hk, hdepth⟩, -⟩ := hd
    exact ⟨k, hk, (congrArg Scope.depth scope).trans (hb ▸ hdepth)⟩

/-- A compilation in the outermost frame. -/
def outermost : Compilation := Compilation.start ⟨Scope.empty, []⟩ none

/-- What is left of a chain is walked as it should be. -/
theorem follows_rest {c : Chain} (h : c.Fits) (host : Host) {response : Option (List Part)}
    (allowed : c.objection? response = none) (calls : List Call) :
    Ends (walkAll host c.rest.children) (Compilation.start ⟨c.scope, calls⟩ response)
      (Follows Nesting.none outermost) (Fails outermost) := by
  cases hs : c.state with
  | notStarted =>
    obtain ⟨⟨front, nodes, hchildren, hnodes⟩, hdepth⟩ : c.rest.WellNested ∧ c.scope.depth = 1 := by
      simpa [Fits, hs] using h
    rw [hchildren]
    have balanced : Balanced outermost (Compilation.start ⟨c.scope, calls⟩ response) :=
      ⟨hdepth, rfl, rfl⟩
    exact (orderly_config host front hnodes).after balanced rfl
  | running =>
    obtain ⟨k, hk, hdepth⟩ : ∃ k, Remainder k c.rest.children ∧ c.scope.depth = 1 + k := by
      simpa [Fits, hs] using h
    have hresponse : response.isSome = true := by
      cases response with
      | none => simp [objection?, hs] at allowed
      | some ps => rfl
    exact ends_resume host hk (show Deeper k outermost _ from ⟨hdepth, rfl, rfl⟩) rfl hresponse
  | completed => simp [objection?, hs] at allowed

/-- The compilation of a chain closes no frame that must stay open. -/
theorem ends_compilation {c : Chain} (h : c.Fits) (host : Host)
    {response : Option (List Part)} (allowed : c.objection? response = none) (calls : List Call) :
    Ends (whole host c.rest) (Compilation.start ⟨c.scope, calls⟩ response)
      (fun flow d => d.refusedPops = 0 ∧ (c.advanced flow d).Fits)
      (fun e d => d.refusedPops = 0 ∧ e.OfCompilation) := by
  refine (ends_whole host c.rest (follows_rest h host allowed calls)).imp ?_ (fun _ _ hf => hf)
  rintro flow d ⟨hd, -⟩
  refine ⟨?_, fits_advanced c rfl hd⟩
  cases flow with
  | done => exact hd.refusedPops
  | suspended rest => exact hd.2.refusedPops

/-- A call leaves a chain that fits its scope, and fails as compilations do. -/
theorem fits_step {c : Chain} (h : c.Fits) (host : Host) (response : Option (List Part))
    (calls : List Call) :
    match (c.step host response).run calls with
    | ((.ok s, next), _) =>
      next.Fits ∧ next.state = if s.completed then .completed else .running
    | ((.error fault, next), _) => next = c ∧ ∀ e, fault = .compile e → e.OfCompilation := by
  rcases step_cases host c response calls with ⟨fault, ho, hstep⟩ | ⟨s, -, hstep⟩ |
    ⟨ho, -, ⟨e, d, hrun, hstep⟩ | ⟨flow, d, hrun, hstep⟩⟩
  · rw [hstep]
    exact ⟨rfl, fun e he => absurd he (ne_compile_of_objection ho e)⟩
  · rw [hstep]
    refine ⟨rfl, ?_⟩
    rintro e ⟨⟩
    have refused : (Cause.unresolvedReference.on s).OfCompilation :=
      Error.ofCompilation_on (by decide) s
    exact refused
  · rw [hstep]
    refine ⟨rfl, ?_⟩
    rintro e' ⟨⟩
    exact ((ends_compilation h host ho calls).of_error hrun).2
  · rw [hstep]
    exact ⟨((ends_compilation h host ho calls).of_ok hrun).2, rfl⟩

theorem fits_of_reaches {host : Host} {first c : Chain} {calls : List Call} (h : first.Fits)
    (hc : Reaches host first c calls) : c.Fits := by
  induction hc with
  | start => exact h
  | @call c calls _ response ih =>
    have stepped := fits_step ih host response calls
    rcases hstep : (c.step host response).run calls with ⟨⟨fault | s, next⟩, after⟩
    · rw [hstep] at stepped
      obtain ⟨rfl, -⟩ := stepped
      exact ih
    · rw [hstep] at stepped
      exact stepped.1

end Chain

/-- A template of which only the nodes after a step are left, inside some open frames: the
first children lead to the place of the response, through one node for each of them. -/
def Fragment.AwaitsIn (f : Fragment) (frames : Nat) : Prop :=
  Node.openFrames? f.children = some frames ∧ f.walk.countP Node.isResponse = 1 ∧
    f.walk.countP Node.isScoped = frames

/-- After a call that stops at a step, the chain awaits the response inside the frames that
are open in its scope; after one that completes it, nothing is left. No call fails for want
of a response, and no call closes the outermost frame. -/
theorem Chain.frames_of_reaches {source : String} {parameters : List (String × Value)}
    {first : Chain} (h : Chain.start source parameters = .ok first) {host : Host} {c : Chain}
    {calls : List Call} (hc : Chain.Reaches host first c calls) (response : Option (List Part)) :
    (match (c.step host response).run calls with
      | ((.ok s, next), _) =>
        if s.completed then next.rest.children = [] ∧ next.scope.depth = 1
        else ∃ k, next.rest.AwaitsIn k ∧ next.scope.depth = k + 1
      | ((.error fault, _), _) => ∀ e, fault = .compile e → e.code ≠ .missingStepResponse) ∧
    (c.objection? response = none →
      (c.compilation host response calls).2.refusedPops = 0) := by
  have fits := Chain.fits_of_reaches (Chain.fits_start h) hc
  constructor
  · have stepped := Chain.fits_step fits host response calls
    rcases hstep : (c.step host response).run calls with ⟨⟨fault | s, next⟩, after⟩
    · rw [hstep] at stepped
      intro e he hcode
      have := stepped.2 e he
      simp [Error.OfCompilation, hcode, Code.ofCompilation, Code.ofEvaluation,
        Code.ofValues] at this
    · rw [hstep] at stepped
      obtain ⟨hfits, hstate⟩ := stepped
      dsimp only
      split
      · rename_i completed
        simpa [Chain.Fits, hstate, completed] using hfits
      · rename_i suspended
        obtain ⟨k, hk, hdepth⟩ :
            ∃ k, Remainder k next.rest.children ∧ next.scope.depth = 1 + k := by
          simpa [Chain.Fits, hstate, suspended] using hfits
        exact ⟨k, hk.shape, hdepth.trans (Nat.add_comm 1 k)⟩
  · intro allowed
    have ended := Chain.ends_compilation fits host allowed calls
    rw [Ends] at ended
    rw [Chain.compilation]
    split at ended <;> rename_i hrun <;> rw [hrun] <;> exact ended.1

/-- A step inside a block is awaited inside the frame of the block. -/
theorem Chain.frames_of_reaches_block :
    ∃ first next : Chain, ∃ s : ChainStep,
      Chain.start "a\x7b\x7b#if x\x7d\x7db<step></step>c\x7b\x7b/if\x7d\x7dd" [("x", .bool true)] =
        .ok first ∧
      ((first.step (fun _ _ => .error "") none).run []).1 = (.ok s, next) ∧ s.completed = false ∧
      ∃ k, next.rest.AwaitsIn k ∧ next.scope.depth = k + 1 := by
  have suspends : (match Chain.start "a\x7b\x7b#if x\x7d\x7db<step></step>c\x7b\x7b/if\x7d\x7dd"
      [("x", .bool true)] with
      | .ok first =>
        match ((first.step (fun _ _ => .error "") none).run []).1.1 with
        | .ok s => !s.completed
        | .error _ => false
      | .error _ => false) = true := by decide +kernel
  cases h : Chain.start "a\x7b\x7b#if x\x7d\x7db<step></step>c\x7b\x7b/if\x7d\x7dd"
      [("x", .bool true)] with
  | error e => simp [h] at suspends
  | ok first =>
    have reached : Chain.Reaches (fun _ _ => .error "") first first [] := .start []
    have frames := (Chain.frames_of_reaches h reached none).1
    rcases hstep : (first.step (fun _ _ => .error "") none).run [] with ⟨⟨fault | s, next⟩, after⟩
    · simp [h, hstep] at suspends
    · have suspended : s.completed = false := by simpa [h, hstep] using suspends
      refine ⟨first, next, s, rfl, by rw [hstep], suspended, ?_⟩
      simpa [hstep, suspended] using frames

end PromptTemplate
