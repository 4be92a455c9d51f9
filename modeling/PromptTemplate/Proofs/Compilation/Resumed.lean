import PromptTemplate.Proofs.Compilation.Visits
import PromptTemplate.Proofs.Compilation.Whole

/-!
# Compilations of what can be read and of what is left of it

A template that can be read, and whatever compilations of it leave, is well nested, in any
scope and with any response. So the walk finds every message and every content tag where it
may open it, comes to no step inside of a message, a step or an each block, and is never
stopped inside a message or a content tag.
-/

namespace PromptTemplate

open Template

/-- How a compilation fails in a scope of which nothing is known, perhaps without a response. -/
def Error.OfResumption (e : Error) : Prop :=
  e.OfCompilation ∨ e.code = .missingStepResponse

namespace Compile

open Compilation

variable {host : Host} {n : Nesting} {a : Node} {nodes children : List Node}
  {c d : Compilation} {v : Visit}

/-! ## Visits to nodes that stand where they may -/

/-- The nodes that the walk of a node enters stand where they may, and the tags that are open
then are those around them. Outside of messages they stand in no message and no content tag. -/
theorem Enters.placed (enters : Enters host a c children d) (h : a.Placed n)
    (hc : Standing n c) :
    ∃ m : Nesting, Node.AllPlaced m children ∧ Standing m d ∧
      (m.inMessage = false →
        n.inMessage = false ∧ a.isMessage = false ∧ a.isContent = false) := by
  cases enters with
  | @consequent e _ _ _ hv =>
    have hd := ((regular_evaluate host e c).of_ok hv).balanced.standing hc
    exact ⟨n, h.1, hd.framed, fun hm => ⟨hm, rfl, rfl⟩⟩
  | @alternate e _ _ _ hv =>
    have hd := ((regular_evaluate host e c).of_ok hv).balanced.standing hc
    exact ⟨n, h.2, hd.framed, fun hm => ⟨hm, rfl, rfl⟩⟩
  | @item e _ _ before _ _ _ f context index _ s hv _ hbefore =>
    have hd := ((regular_evaluate host e c).of_ok hv).balanced.standing hc
    have walked := Orderly.forItems (orderly_walkAll host children h.1) context index s before 0
    have hf := (walked _ hd).of_ok hbefore
    have standing : Standing { n with inEach := true } f := hf.standing hd
    exact ⟨_, h.1, (tags_congr rfl).trans standing, fun hm => ⟨hm, rfl, rfl⟩⟩
  | @noItem e _ _ _ hv =>
    have hd := ((regular_evaluate host e c).of_ok hv).balanced.standing hc
    exact ⟨{ n with inEach := true }, h.2, hd.framed, fun hm => ⟨hm, rfl, rfl⟩⟩
  | @message role as s _ _ hopen =>
    obtain ⟨inside, hinside, hchildren⟩ := h
    obtain ⟨outside, rfl⟩ := enter_message.mp hinside
    refine ⟨_, hchildren, ((opens_message host role as s outside hc).of_ok hopen).1, fun hm => ?_⟩
    cases hm
  | @content kind s _ _ hopen =>
    obtain ⟨inside, hinside, hchildren⟩ := h
    obtain ⟨within, outside, rfl⟩ := enter_content.mp hinside
    refine ⟨_, hchildren, ((opens_content kind s within outside hc).of_ok hopen).1, fun hm => ?_⟩
    cases within.symm.trans hm
  | @step as _ _ _ has =>
    obtain ⟨inside, hinside, hchildren⟩ := h
    obtain ⟨outside, -, -, rfl⟩ := enter_step.mp hinside
    have hd := (((evaluating_regular host).stepAttributes as none [] c).of_ok has).balanced.standing hc
    exact ⟨_, hchildren, hd, fun _ => ⟨outside, rfl, rfl⟩⟩
  | resumed => exact h.elim

/-- The nodes that a walk comes to stand where they may. -/
theorem Visits.placed (hv : Visits host nodes c v) (h : Node.AllPlaced n nodes)
    (hc : Standing n c) :
    ∃ m : Nesting, v.node.Placed m ∧ Standing m v.state ∧
      (m.inMessage = false → n.inMessage = false ∧ v.Outside) := by
  induction hv generalizing n with
  | here a rest c => exact ⟨n, h.1, hc, fun hm => ⟨hm, List.forall_mem_nil _⟩⟩
  | later done _ ih =>
    have balanced : Balanced _ _ := (orderly_walk host _ h.1 _ hc).of_ok done
    exact ih h.2 (balanced.standing hc)
  | inside enters _ rest ih =>
    obtain ⟨k, hchildren, hd, around⟩ := enters.placed h.1 hc
    obtain ⟨m, hnode, hstate, outside⟩ := ih hchildren hd
    refine ⟨m, hnode, hstate, fun hm => ?_⟩
    obtain ⟨hk, within⟩ := outside hm
    obtain ⟨hn, plain⟩ := around hk
    exact ⟨hn, List.forall_mem_cons.mpr ⟨plain, within⟩⟩

/-- A visit to a node that stands where it may, or to a node that is neither a tag nor a block. -/
def WellPlaced (v : Visit) : Prop :=
  (v.node.isMessage = false ∧ v.node.isContent = false ∧ v.node.isStep = false ∧
      v.node.isIf = false ∧ v.node.isEach = false) ∨
    ∃ m : Nesting, v.node.Placed m ∧ Standing m v.state ∧ (m.inMessage = false → v.Outside)

theorem WellPlaced.under_scoped (h : WellPlaced v) (children : List Node) (s : Span)
    (rest : List Node) : WellPlaced (v.under (.scoped children s) rest) := by
  rcases h with plain | ⟨m, hnode, hstate, outside⟩
  · exact Or.inl plain
  · refine Or.inr ⟨m, hnode, hstate, fun hm => ?_⟩
    exact List.forall_mem_cons.mpr ⟨⟨rfl, rfl⟩, outside hm⟩

/-- No walk inside a message or a content tag stops. -/
def Shielded (host : Host) (v : Visit) : Prop :=
  v.node.isMessage = true ∨ v.node.isContent = true →
    ∀ children d, Enters host v.node v.state children d →
      ∀ left e, (walkAll host children).run d ≠ (.ok (.suspended left), e)

theorem WellPlaced.shielded (h : WellPlaced v) : Shielded host v := by
  intro tag children d enters left e hrun
  rcases h with ⟨hmessage, hcontent, -⟩ | ⟨n, hnode, hstate, -⟩
  · simp [hmessage, hcontent] at tag
  · obtain ⟨m, hchildren, hd, around⟩ := enters.placed hnode hstate
    have stopped := (orderly_walkAll host children hchildren d hd).of_ok hrun
    obtain ⟨-, hmessage, hcontent⟩ := around (congrArg Nesting.inMessage stopped.1)
    simp [hmessage, hcontent] at tag

/-- A step is in no message and no content tag. -/
theorem WellPlaced.outside (h : WellPlaced v) (hstep : v.node.isStep = true) : v.Outside := by
  rcases h with ⟨-, -, plain, -⟩ | ⟨m, hnode, -, outside⟩
  · rw [plain] at hstep
    cases hstep
  · cases hv : v.node with
    | step as children s =>
      rw [hv] at hnode
      obtain ⟨inside, hinside, -⟩ := hnode
      exact outside (enter_step.mp hinside).1
    | _ => simp [hv, Node.isStep] at hstep

theorem Visits.wellPlaced_of_written (hv : Visits host nodes c v)
    (h : Node.AllPlaced Nesting.none nodes) (hc : c.tags = (false, false)) : WellPlaced v := by
  obtain ⟨m, hnode, hstate, outside⟩ := hv.placed h hc
  exact Or.inr ⟨m, hnode, hstate, fun hm => (outside hm).2⟩

/-! ## Walks over what is left, in any scope -/

/-- What a walk over what is left has come to: no tags are open, and a part of what was left is
left again. -/
def Leftover (flow : Flow) (d : Compilation) : Prop :=
  d.tags = (false, false) ∧ ∀ left, flow = .suspended left → ∃ k, Remainder k left

theorem Follows.leftover {c d : Compilation} {flow : Flow} (h : Follows Nesting.none c flow d)
    (hc : c.tags = (false, false)) : Leftover flow d := by
  cases flow with
  | done =>
    refine ⟨h.tags.trans hc, fun left hleft => ?_⟩
    cases hleft
  | suspended rest =>
    obtain ⟨-, ⟨k, hk, -⟩, -, hdraft, -⟩ := h
    refine ⟨by simp [tags, hdraft], ?_⟩
    rintro _ ⟨⟩
    exact ⟨k, hk⟩

/-- Nodes as they are written, walked where no tags are open. -/
theorem ends_written (host : Host) (h : Node.AllPlaced Nesting.none nodes)
    (hc : c.tags = (false, false)) :
    Ends (walkAll host nodes) c Leftover (fun e _ => e.OfResumption) :=
  (orderly_walkAll host nodes h c hc).imp (fun _ _ hd => hd.leftover hc)
    (fun _ _ hf => Or.inl hf.2)

theorem ends_respond_any (name : Option String) (s : Span) (c : Compilation) :
    Ends (respond name s) c (fun _ d => d.tags = c.tags) (fun e _ => e.OfResumption) := by
  cases hresponse : c.response with
  | none =>
    rw [respond, ends_bind, ends_get, hresponse]
    exact Or.inr rfl
  | some ps =>
    exact (ends_respond name s hresponse).imp (fun _ _ hd => hd.tags) (fun _ _ hf => Or.inl hf.2)

theorem ends_response (name : Option String) (s : Span) (c : Compilation) :
    Ends (walk host (.response name s)) c (fun _ d => d.tags = c.tags)
      (fun e _ => e.OfResumption) := by
  rw [walk, ends_bind]
  exact ends_respond_any name s c

/-- The frame of a block is closed, or it stays open in what is left. -/
theorem Leftover.leave {flow : Flow} (h : Leftover flow d) (s : Span) :
    Ends (leave s flow) d Leftover (fun e _ => e.OfResumption) := by
  obtain ⟨htags, hleft⟩ := h
  cases flow with
  | done =>
    refine ⟨(tags_congr rfl).trans htags, fun left h => ?_⟩
    cases h
  | suspended left =>
    obtain ⟨k, hk⟩ := hleft left rfl
    refine ⟨htags, ?_⟩
    rintro _ ⟨⟩
    exact ⟨k + 1, .inside hk s trivial⟩

theorem Leftover.go_on {flow : Flow} (h : Leftover flow d)
    (hrest : Node.AllPlaced Nesting.none nodes) :
    Ends (proceed nodes (walkAll host nodes) flow) d Leftover
      (fun e _ => e.OfResumption) := by
  obtain ⟨htags, hleft⟩ := h
  cases flow with
  | done => exact ends_written host hrest htags
  | suspended left =>
    obtain ⟨k, hk⟩ := hleft left rfl
    refine ⟨htags, ?_⟩
    rintro _ ⟨⟩
    exact ⟨k, hk.append hrest⟩

theorem ends_remainder (host : Host) {k : Nat} (h : Remainder k nodes)
    (hc : c.tags = (false, false)) :
    Ends (walkAll host nodes) c Leftover (fun e _ => e.OfResumption) := by
  induction h generalizing c with
  | here name s hrest =>
    simp only [walkAll, walk, ends_bind]
    refine (ends_respond_any name s c).imp (fun _ d hd => ?_) (fun _ _ hf => hf)
    exact ends_written host hrest (hd.trans hc)
  | inside _ s hrest ih =>
    simp only [walkAll, walk, ends_bind]
    refine (ih hc).imp (fun flow d hd => ?_) (fun _ _ hf => hf)
    exact (hd.leave s).imp (fun flow e he => he.go_on hrest) (fun _ _ hf => hf)

theorem ends_scoped (host : Host) {k : Nat} (h : Remainder k children)
    (hc : c.tags = (false, false)) (s : Span) :
    Ends (walk host (.scoped children s)) c Leftover (fun e _ => e.OfResumption) := by
  rw [walk, ends_bind]
  exact (ends_remainder host h hc).imp (fun _ _ hd => hd.leave s) (fun _ _ hf => hf)

theorem Visits.wellPlaced_of_remainder (hv : Visits host nodes c v) {k : Nat}
    (h : Remainder k nodes) (hc : c.tags = (false, false)) : WellPlaced v := by
  induction h generalizing c v with
  | here name s hrest =>
    cases hv with
    | here => exact Or.inl ⟨rfl, rfl, rfl, rfl, rfl⟩
    | @later _ _ _ d _ done hv =>
      have unchanged : d.tags = c.tags := (ends_response name s c).of_ok done
      exact hv.wellPlaced_of_written hrest (unchanged.trans hc)
    | inside enters => cases enters
  | inside hchildren s hrest ih =>
    cases hv with
    | here => exact Or.inl ⟨rfl, rfl, rfl, rfl, rfl⟩
    | later done hv =>
      have closed := (ends_scoped host hchildren hc s).of_ok done
      exact hv.wellPlaced_of_written hrest closed.1
    | inside enters hv =>
      cases enters
      exact (ih hv hc).under_scoped ..

end Compile

/-! ## What can be compiled -/

namespace Fragment

open Compile

/-- What can be read from a text, and what compilations of it leave, in any scopes and with
any responses. -/
inductive Resumed (source : String) : Fragment → Prop where
  | read {f : Fragment} (h : ofText source = .ok f) : Resumed source f
  | rest {f : Fragment} (h : Resumed source f) {host : Host} {scope : Scope}
    {response : Option (List Part)} {calls after : List Call} {o : Outcome}
    (hrun : (f.compile host source scope response).run calls = (.ok o, after)) :
    Resumed source o.rest

/-- A template as it is written, or what is left of one. -/
def Compilable (f : Fragment) : Prop := f.WellNested ∨ ∃ k, Remainder k f.children

variable {host : Host} {f : Fragment} {c : Compilation} {v : Visit}

theorem Compilable.ends_walkAll (h : f.Compilable) (host : Host)
    (hc : c.tags = (false, false)) :
    Ends (walkAll host f.children) c Leftover (fun e _ => e.OfResumption) := by
  rcases h with ⟨front, nodes, hchildren, hnodes⟩ | ⟨k, hk⟩
  · rw [hchildren]
    exact (orderly_config host front hnodes c hc).imp (fun _ _ hd => hd.leftover hc)
      (fun _ _ hf => Or.inl hf.2)
  · exact ends_remainder host hk hc

theorem Compilable.wellPlaced (h : f.Compilable) (hc : c.tags = (false, false))
    (hv : Visits host f.children c v) : WellPlaced v := by
  rcases h with ⟨front, nodes, hchildren, hnodes⟩ | ⟨k, hk⟩
  · rw [hchildren] at hv
    cases front with
    | none => exact hv.wellPlaced_of_written hnodes hc
    | some found =>
      cases hv with
      | here => exact Or.inl ⟨rfl, rfl, rfl, rfl, rfl⟩
      | later done hv =>
        cases done
        exact hv.wellPlaced_of_written hnodes ((Compilation.tags_congr rfl).trans hc)
      | inside enters => cases enters
  · exact hv.wellPlaced_of_remainder hk hc

/-- A compilation fails in one of the ways of resumptions, or leaves what can be compiled. -/
theorem Compilable.compile (h : f.Compilable) (host : Host) (source : String) (scope : Scope)
    (response : Option (List Part)) (calls : List Call) :
    match (f.compile host source scope response).run calls with
    | (.error e, _) => e.OfResumption
    | (.ok o, _) => o.rest.Compilable := by
  have ended : Ends (whole host f) (Compilation.start ⟨scope, calls⟩ response)
      (fun flow _ => ∀ left, flow = .suspended left → ∃ k, Remainder k left)
      (fun e _ => e.OfResumption) := by
    rw [whole, ends_bind]
    refine (h.ends_walkAll host rfl).imp (fun flow d hd => ?_) (fun _ _ hf => hf)
    rw [ends_bind]
    exact ends_flush.imp (fun _ _ _ => hd.2) (fun _ _ h => h.elim)
  rcases compile_cases host source f scope response calls with
    ⟨s, -, hcompile⟩ | ⟨-, ⟨e, d, hrun, hcompile⟩ | ⟨flow, d, hrun, hcompile⟩⟩
  · rw [hcompile]
    have refused : (Cause.unresolvedReference.on s).OfCompilation :=
      Error.ofCompilation_on (by decide) s
    exact Or.inl refused
  · have failed : e.OfResumption := ended.of_error hrun
    rw [hcompile]
    exact failed
  · have leaves := ended.of_ok hrun
    rw [hcompile]
    cases flow with
    | done => exact Or.inl ⟨none, [], rfl, trivial⟩
    | suspended left => exact Or.inr (leaves left rfl)

theorem Resumed.compilable {source : String} (h : Resumed source f) : f.Compilable := by
  induction h with
  | read h => exact Or.inl (wellNested_of_ofText h)
  | @rest f _ host scope response calls after o hrun ih =>
    have compiled := ih.compile host source scope response calls
    rw [hrun] at compiled
    exact compiled

/-- The kinds of errors of tags in places where they may not stand. -/
def structural : List Code :=
  [.messageTagInsideMessage, .contentTagInsideContent, .contentTagOutsideMessage,
    .stepTagInsideStep, .stepTagInsideEach]

theorem not_structural {e : Error} (h : e.OfResumption) : e.code ∉ structural := by
  intro found
  have kinds : e.code ∈ .missingStepResponse :: Code.ofCompilation := by
    rcases h with h | h
    · exact List.mem_cons_of_mem _ h
    · rw [h]
      exact List.mem_cons_self
  revert found kinds
  generalize e.code = code
  revert code
  decide

/-- What can be read from a text is properly nested; and no compilation of it, or of what is
left of it, fails because of a tag in a place where it may not stand, or is stopped inside a
message or a content tag. -/
theorem nesting_of_ofText (source : String) :
    (∀ f, ofText source = .ok f → f.ProperlyNested) ∧
    ∀ f, Resumed source f → ∀ (host : Host) (scope : Scope) (response : Option (List Part))
      (calls : List Call),
      (∀ e after, (f.compile host source scope response).run calls = (.error e, after) →
        e.code ∉ structural) ∧
      ∀ v, Visits host f.children (Compilation.start ⟨scope, calls⟩ response) v →
        Shielded host v := by
  constructor
  · intro f h
    exact (wellNested_of_ofText h).properlyNested
  · intro f h host scope response calls
    constructor
    · intro e after hrun
      have compiled := h.compilable.compile host source scope response calls
      rw [hrun] at compiled
      exact not_structural compiled
    · intro v hv
      exact (h.compilable.wellPlaced rfl hv).shielded

/-- A message in a step. -/
theorem nesting_of_ofText_step :
    ∃ source f o calls,
      source = "<step><user>a</user></step>b" ∧ ofText source = .ok f ∧ f.ProperlyNested ∧
      (f.compile (fun _ _ => .error "") source Scope.empty none).run [] = (.ok o, calls) ∧
      o.completed = false ∧
      ∀ scope e after, (o.rest.compile (fun _ _ => .error "") source scope none).run [] =
        (.error e, after) → e.code ∉ structural := by
  have stops : ((ofText "<step><user>a</user></step>b").toOption.any fun f =>
      ((f.compile (fun _ _ => .error "") "<step><user>a</user></step>b" Scope.empty
        none).run []).1.toOption.any fun o => !o.completed) = true := by decide +kernel
  obtain ⟨nested, compiled⟩ := nesting_of_ofText "<step><user>a</user></step>b"
  cases h : ofText "<step><user>a</user></step>b" with
  | error e => simp [h, Except.toOption] at stops
  | ok f =>
    rcases hrun : (f.compile (fun _ _ => .error "") "<step><user>a</user></step>b" Scope.empty
      none).run [] with ⟨e | o, calls⟩
    · simp [h, hrun, Except.toOption] at stops
    · have suspended : o.completed = false := by
        simpa [h, hrun, Except.toOption] using stops
      refine ⟨_, f, o, calls, rfl, h, nested f h, hrun, suspended, fun scope e after hafter => ?_⟩
      exact (compiled o.rest (.rest (.read h) hrun) _ scope none []).1 e after hafter

end Fragment

end PromptTemplate
