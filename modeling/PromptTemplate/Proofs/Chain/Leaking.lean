import PromptTemplate.Proofs.Chain.Parameters
import PromptTemplate.Proofs.Compilation.Closure
import PromptTemplate.Proofs.Parameters.Plain

/-!
# Parameters of what a chain has left

What a suspended chain has left begins inside the frames that were open around the step. The
analysis of parameters goes on after such a frame with the names that were defined in it,
although the frame is closed there. An analysis that forgets them reports every variable that
the next call can lack, if the template has only plain assignments.
-/

namespace PromptTemplate

open Analysis Compile Template

namespace Analysis

mutual

/-- Looks at a node of what is left; what is defined in a frame is not defined after it. -/
def resumeNode (a : Analysis) : Node → Analysis
  | .scoped children _ => a.inside fun b => b.resume children
  | x => node [] a x

/-- Looks at what is left of a template. -/
def resume (a : Analysis) : List Node → Analysis
  | [] => a
  | x :: rest => (a.resumeNode x).resume rest

end

/-- Nodes as they are written are not inside a frame that is open. -/
theorem resume_of_placed {n : Nesting} {nodes : List Node} (h : Node.AllPlaced n nodes)
    (a : Analysis) : a.resume nodes = Analysis.nodes [] a nodes := by
  induction nodes generalizing a with
  | nil => rfl
  | cons x rest ih =>
    have first : a.resumeNode x = node [] a x := by
      unfold resumeNode
      split
      · exact h.1.elim
      · rfl
    rw [resume]
    rw [first]
    exact ih h.2 _

theorem resume_response (a : Analysis) (name : Option String) (s : Span) {rest : List Node}
    (h : Node.AllPlaced Nesting.none rest) :
    a.resume (.response name s :: rest) = nodes [] a (.response name s :: rest) :=
  resume_of_placed h _

theorem resume_scoped (a : Analysis) (children : List Node) (s : Span) {rest : List Node}
    (h : Node.AllPlaced Nesting.none rest) :
    a.resume (.scoped children s :: rest) = nodes [] (a.inside (·.resume children)) rest :=
  resume_of_placed h _

theorem Excuses.mono {given : List String} {a b : Analysis} {e : Error} (h : a.Excuses given e)
    (hused : a.used ⊆ b.used) : b.Excuses given e := fun hcode =>
  (h hcode).imp fun _ ⟨hname, hrest⟩ => ⟨hused hname, hrest⟩

theorem Covers.of_nothing {a : Analysis} (ha : a.defined = []) {s : Scope} (hs : s.WellFormed) :
    a.Covers [] s := ⟨hs, List.forall_mem_nil _, ha ▸ List.forall_mem_nil _⟩

end Analysis

/-- The names that what is left of a template may read after the frames in which they are
defined are closed, although the analysis of parameters does not report them. -/
def Fragment.leaked (f : Fragment) : List String :=
  (Analysis.empty.resume f.children).used.filter fun name => !(f.parameters []).contains name

/-- Nothing leaks out of the outermost frame. -/
theorem Fragment.leaked_eq_nil {f : Fragment} (h : Remainder 0 f.children) : f.leaked = [] := by
  obtain ⟨nodes, s⟩ := f
  cases h with
  | here name place hrest =>
    refine List.filter_eq_nil_iff.mpr fun m hm => ?_
    rw [Analysis.resume_response _ name place hrest] at hm
    simpa [Fragment.parameters] using hm

/-! ## Direct walks -/

namespace Direct

open Analysis

variable {host : Host} {given : List String} {a b : Analysis} {nodes : List Node}

theorem assures_plain {n : Nesting} (h : Node.AllPlaced n nodes)
    (plain : ∀ x ∈ Node.walkAll nodes, x.Plain) :
    Assures given a (Analysis.nodes [] a nodes) (walkAll host nodes) := by
  have same : Within (Analysis.nodes [] a nodes).used a a := ⟨rfl, used_nodes a nodes⟩
  have within := within_nodes plain same (List.Subset.refl _)
  exact (assures_walkAll host nodes h).imp (List.Subset.refl _)
    (fun _ hname => within.defined ▸ hname) within.used

/-- A walk over what is left lacks a variable only if the analysis reports it. Each frame that
is closed takes its names with it, so nothing is defined where the next outer one goes on. -/
theorem ends_remainder {k : Nat} (h : Remainder k nodes)
    (plain : ∀ x ∈ Node.walkAll nodes, x.Plain) (ha : a.defined = []) {s : Dialogue}
    (hs : s.compilation.world.scope.WellFormed) :
    Ends (walkAll host nodes) s (fun _ t => t.compilation.world.scope.WellFormed)
      (fun halt _ => ∀ e, Ending.error? halt = some e → (a.resume nodes).Excuses [] e) := by
  induction h generalizing a s with
  | @here name place rest hrest =>
    obtain ⟨-, hplain⟩ := List.forall_mem_append.mp plain
    have walked : Assures [] a (Analysis.nodes [] (a.defineOption name) rest)
        (answer name >>= fun _ => walkAll host rest) :=
      .bind (assures_answer fun _ h => h) (fun _ => assures_plain hrest hplain) (used_nodes _ rest)
    rw [resume_response a name place hrest, walkAll, walk]
    exact (walked s (.of_nothing ha hs)).imp (fun _ _ h => h.2.wellFormed) fun _ _ h => h
  | @inside _ children _ place rest hrest ih =>
    obtain ⟨hblock, hplain⟩ := List.forall_mem_append.mp plain
    rw [resume_scoped a _ place hrest, walkAll, walk, ends_bind, ends_bind]
    refine (ih (List.forall_mem_cons.mp hblock).2 ha hs).imp (fun _ t ht => ?_)
      fun _ _ h e he => (h e he).mono (used_nodes (a.inside (·.resume children)) rest)
    have walked : Assures [] (a.inside (·.resume children)) _ (walkAll host rest) :=
      assures_plain hrest hplain
    have forgotten : (a.inside (·.resume children)).defined = [] := ha
    refine (walked _ (.of_nothing forgotten ?_)).imp (fun _ _ h => h.2.wellFormed) fun _ _ h => h
    exact ht.pop

end Direct

/-! ## Chains -/

namespace Chain

variable {host : Host} {c first : Chain} {calls : List Call} {response : Option (List Part)}

/-- What a call leaves, it leaves of what there was. -/
theorem leaves_of_compilation {left : List Node} {e : Compilation}
    (hcomp : c.compilation host response calls = (.ok (.suspended left), e)) :
    Leaves c.rest.children left :=
  (leaving_whole host c.rest _).of_ok hcomp left rfl

theorem plain_advanced {flow : Flow} {e : Compilation} (h : ∀ x ∈ c.rest.walk, x.Plain)
    (hcomp : c.compilation host response calls = (.ok flow, e)) :
    ∀ x ∈ (c.advanced flow e).rest.walk, x.Plain := by
  cases flow with
  | done => exact List.forall_mem_nil _
  | suspended left =>
    exact (leaves_of_compilation hcomp).forall_walk (fun _ _ => trivial) (fun _ _ => trivial) h

/-- A chain with a well-formed scope and a template that has only plain assignments. -/
structure Tame (c : Chain) : Prop where
  fits : c.Fits
  free : c.rest.reference? = none
  plain : ∀ x ∈ c.rest.walk, x.Plain
  wellFormed : c.scope.WellFormed

theorem Tame.advanced (h : c.Tame) (allowed : c.objection? response = none) {flow : Flow}
    {e : Compilation} (hcomp : c.compilation host response calls = (.ok flow, e)) :
    (c.advanced flow e).Tame where
  fits := ((ends_compilation h.fits host allowed calls).of_ok hcomp).2
  free := reference?_advanced h.free hcomp
  plain := plain_advanced h.plain hcomp
  wellFormed := by
    have kept := (staysFormed_whole host c.rest _).of_ok hcomp h.wellFormed
    rwa [show (c.advanced flow e).scope = e.world.scope from Scope.ofStash_stash _]

theorem tame_of_reaches (h : first.Tame) (hc : Reaches host first c calls) : c.Tame := by
  induction hc with
  | start => exact h
  | @call c calls _ response ih =>
    rcases step_cases host c response calls with ⟨fault, -, hstep⟩ | ⟨s, -, hstep⟩ |
      ⟨ho, -, ⟨e, d, -, hstep⟩ | ⟨flow, d, hrun, hstep⟩⟩
    · rw [hstep]
      exact ih
    · rw [hstep]
      exact ih
    · rw [hstep]
      exact ih
    · rw [hstep]
      exact ih.advanced ho hrun

/-- The next call of a suspended chain lacks only what the analysis of what is left reports. -/
theorem Tame.assured (h : c.Tame) {k : Nat} (hk : Remainder k c.rest.children) (host : Host) :
    c.Assured host [] (Analysis.empty.resume c.rest.children) := by
  intro left
  refine ⟨{ Compilation.start ⟨c.scope, []⟩ none with messages := c.messages },
    ⟨rfl, rfl, rfl, rfl⟩, ?_⟩
  rw [Direct.whole, ends_bind]
  refine (Direct.ends_remainder hk h.plain rfl h.wellFormed).imp (fun _ t ht => ?_)
    fun _ _ he => he
  have flushed : Assures [] ⟨[], (Analysis.empty.resume c.rest.children).used⟩ _
      (Direct.perform flush) := Direct.assures_perform assures_flush
  exact (flushed t (.of_nothing rfl ht)).imp (fun _ _ _ => trivial) fun _ _ he => he

/-- A call of a suspended chain lacks a variable only if the analysis of parameters of what is
left reports it, or if it leaks out of a frame that is open. -/
theorem leaked_of_undeclared {source : String} {parameters : List (String × Value)}
    (h : start source parameters = .ok first) (hr : first.rest.reference? = none)
    (plain : ∀ x ∈ first.rest.walk, x.Plain) {host : Host} (hc : Reaches host first c calls)
    (running : c.state = .running) (response : Option (List Part)) {e : Error}
    (failed : ((c.step host response).run calls).1.1 = .error (.compile e))
    (undeclared : e.code = .variableNotDeclared) :
    ∃ name, e.cause = .undeclared name ∧
      (name ∈ c.rest.parameters [] ∨ name ∈ c.rest.leaked ∧ 1 < c.scope.depth) := by
  obtain ⟨f, hf, rfl⟩ := exists_of_start h
  have tame := tame_of_reaches
    ⟨fits_start h, hr, plain, Scope.wellFormed_ofParameters parameters⟩ hc
  obtain ⟨k, hk, hdepth⟩ : ∃ k, Remainder k c.rest.children ∧ c.scope.depth = 1 + k := by
    simpa [Fits, running] using tame.fits
  rcases step_cases host c response calls with ⟨fault, ho, hstep⟩ | ⟨s, hs, -⟩ |
    ⟨ho, -, ⟨err, d, hrun, hstep⟩ | ⟨flow, d, -, hstep⟩⟩
  · rw [hstep] at failed
    cases failed
    exact absurd rfl (ne_compile_of_objection ho e)
  · rw [tame.free] at hs
    cases hs
  · rw [hstep] at failed
    cases failed
    obtain ⟨name, hname, -, hcause⟩ :=
      (tame.assured hk host).excuses tame.fits ho hrun undeclared
    refine ⟨name, hcause, or_iff_not_imp_left.mpr fun unreported => ?_⟩
    have leaks : name ∈ c.rest.leaked := List.mem_filter.mpr ⟨hname, by simpa using unreported⟩
    have inside : k ≠ 0 := by
      rintro rfl
      rw [Fragment.leaked_eq_nil hk] at leaks
      cases leaks
    exact ⟨leaks, by omega⟩
  · rw [hstep] at failed
    cases failed

/-- A variable that is read only after a step is missing in the second call. -/
theorem leaked_of_undeclared_step :
    ∃ first next : Chain, ∃ e : Error,
      start "<step></step>\x7b\x7b x = x + 1 \x7d\x7d" [] = .ok first ∧
      ((first.step (fun _ _ => .error "") none).run []).1.2 = next ∧
      ((next.step (fun _ _ => .error "") (some [.text "z"])).run []).1.1 = .error (.compile e) ∧
      ∃ name, e.cause = .undeclared name ∧
        (name ∈ next.rest.parameters [] ∨ name ∈ next.rest.leaked ∧ 1 < next.scope.depth) := by
  have fails : (match start "<step></step>\x7b\x7b x = x + 1 \x7d\x7d" [] with
      | .ok first => first.rest.reference?.isNone && decide (∀ x ∈ first.rest.walk, x.Plain) &&
        let next := (first.step (fun _ _ => .error "") none).run []
        next.2.isEmpty && (next.1.2.state == .running && failedWith .variableNotDeclared
          ((next.1.2.step (fun _ _ => .error "") (some [.text "z"])).run []).1.1)
      | .error _ => false) = true := by decide +kernel
  cases h : start "<step></step>\x7b\x7b x = x + 1 \x7d\x7d" [] with
  | error e => simp [h] at fails
  | ok first =>
    rw [h] at fails
    obtain ⟨htemplate, hsteps⟩ := Bool.and_eq_true_iff.mp fails
    obtain ⟨hr, hplain⟩ := Bool.and_eq_true_iff.mp htemplate
    obtain ⟨hcalls, hsecond⟩ := Bool.and_eq_true_iff.mp hsteps
    obtain ⟨hrunning, hstep⟩ := Bool.and_eq_true_iff.mp hsecond
    have reached : Reaches (fun _ _ => .error "") first _ _ := .call (.start []) none
    rw [List.isEmpty_iff.mp hcalls] at reached
    obtain ⟨e, hrun, hcode⟩ := exists_of_failedWith hstep
    exact ⟨first, _, e, rfl, rfl, hrun, leaked_of_undeclared h (Option.isNone_iff_eq_none.mp hr)
      (of_decide_eq_true hplain) reached (eq_of_beq hrunning) (some [.text "z"]) hrun hcode⟩

/-- The analysis of parameters takes the name of a response for known behind the block in which
the step was. -/
theorem undeclared_of_closed_frame :
    ∃ first next : Chain, ∃ e : Error,
      start "\x7b\x7b#if true\x7d\x7d<step as=\"r\"></step>\x7b\x7b/if\x7d\x7d\x7b\x7b r \x7d\x7d" [] =
        .ok first ∧
      first.rest.reference? = none ∧ (∀ x ∈ first.rest.walk, x.Plain) ∧
      Reaches (fun _ _ => .error "") first next [] ∧ next.state = .running ∧
      ((next.step (fun _ _ => .error "") (some [.text "z"])).run []).1.1 = .error (.compile e) ∧
      e.code = .variableNotDeclared ∧ next.rest.parameters [] = [] := by
  have fails : (match start
      "\x7b\x7b#if true\x7d\x7d<step as=\"r\"></step>\x7b\x7b/if\x7d\x7d\x7b\x7b r \x7d\x7d" [] with
      | .ok first => first.rest.reference?.isNone && decide (∀ x ∈ first.rest.walk, x.Plain) &&
        let next := (first.step (fun _ _ => .error "") none).run []
        next.2.isEmpty && (next.1.2.state == .running && (failedWith .variableNotDeclared
          ((next.1.2.step (fun _ _ => .error "") (some [.text "z"])).run []).1.1 &&
          (next.1.2.rest.parameters []).isEmpty))
      | .error _ => false) = true := by decide +kernel
  cases h : start
      "\x7b\x7b#if true\x7d\x7d<step as=\"r\"></step>\x7b\x7b/if\x7d\x7d\x7b\x7b r \x7d\x7d" [] with
  | error e => simp [h] at fails
  | ok first =>
    rw [h] at fails
    obtain ⟨htemplate, hsteps⟩ := Bool.and_eq_true_iff.mp fails
    obtain ⟨hr, hplain⟩ := Bool.and_eq_true_iff.mp htemplate
    obtain ⟨hcalls, hsecond⟩ := Bool.and_eq_true_iff.mp hsteps
    obtain ⟨hrunning, hfails⟩ := Bool.and_eq_true_iff.mp hsecond
    obtain ⟨hstep, hparameters⟩ := Bool.and_eq_true_iff.mp hfails
    have reached : Reaches (fun _ _ => .error "") first _ _ := .call (.start []) none
    rw [List.isEmpty_iff.mp hcalls] at reached
    obtain ⟨e, hrun, hcode⟩ := exists_of_failedWith hstep
    exact ⟨first, _, e, rfl, Option.isNone_iff_eq_none.mp hr, of_decide_eq_true hplain, reached,
      eq_of_beq hrunning, hrun, hcode, List.isEmpty_iff.mp hparameters⟩

end Chain

end PromptTemplate
