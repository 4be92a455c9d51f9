import PromptTemplate.Proofs.Chain.Seamless
import PromptTemplate.Proofs.Parameters.Walks

/-!
# Parameters of chains

A chain that is given all parameters of its template can still lack a variable: the analysis
of parameters takes for granted that an assignment is evaluated where it may be skipped. The
careful analysis does not, and no chain lacks a variable that neither of them reports.
-/

namespace PromptTemplate

open Analysis Compile

/-- The names that a template may read before they are defined, although the analysis of
parameters does not report them. -/
def Fragment.overlooked (f : Fragment) : List String :=
  f.carefulParameters.filter fun name => !(f.parameters []).contains name

/-- All parameters of a scope are known in it. -/
theorem Scope.contains_ofParameters {parameters : List (String × Value)} {name : String}
    (h : name ∈ parameters.map (·.1)) : (ofParameters parameters).contains name = true := by
  induction parameters using List.reverseRecOn with
  | nil => cases h
  | append_singleton rest e ih =>
    rw [ofParameters_concat, contains_set]
    rw [List.map_append, List.mem_append] at h
    rcases h with h | h
    · simp [ih h]
    · simp [List.mem_singleton.mp h]

namespace Chain

/-- Whatever responses come, a direct walk over what is left of a chain fails only as an
analysis excuses. -/
def Assured (host : Host) (given : List String) (a : Analysis) (c : Chain) : Prop :=
  ∀ left, ∃ d, c.Continues d ∧
    Ends (Direct.whole host c.rest.children) ⟨d, left⟩ (fun _ _ => True)
      (fun halt _ => ∀ e, Ending.error? halt = some e → a.Excuses given e)

variable {host : Host} {given : List String} {a : Analysis} {c : Chain} {calls : List Call}
  {response : Option (List Part)}

theorem assured_start {source : String} {parameters : List (String × Value)} {first : Chain}
    (h : start source parameters = .ok first) (host : Host) :
    first.Assured host (parameters.map (·.1))
      (Analysis.empty.carefulNodes first.rest.children) := by
  obtain ⟨f, hf, rfl⟩ := exists_of_start h
  intro left
  have covered : Analysis.empty.Covers (parameters.map (·.1)) (Scope.ofParameters parameters) :=
    ⟨Scope.wellFormed_ofParameters parameters, fun _ hname => Scope.contains_ofParameters hname,
      List.forall_mem_nil _⟩
  refine ⟨Compilation.start ⟨Scope.ofParameters parameters, []⟩ none, ⟨rfl, rfl, rfl, rfl⟩, ?_⟩
  exact (Direct.assures_whole host (Fragment.wellNested_of_ofText hf) _ covered).imp
    (fun _ _ _ => trivial) (fun _ _ h => h)

/-- What a compilation leaves is as assured as what it started with. -/
theorem Assured.advanced (h : c.Assured host given a) (hc : c.Fits)
    (allowed : c.objection? response = none) {flow : Flow} {e : Compilation}
    (hrun : c.compilation host response calls = (.ok flow, e)) :
    (c.advanced flow e).Assured host given a := by
  intro left
  obtain ⟨d, hd, hends⟩ := h (response.toList ++ left)
  obtain ⟨d', hd', hsame⟩ := (tracks_compilation hc allowed hd left).of_ok hrun
  refine ⟨d', hd', ?_⟩
  cases flow with
  | done =>
    have quiet : Ends (Direct.whole host []) ⟨d', left⟩ (fun _ _ => True) (fun _ _ => False) :=
      trivial
    exact quiet.imp (fun _ _ h => h) fun _ _ h => h.elim
  | suspended rest =>
    rw [Ends] at hends ⊢
    rw [hsame] at hends
    exact hends

/-- A compilation fails only as the analysis excuses. -/
theorem Assured.excuses (h : c.Assured host given a) (hc : c.Fits)
    (allowed : c.objection? response = none) {err : Error} {e : Compilation}
    (hrun : c.compilation host response calls = (.error err, e)) : a.Excuses given err := by
  obtain ⟨d, hd, hends⟩ := h (response.toList ++ [])
  obtain ⟨d', hfails⟩ := (tracks_compilation hc allowed hd []).of_error hrun
  exact hends.of_error hfails err rfl

theorem assured_of_reaches {first : Chain} (h : first.Assured host given a) (hfits : first.Fits)
    (hr : first.rest.reference? = none) (hc : Reaches host first c calls) :
    c.rest.reference? = none ∧ c.Assured host given a := by
  induction hc with
  | start => exact ⟨hr, h⟩
  | @call c calls hc response ih =>
    obtain ⟨hr, hassured⟩ := ih
    have fits := fits_of_reaches hfits hc
    rcases step_cases host c response calls with ⟨fault, -, hstep⟩ | ⟨s, -, hstep⟩ |
      ⟨ho, -, ⟨e, d, -, hstep⟩ | ⟨flow, d, hrun, hstep⟩⟩
    · rw [hstep]
      exact ⟨hr, hassured⟩
    · rw [hstep]
      exact ⟨hr, hassured⟩
    · rw [hstep]
      exact ⟨hr, hassured⟩
    · rw [hstep]
      exact ⟨reference?_advanced hr hrun, hassured.advanced fits ho hrun⟩

/-- No call of a chain that is given all parameters of its template lacks a variable, unless
the analysis of parameters overlooks that variable. -/
theorem overlooked_of_undeclared {source : String} {parameters : List (String × Value)}
    {first : Chain} (h : start source parameters = .ok first) (hr : first.rest.reference? = none)
    (given : ∀ name ∈ first.rest.parameters [], name ∈ parameters.map (·.1)) {host : Host}
    {c : Chain} {calls : List Call} (hc : Reaches host first c calls)
    (response : Option (List Part)) {e : Error}
    (failed : ((c.step host response).run calls).1.1 = .error (.compile e))
    (undeclared : e.code = .variableNotDeclared) :
    ∃ name ∈ first.rest.overlooked, e.cause = .undeclared name := by
  have fits := fits_start h
  obtain ⟨hfree, hassured⟩ := assured_of_reaches (assured_start h host) fits hr hc
  rcases step_cases host c response calls with ⟨fault, ho, hstep⟩ | ⟨s, hs, -⟩ |
    ⟨ho, -, ⟨err, d, hrun, hstep⟩ | ⟨flow, d, -, hstep⟩⟩
  · rw [hstep] at failed
    cases failed
    exact absurd rfl (ne_compile_of_objection ho e)
  · rw [hfree] at hs
    cases hs
  · rw [hstep] at failed
    cases failed
    obtain ⟨name, hname, hgiven, hcause⟩ :=
      hassured.excuses (fits_of_reaches fits hc) ho hrun undeclared
    refine ⟨name, List.mem_filter.mpr ⟨hname, ?_⟩, hcause⟩
    simpa using fun reported => hgiven (given name reported)
  · rw [hstep] at failed
    cases failed

/-- Whether a call failed with an error of a kind while it compiled. -/
def failedWith (code : Code) : Except ChainFault ChainStep → Bool
  | .error (.compile e) => e.code == code
  | _ => false

theorem exists_of_failedWith {code : Code} {r : Except ChainFault ChainStep}
    (h : failedWith code r = true) : ∃ e, r = .error (.compile e) ∧ e.code = code := by
  rcases r with (_ | _ | _ | _ | e) | s
  case error.compile => exact ⟨e, rfl, by simpa [failedWith] using h⟩
  all_goals cases h

/-- A variable is missing after a step, and its assignment was skipped before the step. -/
theorem overlooked_of_undeclared_step :
    ∃ first next : Chain, ∃ e : Error,
      start "\x7b\x7b false && (b = 1) \x7d\x7d<step></step>\x7b\x7b b \x7d\x7d" [] = .ok first ∧
      ((first.step (fun _ _ => .error "") none).run []).1.2 = next ∧
      ((next.step (fun _ _ => .error "") (some [.text "z"])).run []).1.1 = .error (.compile e) ∧
      ∃ name ∈ first.rest.overlooked, e.cause = .undeclared name := by
  have fails : (match start
      "\x7b\x7b false && (b = 1) \x7d\x7d<step></step>\x7b\x7b b \x7d\x7d" [] with
      | .ok first => first.rest.reference?.isNone && (first.rest.parameters []).isEmpty &&
        let next := ((first.step (fun _ _ => .error "") none).run [])
        next.2.isEmpty && failedWith .variableNotDeclared
          ((next.1.2.step (fun _ _ => .error "") (some [.text "z"])).run []).1.1
      | .error _ => false) = true := by decide +kernel
  cases h : start "\x7b\x7b false && (b = 1) \x7d\x7d<step></step>\x7b\x7b b \x7d\x7d" [] with
  | error e => simp [h] at fails
  | ok first =>
    rw [h] at fails
    obtain ⟨hfree, hsteps⟩ := Bool.and_eq_true_iff.mp fails
    obtain ⟨hr, hparameters⟩ := Bool.and_eq_true_iff.mp hfree
    obtain ⟨hcalls, hstep⟩ := Bool.and_eq_true_iff.mp hsteps
    have reached : Reaches (fun _ _ => .error "") first _ _ := .call (.start []) none
    rw [List.isEmpty_iff.mp hcalls] at reached
    obtain ⟨e, hrun, hcode⟩ := exists_of_failedWith hstep
    refine ⟨first, _, e, rfl, rfl, hrun, ?_⟩
    refine overlooked_of_undeclared h (Option.isNone_iff_eq_none.mp hr) ?_ reached
      (some [.text "z"]) hrun hcode
    rw [List.isEmpty_iff.mp hparameters]
    intro name hname
    cases hname

/-- An assignment in the right operand of a logical operator may be skipped. -/
theorem undeclared_of_skipped_assignment :
    ∃ first : Chain, ∃ e : Error,
      start "\x7b\x7b false && (b = 1) \x7d\x7d\x7b\x7b b \x7d\x7d" [] = .ok first ∧
      first.rest.reference? = none ∧ first.rest.parameters [] = [] ∧
      ((first.step (fun _ _ => .error "") none).run []).1.1 = .error (.compile e) ∧
      e.code = .variableNotDeclared := by
  have fails : (match start "\x7b\x7b false && (b = 1) \x7d\x7d\x7b\x7b b \x7d\x7d" [] with
      | .ok first => first.rest.reference?.isNone && (first.rest.parameters []).isEmpty &&
        failedWith .variableNotDeclared ((first.step (fun _ _ => .error "") none).run []).1.1
      | .error _ => false) = true := by decide +kernel
  cases h : start "\x7b\x7b false && (b = 1) \x7d\x7d\x7b\x7b b \x7d\x7d" [] with
  | error e => simp [h] at fails
  | ok first =>
    rw [h] at fails
    obtain ⟨hfree, hstep⟩ := Bool.and_eq_true_iff.mp fails
    obtain ⟨hr, hparameters⟩ := Bool.and_eq_true_iff.mp hfree
    obtain ⟨e, hrun, hcode⟩ := exists_of_failedWith hstep
    exact ⟨first, e, rfl, Option.isNone_iff_eq_none.mp hr, List.isEmpty_iff.mp hparameters, hrun,
      hcode⟩

end Chain

end PromptTemplate
