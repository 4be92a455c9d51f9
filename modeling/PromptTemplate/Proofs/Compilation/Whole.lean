import PromptTemplate.Proofs.Run
import PromptTemplate.Compilation

/-!
# Compilations of whole templates

A template with a reference tag is refused, and every other template is walked as a whole.
-/

namespace PromptTemplate

namespace Fragment

variable {host : Host} {source : String} {f : Fragment} {scope : Scope}
  {response : Option (List Part)} {calls : List Call}

/-- The walk behind a compilation. -/
def compilation (host : Host) (f : Fragment) (scope : Scope) (response : Option (List Part))
    (calls : List Call) : Except Error Flow × Compilation :=
  (Compile.whole host f).run (Compilation.start ⟨scope, calls⟩ response)

theorem compile_of_reference {s : Span} (h : f.reference? = some s) :
    (f.compile host source scope response).run calls =
      (.error ((Cause.unresolvedReference.on s).locate source.toList), calls) := by
  rw [compile, h]
  rfl

theorem compile_eq (h : f.reference? = none) :
    (f.compile host source scope response).run calls =
      match f.compilation host scope response calls with
      | (.ok flow, d) => (.ok (d.outcome f flow), d.world.calls)
      | (.error e, d) => (.error (e.locate source.toList), d.world.calls) := by
  rw [compilation]
  rcases hrun : (Compile.whole host f).run (Compilation.start ⟨scope, calls⟩ response) with
    ⟨_ | _, d⟩ <;>
  · simp only [compile, h, run_bind, run_get, hrun, run_set]
    rfl

/-- What a compilation can come to: it is refused, or its walk fails, or its walk ends well. -/
theorem compile_cases (host : Host) (source : String) (f : Fragment) (scope : Scope)
    (response : Option (List Part)) (calls : List Call) :
    (∃ s, f.reference? = some s ∧ (f.compile host source scope response).run calls =
      (.error ((Cause.unresolvedReference.on s).locate source.toList), calls)) ∨
    f.reference? = none ∧
      ((∃ e d, f.compilation host scope response calls = (.error e, d) ∧
        (f.compile host source scope response).run calls =
          (.error (e.locate source.toList), d.world.calls)) ∨
      ∃ flow d, f.compilation host scope response calls = (.ok flow, d) ∧
        (f.compile host source scope response).run calls =
          (.ok (d.outcome f flow), d.world.calls)) := by
  cases hr : f.reference? with
  | some s => exact .inl ⟨s, rfl, compile_of_reference hr⟩
  | none =>
    refine .inr ⟨rfl, ?_⟩
    rw [compile_eq hr]
    rcases f.compilation host scope response calls with ⟨e | flow, d⟩
    · exact .inl ⟨e, d, rfl, rfl⟩
    · exact .inr ⟨flow, d, rfl, rfl⟩

end Fragment

end PromptTemplate
