import PromptTemplate.Value.Operator

/-!
# Errors of operations on values

Operations on values fail with causes of four kinds. Those that follow a path place the
error at the step of the path that cannot be followed.
-/

namespace PromptTemplate

/-- The kinds of errors of operations on values. -/
def Code.ofValues : List Code :=
  [.propertyNotExists, .invalidUpdate, .invalidAssignment, .unsupportedOperator]

namespace Value

/-- An error of an operation on values at one of some steps. -/
def FaultAt (steps : List Step) (e : Error) : Prop :=
  ∃ c : Cause, ∃ step ∈ steps, e = c.on step.span ∧ c.code ∈ Code.ofValues

theorem FaultAt.cons {steps : List Step} {e : Error} (step : Step) (h : FaultAt steps e) :
    FaultAt (step :: steps) e := by
  obtain ⟨c, x, hx, he⟩ := h
  exact ⟨c, x, List.mem_cons_of_mem _ hx, he⟩

theorem faultAt_head {c : Cause} (step : Step) (steps : List Step)
    (h : c.code ∈ Code.ofValues) : FaultAt (step :: steps) (c.on step.span) :=
  ⟨c, step, List.mem_cons_self, rfl, h⟩

theorem error_of_map {α β : Type} {f : α → β} {r : Except Error α} {e : Error}
    (h : r.map f = .error e) : r = .error e := by
  cases r with
  | error d =>
    cases h
    rfl
  | ok a => cases h

theorem code_of_property {strict : Bool} {key : String} {target : Value} {c : Cause}
    (h : target.property strict key = .error c) : c.code ∈ Code.ofValues := by
  simp only [property] at h
  grind [Code.ofValues, Cause.code]

theorem code_of_binary {op : BinaryOp} {a b : Value} {c : Cause}
    (h : binary op a b = .error c) : c.code ∈ Code.ofValues := by
  cases op with
  | isIn =>
    simp only [binary, hasKey] at h
    grind [Code.ofValues, Cause.code]
  | instanceOf => cases h; decide
  | _ => cases h

theorem faultAt_of_grow {items : List Value} {length : Nat} {step : Step} {e : Error}
    (h : grow items length step = .error e) : FaultAt [step] e := by
  rw [grow] at h
  split at h
  · cases h
    exact faultAt_head step [] (by simp [Cause.code, Code.ofValues])
  · cases h

theorem faultAt_of_withProperty {target : Value} {step : Step} {v : Value} {e : Error}
    (h : target.withProperty step v = .error e) : FaultAt [step] e := by
  have refused : ∀ t : Value, FaultAt [step] (refuse step t) :=
    fun t => faultAt_head step [] (by simp [Cause.code, Code.ofValues])
  have missing : FaultAt [step] ((Cause.missingProperty step.name).on step.span) :=
    faultAt_head step [] (by simp [Cause.code, Code.ofValues])
  have badLength : FaultAt [step] (Cause.invalidLength.on step.span) :=
    faultAt_head step [] (by decide)
  cases target with
  | object members =>
    simp only [withProperty] at h
    split at h <;> cases h
    exact missing
  | array items =>
    simp only [withProperty] at h
    cases hi : index? step.name with
    | some i =>
      simp only [hi] at h
      split at h
      · cases h
      · exact faultAt_of_grow (error_of_map h)
    | none =>
      simp only [hi] at h
      split at h
      · cases hv : length? v with
        | some n =>
          rw [hv] at h
          exact faultAt_of_grow (error_of_map h)
        | none =>
          rw [hv] at h
          cases h
          exact badLength
      · split at h <;> cases h
        · exact missing
        · exact refused _
  | _ =>
    cases h
    exact refused _

theorem faultAt_of_readPath {root : Value} {steps : List Step} {e : Error}
    (h : root.readPath steps = .error e) : FaultAt steps e := by
  induction steps generalizing root with
  | nil => cases h
  | cons step rest ih =>
    rw [readPath] at h
    cases hp : root.property (!step.computed) step.name with
    | ok v =>
      rw [hp] at h
      exact (ih h).cons step
    | error c =>
      rw [hp] at h
      cases h
      exact faultAt_head step rest (code_of_property hp)

theorem faultAt_of_writePath {target : Value} {steps : List Step} {v : Value} {e : Error}
    (h : target.writePath steps v = .error e) : FaultAt steps e := by
  induction steps generalizing target with
  | nil => cases h
  | cons step rest ih =>
    cases rest with
    | nil => exact faultAt_of_withProperty h
    | cons next rest =>
      have missing : FaultAt (step :: next :: rest)
          ((Cause.missingProperty step.name).on step.span) :=
        faultAt_head step _ (by simp [Cause.code, Code.ofValues])
      simp only [writePath] at h
      cases target with
      | object members =>
        cases hm : Dictionary.get? members step.name with
        | some child =>
          simp only [hm] at h
          exact (ih (error_of_map h)).cons step
        | none =>
          simp only [hm] at h
          cases h
          exact missing
      | array items =>
        cases hi : (index? step.name).bind fun i => items[i]?.map (i, ·) with
        | some found =>
          simp only [hi] at h
          exact (ih (error_of_map h)).cons step
        | none =>
          simp only [hi] at h
          cases h
          exact missing
      | _ =>
        cases h
        exact faultAt_head step _ (by simp [Cause.code, Code.ofValues])

end Value

end PromptTemplate
