import PromptTemplate.Proofs.Expr.Evaluation
import PromptTemplate.Proofs.Scope.Session

/-!
# What an evaluation leaves alone

An evaluation touches only what it assigns: the outer frames keep their names, the
innermost one gains names that stand as targets of assignments, and a variable that no
target leads to keeps its value. All of this is said of runs of writes, and holds of an
evaluation because it is one, whether it comes to a value or to an error.
-/

namespace PromptTemplate

/-! ## Runs of writes -/

namespace Scope

/-- A name of the innermost frame is known. -/
theorem contains_of_mem_top {s : Scope} {name : String}
    (h : name ∈ Dictionary.keys s.top.pointers) : s.contains name = true := by
  obtain ⟨i, hi⟩ := Option.isSome_iff_exists.mp (Dictionary.mem_keys_iff.mp h)
  simp [contains, slot?, frames, hi]

/-- A write changes the names of the innermost frame only to add a name that is unknown. -/
theorem WellFormed.names_set {s : Scope} (h : s.WellFormed) (name : String) (v : Value) :
    Dictionary.keys (s.set name v).top.pointers =
      if s.contains name then Dictionary.keys s.top.pointers
      else Dictionary.keys s.top.pointers ++ [name] := by
  rw [h.set_eq, contains]
  cases found : s.slot? name with
  | some i => rfl
  | none =>
    have fresh : name ∉ Dictionary.keys s.top.pointers := by
      intro hmem
      have known := contains_of_mem_top hmem
      simp [contains, found] at known
    simp [Scope.declare, Dictionary.keys_put, fresh]

namespace Writes

variable {may : Scope → String → Prop} {s t : Scope}

/-- Where nothing may be written, nothing is. -/
theorem eq_of_never (h : Writes may s t) (never : ∀ u name, ¬may u name) : t = s := by
  cases h with
  | refl => rfl
  | set _ hname _ => exact absurd hname (never _ _)

/-- A variable that is never written keeps its value. -/
theorem get?_eq (h : Writes may s t) (hs : s.WellFormed) {name : String}
    (never : ∀ u, ¬may u name) : t.get? name = s.get? name := by
  induction h with
  | refl => rfl
  | @set u hsu written hwritten v ih =>
    have hne : written ≠ name := by
      intro heq
      exact never u (heq ▸ hwritten)
    exact ((hsu.wellFormed hs).get?_set_ne v hne).trans ih

/-- The innermost frame gains names that may be written while they are unknown. -/
theorem names_top (h : Writes may s t) (hs : s.WellFormed) :
    ∃ gained, Dictionary.keys t.top.pointers = Dictionary.keys s.top.pointers ++ gained ∧
      ∀ name ∈ gained, ∃ u, u.contains name = false ∧ may u name := by
  induction h with
  | refl => exact ⟨[], by simp⟩
  | @set u hsu written hwritten v ih =>
    obtain ⟨gained, hkeys, hgained⟩ := ih
    rw [(hsu.wellFormed hs).names_set, hkeys]
    by_cases known : u.contains written
    · exact ⟨gained, by simp [known], hgained⟩
    · refine ⟨gained ++ [written], by simp [known], ?_⟩
      intro name hname
      rcases List.mem_append.mp hname with hold | hnew
      · exact hgained name hold
      · cases List.mem_singleton.mp hnew
        exact ⟨u, by simpa using known, hwritten⟩

end Writes

/-- Every scope of a session with some parameters is well-formed. -/
theorem wellFormed_of_session (parameters : List (String × Value)) (requests : List Request) :
    (environment.run ⟨ofParameters parameters, []⟩ requests).2.current.WellFormed := by
  have start : Session.All WellFormed ⟨ofParameters parameters, []⟩ :=
    ⟨wellFormed_ofParameters parameters, by simp⟩
  exact (environment_refines.run_eq start requests).2.1

end Scope

/-! ## Expressions -/

namespace Expr

/-- Whether the expression is an assignment or an update. -/
def isWrite : Expr → Bool
  | .assign .. | .update .. => true
  | _ => false

/-- The name that an assignment makes known if it is unknown. -/
def assignedName? : Expr → Option String
  | .assign _ (.identifier name _) _ _ => some name
  | _ => none

/-- The variable that an assignment or an update changes. -/
def writtenName? : Expr → Option String
  | .assign _ target _ _ | .update _ _ target _ => target.root?
  | _ => none

/-- The names that stand in an expression as the whole target of an assignment. -/
def assignedNames (e : Expr) : List String := e.subexpressions.filterMap assignedName?

/-- The roots of the targets of the assignments and updates in an expression. -/
def writtenNames (e : Expr) : List String := e.subexpressions.filterMap writtenName?

theorem mem_writtenNames_of_assigned {e : Expr} {name : String} (h : name ∈ e.assignedNames) :
    name ∈ e.writtenNames := by
  obtain ⟨x, hx, hname⟩ := List.mem_filterMap.mp h
  refine List.mem_filterMap.mpr ⟨x, hx, ?_⟩
  rw [assignedName?.eq_def] at hname
  split at hname
  · exact hname
  · cases hname

theorem not_mem_writtenNames {e : Expr} (h : ∀ x ∈ e.subexpressions, x.isWrite = false)
    (name : String) : name ∉ e.writtenNames := by
  intro hmem
  obtain ⟨x, hx, hname⟩ := List.mem_filterMap.mp hmem
  have := h x hx
  cases x <;> first | cases hname | cases this

/-- An evaluation may make a name known that it assigns to, and may write to a known
variable that a target leads to. -/
def MayWrite (e : Expr) (s : Scope) (name : String) : Prop :=
  name ∈ e.assignedNames ∨ s.contains name = true ∧ name ∈ e.writtenNames

theorem MayWrite.mem {e : Expr} {s : Scope} {name : String} (h : e.MayWrite s name) :
    name ∈ e.writtenNames :=
  h.elim mem_writtenNames_of_assigned And.right

theorem within_mayWrite (e : Expr) : ∀ x ∈ e.subexpressions,
    x.Within e.MayWrite (fun _ => True) := by
  intro x hx
  have reached : ∀ {name}, x.writtenName? = some name →
      ∀ s, s.contains name = true → e.MayWrite s name :=
    fun hname s known => .inr ⟨known, List.mem_filterMap.mpr ⟨x, hx, hname⟩⟩
  refine ⟨fun _ _ => trivial, ?_⟩
  split
  · exact fun s => .inl (List.mem_filterMap.mpr ⟨_, hx, rfl⟩)
  · exact fun _ => reached
  · exact fun _ => reached
  · trivial

/-- An evaluation is a run of writes, whatever it comes to. -/
theorem writes_evaluate (host : Host) (e : Expr) (w : World) :
    w.scope.Writes e.MayWrite ((evaluate host e).run w).2.scope :=
  (keeps_evaluate host (within_mayWrite e)).run w

/-- What evaluating an expression in a scope leaves as it was, and what it may add. -/
structure Touches (e : Expr) (s t : Scope) : Prop where
  depth : t.depth = s.depth
  outer : t.outer = s.outer
  /-- The names of the innermost frame stay, and the new ones are assigned to by name. -/
  top : ∃ gained, Dictionary.keys t.top.pointers = Dictionary.keys s.top.pointers ++ gained ∧
    ∀ name ∈ gained, name ∈ e.assignedNames
  /-- A variable that no target leads to stays known or unknown and keeps its value. -/
  kept : ∀ name, name ∉ e.writtenNames →
    t.contains name = s.contains name ∧ t.get? name = s.get? name
  /-- Without assignments and updates the scope stays the same. -/
  same : (∀ x ∈ e.subexpressions, x.isWrite = false) → t = s

/-- In every scope that a session comes to, an evaluation touches only what it assigns,
whether it comes to a value or to an error. -/
theorem touches_evaluate (host : Host) (e : Expr) (parameters : List (String × Value))
    (requests : List Request) (calls : List Call) :
    let s := (Scope.environment.run ⟨Scope.ofParameters parameters, []⟩ requests).2.current
    e.Touches s ((evaluate host e).run ⟨s, calls⟩).2.scope := by
  intro s
  have hs : s.WellFormed := Scope.wellFormed_of_session parameters requests
  have writes : s.Writes e.MayWrite ((evaluate host e).run ⟨s, calls⟩).2.scope :=
    writes_evaluate host e ⟨s, calls⟩
  refine ⟨writes.depth_eq, writes.outer_eq, ?_, ?_, ?_⟩
  · obtain ⟨gained, hkeys, hgained⟩ := writes.names_top hs
    refine ⟨gained, hkeys, fun name hname => ?_⟩
    obtain ⟨u, unknown, hmay⟩ := hgained name hname
    rcases hmay with assigned | ⟨known, -⟩
    · exact assigned
    · simp [unknown] at known
  · intro name hname
    have value := writes.get?_eq hs fun u hmay => hname (MayWrite.mem hmay)
    refine ⟨?_, value⟩
    rw [Bool.eq_iff_iff, (writes.wellFormed hs).contains_iff, hs.contains_iff, value]
  · intro pure
    exact writes.eq_of_never fun u name hmay => not_mem_writtenNames pure name (MayWrite.mem hmay)

end Expr

end PromptTemplate
