import PromptTemplate.Proofs.Compilation.Leaves
import PromptTemplate.Proofs.Compilation.Resumed
import PromptTemplate.Proofs.Scope.Json
import PromptTemplate.Proofs.Template.Json
import PromptTemplate.Proofs.Template.Spans

/-!
# Stopped compilations through JSON

What a compilation leaves of a template comes back from its JSON form, and so do the values of
its variables, as far as these have one. So the next compilation goes on as if nothing had been
stored.
-/

namespace PromptTemplate

open Compile

/-- A number literal too large for a double. -/
def Expr.Infinite : Expr → Prop
  | .literal (.number x) _ => x.isInf = true
  | _ => False

instance : ∀ e : Expr, Decidable e.Infinite
  | .literal (.number x) _ => inferInstanceAs (Decidable (x.isInf = true))
  | .literal .undefined _ | .literal .null _ | .literal (.bool _) _ | .literal (.string _) _
  | .identifier .. | .array .. | .object .. | .member .. | .call .. | .unary .. | .binary ..
  | .logical .. | .conditional .. | .assign .. | .update .. => .isFalse id

/-- A number that is neither infinite nor undefined is finite. -/
theorem Number.isFinite_of_not {x : Float} (named : x.isNaN = false) (bounded : ¬ x.isInf = true) :
    x.isFinite = true := by
  change x.toModel.unpack.isNaN = false at named
  change ¬ x.toModel.unpack.isInf = true at bounded
  change x.toModel.unpack.isFinite = true
  cases hx : x.toModel.unpack with
  | notANumber => rw [hx] at named; cases named
  | infinity s => rw [hx] at bounded; exact absurd rfl bounded
  | _ => rfl

theorem Expr.Nameable.storable {e : Expr} (h : e.Nameable) (bounded : ¬ e.Infinite) :
    e.Storable := by
  cases e with
  | literal value s =>
    cases value with
    | number x => exact Number.isFinite_of_not h bounded
    | _ => trivial
  | _ => trivial

namespace Fragment

variable {source : String} {f : Fragment}

/-- What holds of the nodes of a template that has been read, and of those that only what is left
of one has, holds of all nodes of what is left. -/
theorem Resumed.forall_walk {P : Node → Prop} (hresponse : ∀ name s, P (.response name s))
    (hscoped : ∀ children s, P (.scoped children s)) (h : Resumed source f)
    (hread : ∀ g, ofText source = .ok g → ∀ x ∈ g.walk, P x) : ∀ x ∈ f.walk, P x := by
  induction h with
  | read h => exact hread _ h
  | @rest f _ host scope response calls after o hrun ih =>
    obtain ⟨s, -, hcompile⟩ | ⟨-, ⟨e, d, hwalk, hcompile⟩ | ⟨flow, d, hwalk, hcompile⟩⟩ :=
      compile_cases host source f scope response calls
    · rw [hcompile] at hrun
      cases hrun
    · rw [hcompile] at hrun
      cases hrun
    · rw [hcompile] at hrun
      cases hrun
      cases flow with
      | done => exact List.forall_mem_nil _
      | suspended left =>
        have leaves := (leaving_whole host f _).of_ok hwalk
        exact (leaves left rfl).forall_walk hresponse hscoped ih

/-- No number literal is undefined. -/
theorem Resumed.nameable (h : Resumed source f) {e : Expr}
    (he : e ∈ Node.allExpressions f.children) : Expr.AllNameable e.subexpressions := by
  have nodes := h.forall_walk
    (P := fun x => ∀ e ∈ x.expressions, Expr.AllNameable e.subexpressions)
    (fun _ _ => List.forall_mem_nil _) (fun _ _ => List.forall_mem_nil _)
    fun g hg x hx e he => nameable_of_ofText hg (List.mem_flatMap.mpr ⟨x, hx, he⟩)
  obtain ⟨x, hx, he⟩ := List.mem_flatMap.mp he
  exact nodes x hx e he

/-- What can be read from a text, and what is left of it, comes back if no number literal in it is
too large. -/
theorem Resumed.ofJson?_toJson (h : Resumed source f)
    (bounded : ∀ e ∈ Node.allExpressions f.children, ∀ x ∈ e.subexpressions, ¬ x.Infinite) :
    Fragment.ofJson? f.toJson = some f :=
  Fragment.ofJson?_toJson fun e he x hx => (h.nameable he x hx).storable (bounded e he x hx)

/-- What a compilation leaves comes back from JSON, with the values of its variables if all of
them have a form, and the next compilation is the one that it would have been. Whatever its
values are, a stash comes back with as many slots and with the same frames, and then comes back
as it is. -/
theorem restored_of_resumed (source : String) :
    (∀ f, Resumed source f → ∀ (host : Host) (scope : Scope) (response : Option (List Part))
      (calls : List Call) (o : Outcome) (after : List Call),
      (f.compile host source scope response).run calls = (.ok o, after) → o.completed = false →
      (∀ v ∈ o.stash.slots, v.Storable) →
      (∀ e ∈ Node.allExpressions o.rest.children, ∀ x ∈ e.subexpressions, ¬ x.Infinite) →
      ∃ stash rest, Stash.ofJson? o.stash.toJson = some stash ∧
        Fragment.ofJson? o.rest.toJson = some rest ∧ stash = o.stash ∧ rest = o.rest ∧
        ∀ (host : Host) (source : String) (response : Option (List Part)),
          rest.compile host source (Scope.ofStash stash) response =
            o.rest.compile host source (Scope.ofStash o.stash) response) ∧
    ∀ s : Stash, ∃ t, Stash.ofJson? s.toJson = some t ∧
      t.slots = s.slots.map Value.carried ∧ t.frames = s.frames ∧
      Stash.ofJson? t.toJson = some t := by
  constructor
  · intro f h host scope response calls o after hrun _ values bounded
    have stash := o.stash.ofJson?_toJson
    rw [Stash.carried_of_storable values] at stash
    have rest := (h.rest hrun).ofJson?_toJson bounded
    exact ⟨o.stash, o.rest, stash, rest, rfl, rfl, fun _ _ _ => rfl⟩
  · intro s
    refine ⟨s.carried, s.ofJson?_toJson, rfl, rfl, ?_⟩
    rw [Stash.ofJson?_toJson, Stash.carried_carried]

/-- A number literal and a number in a slot. -/
theorem restored_of_resumed_step :
    ∃ source f o after, source = "<step/>\x7b\x7ba + 0.5\x7d\x7d" ∧ ofText source = .ok f ∧
      (f.compile (fun _ _ => .error "") source (Scope.ofParameters [("a", .number 2)]) none).run [] =
        (.ok o, after) ∧ o.completed = false ∧
      ∃ stash rest, Stash.ofJson? o.stash.toJson = some stash ∧
        Fragment.ofJson? o.rest.toJson = some rest ∧ stash = o.stash ∧ rest = o.rest := by
  have stops : ((ofText "<step/>\x7b\x7ba + 0.5\x7d\x7d").toOption.any fun f =>
      ((f.compile (fun _ _ => .error "") "<step/>\x7b\x7ba + 0.5\x7d\x7d"
        (Scope.ofParameters [("a", .number 2)]) none).run []).1.toOption.any fun o =>
          decide (o.completed = false ∧ (∀ v ∈ o.stash.slots, v.Storable) ∧
            ∀ e ∈ Node.allExpressions o.rest.children, ∀ x ∈ e.subexpressions, ¬ x.Infinite)) =
      true := by decide +kernel
  obtain ⟨restored, -⟩ := restored_of_resumed "<step/>\x7b\x7ba + 0.5\x7d\x7d"
  cases h : ofText "<step/>\x7b\x7ba + 0.5\x7d\x7d" with
  | error e => simp [h, Except.toOption] at stops
  | ok f =>
    rcases hrun : (f.compile (fun _ _ => .error "") "<step/>\x7b\x7ba + 0.5\x7d\x7d"
      (Scope.ofParameters [("a", .number 2)]) none).run [] with ⟨e | o, after⟩
    · simp [h, hrun, Except.toOption] at stops
    · rw [h] at stops
      simp only [Except.toOption, Option.any_some, hrun, decide_eq_true_eq] at stops
      obtain ⟨suspended, values, bounded⟩ := stops
      obtain ⟨stash, rest, hstash, hrest, same, left, -⟩ :=
        restored f (.read h) _ _ _ [] o after hrun suspended values bounded
      exact ⟨_, f, o, after, rfl, h, hrun, suspended, stash, rest, hstash, hrest, same, left⟩

end Fragment

end PromptTemplate
