import PromptTemplate.Compilation
import PromptTemplate.Proofs.Compilation.Direct
import PromptTemplate.Proofs.Parameters.Careful
import PromptTemplate.Proofs.Run
import PromptTemplate.Proofs.Scope.Grows

/-!
# Scopes that an analysis covers

An analysis covers a scope if all names that it has defined, and all names that were given
from the beginning, are known in the scope. A computation is assured by a step of an
analysis if it goes from scopes covered before the step to scopes covered after it, and
lacks a variable only if the analysis reports that variable and it was not given.
-/

namespace PromptTemplate

/-- States with a scope. -/
class InScope (σ : Type) where
  scope : σ → Scope

instance : InScope World := ⟨(·.scope)⟩

instance : InScope Compilation := ⟨(·.world.scope)⟩

instance : InScope Dialogue := ⟨(·.compilation.world.scope)⟩

/-- Reasons to end, of which some are errors. -/
class Ending (ε : Type) where
  error? : ε → Option Error

instance : Ending Error := ⟨some⟩

instance : Ending Halt where
  error?
    | .failed e => some e
    | .starved => none

namespace Analysis

/-- All given and all defined names are known in a scope. -/
structure Covers (given : List String) (a : Analysis) (s : Scope) : Prop where
  wellFormed : s.WellFormed
  given : ∀ name ∈ given, s.contains name = true
  defined : ∀ name ∈ a.defined, s.contains name = true

/-- An error is no undeclared variable, or is one that is reported and was not given. -/
def Excuses (given : List String) (a : Analysis) (e : Error) : Prop :=
  e.code = .variableNotDeclared → ∃ name ∈ a.used, name ∉ given ∧ e.cause = .undeclared name

theorem excuses_of_code {given : List String} {a : Analysis} {e : Error}
    (h : e.code ≠ .variableNotDeclared) : a.Excuses given e := fun hcode => absurd hcode h

namespace Covers

variable {given : List String} {a b : Analysis} {s t : Scope} {name : String}

theorem of_defined (h : a.Covers given s) (hb : b.defined ⊆ a.defined) : b.Covers given s :=
  ⟨h.wellFormed, h.given, fun name hname => h.defined name (hb hname)⟩

/-- What grows out of a covered scope is covered, as long as it is well-formed. -/
theorem grow (h : a.Covers given s) (hst : Scope.Grows s t) (ht : t.WellFormed) :
    a.Covers given t :=
  ⟨ht, fun name hname => hst.contains name (h.given name hname),
    fun name hname => hst.contains name (h.defined name hname)⟩

theorem define (h : a.Covers given s) (hname : s.contains name = true) :
    (a.define name).Covers given s := by
  refine ⟨h.wellFormed, h.given, fun other hother => ?_⟩
  rcases List.mem_cons.mp hother with rfl | hother
  · exact hname
  · exact h.defined other hother

/-- A variable that is written is known. -/
theorem set (h : a.Covers given s) (name : String) (v : Value) :
    (a.define name).Covers given (s.set name v) :=
  (h.grow (.set s name v) (h.wellFormed.set name v)).define (by simp [Scope.contains_set])

theorem know (h : a.Covers given s) (hname : s.contains name = true) :
    a.Covers (name :: given) s :=
  ⟨h.wellFormed, List.forall_mem_cons.mpr ⟨hname, h.given⟩, h.defined⟩

theorem forget (h : a.Covers (name :: given) s) : a.Covers given s :=
  ⟨h.wellFormed, (List.forall_mem_cons.mp h.given).2, h.defined⟩

theorem push (h : a.Covers given s) : a.Covers given s.push :=
  ⟨h.wellFormed.push, h.given, h.defined⟩

theorem pushItem (h : a.Covers given s) (context : String) (index : Option String) (i : Nat)
    (v : Value) :
    ((a.define context).defineOption index).Covers given (s.pushItem context index i v) := by
  have inner : ∀ name, s.contains name = true →
      (s.pushItem context index i v).contains name = true := by
    intro name hname
    simp [Scope.contains_pushItem, hname]
  have first : (a.define context).Covers given (s.pushItem context index i v) := by
    refine Covers.define ⟨h.wellFormed.pushItem context index i v, ?_, ?_⟩ ?_
    · intro name hname
      exact inner name (h.given name hname)
    · intro name hname
      exact inner name (h.defined name hname)
    · simp [Scope.contains_pushItem]
  cases index with
  | none => exact first
  | some name => exact first.define (by simp [Scope.contains_pushItem])

end Covers

section

variable {σ ε : Type} [InScope σ] [Ending ε]

/-- A computation is assured by the step from one analysis to another. -/
def Assures (given : List String) (a b : Analysis) {α : Type} (p : ExceptT ε (StateM σ) α) : Prop :=
  ∀ s, a.Covers given (InScope.scope s) →
    Ends p s
      (fun _ t =>
        Scope.Grows (InScope.scope s) (InScope.scope t) ∧ b.Covers given (InScope.scope t))
      (fun err _ => ∀ e, Ending.error? err = some e → b.Excuses given e)

end

namespace Assures

variable {σ ε α β : Type} [InScope σ] [Ending ε] {given : List String} {a b c : Analysis}
  {p : ExceptT ε (StateM σ) α}

theorem pure (x : α) : Assures given a a (Pure.pure x : ExceptT ε (StateM σ) α) :=
  fun s h => ⟨refl_of Scope.Grows (InScope.scope s), h⟩

theorem throw {err : ε} (h : ∀ e, Ending.error? err = some e → e.code ≠ .variableNotDeclared) :
    Assures given a b (throw err : ExceptT ε (StateM σ) α) :=
  fun _ _ e he => excuses_of_code (h e he)

/-- Less may be known before, more may be known after, and more may be reported. -/
theorem imp {a' b' : Analysis} (h : Assures given a b p) (ha : a.defined ⊆ a'.defined)
    (hb : b'.defined ⊆ b.defined) (hused : b.used ⊆ b'.used) : Assures given a' b' p := by
  intro s hs
  refine (h s (hs.of_defined ha)).imp ?_ ?_
  · rintro x t ⟨hgrows, ht⟩
    exact ⟨hgrows, ht.of_defined hb⟩
  · intro err t herr e he hcode
    obtain ⟨name, hname, hrest⟩ := herr e he hcode
    exact ⟨name, hused hname, hrest⟩

/-- The second of two computations is assured if it is for the values that the first one can
have. -/
theorem bind_of {f : α → ExceptT ε (StateM σ) β} {good : α → Prop} (hp : Assures given a b p)
    (hgood : Returns good p) (hf : ∀ x, good x → Assures given b c (f x))
    (hused : b.used ⊆ c.used := by exact List.Subset.refl _) : Assures given a c (p >>= f) := by
  intro s hs
  rw [ends_bind]
  have first : Assures given a ⟨b.defined, c.used⟩ p :=
    hp.imp (List.Subset.refl _) (List.Subset.refl _) hused
  refine ((first s hs).and (hgood s)).imp ?_ ?_
  · rintro x t ⟨⟨hst, ht⟩, hx⟩
    refine (hf x hx t (ht.of_defined (List.Subset.refl _))).imp ?_ (fun _ _ h => h)
    rintro y u ⟨htu, hu⟩
    exact ⟨trans_of Scope.Grows hst htu, hu⟩
  · intro err t herr
    exact herr.1

theorem bind {f : α → ExceptT ε (StateM σ) β} (hp : Assures given a b p)
    (hf : ∀ x, Assures given b c (f x)) (hused : b.used ⊆ c.used := by exact List.Subset.refl _) :
    Assures given a c (p >>= f) :=
  hp.bind_of .any (fun x _ => hf x) hused

theorem ite {P : Prop} [Decidable P] {q : ExceptT ε (StateM σ) α} (hp : Assures given a b p)
    (hq : Assures given a b q) : Assures given a b (if P then p else q) := by
  split
  · exact hp
  · exact hq

/-- What is defined inside is not defined after it. -/
theorem inside {block : Analysis → Analysis} (h : Assures given a (block a) p) :
    Assures given a (a.inside block) p := by
  intro s hs
  refine (h s hs).imp ?_ (fun _ _ he => he)
  rintro x t ⟨hgrows, ht⟩
  exact ⟨hgrows, (hs.grow hgrows ht.wellFormed).of_defined (List.Subset.refl _)⟩

/-- What does nothing skips what may be skipped. -/
theorem skip {block : Analysis → Analysis} (x : α) (hused : a.used ⊆ (block a).used) :
    Assures given a (a.inside block) (Pure.pure x : ExceptT ε (StateM σ) α) :=
  (Assures.pure x).imp (List.Subset.refl _) (List.Subset.refl _) hused

theorem perhaps {part : Analysis → Analysis} (h : Assures given a (part a) p) (skippable : Bool) :
    Assures given a (a.perhaps skippable part) p := by
  rw [Analysis.perhaps]
  split
  · exact h.inside
  · exact h

theorem skipped {skippable : Bool} (hskip : skippable = true) {part : Analysis → Analysis} (x : α)
    (hused : a.used ⊆ (part a).used) :
    Assures given a (a.perhaps skippable part) (Pure.pure x : ExceptT ε (StateM σ) α) := by
  rw [Analysis.perhaps]
  rw [if_pos hskip]
  exact skip x hused

/-- What changes no scope is assured. -/
theorem modify {f : σ → σ} (h : ∀ s, InScope.scope (f s) = InScope.scope s) :
    Assures given a a (modify f : ExceptT ε (StateM σ) PUnit) := by
  intro s hs
  rw [ends_modify, h]
  exact ⟨refl_of Scope.Grows (InScope.scope s), hs⟩

end Assures

end Analysis

end PromptTemplate
