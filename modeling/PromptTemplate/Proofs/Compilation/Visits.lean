import PromptTemplate.Proofs.Compilation.Remainder
import PromptTemplate.Proofs.Template.Ancestors

/-!
# The nodes that a walk comes to

A walk comes to a node after it is done with the nodes before it, or by entering a node
around it. Where it comes to a step outside of messages and content tags, it stops there
with exactly the nodes left that it has not walked, or it fails. Where it stops, it has
come to a step.
-/

namespace PromptTemplate

namespace Compilation

/-- With the frame of an item of an each block open. -/
def atItem (c : Compilation) (context : String) (index : Option String) (i : Nat) (v : Value) :
    Compilation :=
  { c with world := { c.world with scope := c.world.scope.pushItem context index i v } }

end Compilation

namespace Compile

open Compilation

/-- How the walk of a node, from some state, comes to walk the nodes inside it from another. -/
inductive Enters (host : Host) : Node → Compilation → List Node → Compilation → Prop where
  | consequent {e : Expr} {v : Value} {c d : Compilation}
    (hv : (evaluate host e).run c = (.ok v, d)) (truthy : v.isTruthy = true)
    (consequent : List Node) (alternate : Option (List Node)) (s : Span) :
    Enters host (.ifBlock e consequent alternate s) c consequent d.framed
  | alternate {e : Expr} {v : Value} {c d : Compilation}
    (hv : (evaluate host e).run c = (.ok v, d)) (falsy : v.isTruthy = false)
    (consequent alternate : List Node) (s : Span) :
    Enters host (.ifBlock e consequent (some alternate) s) c alternate d.framed
  | item {e : Expr} {v w : Value} {before after : List Value} {c d f : Compilation}
    {context : String} {index : Option String} {body : List Node} {s : Span}
    (hv : (evaluate host e).run c = (.ok v, d)) (hw : v.iterated = before ++ w :: after)
    (hbefore : (forItems context index s (walkAll host body) 0 before).run d = (.ok (), f))
    (alternate : Option (List Node)) :
    Enters host (.eachBlock e context index body alternate s) c body
      (f.atItem context index before.length w)
  | noItem {e : Expr} {v : Value} {c d : Compilation}
    (hv : (evaluate host e).run c = (.ok v, d)) (none_left : v.iterated = [])
    (context : String) (index : Option String) (body alternate : List Node) (s : Span) :
    Enters host (.eachBlock e context index body (some alternate) s) c alternate d.framed
  | message {role : Option Role} {as : List Attribute} {s : Span} {c d : Compilation}
    (hopen : (openMessage host role as s).run c = (.ok (), d)) (children : List Node) :
    Enters host (.message role as children s) c children d
  | content {kind : ContentKind} {s : Span} {c d : Compilation}
    (hopen : (openContent kind s).run c = (.ok (), d)) (as : List Attribute)
    (children : List Node) : Enters host (.content kind as children s) c children d
  | step {as : List Attribute} {named : Option String × Config} {c d : Compilation}
    (has : (stepAttributes host none [] as).run c = (.ok named, d)) (children : List Node)
    (s : Span) : Enters host (.step as children s) c children d
  | resumed (children : List Node) (s : Span) (c : Compilation) :
    Enters host (.scoped children s) c children c

/-- A node that a walk comes to: the nodes around it, the outermost first, each with the
nodes after it, the nodes after the node itself, and the state in which its walk starts. -/
structure Visit where
  around : List (Node × List Node)
  node : Node
  later : List Node
  state : Compilation

namespace Visit

/-- A visit inside a node. -/
def under (v : Visit) (a : Node) (rest : List Node) : Visit :=
  { v with around := (a, rest) :: v.around }

/-- What is left of some nodes around others, if these are left of the innermost. -/
def unwalked : List (Node × List Node) → List Node → List Node
  | [], left => left
  | (a, later) :: around, left => .scoped (unwalked around left) a.span :: later

/-- What a stop at the node leaves: the place of the response, and the nodes that have not
been walked. -/
def leaves (v : Visit) (name : Option String) : List Node :=
  unwalked v.around (.response name v.node.span :: v.later)

end Visit

/-- The nodes that a walk comes to. -/
inductive Visits (host : Host) : List Node → Compilation → Visit → Prop where
  | here (a : Node) (rest : List Node) (c : Compilation) :
    Visits host (a :: rest) c ⟨[], a, rest, c⟩
  | later {a : Node} {rest : List Node} {c d : Compilation} {v : Visit}
    (done : (walk host a).run c = (.ok .done, d)) (hv : Visits host rest d v) :
    Visits host (a :: rest) c v
  | inside {a : Node} {children : List Node} {c d : Compilation} {v : Visit}
    (enters : Enters host a c children d) (hv : Visits host children d v) (rest : List Node) :
    Visits host (a :: rest) c (v.under a rest)

/-! ## Items -/

/-- An item is walked in a frame of its own, and the other items after it. -/
theorem run_forItems_cons (context : String) (index : Option String) (s : Span)
    (body : Compile Flow) (i : Nat) (w : Value) (rest : List Value) (c : Compilation) :
    (forItems context index s body i (w :: rest)).run c =
      (do
        match ← body with
        | .suspended _ => throw (Cause.stepInEach.on s)
        | .done => do
          closeFrame
          forItems context index s body (i + 1) rest : Compile Unit).run
        (c.atItem context index i w) := by
  rw [forItems, changeScope, run_bind, run_modify]
  rfl

/-- Items are walked one after another. -/
theorem run_forItems_append {context : String} {index : Option String} {s : Span}
    {body : Compile Flow} {before : List Value} (after : List Value) {i : Nat}
    {c d : Compilation} (h : (forItems context index s body i before).run c = (.ok (), d)) :
    (forItems context index s body i (before ++ after)).run c =
      (forItems context index s body (i + before.length) after).run d := by
  induction before generalizing i c with
  | nil =>
    cases h
    rfl
  | cons v rest ih =>
    rw [List.cons_append, List.length_cons, Nat.add_comm rest.length, ← Nat.add_assoc]
    rw [run_forItems_cons, run_bind] at h ⊢
    split at h
    · rename_i flow e hbody
      cases flow with
      | suspended left => cases h
      | done =>
        rw [run_bind, closeFrame, run_modify] at h ⊢
        exact ih h
    · cases h

/-! ## Stopping at a step -/

namespace Visit

/-- No message and no content tag is around the node. -/
def Outside (v : Visit) : Prop :=
  ∀ p ∈ v.around, p.1.isMessage = false ∧ p.1.isContent = false

/-- How a walk ends that has stopped at a step: it leaves the place of the response to the
step followed by the nodes that have not been walked. -/
def Stops (host : Host) (v : Visit) (as : List Attribute) (flow : Flow) (e : Compilation) : Prop :=
  ∃ name config d, (stepAttributes host none [] as).run v.state = (.ok (name, config), d) ∧
    flow = .suspended (v.leaves name) ∧ e.stepConfig = some config

theorem Stops.congr {host : Host} {v : Visit} {as : List Attribute} {flow : Flow}
    {d e : Compilation} (h : v.Stops host as flow d) (he : e.stepConfig = d.stepConfig) :
    v.Stops host as flow e := by
  obtain ⟨name, config, f, hattributes, hflow, hconfig⟩ := h
  exact ⟨name, config, f, hattributes, hflow, he.trans hconfig⟩

end Visit

/-- A walk that stops at a step or fails. -/
def Halts (host : Host) (v : Visit) (as : List Attribute) (p : Compile Flow) (c : Compilation) :
    Prop := Ends p c (v.Stops host as) (fun _ _ => True)

variable {host : Host} {a : Node} {children : List Node} {c d : Compilation} {v : Visit}
  {as : List Attribute} {p : Compile Flow}

theorem ends_bind_of_ok {α β : Type} {p : Compile α} {f : α → Compile β} {x : α}
    {good : β → Compilation → Prop} {bad : Error → Compilation → Prop}
    (h : p.run c = (.ok x, d)) : Ends (p >>= f) c good bad ↔ Ends (f x) d good bad := by
  rw [Ends, run_bind_ok h]
  exact Iff.rfl

namespace Halts

/-- A walk that stops in a frame leaves the frame open. -/
theorem leave (h : Halts host v as p c) (a : Node) :
    Halts host (v.under a []) as (p >>= leave a.span) c := by
  rw [Halts, ends_bind]
  refine h.imp (fun flow e he => ?_) (fun _ _ h => h)
  obtain ⟨name, config, f, hattributes, rfl, hconfig⟩ := he
  exact ⟨name, config, f, hattributes, rfl, hconfig⟩

theorem inFrame (h : Halts host v as p c.framed) (a : Node) :
    Halts host (v.under a []) as (inFrame a.span p) c := h.leave a

/-- Nodes after a node at which a walk stops are left. -/
theorem proceed (h : Halts host (v.under a []) as p c) (rest : List Node)
    (next : Compile Flow) : Halts host (v.under a rest) as (p >>= proceed rest next) c := by
  rw [Halts, ends_bind]
  refine h.imp (fun flow e he => ?_) (fun _ _ h => h)
  obtain ⟨name, config, f, hattributes, rfl, hconfig⟩ := he
  exact ⟨name, config, f, hattributes, rfl, hconfig⟩

/-- Where no step may be, a walk that stops or fails makes the whole fail. -/
theorem refused {β : Type} (h : Halts host v as p c) {f : Flow → Compile β} {err : Error}
    (hf : ∀ left, f (.suspended left) = throw err) :
    Ends (p >>= f) c (fun _ _ => False) (fun _ _ => True) := by
  rw [ends_bind]
  refine h.imp (fun flow e he => ?_) (fun _ _ h => h)
  obtain ⟨name, config, d, -, rfl, -⟩ := he
  rw [hf]
  trivial

end Halts

theorem halts_of_fails (h : Ends p c (fun _ _ => False) (fun _ _ => True)) :
    Halts host v as p c := h.imp (fun _ _ h => h.elim) (fun _ _ h => h)

/-- A step inside an item makes the walk of all items fail. -/
theorem fails_forItems {context : String} {index : Option String} {s : Span} {w : Value}
    {before after : List Value}
    (hbefore : (forItems context index s p 0 before).run c = (.ok (), d))
    (h : Halts host v as p (d.atItem context index before.length w)) :
    Ends (forItems context index s p 0 (before ++ w :: after)) c (fun _ _ => False)
      (fun _ _ => True) := by
  rw [Ends, run_forItems_append (w :: after) hbefore, Nat.zero_add, run_forItems_cons]
  exact h.refused fun left => rfl

/-- A walk inside a node that stops makes the walk of the node stop, or fail. -/
theorem Enters.halts (enters : Enters host a c children d)
    (outside : a.isMessage = false ∧ a.isContent = false)
    (h : Halts host v as (walkAll host children) d) :
    Halts host (v.under a []) as (walk host a) c := by
  cases enters with
  | consequent hv truthy _ other s =>
    rw [walk, Halts, ends_bind_of_ok hv, truthy]
    exact h.inFrame (.ifBlock _ children other s)
  | alternate hv falsy other _ s =>
    rw [walk, Halts, ends_bind_of_ok hv, falsy, walkOption]
    exact h.inFrame (.ifBlock _ other (some children) s)
  | @item e v' w before after _ d f context index _ s hv hw hbefore alternate =>
    have some_left : (before ++ w :: after).isEmpty = false := by simp
    rw [walk, Halts, ends_bind_of_ok hv]
    simp only [hw, some_left, Bool.false_eq_true, if_false, ends_bind]
    exact (fails_forItems hbefore h).imp (fun _ _ h => h.elim) (fun _ _ h => h)
  | @noItem e _ _ _ hv none_left context index body _ s =>
    rw [walk, Halts, ends_bind_of_ok hv]
    simp only [none_left, List.isEmpty_nil, if_true, walkOption]
    have stopped := h.inFrame (.eachBlock e context index body (some children) s)
    exact halts_of_fails (stopped.refused fun left => rfl)
  | message hopen => cases outside.1
  | content hopen => cases outside.2
  | step has children s =>
    rw [walk, Halts, ends_bind_of_ok has]
    exact halts_of_fails (h.refused fun left => rfl)
  | resumed children s =>
    rw [walk]
    exact h.leave (.scoped children s)

/-- The walk of a step stops there, or fails. -/
theorem halts_step (host : Host) (as : List Attribute) (children rest : List Node) (s : Span)
    (c : Compilation) :
    Halts host ⟨[], .step as children s, rest, c⟩ as
      (walkAll host (.step as children s :: rest)) c := by
  rw [walkAll, walk]
  rcases hattributes : (stepAttributes host none [] as).run c with ⟨e | ⟨name, config⟩, d⟩
  · rw [Halts, Ends, run_bind_error (run_bind_error hattributes _)]
    trivial
  · rw [Halts, bind_assoc, ends_bind_of_ok hattributes]
    simp only [bind_assoc, ends_bind]
    refine Ends.any.imp (fun flow e _ => ?_) (fun _ _ h => h)
    cases flow with
    | suspended left => trivial
    | done =>
      simp only [ends_bind]
      refine Ends.any.imp (fun _ f _ => ?_) (fun _ _ h => h)
      exact ⟨name, config, d, hattributes, rfl, rfl⟩

/-- A walk that comes to a step outside of messages and content tags stops there, or fails. -/
theorem halts_of_visits {nodes : List Node} (hv : Visits host nodes c v) (outside : v.Outside)
    {children : List Node} {s : Span} (hs : v.node = .step as children s) :
    Halts host v as (walkAll host nodes) c := by
  induction hv with
  | here a rest c =>
    obtain rfl : a = .step as children s := hs
    exact halts_step host as children rest s c
  | later done hv ih =>
    rw [walkAll, Halts, ends_bind_of_ok done]
    exact ih outside hs
  | inside enters hv rest ih =>
    obtain ⟨here, within⟩ := List.forall_mem_cons.mp outside
    rw [walkAll]
    exact (enters.halts here (ih within hs)).proceed rest _

end Compile

end PromptTemplate
