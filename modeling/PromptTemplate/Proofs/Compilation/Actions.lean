import PromptTemplate.Proofs.Expr.Evaluation
import PromptTemplate.Proofs.Compilation.Attributes

/-!
# What actions of a compilation do

Most actions are regular: they write to variables, add to what is there, and leave the
frames and the tags that are open as they are. The others open or close a tag or a frame.
Actions fail only with the causes of evaluations and of attributes that are not right, as
long as tags are opened where they may stand.
-/

namespace PromptTemplate

/-- The kinds of errors of compilations of nodes that stand where they may. -/
def Code.ofCompilation : List Code :=
  .invalidMessageRole :: .toolMessageWithoutId :: .unsupportedContentType ::
    .didNotResolveReferences :: Code.ofEvaluation

/-- An error of a kind that compilations have. -/
def Error.OfCompilation (e : Error) : Prop := e.code ∈ Code.ofCompilation

theorem Error.ofCompilation_on {c : Cause} (h : c.code ∈ Code.ofCompilation) (s : Span) :
    (c.on s).OfCompilation := h

theorem Code.ofCompilation_of_evaluation {c : Code} (h : c ∈ Code.ofEvaluation) :
    c ∈ Code.ofCompilation := by
  simp [ofCompilation, h]

namespace Compilation

/-- Whether a message and a content tag are open. -/
def tags (c : Compilation) : Bool × Bool :=
  (c.draft.isSome, (c.draft.bind (·.content)).isSome)

theorem tags_congr {c d : Compilation} (h : c.draft = d.draft) : c.tags = d.tags := by
  simp only [tags]
  rw [h]

/-- What regular actions do. -/
structure Advances (c d : Compilation) : Prop where
  writes : Scope.Writes (fun _ _ => True) c.world.scope d.world.scope
  refusedPops : d.refusedPops = c.refusedPops
  tags : d.tags = c.tags

namespace Advances

instance : IsPreorder Compilation Advances where
  refl _ := ⟨.refl _, rfl, rfl⟩
  trans _ _ _ h k :=
    ⟨h.writes.trans k.writes, k.refusedPops.trans h.refusedPops, k.tags.trans h.tags⟩

end Advances

end Compilation

namespace Compile

open Compilation

variable {c : Compilation} {bad : Error → Compilation → Prop}

/-! ## Regular actions -/

/-- Whether an action is regular. -/
def Regular {α : Type} (p : Compile α) : Prop := Keeps Advances Error.OfCompilation p

theorem run_evaluate (host : Host) (e : Expr) (c : Compilation) :
    (evaluate host e).run c =
      (((Expr.evaluate host e).run c.world).1,
        { c with world := ((Expr.evaluate host e).run c.world).2 }) := by
  rcases hrun : (Expr.evaluate host e).run c.world with ⟨_ | _, w⟩ <;>
  · simp only [evaluate, run_bind, run_get, hrun, run_set]
    rfl

theorem ends_evaluate (host : Host) (e : Expr) {good : Value → Compilation → Prop} :
    Ends (evaluate host e) c good bad ↔
      Ends (Expr.evaluate host e) c.world (fun v w => good v { c with world := w })
        (fun err w => bad err { c with world := w }) := by
  simp only [Ends]
  rw [run_evaluate]
  rcases (Expr.evaluate host e).run c.world with ⟨_ | _, w⟩ <;> exact Iff.rfl

theorem regular_evaluate (host : Host) (e : Expr) : Regular (evaluate host e) := by
  intro c
  have within : ∀ x ∈ e.subexpressions, x.Within (fun _ _ => True) Error.OfCompilation := by
    intro x _
    refine ⟨fun _ h => Error.ofCompilation_on (Code.ofCompilation_of_evaluation h) _, ?_⟩
    split
    · intro _
      exact trivial
    · intro _ _ _ _
      exact trivial
    · intro _ _ _ _
      exact trivial
    · trivial
  rw [ends_evaluate]
  refine (Expr.keeps_evaluate host within c.world).imp ?_ ?_
  · intro _ _ h
    exact ⟨h, rfl, rfl⟩
  · intro _ _ h
    exact ⟨⟨h.1, rfl, rfl⟩, h.2⟩

theorem regular_emit (s : String) : Regular (emit s) := by
  refine .modify fun c => ?_
  rcases hd : c.draft with _ | d
  · exact ⟨.refl _, rfl, by simp [Compilation.tags, hd]⟩
  · refine ⟨.refl _, rfl, ?_⟩
    cases h : d.content <;> simp [Compilation.tags, Draft.emit, hd, h]

/-- No text is left outside of messages after a flush. -/
theorem ends_flush :
    Ends flush c (fun _ d => Advances c d ∧ d.text = "") (fun _ _ => False) :=
  ⟨⟨.refl c.world.scope, rfl, tags_congr rfl⟩, rfl⟩

theorem run_flush_of_empty (h : c.text = "") : flush.run c = (.ok (), c) := by
  have blank : (Text.trimmed "").isEmpty = true := by decide
  obtain ⟨world, response, messages, text, draft, config, stepConfig, refusedPops⟩ := c
  cases h
  change (Except.ok (), _) = _
  simp only [blank, if_true]

theorem regular_flush : Regular flush := by
  intro c
  refine ends_flush.imp (fun _ _ h => h.1) ?_
  intro e d h
  cases h

theorem evaluating_regular (host : Host) : Evaluating host fun _ p => Regular p where
  pure a := .pure a
  refuse _ s := .throw (Error.ofCompilation_on (by simp [Cause.code, Code.ofCompilation]) s)
  bind hp hf := .bind hp hf
  evaluate e := regular_evaluate host e

/-! ## Tags -/

theorem draft_eq_none {c : Compilation} (h : c.tags.1 = false) : c.draft = none := by
  simpa [Compilation.tags] using h

/-- A message can be opened outside of messages. -/
theorem ends_openMessage (host : Host) (role : Option Role) (as : List Attribute) (s : Span)
    {c : Compilation} (h : c.draft = none) :
    Ends (openMessage host role as s) c
      (fun _ d => ∃ e, Advances c e ∧ ∃ role id, d = { e with draft := some (Draft.empty role id) })
      (fun err d => Advances c d ∧ err.OfCompilation) := by
  rw [openMessage]
  rw [ends_bind, ends_get, h]
  simp only [Option.isSome_none, Bool.false_eq_true, if_false, ends_bind]
  refine (regular_flush c).imp (fun _ d hd => ?_) (fun _ _ h => h)
  refine (Keeps.after ((evaluating_regular host).roleOf role as s) hd).imp (fun role e he => ?_)
    (fun _ _ h => h)
  refine (Keeps.after ((evaluating_regular host).toolIdOf as) he).imp (fun id f hf => ?_) (fun _ _ h => h)
  split
  · exact ⟨hf, Error.ofCompilation_on (by simp [Cause.code, Code.ofCompilation]) s⟩
  · exact ⟨f, hf, role, id, rfl⟩

/-- A content tag can be opened in a message outside of content tags. -/
theorem ends_openContent (kind : ContentKind) (s : Span) {c : Compilation}
    (h : c.tags = (true, false)) :
    Ends (openContent kind s) c
      (fun _ d => ∃ draft, d = { c with draft := some draft } ∧ draft.content.isSome = true)
      (fun err d => d = c ∧ err.OfCompilation) := by
  obtain ⟨hdraft, hcontent⟩ := Prod.mk.inj h
  obtain ⟨draft, found⟩ := Option.isSome_iff_exists.mp hdraft
  have outside : draft.content.isSome = false := by simpa [found] using hcontent
  rw [openContent]
  simp only [ends_bind, ends_get, found, outside, Bool.false_eq_true, if_false]
  split
  · exact ⟨rfl, Error.ofCompilation_on (by simp [Cause.code, Code.ofCompilation]) s⟩
  · exact ⟨draft.openContent, rfl, rfl⟩

end Compile

end PromptTemplate
