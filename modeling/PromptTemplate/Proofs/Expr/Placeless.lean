import PromptTemplate.Proofs.Expr.Printing
import PromptTemplate.Proofs.Expr.RoundTrip
import PromptTemplate.Proofs.Expr.Storing

/-!
# Evaluation does not look at places

Where an expression stands decides where its errors are placed and nothing else:
expressions that are the same up to places do the same to every world, and come to the same
value or to errors with the same cause.
-/

namespace PromptTemplate

/-- Two values that are related, or two errors with the same cause. -/
inductive Matches {α β : Type} (R : α → β → Prop) : Except Error α → Except Error β → Prop where
  | ok {a : α} {b : β} (h : R a b) : Matches R (.ok a) (.ok b)
  | error {e e' : Error} (h : e'.cause = e.cause) : Matches R (.error e) (.error e')

namespace Matches

/-- A result that matches a value is a value. -/
theorem exists_ok {α β : Type} {R : α → β → Prop} {r : Except Error α} {b : β}
    (h : Matches R r (.ok b)) : ∃ a, r = .ok a ∧ R a b := by
  cases h with
  | ok h => exact ⟨_, rfl, h⟩

variable {α : Type} {r r' r'' : Except Error α}

theorem refl (r : Except Error α) : Matches Eq r r := by
  cases r with
  | ok a => exact .ok rfl
  | error e => exact .error rfl

theorem symm (h : Matches Eq r r') : Matches Eq r' r := by
  cases h with
  | ok h => exact .ok h.symm
  | error h => exact .error h.symm

theorem left {β : Type} {R : α → β → Prop} {q : Except Error β} (h : Matches Eq r r')
    (k : Matches R r' q) : Matches R r q := by
  cases h with
  | ok h => exact h ▸ k
  | error h =>
    cases k with
    | error k => exact .error (k.trans h)

theorem right {β : Type} {R : β → α → Prop} {q : Except Error β} (h : Matches R q r)
    (k : Matches Eq r r') : Matches R q r' := by
  cases k with
  | ok k => exact k ▸ h
  | error k =>
    cases h with
    | error h => exact .error (k.trans h)

theorem map {β : Type} (f : α → β) (h : Matches Eq r r') : Matches Eq (r.map f) (r'.map f) := by
  cases h with
  | ok h => exact .ok (congrArg f h)
  | error h => exact .error h

end Matches

namespace Eval

variable {α β γ δ : Type} {R : α → β → Prop} {S : γ → δ → Prop}

/-- Two computations that change a world alike and come to results that match. -/
def ResemblesAt (w : World) (R : α → β → Prop) (p : Eval α) (q : Eval β) : Prop :=
  Matches R (p.run w).1 (q.run w).1 ∧ (q.run w).2 = (p.run w).2

/-- Two computations that do the same to every world, up to matching results. -/
def Resembles (R : α → β → Prop) (p : Eval α) (q : Eval β) : Prop :=
  ∀ w, ResemblesAt w R p q

theorem ResemblesAt.bind {w : World} {p : Eval α} {q : Eval β} {f : α → Eval γ} {g : β → Eval δ}
    (h : ResemblesAt w R p q) (hf : ∀ a b, R a b → Resembles S (f a) (g b)) :
    ResemblesAt w S (p >>= f) (q >>= g) := by
  obtain ⟨results, worlds⟩ := h
  rw [ResemblesAt, run_bind, run_bind]
  rcases hp : p.run w with ⟨a, u⟩
  rcases hq : q.run w with ⟨b, t⟩
  rw [hp, hq] at results worlds
  cases worlds
  cases results with
  | ok h => exact hf _ _ h _
  | error h => exact ⟨.error h, rfl⟩

/-- What resembles one of two computations can stand for it. -/
theorem ResemblesAt.congr {w : World} {p p' : Eval α} {q q' : Eval β} (h : ResemblesAt w R p q)
    (hp : ResemblesAt w Eq p' p) (hq : ResemblesAt w Eq q q') : ResemblesAt w R p' q' :=
  ⟨hp.1.left (h.1.right hq.1), (hq.2.trans h.2).trans hp.2⟩

namespace Resembles

theorem refl (p : Eval α) : Resembles Eq p p := fun _ => ⟨.refl _, rfl⟩

theorem symm {p q : Eval α} (h : Resembles Eq p q) : Resembles Eq q p :=
  fun w => ⟨(h w).1.symm, (h w).2.symm⟩

theorem trans {p q r : Eval α} (h : Resembles Eq p q) (k : Resembles Eq q r) :
    Resembles Eq p r :=
  fun w => (k w).congr (h w) (refl r w)

theorem pure {a : α} {b : β} (h : R a b) : Resembles R (pure a) (pure b) :=
  fun _ => ⟨.ok h, rfl⟩

theorem throw {e e' : Error} (h : e'.cause = e.cause) :
    Resembles R (throw e : Eval α) (throw e' : Eval β) :=
  fun _ => ⟨.error h, rfl⟩

theorem bind {p : Eval α} {q : Eval β} {f : α → Eval γ} {g : β → Eval δ} (h : Resembles R p q)
    (hf : ∀ a b, R a b → Resembles S (f a) (g b)) : Resembles S (p >>= f) (q >>= g) :=
  fun w => (h w).bind hf

/-- What follows the same value. -/
theorem bind_eq {p q : Eval α} {f : α → Eval γ} {g : α → Eval δ} (h : Resembles Eq p q)
    (hf : ∀ a, Resembles S (f a) (g a)) : Resembles S (p >>= f) (q >>= g) :=
  h.bind fun a _ hab => hab ▸ hf a

theorem ite {c : Prop} [Decidable c] {p p' : Eval α} {q q' : Eval β} (h : Resembles R p q)
    (h' : Resembles R p' q') : Resembles R (if c then p else p') (if c then q else q') := by
  split
  · exact h
  · exact h'

theorem ofExcept {r : Except Error α} {r' : Except Error β} (h : Matches R r r') :
    Resembles R (ofExcept r) (ofExcept r') := by
  cases h with
  | ok h => exact pure h
  | error h => exact throw h

end Resembles

theorem resembles_placed (s s' : Span) (r : Except Cause α) :
    Resembles Eq (placed s r) (placed s' r) := by
  cases r with
  | ok a => exact .pure rfl
  | error c => exact .throw rfl

theorem resembles_lookup (name : String) (s s' : Span) :
    Resembles Eq (lookup name s) (lookup name s') := by
  refine .bind_eq (.refl scope) fun t => ?_
  cases t.get? name with
  | some v => exact .pure rfl
  | none => exact .throw rfl

theorem resembles_invoke (host : Host) (f : Callable) (arguments : List Value) (s s' : Span) :
    Resembles Eq (invoke host f arguments s) (invoke host f arguments s') := by
  refine .bind_eq (.refl _) fun _ => ?_
  cases host f arguments with
  | ok v => exact .pure rfl
  | error problem => exact .throw rfl

theorem resembles_settled {p q : Eval (Option Value)} (h : Resembles Eq p q) :
    Resembles Eq (settled p) (settled q) :=
  h.bind_eq fun _ => .pure rfl

end Eval

/-! ## Paths -/

namespace Value

/-- The same keys at other places. -/
def SameKeys (steps steps' : List Step) : Prop :=
  steps'.map (fun step => (step.name, step.computed)) =
    steps.map fun step => (step.name, step.computed)

namespace SameKeys

variable {steps steps' : List Step} {step : Step}

theorem exists_nil (h : SameKeys [] steps') : steps' = [] := List.map_eq_nil_iff.mp h

theorem exists_cons (h : SameKeys (step :: steps) steps') :
    ∃ s more, steps' = ⟨step.name, step.computed, s⟩ :: more ∧ SameKeys steps more := by
  obtain ⟨⟨name, computed, s⟩, more, rfl, hkey, hmore⟩ := List.map_eq_cons_iff.mp h
  obtain ⟨rfl, rfl⟩ := Prod.mk.inj hkey
  exact ⟨s, more, rfl, hmore⟩

theorem concat (h : SameKeys steps steps') (name : String) (computed : Bool) (s s' : Span) :
    SameKeys (steps ++ [⟨name, computed, s⟩]) (steps' ++ [⟨name, computed, s'⟩]) := by
  rw [SameKeys, List.map_append, List.map_append, h]
  rfl

end SameKeys

theorem matches_readPath {steps steps' : List Step} (h : SameKeys steps steps') (root : Value) :
    Matches Eq (root.readPath steps) (root.readPath steps') := by
  induction steps generalizing root steps' with
  | nil =>
    rw [h.exists_nil]
    exact .ok rfl
  | cons step rest ih =>
    obtain ⟨s, more, rfl, hmore⟩ := h.exists_cons
    rw [readPath, readPath]
    cases root.property (!step.computed) step.name with
    | ok v => exact ih hmore v
    | error c => exact .error rfl

theorem matches_withProperty (target : Value) (step : Step) (s : Span) (v : Value) :
    Matches Eq (target.withProperty step v) (target.withProperty { step with span := s } v) := by
  cases target with
  | object members =>
    simp only [withProperty]
    split
    · exact .error rfl
    · exact .ok rfl
  | array items =>
    have grown (n : Nat) :
        Matches Eq (grow items n step) (grow items n { step with span := s }) := by
      rw [grow, grow]
      split
      · exact .error rfl
      · exact .ok rfl
    simp only [withProperty]
    cases index? step.name with
    | some i =>
      dsimp only
      split
      · exact .ok rfl
      · exact (grown _).map _
    | none =>
      dsimp only
      split
      · cases length? v with
        | some n => exact (grown n).map _
        | none => exact .error rfl
      · split
        · exact .error rfl
        · exact .error rfl
  | _ => exact .error rfl

theorem matches_writePath {steps steps' : List Step} (h : SameKeys steps steps')
    (target v : Value) :
    Matches Eq (target.writePath steps v) (target.writePath steps' v) := by
  induction steps generalizing target steps' with
  | nil =>
    rw [h.exists_nil]
    exact .ok rfl
  | cons step rest ih =>
    obtain ⟨s, more, rfl, hmore⟩ := h.exists_cons
    cases rest with
    | nil =>
      rw [hmore.exists_nil]
      exact matches_withProperty target step s v
    | cons next rest =>
      obtain ⟨s', last, rfl, _⟩ := hmore.exists_cons
      simp only [writePath]
      cases target with
      | object members =>
        dsimp only
        cases Dictionary.get? members step.name with
        | some child => exact (ih hmore child).map _
        | none => exact .error rfl
      | array items =>
        dsimp only
        generalize ((index? step.name).bind fun i => items[i]?.map (i, ·)) = found
        rcases found with _ | ⟨i, child⟩
        · exact .error rfl
        · exact (ih hmore child).map _
      | _ => exact .error rfl

end Value

/-! ## Expressions -/

namespace Expr

open Eval

theorem describe_bare : ∀ e : Expr, e.bare.describe = e.describe
  | .member base (.named name) _ _ => by
    rw [bare, bareKey, describe, describe, describe_bare base]
  | .member base (.computed _) _ _ => by
    rw [bare, bareKey, describe, describe, describe_bare base]
  | .literal .. | .identifier .. | .array .. | .object .. | .call .. | .unary .. | .binary ..
  | .logical .. | .conditional .. | .assign .. | .update .. => by
    simp [bare, describe]

theorem bare_ne_identifier {target : Expr}
    (compound : ∀ name place, target ≠ .identifier name place) (name : String) (place : Span) :
    target.bare ≠ .identifier name place := by
  intro heq
  cases target <;> cases heq
  exact compound _ _ rfl

theorem resembles_outcome {host : Host} {op : AssignOp} {old old' : Eval Value}
    {value value' : Expr} (s s' : Span) (hold : Resembles Eq old old')
    (hvalue : Resembles Eq (link host value) (link host value')) :
    Resembles Eq (outcome host op old value s) (outcome host op old' value' s') := by
  rw [outcome, outcome]
  cases op.binary? with
  | none => exact resembles_settled hvalue
  | some op =>
    refine hold.bind_eq fun _ => (resembles_settled hvalue).bind_eq fun _ => ?_
    exact resembles_placed s s' _

theorem resembles_finish (name : String) (s s' : Span) {steps steps' : List Value.Step}
    (h : Value.SameKeys steps steps') (result : Value) :
    Resembles Eq (finish name s steps result) (finish name s' steps' result) := by
  refine (resembles_lookup name s s').bind_eq fun after => ?_
  refine (Resembles.ofExcept (Value.matches_writePath h after result)).bind_eq fun changed => ?_
  exact .refl _

theorem asksUndeclared_bare (op : UnaryOp) (argument : Expr) :
    asksUndeclared op argument.bare = asksUndeclared op argument := by
  cases op <;> cases argument <;> rfl

/-- Paths from the same variable along the same keys. -/
def SamePath (r r' : String × List Value.Step) : Prop :=
  r'.1 = r.1 ∧ Value.SameKeys r.2 r'.2

mutual

theorem resembles_bare (host : Host) : ∀ e : Expr, Resembles Eq (link host e) (link host e.bare)
  | .literal .. => by
    rw [bare, link, link]
    exact .refl _
  | .identifier name s => by
    rw [bare, link, link]
    exact (resembles_lookup name s _).bind_eq fun _ => .refl _
  | .array items _ => by
    rw [bare, link, link]
    exact (resembles_bareAll host items).bind_eq fun _ => .refl _
  | .object properties _ => by
    rw [bare, link, link]
    exact (resembles_bareProperties host properties []).bind_eq fun _ => .refl _
  | .member base key optional s => by
    rw [bare, link, link, Parser.hasOptionalLink_bare]
    refine (resembles_bare host base).bind_eq ?_
    rintro (_ | target)
    · exact .refl _
    · refine .ite (.refl _) ((resembles_bareKey host key).bind_eq fun name => ?_)
      exact (resembles_placed s _ _).bind_eq fun _ => .refl _
  | .call callee arguments optional s => by
    rw [bare, link, link, describe_bare]
    refine (resembles_bare host callee).bind_eq ?_
    rintro (_ | target)
    · exact .refl _
    · refine .ite (.refl _) ?_
      cases target with
      | function f =>
        refine (resembles_bareAll host arguments).bind_eq fun vs => ?_
        exact (resembles_invoke host f vs s _).bind_eq fun _ => .refl _
      | _ => exact .throw rfl
  | .unary op argument s => by
    have plain : Resembles Eq
        (do let v ← settled (link host argument); return some (Value.unary op v))
        (do let v ← settled (link host argument.bare); return some (Value.unary op v)) :=
      (resembles_settled (resembles_bare host argument)).bind_eq fun _ => .refl _
    rw [bare, link_unary, link_unary, asksUndeclared_bare]
    exact (Resembles.refl _).bind_eq fun _ => .ite (.refl _) plain
  | .binary op left right s => by
    rw [bare, link, link]
    refine (resembles_settled (resembles_bare host left)).bind_eq fun l => ?_
    refine (resembles_settled (resembles_bare host right)).bind_eq fun r => ?_
    exact (resembles_placed s _ _).bind_eq fun _ => .refl _
  | .logical op left right _ => by
    rw [bare, link, link]
    refine (resembles_settled (resembles_bare host left)).bind_eq fun l => .ite (.refl _) ?_
    exact (resembles_settled (resembles_bare host right)).bind_eq fun _ => .refl _
  | .conditional test consequent alternate _ => by
    rw [bare, link, link]
    refine (resembles_settled (resembles_bare host test)).bind_eq fun t => .ite ?_ ?_
    · exact (resembles_settled (resembles_bare host consequent)).bind_eq fun _ => .refl _
    · exact (resembles_settled (resembles_bare host alternate)).bind_eq fun _ => .refl _
  | .assign op target value s => by
    have inner := resembles_bare host value
    rcases identifier_or target with ⟨name, place, rfl⟩ | compound
    · rw [bare, bare, link_assign_identifier, link_assign_identifier]
      refine (resembles_outcome s _ (resembles_lookup name place _) inner).bind_eq fun v => ?_
      exact .refl _
    · have compound' := bare_ne_identifier compound
      rw [bare, link_assign_path host op compound, link_assign_path host op compound']
      refine (resembles_barePath host target.span target.bare.span target).bind ?_
      rintro ⟨_, steps⟩ ⟨name, steps'⟩ ⟨rfl, keys⟩
      refine (resembles_lookup name _ _).bind_eq fun before => ?_
      refine (resembles_outcome s _ (.ofExcept (Value.matches_readPath keys before)) inner).bind_eq
        fun result => ?_
      exact resembles_finish name _ _ keys result
  | .update op before target s => by
    rcases identifier_or target with ⟨name, place, rfl⟩ | compound
    · rw [bare, bare, link, link]
      refine (resembles_lookup name place _).bind_eq fun v => ?_
      refine (resembles_placed s _ _).bind_eq fun old => ?_
      exact .refl _
    · have compound' := bare_ne_identifier compound
      rw [bare, link_update_path host op before compound, link_update_path host op before compound']
      refine (resembles_barePath host target.span target.bare.span target).bind ?_
      rintro ⟨_, steps⟩ ⟨name, steps'⟩ ⟨rfl, keys⟩
      refine (resembles_lookup name _ _).bind_eq fun whole => ?_
      refine (Resembles.ofExcept (Value.matches_readPath keys whole)).bind_eq fun old => ?_
      refine (resembles_placed s _ _).bind_eq fun x => ?_
      refine (Resembles.ofExcept (Value.matches_writePath keys whole _)).bind_eq fun changed => ?_
      exact .refl _

theorem resembles_bareAll (host : Host) : ∀ es : List Expr,
    Resembles Eq (values host es) (values host (bareAll es))
  | [] => by
    rw [bareAll, values]
    exact .refl _
  | e :: rest => by
    rw [bareAll, values, values]
    refine (resembles_settled (resembles_bare host e)).bind_eq fun v => ?_
    exact (resembles_bareAll host rest).bind_eq fun _ => .refl _

theorem resembles_bareProperties (host : Host) : ∀ (ps : List Property) (done : Dictionary Value),
    Resembles Eq (members host ps done) (members host (bareProperties ps) done)
  | [], _ => by
    rw [bareProperties, members]
    exact .refl _
  | .mk key value :: rest, done => by
    rw [bareProperties, members, members]
    refine (resembles_bareKey host key).bind_eq fun name => ?_
    refine (resembles_settled (resembles_bare host value)).bind_eq fun v => ?_
    exact resembles_bareProperties host rest _

theorem resembles_bareKey (host : Host) : ∀ key : Key,
    Resembles Eq (keyName host key) (keyName host (bareKey key))
  | .named _ => by
    rw [bareKey, keyName]
    exact .refl _
  | .computed e => by
    rw [bareKey, keyName, keyName]
    exact (resembles_settled (resembles_bare host e)).bind_eq fun _ => .refl _

theorem resembles_barePath (host : Host) (whole whole' : Span) : ∀ e : Expr,
    Resembles SamePath (path host whole e) (path host whole' e.bare)
  | .identifier name _ => by
    rw [bare, path, path]
    exact .pure ⟨rfl, rfl⟩
  | .member base key false s => by
    rw [bare, path, path]
    refine (resembles_barePath host whole whole' base).bind ?_
    rintro ⟨_, steps⟩ ⟨name, steps'⟩ ⟨rfl, keys⟩
    refine (resembles_bareKey host key).bind_eq ?_
    rintro ⟨k, computed⟩
    exact .pure ⟨rfl, keys.concat k computed s Span.none⟩
  | .member _ _ true _ | .literal .. | .array .. | .object .. | .call .. | .unary .. | .binary ..
  | .logical .. | .conditional .. | .assign .. | .update .. => .throw rfl

end

/-- Expressions that are the same up to places do the same. -/
theorem resembles_link (host : Host) {e e' : Expr} (h : e'.bare = e.bare) :
    Resembles Eq (link host e) (link host e') :=
  (resembles_bare host e).trans (h ▸ (resembles_bare host e').symm)

end Expr

end PromptTemplate
