import PromptTemplate.Expr.Evaluation
import PromptTemplate.Proofs.Expr.Subexpressions
import PromptTemplate.Proofs.Run
import PromptTemplate.Proofs.Scope.Writes
import PromptTemplate.Proofs.Value.Fault

/-!
# What an evaluation can do

An evaluation writes to variables and calls functions of the host, and does nothing else
to the world. It fails with causes of a few kinds, placed at a subexpression. Both are
said of the subexpressions, one by one, and hold then of the whole.
-/

namespace PromptTemplate

/-- The kinds of errors of evaluations. -/
def Code.ofEvaluation : List Code :=
  .variableNotDeclared :: .notAFunction :: .functionCallError :: Code.ofValues

theorem Code.mem_ofEvaluation {c : Code} (h : c ∈ ofValues) : c ∈ ofEvaluation := by
  simp [ofEvaluation, h]

theorem UpdateOp.code_of_operand {op : UpdateOp} {v : Value} {c : Cause}
    (h : op.operand v = .error c) : c.code ∈ Code.ofValues := by
  cases v <;> cases h <;> simp [Cause.code, Code.ofValues]

/-- A run of writes in a world. -/
def World.Writes (may : Scope → String → Prop) (w u : World) : Prop :=
  Scope.Writes may w.scope u.scope

instance (may : Scope → String → Prop) : IsPreorder World (World.Writes may) where
  refl w := .refl w.scope
  trans _ _ _ h k := Scope.Writes.trans h k

/-! ## Single actions -/

namespace Eval

variable {w : World} {bad : Error → World → Prop}

@[simp] theorem ends_placed {α : Type} (s : Span) (r : Except Cause α)
    {good : α → World → Prop} :
    Ends (placed s r) w good bad ↔
      match r with
      | .ok a => good a w
      | .error c => bad (c.on s) w := by
  cases r <;> exact Iff.rfl

@[simp] theorem ends_scope {good : Scope → World → Prop} :
    Ends scope w good bad ↔ good w.scope w := Iff.rfl

@[simp] theorem ends_lookup (name : String) (s : Span) {good : Value → World → Prop} :
    Ends (lookup name s) w good bad ↔
      match w.scope.get? name with
      | some v => good v w
      | none => bad ((Cause.undeclared name).on s) w := by
  rw [lookup]
  rw [ends_bind, ends_scope]
  cases w.scope.get? name <;> exact Iff.rfl

@[simp] theorem ends_settled (chain : Eval (Option Value)) {good : Value → World → Prop} :
    Ends (settled chain) w good bad ↔ Ends chain w (fun v u => good (v.getD .undefined) u) bad := by
  rw [settled]
  rw [ends_bind]
  rfl

variable {may : Scope → String → Prop} {fails : Error → Prop}

theorem keeps_placed {α : Type} {s : Span} {r : Except Cause α}
    (h : ∀ c, r = .error c → fails (c.on s)) :
    Keeps (World.Writes may) fails (placed s r) := by
  cases r with
  | ok a => exact .pure a
  | error c => exact .throw (h c rfl)

theorem keeps_lookup {name : String} {s : Span}
    (h : fails ((Cause.undeclared name).on s)) :
    Keeps (World.Writes may) fails (lookup name s) := by
  intro w
  rw [ends_lookup]
  cases w.scope.get? name with
  | some v => exact refl_of (World.Writes may) w
  | none => exact ⟨refl_of (World.Writes may) w, h⟩

theorem keeps_store {name : String} {v : Value} (h : ∀ s, may s name) :
    Keeps (World.Writes may) fails (store name v) :=
  fun w => .set (.refl w.scope) (h w.scope) v

theorem keeps_invoke (host : Host) {f : Callable} {arguments : List Value} {s : Span}
    (h : ∀ problem, fails ((Cause.callFailed f.name problem).on s)) :
    Keeps (World.Writes may) fails (invoke host f arguments s) := by
  refine .bind (.modify fun w => .refl w.scope) ?_
  intro _
  cases host f arguments with
  | ok v => exact .pure v
  | error problem => exact .throw (h problem)

theorem keeps_settled {chain : Eval (Option Value)}
    (h : Keeps (World.Writes may) fails chain) :
    Keeps (World.Writes may) fails (settled chain) :=
  .bind h fun _ => .pure _

end Eval

/-! ## Expressions -/

namespace Expr

open Eval

/-- The variable that a target leads to. -/
def root? : Expr → Option String
  | .identifier name _ => some name
  | .member base _ _ _ => base.root?
  | _ => none

/-- Whether what an expression does by itself stays within bounds: where it fails, and to
which variables it writes. Only a plain assignment to a name can write to one that does
not exist. -/
def Within (may : Scope → String → Prop) (fails : Error → Prop) (e : Expr) : Prop :=
  (∀ c : Cause, c.code ∈ Code.ofEvaluation → fails (c.on e.span)) ∧
  match e with
  | .assign _ (.identifier name _) _ _ => ∀ s, may s name
  | .assign _ target _ _ | .update _ _ target _ =>
    ∀ name, target.root? = some name → ∀ s, s.contains name = true → may s name
  | _ => True

variable {may : Scope → String → Prop} {fails : Error → Prop}

theorem Within.fails_of {e : Expr} (h : e.Within may fails) {c : Cause}
    (hc : c.code ∈ Code.ofEvaluation) : fails (c.on e.span) := h.1 c hc

theorem Within.fails_of_values {e : Expr} (h : e.Within may fails) {c : Cause}
    (hc : c.code ∈ Code.ofValues) : fails (c.on e.span) := h.1 c (Code.mem_ofEvaluation hc)

/-- The root of a target may be written. -/
theorem Within.may_write {op : AssignOp} {target value : Expr} {s : Span}
    (h : (Expr.assign op target value s).Within may fails) {name : String}
    (hroot : target.root? = some name) (t : Scope) (_ : t.contains name = true) : may t name := by
  cases target with
  | identifier n place =>
    cases hroot
    exact h.2 t
  | member base key optional place => exact h.2 name hroot t ‹_›
  | _ => cases hroot

theorem fails_of_faultAt {e : Expr} (h : ∀ x ∈ e.subexpressions, x.Within may fails)
    {steps : List Value.Step} (hsteps : ∀ step ∈ steps, ∃ x ∈ e.subexpressions, x.span = step.span)
    {err : Error} (fault : Value.FaultAt steps err) : fails err := by
  obtain ⟨c, step, hstep, rfl, hc⟩ := fault
  obtain ⟨x, hx, hspan⟩ := hsteps step hstep
  exact hspan ▸ (h x hx).fails_of_values hc

/-- A variable that could be read may be written. -/
theorem writes_existing {name : String} {x : Value} {w : World}
    (found : w.scope.get? name = some x)
    (h : ∀ s, s.contains name = true → may s name) (v : Value) :
    World.Writes may w { w with scope := w.scope.set name v } := by
  have known : w.scope.contains name = true := by
    rw [Scope.get?] at found
    rw [Scope.contains]
    cases hs : w.scope.slot? name with
    | some i => rfl
    | none => rw [hs] at found; cases found
  exact .set (.refl w.scope) (h w.scope known) v

/-- The end of an assignment to a path. -/
theorem keeps_rewrite {name : String} {s : Span} (change : Value → Except Error Value)
    (hread : fails ((Cause.undeclared name).on s))
    (hchange : ∀ v e, change v = .error e → fails e)
    (hwrite : ∀ s, s.contains name = true → may s name) (a : Option Value) :
    Keeps (World.Writes may) fails (do
      let v ← lookup name s
      store name (← ofExcept (change v))
      return a) := by
  intro w
  rw [ends_bind, ends_lookup]
  cases found : w.scope.get? name with
  | none => exact ⟨refl_of (World.Writes may) w, hread⟩
  | some v =>
    change Ends (ofExcept (change v) >>= _) w _ _
    rw [ends_bind, ends_ofExcept]
    cases hv : change v with
    | error e => exact ⟨refl_of (World.Writes may) w, hchange v e hv⟩
    | ok x => exact writes_existing found hwrite x

mutual

theorem keeps_link (host : Host) : ∀ e : Expr, (∀ x ∈ e.subexpressions, x.Within may fails) →
    Keeps (World.Writes may) fails (link host e)
  | .literal .., _ => by
    rw [link]
    exact .pure _
  | .identifier .., h => by
    rw [link]
    have here := h _ (mem_subexpressions_self _)
    exact .bind (keeps_lookup (here.fails_of (by simp [Code.ofEvaluation, Cause.code])))
      fun _ => .pure _
  | .array items _, h => by
    rw [link]
    exact .bind (keeps_values host items (List.forall_mem_cons.mp h).2) fun _ => .pure _
  | .object properties _, h => by
    rw [link]
    exact .bind (keeps_members host properties [] (List.forall_mem_cons.mp h).2)
      fun _ => .pure _
  | .member base key optional s, h => by
    obtain ⟨here, inner⟩ := List.forall_mem_cons.mp h
    obtain ⟨hbase, hkey⟩ := List.forall_mem_append.mp inner
    rw [link]
    refine .bind (keeps_link host base hbase) ?_
    rintro (_ | target)
    · exact .pure _
    · refine .ite (.pure _) (.bind (keeps_keyName host key hkey) ?_)
      intro name
      exact .bind (keeps_placed fun c hc => here.fails_of_values (Value.code_of_property hc))
        fun _ => .pure _
  | .call callee arguments optional s, h => by
    obtain ⟨here, inner⟩ := List.forall_mem_cons.mp h
    obtain ⟨hcallee, harguments⟩ := List.forall_mem_append.mp inner
    rw [link]
    refine .bind (keeps_link host callee hcallee) ?_
    rintro (_ | target)
    · exact .pure _
    · refine .ite (.pure _) ?_
      have refused : Keeps (World.Writes may) fails
          (throw ((Cause.notAFunction callee.describe).on s) : Eval (Option Value)) :=
        .throw (here.fails_of (by simp [Code.ofEvaluation, Cause.code]))
      cases target with
      | function f =>
        refine .bind (keeps_values host arguments harguments) ?_
        intro vs
        exact .bind (keeps_invoke host fun _ =>
          here.fails_of (by simp [Code.ofEvaluation, Cause.code])) fun _ => .pure _
      | _ => exact refused
  | .unary op argument s, h => by
    have inner := (List.forall_mem_cons.mp h).2
    have plain : Keeps (World.Writes may) fails (do
        let v ← settled (link host argument)
        return some (Value.unary op v)) :=
      .bind (keeps_settled (keeps_link host argument inner)) fun _ => .pure _
    by_cases named : ∃ name place, op = .typeof ∧ argument = .identifier name place
    · obtain ⟨name, place, rfl, rfl⟩ := named
      rw [link]
      refine .bind (fun w => refl_of (World.Writes may) w) fun s => ?_
      exact .bind (.pure _) fun _ => .ite (.pure _) plain
    · rw [link]
      · exact .bind (.pure _) fun _ => .ite (.pure _) plain
      · intro name place hop hargument
        exact named ⟨name, place, hop, hargument⟩
  | .binary op left right s, h => by
    obtain ⟨here, inner⟩ := List.forall_mem_cons.mp h
    obtain ⟨hleft, hright⟩ := List.forall_mem_append.mp inner
    rw [link]
    refine .bind (keeps_settled (keeps_link host left hleft)) fun l => ?_
    refine .bind (keeps_settled (keeps_link host right hright)) fun r => ?_
    exact .bind (keeps_placed fun c hc => here.fails_of_values (Value.code_of_binary hc))
      fun _ => .pure _
  | .logical op left right s, h => by
    obtain ⟨hleft, hright⟩ := List.forall_mem_append.mp (List.forall_mem_cons.mp h).2
    rw [link]
    refine .bind (keeps_settled (keeps_link host left hleft)) fun l => ?_
    exact .ite (.pure _)
      (.bind (keeps_settled (keeps_link host right hright)) fun _ => .pure _)
  | .conditional test consequent alternate s, h => by
    obtain ⟨hboth, halternate⟩ := List.forall_mem_append.mp (List.forall_mem_cons.mp h).2
    obtain ⟨htest, hconsequent⟩ := List.forall_mem_append.mp hboth
    rw [link]
    refine .bind (keeps_settled (keeps_link host test htest)) fun t => ?_
    exact .ite
      (.bind (keeps_settled (keeps_link host consequent hconsequent)) fun _ => .pure _)
      (.bind (keeps_settled (keeps_link host alternate halternate)) fun _ => .pure _)
  | .assign op target value s, h => by
    obtain ⟨here, inner⟩ := List.forall_mem_cons.mp h
    obtain ⟨htarget, hvalue⟩ := List.forall_mem_append.mp inner
    have whole := htarget _ (mem_subexpressions_self _)
    have undeclared : ∀ name, fails ((Cause.undeclared name).on target.span) :=
      fun name => whole.fails_of (by simp [Code.ofEvaluation, Cause.code])
    have operation : ∀ op old v, Keeps (World.Writes may) fails
        (placed s (Value.binary op old v)) :=
      fun _ _ _ => keeps_placed fun c hc => here.fails_of_values (Value.code_of_binary hc)
    by_cases plain : ∃ name place, target = .identifier name place
    · obtain ⟨name, place, rfl⟩ := plain
      rw [link]
      cases op.binary? with
      | none =>
        refine .bind (keeps_settled (keeps_link host value hvalue)) fun result => ?_
        exact .bind (keeps_store here.2) fun _ => .pure _
      | some op =>
        refine .bind (keeps_lookup (undeclared name)) fun old => ?_
        refine .bind (keeps_settled (keeps_link host value hvalue)) fun v => ?_
        refine .bind (operation op old v) fun result => ?_
        exact .bind (keeps_store here.2) fun _ => .pure _
    · rw [link]
      · intro w
        rw [ends_bind]
        refine (ends_path host target.span target htarget ?_ w).imp ?_ (fun _ _ h => h)
        · exact whole.fails_of_values (by simp [Cause.code, Code.ofValues])
        rintro ⟨name, steps⟩ u ⟨hwu, hroot, hsteps⟩
        have fault : ∀ e, Value.FaultAt steps e → fails e := fun e =>
          fails_of_faultAt htarget hsteps
        have rewrite : ∀ result, Keeps (World.Writes may) fails _ := fun result =>
          keeps_rewrite (fun v => v.writePath steps result) (undeclared name)
            (fun v e hv => fault e (Value.faultAt_of_writePath hv)) (here.may_write hroot)
            (some result)
        refine Keeps.after ?_ hwu
        refine .bind (keeps_lookup (undeclared name)) fun before => ?_
        cases op.binary? with
        | none => exact .bind (keeps_settled (keeps_link host value hvalue)) rewrite
        | some op =>
          refine .bind (.ofExcept fun e he => fault e (Value.faultAt_of_readPath he)) fun old => ?_
          refine .bind (keeps_settled (keeps_link host value hvalue)) fun v => ?_
          exact .bind (operation op old v) rewrite
      · intro name place htarget
        exact plain ⟨name, place, htarget⟩
  | .update op before argument s, h => by
    obtain ⟨here, inner⟩ := List.forall_mem_cons.mp h
    have whole := inner _ (mem_subexpressions_self _)
    have undeclared : ∀ name, fails ((Cause.undeclared name).on argument.span) :=
      fun name => whole.fails_of (by simp [Code.ofEvaluation, Cause.code])
    by_cases plain : ∃ name place, argument = .identifier name place
    · obtain ⟨name, place, rfl⟩ := plain
      rw [link]
      intro w
      rw [ends_bind, ends_lookup]
      cases found : w.scope.get? name with
      | none => exact ⟨refl_of (World.Writes may) w, undeclared name⟩
      | some v =>
        simp only [ends_bind, ends_placed]
        cases hv : op.operand v with
        | error c => exact ⟨refl_of (World.Writes may) w,
            here.fails_of_values (UpdateOp.code_of_operand hv)⟩
        | ok x => exact writes_existing found (here.2 name rfl) _
    · rw [link]
      · intro w
        rw [ends_bind]
        refine (ends_path host argument.span argument inner ?_ w).imp ?_ (fun _ _ h => h)
        · exact whole.fails_of_values (by simp [Cause.code, Code.ofValues])
        rintro ⟨name, steps⟩ u ⟨hwu, hroot, hsteps⟩
        have fault : ∀ e, Value.FaultAt steps e → fails e := fun e => fails_of_faultAt inner hsteps
        refine Keeps.after ?_ hwu
        intro t
        simp only [ends_bind, ends_lookup]
        cases found : t.scope.get? name with
        | none => exact ⟨refl_of (World.Writes may) t, undeclared name⟩
        | some root =>
          simp only [ends_ofExcept]
          cases hold : root.readPath steps with
          | error e =>
            exact ⟨refl_of (World.Writes may) t, fault e (Value.faultAt_of_readPath hold)⟩
          | ok v =>
            simp only [ends_placed]
            cases hv : op.operand v with
            | error c => exact ⟨refl_of (World.Writes may) t,
                here.fails_of_values (UpdateOp.code_of_operand hv)⟩
            | ok x =>
              dsimp only
              cases hnew : root.writePath steps (.number (x + op.delta)) with
              | error e => exact ⟨refl_of (World.Writes may) t,
                  fault e (Value.faultAt_of_writePath hnew)⟩
              | ok changed => exact writes_existing found (here.2 name hroot) changed
      · intro name place hargument
        exact plain ⟨name, place, hargument⟩

theorem keeps_values (host : Host) : ∀ es : List Expr, (∀ x ∈ insideAll es, x.Within may fails) →
    Keeps (World.Writes may) fails (values host es)
  | [], _ => by
    rw [values]
    exact .pure _
  | e :: rest, h => by
    obtain ⟨he, hrest⟩ := List.forall_mem_append.mp h
    rw [values]
    refine .bind (keeps_settled (keeps_link host e he)) fun v => ?_
    exact .bind (keeps_values host rest hrest) fun _ => .pure _

theorem keeps_members (host : Host) : ∀ (ps : List Property) (done : Dictionary Value),
    (∀ x ∈ insideProperties ps, x.Within may fails) →
    Keeps (World.Writes may) fails (members host ps done)
  | [], _, _ => by
    rw [members]
    exact .pure _
  | .mk key value :: rest, done, h => by
    obtain ⟨hboth, hrest⟩ := List.forall_mem_append.mp h
    obtain ⟨hkey, hvalue⟩ := List.forall_mem_append.mp hboth
    rw [members]
    refine .bind (keeps_keyName host key hkey) fun name => ?_
    refine .bind (keeps_settled (keeps_link host value hvalue)) fun v => ?_
    exact keeps_members host rest _ hrest

theorem keeps_keyName (host : Host) : ∀ key : Key, (∀ x ∈ key.inside, x.Within may fails) →
    Keeps (World.Writes may) fails (keyName host key)
  | .named _, _ => by
    rw [keyName]
    exact .pure _
  | .computed e, h => by
    rw [keyName]
    exact .bind (keeps_settled (keeps_link host e h)) fun _ => .pure _

/-- A path begins at the root of its target, and its steps are placed at members. -/
theorem ends_path (host : Host) (whole : Span) : ∀ e : Expr,
    (∀ x ∈ e.subexpressions, x.Within may fails) → fails (Cause.unassignable.on whole) →
    ∀ w, Ends (path host whole e) w
      (fun r u => World.Writes may w u ∧ e.root? = some r.1 ∧
        ∀ step ∈ r.2, ∃ x ∈ e.subexpressions, x.span = step.span)
      (fun err u => World.Writes may w u ∧ fails err)
  | .identifier name _, _, _ => by
    intro w
    rw [path]
    exact ⟨refl_of (World.Writes may) w, rfl, List.forall_mem_nil _⟩
  | .member base key optional s, h, refused => by
    obtain ⟨hbase, hkey⟩ := List.forall_mem_append.mp (List.forall_mem_cons.mp h).2
    cases optional with
    | true => exact fun w => ⟨refl_of (World.Writes may) w, refused⟩
    | false =>
      intro w
      rw [path, ends_bind]
      refine (ends_path host whole base hbase refused w).imp ?_ (fun _ _ h => h)
      rintro ⟨name, steps⟩ u ⟨hwu, hroot, hsteps⟩
      rw [ends_bind]
      refine (Keeps.after (keeps_keyName host key hkey) hwu).imp ?_ (fun _ _ h => h)
      rintro ⟨k, computed⟩ t hwt
      refine ⟨hwt, hroot, fun step hstep => ?_⟩
      rcases List.mem_append.mp hstep with hstep | hstep
      · obtain ⟨x, hx, hspan⟩ := hsteps step hstep
        exact ⟨x, List.mem_cons_of_mem _ (List.mem_append_left _ hx), hspan⟩
      · cases List.mem_singleton.mp hstep
        exact ⟨_, mem_subexpressions_self _, rfl⟩
  | .literal .., _, refused => fun w => ⟨refl_of (World.Writes may) w, refused⟩
  | .array .., _, refused => fun w => ⟨refl_of (World.Writes may) w, refused⟩
  | .object .., _, refused => fun w => ⟨refl_of (World.Writes may) w, refused⟩
  | .call .., _, refused => fun w => ⟨refl_of (World.Writes may) w, refused⟩
  | .unary .., _, refused => fun w => ⟨refl_of (World.Writes may) w, refused⟩
  | .binary .., _, refused => fun w => ⟨refl_of (World.Writes may) w, refused⟩
  | .logical .., _, refused => fun w => ⟨refl_of (World.Writes may) w, refused⟩
  | .conditional .., _, refused => fun w => ⟨refl_of (World.Writes may) w, refused⟩
  | .assign .., _, refused => fun w => ⟨refl_of (World.Writes may) w, refused⟩
  | .update .., _, refused => fun w => ⟨refl_of (World.Writes may) w, refused⟩

end

/-- What holds of all subexpressions holds of an evaluation. -/
theorem keeps_evaluate (host : Host) {e : Expr} (h : ∀ x ∈ e.subexpressions, x.Within may fails) :
    Keeps (World.Writes may) fails (evaluate host e) :=
  keeps_settled (keeps_link host e h)

end Expr

end PromptTemplate
