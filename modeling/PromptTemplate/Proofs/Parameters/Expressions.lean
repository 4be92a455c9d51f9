import PromptTemplate.Proofs.Expr.Evaluation
import PromptTemplate.Proofs.Parameters.Covering

/-!
# Evaluations and the careful analysis

An evaluation is assured by what the careful analysis makes of its expression. Where it
may stop early, what would have been defined is forgotten; where it has read a variable,
that one is known from then on.
-/

namespace PromptTemplate.Expr

open Analysis Eval

/-- A chain without an optional link does not stop early. -/
theorem returns_some (host : Host) : ∀ {e : Expr}, e.hasOptionalLink = false →
    Returns (fun v => v.isSome = true) (link host e)
  | .literal .., _ => by
    rw [link]
    exact .pure rfl
  | .identifier .., _ => by
    rw [link]
    exact .last fun _ => .pure rfl
  | .array .., _ => by
    rw [link]
    exact .last fun _ => .pure rfl
  | .object .., _ => by
    rw [link]
    exact .last fun _ => .pure rfl
  | .member base key optional s, h => by
    obtain ⟨rfl, hbase⟩ : optional = false ∧ base.hasOptionalLink = false := by
      simpa [hasOptionalLink] using h
    rw [link]
    refine .bind (returns_some host hbase) ?_
    rintro (_ | target) hsome
    · cases hsome
    · exact .last fun _ => .last fun _ => .pure rfl
  | .call callee arguments optional s, h => by
    obtain ⟨rfl, hcallee⟩ : optional = false ∧ callee.hasOptionalLink = false := by
      simpa [hasOptionalLink] using h
    rw [link]
    refine .bind (returns_some host hcallee) ?_
    rintro (_ | target) hsome
    · cases hsome
    · cases target with
      | function f => exact .last fun _ => .last fun _ => .pure rfl
      | _ => exact .throw _
  | .unary op argument s, _ => by
    by_cases named : ∃ name place, op = .typeof ∧ argument = .identifier name place
    · obtain ⟨name, place, rfl, rfl⟩ := named
      rw [link]
      exact .last fun _ => .last fun _ => .ite (.pure rfl) (.last fun _ => .pure rfl)
    · rw [link]
      · exact .last fun _ => .ite (.pure rfl) (.last fun _ => .pure rfl)
      · intro name place hop hargument
        exact named ⟨name, place, hop, hargument⟩
  | .binary .., _ => by
    rw [link]
    exact .last fun _ => .last fun _ => .last fun _ => .pure rfl
  | .logical .., _ => by
    rw [link]
    exact .last fun _ => .ite (.pure rfl) (.last fun _ => .pure rfl)
  | .conditional .., _ => by
    rw [link]
    exact .last fun _ => .ite (.last fun _ => .pure rfl) (.last fun _ => .pure rfl)
  | .assign op target value s, _ => by
    by_cases plain : ∃ name place, target = .identifier name place
    · obtain ⟨name, place, rfl⟩ := plain
      rw [link]
      have finish : ∀ v, Returns (fun v => v.isSome = true) (do store name v; return some v) :=
        fun _ => .last fun _ => .pure rfl
      cases op.binary? with
      | none => exact .last finish
      | some op => exact .last fun _ => .last fun _ => .last finish
    · rw [link]
      · have finish : ∀ root steps v, Returns (fun v => v.isSome = true) (do
            let after ← lookup root target.span
            store root (← ofExcept (after.writePath steps v))
            return some v) :=
          fun _ _ _ => .last fun _ => .last fun _ => .last fun _ => .pure rfl
        refine .last fun (root, steps) => .last fun before => ?_
        cases op.binary? with
        | none => exact .last (finish root steps)
        | some op => exact .last fun _ => .last fun _ => .last (finish root steps)
      · intro name place htarget
        exact plain ⟨name, place, htarget⟩
  | .update op before argument s, _ => by
    by_cases plain : ∃ name place, argument = .identifier name place
    · obtain ⟨name, place, rfl⟩ := plain
      rw [link]
      exact .last fun _ => .last fun _ => .last fun _ => .pure rfl
    · rw [link]
      · exact .last fun _ => .last fun _ => .last fun _ => .last fun _ => .last fun _ =>
          .last fun _ => .pure rfl
      · intro name place hargument
        exact plain ⟨name, place, hargument⟩

theorem returns_link (host : Host) (e : Expr) :
    Returns (fun v => v = none → e.hasOptionalLink = true) (link host e) := by
  cases h : e.hasOptionalLink with
  | true => exact fun w => Ends.any.imp (fun _ _ _ _ => rfl) fun _ _ h => h
  | false =>
    refine fun w => (returns_some host h w).imp ?_ fun _ _ h => h
    rintro v u hsome rfl
    cases hsome

/-! ## Single actions -/

variable {given : List String} {a b c : Analysis} {α : Type}

theorem not_mem_given {s : Scope} (h : a.Covers given s) {name : String}
    (missing : s.get? name = none) : name ∉ given ∧ name ∉ a.defined := by
  have unknown : s.contains name ≠ true := by
    intro known
    obtain ⟨v, found⟩ := (h.wellFormed.contains_iff name).mp known
    rw [missing] at found
    cases found
  exact ⟨fun hname => unknown (h.given name hname), fun hname => unknown (h.defined name hname)⟩

/-- A variable that is read is known, or it is reported. -/
theorem assures_lookup (name : String) (s : Span) :
    Assures given a (a.read name) (lookup name s) := by
  intro w hw
  rw [ends_lookup]
  cases found : w.scope.get? name with
  | some v =>
    refine ⟨refl_of Scope.Grows w.scope, hw.of_defined ?_⟩
    rw [defined_read]
    exact List.Subset.refl _
  | none =>
    rintro e ⟨⟩ -
    obtain ⟨hgiven, hdefined⟩ := not_mem_given hw found
    exact ⟨name, (mem_used_read a name).resolve_left hdefined, hgiven, rfl⟩

/-- A variable that was given is known. -/
theorem assures_lookup_given {name : String} (h : name ∈ given) (s : Span) :
    Assures given a a (lookup name s) := by
  intro w hw
  rw [ends_lookup]
  obtain ⟨v, found⟩ := (hw.wellFormed.contains_iff name).mp (hw.given name h)
  rw [show w.scope.get? name = some v from found]
  exact ⟨refl_of Scope.Grows w.scope, hw⟩

theorem assures_store (name : String) (v : Value) :
    Assures given a (a.define name) (store name v) :=
  fun w hw => ⟨.set w.scope name v, hw.set name v⟩

/-- A variable that is changed need not be defined after it. -/
theorem assures_rewrite (name : String) (v : Value) : Assures given a a (store name v) :=
  (assures_store name v).imp (List.Subset.refl _) (List.subset_cons_self _ _) (List.Subset.refl _)

theorem ne_of_values {c : Code} (h : c ∈ Code.ofValues) : c ≠ .variableNotDeclared := by
  rintro rfl
  simp [Code.ofValues] at h

theorem assures_placed {s : Span} {r : Except Cause α}
    (h : ∀ c, r = .error c → c.code ∈ Code.ofValues) : Assures given a a (placed s r) := by
  cases r with
  | ok x => exact .pure x
  | error c =>
    refine .throw ?_
    rintro e ⟨⟩
    exact ne_of_values (h c rfl)

theorem assures_fault {steps : List Value.Step} {r : Except Error α}
    (h : ∀ e, r = .error e → Value.FaultAt steps e) :
    Assures given a a (ofExcept r : Eval α) := by
  cases r with
  | ok x => exact .pure x
  | error e =>
    refine .throw ?_
    rintro e' ⟨⟩
    obtain ⟨c, step, -, rfl, hc⟩ := h e rfl
    exact ne_of_values hc

theorem assures_invoke (host : Host) (f : Callable) (arguments : List Value) (s : Span) :
    Assures given a a (invoke host f arguments s) := by
  refine .bind (.modify fun _ => rfl) (fun _ => ?_)
  cases host f arguments with
  | ok v => exact .pure v
  | error problem =>
    refine .throw ?_
    rintro e ⟨⟩ ⟨⟩

theorem assures_settled {chain : Eval (Option Value)} (h : Assures given a b chain) :
    Assures given a b (settled chain) :=
  .bind h (fun _ => .pure _)

/-! ## Targets -/

theorem returns_path (host : Host) (whole : Span) (e : Expr) :
    Returns (fun r => e.root? = some r.1) (path host whole e) := by
  cases e with
  | identifier name s =>
    rw [path]
    exact .pure rfl
  | member base key optional s =>
    cases optional with
    | true => exact .throw _
    | false =>
      rw [path]
      exact .bind (returns_path host whole base) fun _ hroot => .last fun _ => .pure hroot
  | _ => exact .throw _

/-- The variable of a target is looked at first. -/
theorem mem_used_root (a : Analysis) : ∀ {e : Expr} {root : String}, e.root? = some root →
    root ∈ a.defined ∨ root ∈ (a.carefulExpr e).used
  | .identifier name _, root, h => by
    cases h
    exact mem_used_read a name
  | .member base key optional _, root, h => by
    refine (mem_used_root a (show base.root? = some root from h)).imp_right fun hused => ?_
    rw [carefulExpr, used_perhaps]
    exact used_carefulKey _ key hused

/-- After the variable of a target has been read it is known. -/
theorem assures_access {host : Host} {s : Span} {target : Expr}
    {next : String × List Value.Step → Eval (Option Value)}
    {f : String → List Value.Step → Value → Eval (Option Value)}
    (hpath : Assures given a (a.carefulExpr target) (path host s target))
    (hnext : ∀ root steps, next (root, steps) = lookup root s >>= f root steps)
    (hf : ∀ root steps v, Assures (root :: given) (a.carefulExpr target) c (f root steps v))
    (hused : (a.carefulExpr target).used ⊆ c.used) :
    Assures given a c (path host s target >>= next) := by
  intro w hw
  rw [ends_bind]
  have first : Assures given a ⟨(a.carefulExpr target).defined, c.used⟩ (path host s target) :=
    hpath.imp (List.Subset.refl _) (List.Subset.refl _) hused
  refine ((first w hw).and (returns_path host s target w)).imp ?_ (fun _ _ h => h.1)
  rintro ⟨root, steps⟩ u ⟨⟨hwu, hu⟩, hroot⟩
  rw [hnext, ends_bind, ends_lookup]
  cases found : u.scope.get? root with
  | none =>
    rintro e ⟨⟩ -
    obtain ⟨hgiven, -⟩ := not_mem_given hu found
    refine ⟨root, (mem_used_root a hroot).elim (fun hdefined => ?_) (fun h => hused h), hgiven, rfl⟩
    have known := hwu.contains root (hw.defined root hdefined)
    obtain ⟨v, found'⟩ := (hu.wellFormed.contains_iff root).mp known
    cases found.symm.trans found'
  | some v =>
    have known := (hu.wellFormed.contains_iff root).mpr ⟨v, found⟩
    have covered : (a.carefulExpr target).Covers given u.scope := hu.of_defined (List.Subset.refl _)
    refine (hf root steps v u (covered.know known)).imp ?_ ?_
    · rintro x t ⟨hut, ht⟩
      exact ⟨trans_of Scope.Grows hwu hut, ht.forget⟩
    · intro err t herr e he hcode
      obtain ⟨name, hname, hgiven, hcause⟩ := herr e he hcode
      exact ⟨name, hname, fun h => hgiven (List.mem_cons_of_mem _ h), hcause⟩

/-! ## Expressions -/

/-- The links after an optional one may be skipped. -/
theorem assures_next {host : Host} {base : Expr} {optional : Bool} {part : Analysis → Analysis}
    {rest : Value → Eval (Option Value)}
    (hbase : Assures given a (a.carefulExpr base) (link host base))
    (hrest : ∀ target, Assures given (a.carefulExpr base) (part (a.carefulExpr base)) (rest target))
    (hused : (a.carefulExpr base).used ⊆ (part (a.carefulExpr base)).used) :
    Assures given a ((a.carefulExpr base).perhaps (optional || base.hasOptionalLink) part) (do
      match ← link host base with
      | none => return none
      | some target =>
        if optional && target.isNullish then return none
        else rest target) := by
  have used := hused
  rw [← used_perhaps (a.carefulExpr base) (optional || base.hasOptionalLink)] at used
  refine .bind_of hbase (returns_link host base) ?_ used
  rintro (_ | target) hstopped
  · exact .skipped (by simp [hstopped rfl]) none hused
  · dsimp only
    split
    · rename_i hnullish
      exact .skipped (by simp [(Bool.and_eq_true_iff.mp hnullish).1]) none hused
    · exact .perhaps (hrest target) _

mutual

theorem assures_link (host : Host) : ∀ (e : Expr) {given : List String} {a : Analysis},
    Assures given a (a.carefulExpr e) (link host e)
  | .literal .., _, _ => by
    rw [link, carefulExpr]
    exact .pure _
  | .identifier name s, _, _ => by
    rw [link, carefulExpr]
    exact .bind (assures_lookup name s) (fun _ => .pure _)
  | .array items _, _, _ => by
    rw [link, carefulExpr]
    exact .bind (assures_values host items) (fun _ => .pure _)
  | .object properties _, _, _ => by
    rw [link, carefulExpr]
    exact .bind (assures_members host properties []) (fun _ => .pure _)
  | .member base key optional s, given, a => by
    rw [link, carefulExpr]
    refine assures_next (assures_link host base) (fun target => ?_) (used_carefulKey _ key)
    refine .bind (assures_keyName host key) (fun name => ?_)
    exact .bind (assures_placed fun _ => Value.code_of_property) (fun _ => .pure _)
  | .call callee arguments optional s, given, a => by
    rw [link, carefulExpr]
    refine assures_next (assures_link host callee) (fun target => ?_)
      (used_carefulExprs _ arguments)
    have refused : Assures given (a.carefulExpr callee)
        ((a.carefulExpr callee).carefulExprs arguments)
        (throw ((Cause.notAFunction callee.describe).on s) : Eval (Option Value)) := by
      refine .throw ?_
      rintro e ⟨⟩ ⟨⟩
    cases target with
    | function f =>
      refine .bind (assures_values host arguments) (fun vs => ?_)
      exact .bind (assures_invoke host f vs s) (fun _ => .pure _)
    | _ => exact refused
  | .unary op argument s, given, a => by
    have plain : Assures given a (a.carefulExpr argument) (do
        let v ← settled (link host argument)
        return some (Value.unary op v)) :=
      .bind (assures_settled (assures_link host argument)) (fun _ => .pure _)
    by_cases named : ∃ name place, op = .typeof ∧ argument = .identifier name place
    · obtain ⟨name, place, rfl, rfl⟩ := named
      have asks : UnaryOp.typeof.asksKind (.identifier name place) = true := rfl
      rw [link, carefulExpr, if_pos asks]
      intro w hw
      simp only [ends_bind, ends_scope, ends_pure]
      cases known : w.scope.contains name with
      | false => exact ⟨refl_of Scope.Grows w.scope, hw⟩
      | true =>
        simp only [Bool.not_true, Bool.false_eq_true, if_false, ends_bind, ends_settled, link,
          ends_lookup]
        obtain ⟨v, found⟩ := (hw.wellFormed.contains_iff name).mp known
        rw [show w.scope.get? name = some v from found]
        exact ⟨refl_of Scope.Grows w.scope, hw⟩
    · have declared : ¬op.asksKind argument = true := by
        intro asks
        obtain ⟨hop, hargument⟩ := Bool.and_eq_true_iff.mp asks
        obtain ⟨name, hname⟩ := Option.isSome_iff_exists.mp hargument
        obtain ⟨place, rfl⟩ := eq_of_name? hname
        exact named ⟨name, place, by simpa using hop, rfl⟩
      rw [link, carefulExpr, if_neg declared]
      · have no : Returns (· = false) (pure false : Eval Bool) := .pure rfl
        refine .bind_of (.pure false) no ?_ (used_carefulExpr a argument)
        rintro _ rfl
        exact plain
      · intro name place hop hargument
        exact named ⟨name, place, hop, hargument⟩
  | .binary op left right s, given, a => by
    rw [link, carefulExpr]
    have used := used_carefulExpr (a.carefulExpr left) right
    refine .bind (assures_settled (assures_link host left)) (fun l => ?_) used
    refine .bind (assures_settled (assures_link host right)) (fun r => ?_)
    exact .bind (assures_placed fun _ => Value.code_of_binary) (fun _ => .pure _)
  | .logical op left right _, given, a => by
    rw [link, carefulExpr]
    have used := used_carefulExpr (a.carefulExpr left) right
    refine .bind (assures_settled (assures_link host left)) (fun l => ?_) used
    refine .ite (.skip _ used) (.inside ?_)
    exact .bind (assures_settled (assures_link host right)) (fun _ => .pure _)
  | .conditional test consequent alternate _, given, a => by
    rw [link, carefulExpr]
    have usedFirst := used_carefulExpr (a.carefulExpr test) consequent
    have usedSecond := used_carefulExpr
      { (a.carefulExpr test).carefulExpr consequent with defined := (a.carefulExpr test).defined }
      alternate
    refine .bind (assures_settled (assures_link host test)) (fun t => .ite ?_ ?_)
      (List.Subset.trans usedFirst usedSecond)
    · have first : Assures given (a.carefulExpr test) ((a.carefulExpr test).carefulExpr consequent)
          (do return some (← settled (link host consequent)) : Eval (Option Value)) :=
        .bind (assures_settled (assures_link host consequent)) (fun _ => .pure _)
      refine first.imp (List.Subset.refl _) (fun name hname => ?_) usedSecond
      simpa using (List.mem_filter.mp hname).2
    · have second : Assures given
          { (a.carefulExpr test).carefulExpr consequent with
            defined := (a.carefulExpr test).defined }
          _ (do return some (← settled (link host alternate)) : Eval (Option Value)) :=
        .bind (assures_settled (assures_link host alternate)) (fun _ => .pure _)
      exact second.imp (List.Subset.refl _) (fun name hname => (List.mem_filter.mp hname).1)
        (List.Subset.refl _)
  | .assign op target value s, given, a => by
    by_cases plain : ∃ name place, target = .identifier name place
    · obtain ⟨name, place, rfl⟩ := plain
      rw [link, carefulExpr]
      have finish : ∀ (b : Analysis) (v : Value), Assures given b (b.define name)
          (do store name v; return some v) := fun _ v =>
        .bind (assures_store name v) (fun _ => .pure _)
      cases op.binary? with
      | none =>
        exact .bind (assures_settled (assures_link host value)) (finish _)
      | some op =>
        refine .bind (assures_lookup name place) (fun old => ?_) (used_carefulExpr _ value)
        refine .bind (assures_settled (assures_link host value)) (fun v => ?_)
        exact .bind (assures_placed fun _ => Value.code_of_binary) (finish _)
    · have unnamed : target.name? = none := by
        cases target with
        | identifier name place => exact absurd ⟨name, place, rfl⟩ plain
        | _ => rfl
      rw [link, carefulExpr, unnamed]
      · refine assures_access (assures_path host target.span target) (fun _ _ => rfl)
          (fun root steps before => ?_) (used_carefulExpr _ value)
        have finish : ∀ result, Assures (root :: given) ((a.carefulExpr target).carefulExpr value)
            ((a.carefulExpr target).carefulExpr value) (do
              let after ← lookup root target.span
              store root (← ofExcept (after.writePath steps result))
              return some result) := by
          intro result
          refine .bind (assures_lookup_given List.mem_cons_self _) (fun after => ?_)
          refine .bind (assures_fault fun _ => Value.faultAt_of_writePath) (fun changed => ?_)
          exact .bind (assures_rewrite root changed) (fun _ => .pure _)
        cases op.binary? with
        | none => exact .bind (assures_settled (assures_link host value)) finish
        | some op =>
          refine .bind (assures_fault fun _ => Value.faultAt_of_readPath) (fun old => ?_)
            (used_carefulExpr _ value)
          refine .bind (assures_settled (assures_link host value)) (fun v => ?_)
          exact .bind (assures_placed fun _ => Value.code_of_binary) finish
      · intro name place htarget
        exact plain ⟨name, place, htarget⟩
  | .update op before argument s, given, a => by
    by_cases plain : ∃ name place, argument = .identifier name place
    · obtain ⟨name, place, rfl⟩ := plain
      rw [link, carefulExpr, carefulExpr]
      refine .bind (assures_lookup name place) (fun v => ?_)
      refine .bind (assures_placed fun _ => UpdateOp.code_of_operand) (fun old => ?_)
      exact .bind (assures_rewrite name _) (fun _ => .pure _)
    · rw [link, carefulExpr]
      · refine assures_access (assures_path host argument.span argument) (fun _ _ => rfl)
          (fun root steps whole => ?_) (List.Subset.refl _)
        refine .bind (assures_fault fun _ => Value.faultAt_of_readPath) (fun v => ?_)
        refine .bind (assures_placed fun _ => UpdateOp.code_of_operand) (fun old => ?_)
        refine .bind (assures_fault fun _ => Value.faultAt_of_writePath) (fun changed => ?_)
        exact .bind (assures_rewrite root changed) (fun _ => .pure _)
      · intro name place hargument
        exact plain ⟨name, place, hargument⟩

theorem assures_values (host : Host) : ∀ (es : List Expr) {given : List String} {a : Analysis},
    Assures given a (a.carefulExprs es) (values host es)
  | [], _, _ => by
    rw [values, carefulExprs]
    exact .pure _
  | e :: rest, given, a => by
    rw [values, carefulExprs]
    have used := used_carefulExprs (a.carefulExpr e) rest
    refine .bind (assures_settled (assures_link host e)) (fun v => ?_) used
    exact .bind (assures_values host rest) (fun _ => .pure _)

theorem assures_members (host : Host) : ∀ (ps : List Property) (done : Dictionary Value)
    {given : List String} {a : Analysis},
    Assures given a (a.carefulProperties ps) (members host ps done)
  | [], _, _, _ => by
    rw [members, carefulProperties]
    exact .pure _
  | .mk key value :: rest, done, given, a => by
    rw [members, carefulProperties]
    have used := used_carefulProperties ((a.carefulKey key).carefulExpr value) rest
    refine .bind (assures_keyName host key) (fun name => ?_)
      (List.Subset.trans (used_carefulExpr _ value) used)
    refine .bind (assures_settled (assures_link host value)) (fun v => ?_) used
    exact assures_members host rest _

theorem assures_keyName (host : Host) : ∀ (key : Key) {given : List String} {a : Analysis},
    Assures given a (a.carefulKey key) (keyName host key)
  | .named _, _, _ => by
    rw [keyName, carefulKey]
    exact .pure _
  | .computed e, _, _ => by
    rw [keyName, carefulKey]
    exact .bind (assures_settled (assures_link host e)) (fun _ => .pure _)

theorem assures_path (host : Host) (whole : Span) : ∀ (e : Expr) {given : List String}
    {a : Analysis}, Assures given a (a.carefulExpr e) (path host whole e)
  | .identifier name _, given, a => by
    rw [path, carefulExpr]
    refine (Assures.pure _).imp (List.Subset.refl _) ?_ (used_read a name)
    rw [defined_read]
    exact List.Subset.refl _
  | .member base key false s, given, a => by
    rw [path, carefulExpr]
    have used := used_carefulKey (a.carefulExpr base) key
    refine .bind (assures_path host whole base) (fun root => ?_) (by rw [used_perhaps]; exact used)
    refine .perhaps ?_ _
    exact .bind (assures_keyName host key) (fun _ => .pure _)
  | .member _ _ true _, _, _ | .literal .., _, _ | .array .., _, _ | .object .., _, _
  | .call .., _, _ | .unary .., _, _ | .binary .., _, _ | .logical .., _, _ | .conditional .., _, _
  | .assign .., _, _ | .update .., _, _ => by
    refine .throw ?_
    rintro e ⟨⟩ ⟨⟩

end

end PromptTemplate.Expr
