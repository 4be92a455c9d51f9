import PromptTemplate.Proofs.Expr.Evaluation
import PromptTemplate.Proofs.Expr.Placeless

/-!
# Compound assignments and updates

A compound assignment does what the plain assignment of the operation does, and an update
what a compound assignment with one does. The plain one evaluates its target twice, once
as a path and once for the old value; that this comes to the same is because a target
whose keys neither write nor call leaves the world as it was, so that its value is what is
read along its path.
-/

namespace PromptTemplate

/-- The assignment that an update abbreviates, with one on its right. -/
def UpdateOp.assignOp : UpdateOp → AssignOp
  | .increment => .add
  | .decrement => .sub

/-- A computation that leaves the world as it was. -/
abbrev Eval.Still {α : Type} (p : Eval α) : Prop := Keeps Eq (fun _ => True) p

namespace Expr

open Eval

/-- Whether evaluating the expression may do more than what is inside it does: assign,
update or call. -/
def isEffect : Expr → Bool
  | .call .. | .assign .. | .update .. => true
  | _ => false

/-! ## Evaluations that leave the world as it was -/

theorem still_settled {p : Eval (Option Value)} (h : Still p) : Still (settled p) :=
  .bind h fun _ => .pure _

theorem still_placed {α : Type} (s : Span) (r : Except Cause α) : Still (placed s r) := by
  cases r with
  | ok a => exact .pure a
  | error c => exact .throw trivial

theorem still_lookup (name : String) (s : Span) : Still (lookup name s) := by
  intro w
  rw [ends_lookup]
  cases w.scope.get? name with
  | some v => rfl
  | none => exact ⟨rfl, trivial⟩

theorem still_asksUndeclared (op : UnaryOp) (argument : Expr) :
    Still (asksUndeclared op argument) := by
  unfold asksUndeclared
  split
  · exact .bind (fun _ => rfl) fun _ => .pure _
  · exact .pure _

mutual

theorem still_link (host : Host) : ∀ e : Expr, (∀ x ∈ e.subexpressions, x.isEffect = false) →
    Still (link host e)
  | .literal .., _ => by
    rw [link]
    exact .pure _
  | .identifier name s, _ => by
    rw [link]
    exact .bind (still_lookup name s) fun _ => .pure _
  | .array items _, h => by
    rw [link]
    exact .bind (still_values host items (List.forall_mem_cons.mp h).2) fun _ => .pure _
  | .object properties _, h => by
    rw [link]
    exact .bind (still_members host properties [] (List.forall_mem_cons.mp h).2) fun _ => .pure _
  | .member base key optional s, h => by
    obtain ⟨hbase, hkey⟩ := List.forall_mem_append.mp (List.forall_mem_cons.mp h).2
    rw [link]
    refine .bind (still_link host base hbase) ?_
    rintro (_ | target)
    · exact .pure _
    · refine .ite (.pure _) (.bind (still_keyName host key hkey) fun name => ?_)
      exact .bind (still_placed s _) fun _ => .pure _
  | .unary op argument s, h => by
    have inner := still_link host argument (List.forall_mem_cons.mp h).2
    have plain : Still (do let v ← settled (link host argument); return some (Value.unary op v)) :=
      .bind (still_settled inner) fun _ => .pure _
    rw [link_unary]
    exact .bind (still_asksUndeclared op argument) fun _ => .ite (.pure _) plain
  | .binary op left right s, h => by
    obtain ⟨hleft, hright⟩ := List.forall_mem_append.mp (List.forall_mem_cons.mp h).2
    rw [link]
    refine .bind (still_settled (still_link host left hleft)) fun l => ?_
    refine .bind (still_settled (still_link host right hright)) fun r => ?_
    exact .bind (still_placed s _) fun _ => .pure _
  | .logical op left right _, h => by
    obtain ⟨hleft, hright⟩ := List.forall_mem_append.mp (List.forall_mem_cons.mp h).2
    rw [link]
    refine .bind (still_settled (still_link host left hleft)) fun l => .ite (.pure _) ?_
    exact .bind (still_settled (still_link host right hright)) fun _ => .pure _
  | .conditional test consequent alternate _, h => by
    obtain ⟨hboth, halternate⟩ := List.forall_mem_append.mp (List.forall_mem_cons.mp h).2
    obtain ⟨htest, hconsequent⟩ := List.forall_mem_append.mp hboth
    rw [link]
    refine .bind (still_settled (still_link host test htest)) fun t => .ite ?_ ?_
    · exact .bind (still_settled (still_link host consequent hconsequent)) fun _ => .pure _
    · exact .bind (still_settled (still_link host alternate halternate)) fun _ => .pure _
  | .call .., h | .assign .., h | .update .., h => by
    have effect := h _ (mem_subexpressions_self _)
    cases effect

theorem still_values (host : Host) : ∀ es : List Expr, (∀ x ∈ insideAll es, x.isEffect = false) →
    Still (values host es)
  | [], _ => by
    rw [values]
    exact .pure _
  | e :: rest, h => by
    obtain ⟨he, hrest⟩ := List.forall_mem_append.mp h
    rw [values]
    refine .bind (still_settled (still_link host e he)) fun v => ?_
    exact .bind (still_values host rest hrest) fun _ => .pure _

theorem still_members (host : Host) : ∀ (ps : List Property) (done : Dictionary Value),
    (∀ x ∈ insideProperties ps, x.isEffect = false) → Still (members host ps done)
  | [], _, _ => by
    rw [members]
    exact .pure _
  | .mk key value :: rest, done, h => by
    obtain ⟨hboth, hrest⟩ := List.forall_mem_append.mp h
    obtain ⟨hkey, hvalue⟩ := List.forall_mem_append.mp hboth
    rw [members]
    refine .bind (still_keyName host key hkey) fun name => ?_
    refine .bind (still_settled (still_link host value hvalue)) fun v => ?_
    exact still_members host rest _ hrest

theorem still_keyName (host : Host) : ∀ key : Key, (∀ x ∈ key.inside, x.isEffect = false) →
    Still (keyName host key)
  | .named _, _ => by
    rw [keyName]
    exact .pure _
  | .computed e, h => by
    rw [keyName]
    exact .bind (still_settled (still_link host e h)) fun _ => .pure _

end

/-! ## The value of a target -/

theorem readPath_concat (root : Value) (steps : List Value.Step) (step : Value.Step) :
    root.readPath (steps ++ [step]) = root.readPath steps >>= fun v => v.readPath [step] := by
  induction steps generalizing root with
  | nil => rfl
  | cons first rest ih =>
    rw [List.cons_append, Value.readPath, Value.readPath]
    cases root.property (!first.computed) first.name with
    | ok v => exact ih v
    | error c => rfl

/-- A computation that is sure to come to a value. -/
theorem resembles_some {α : Type} (p : Eval α) :
    Resembles (fun v o => o = some v) p (do return some (← p)) := by
  have same : Resembles (fun v o => o = some v) (p >>= pure) (do return some (← p)) := by
    refine (Resembles.refl p).bind ?_
    rintro v _ rfl
    exact .pure rfl
  rwa [bind_pure] at same

/-- What is read along a path from a variable. -/
def readAt (name : String) (s : Span) (steps : List Value.Step) : Eval Value := do
  let v ← lookup name s
  ofExcept (v.readPath steps)

theorem still_readAt (name : String) (s : Span) (steps : List Value.Step) :
    Still (readAt name s steps) :=
  .bind (still_lookup name s) fun _ => .ofExcept fun _ _ => trivial

theorem readAt_concat (name : String) (s : Span) (steps : List Value.Step) (step : Value.Step) :
    readAt name s (steps ++ [step]) = (do
      let v ← readAt name s steps
      ofExcept (v.readPath [step])) := by
  rw [readAt, readAt, bind_assoc]
  congr 1
  funext root
  rw [readPath_concat]
  cases root.readPath steps <;> rfl

/-- The value of a member is read under the key that its path ends with. -/
theorem resemblesAt_member {host : Host} {base : Expr} {key : Key} {place s : Span} {w : World}
    {name k : String} {computed : Bool} {steps : List Value.Step}
    (plain : base.hasOptionalLink = false)
    (hkey : (keyName host key).run w = (.ok (k, computed), w))
    (hbase : ResemblesAt w (fun v o => o = some v) (readAt name s steps) (link host base)) :
    ResemblesAt w (fun v o => o = some v) (readAt name s (steps ++ [⟨k, computed, place⟩]))
      (link host (.member base key false place)) := by
  obtain ⟨results, worlds⟩ := hbase
  have still : w = ((readAt name s steps).run w).2 := (still_readAt name s steps).run w
  rw [readAt_concat, link, ResemblesAt]
  rcases hread : (readAt name s steps).run w with ⟨r, t⟩
  rcases hlink : (link host base).run w with ⟨l, t'⟩
  rw [hread, hlink] at results worlds
  rw [hread] at still
  cases worlds
  cases still
  cases results with
  | error h =>
    rw [run_bind_error hread, run_bind_error hlink]
    exact ⟨.error h, rfl⟩
  | @ok v o h =>
    subst h
    rw [run_bind_ok hread, run_bind_ok hlink]
    change ResemblesAt _ _ (ofExcept (v.readPath [⟨k, computed, place⟩])) (keyName host key >>= _)
    rw [ResemblesAt, run_bind_ok hkey]
    simp only [plain, Bool.not_false, Bool.and_true]
    rw [Value.readPath]
    cases v.property (!computed) k with
    | ok a => exact ⟨.ok rfl, rfl⟩
    | error c => exact ⟨.error rfl, rfl⟩

/-- Where the path of a target is found, the target is worth what is read along it. -/
theorem resemblesAt_path (host : Host) (whole s : Span) : ∀ {t : Expr},
    t.hasOptionalLink = false → (∀ x ∈ t.subexpressions, x.isEffect = false) →
    ∀ {w u : World} {name : String} {steps : List Value.Step},
      (path host whole t).run w = (.ok (name, steps), u) →
      u = w ∧ ResemblesAt w (fun v o => o = some v) (readAt name s steps) (link host t)
  | .identifier name place, _, _, w, u, _, _, hpath => by
    rw [path] at hpath
    cases hpath
    refine ⟨rfl, ?_⟩
    rw [link]
    refine (resembles_lookup name s place).bind ?_ _
    rintro v _ rfl
    exact .pure rfl
  | .member base key false place, hplain, h, w, u, name, steps, hpath => by
    obtain ⟨hbase, hkey⟩ := List.forall_mem_append.mp (List.forall_mem_cons.mp h).2
    have plain : base.hasOptionalLink = false := by simpa [hasOptionalLink] using hplain
    rw [path, run_bind] at hpath
    rcases hroot : (path host whole base).run w with ⟨_ | ⟨root, front⟩, u₀⟩
    · rw [hroot] at hpath
      cases hpath
    · obtain ⟨rfl, hread⟩ := resemblesAt_path host whole s plain hbase hroot
      have still := (still_keyName host key hkey).run u₀
      rw [hroot] at hpath
      dsimp only at hpath
      rw [run_bind] at hpath
      rcases hname : (keyName host key).run u₀ with ⟨_ | ⟨k, computed⟩, u₁⟩
      · rw [hname] at hpath
        cases hpath
      · rw [hname] at hpath still
        cases still
        cases hpath
        exact ⟨rfl, resemblesAt_member plain hname hread⟩
  | .member _ _ true _, hplain, _, _, _, _, _, _ => by
    simp [hasOptionalLink] at hplain
  | .call .., _, _, _, _, _, _, hpath | .literal .., _, _, _, _, _, _, hpath
  | .array .., _, _, _, _, _, _, hpath | .object .., _, _, _, _, _, _, hpath
  | .unary .., _, _, _, _, _, _, hpath | .binary .., _, _, _, _, _, _, hpath
  | .logical .., _, _, _, _, _, _, hpath | .conditional .., _, _, _, _, _, _, hpath
  | .assign .., _, _, _, _, _, _, hpath | .update .., _, _, _, _, _, _, hpath => by
    cases hpath

/-! ## Compound assignments -/

theorem outcome_of_binary {host : Host} {op : AssignOp} {b : BinaryOp}
    (hop : op.binary? = some b) (old : Eval Value) (value : Expr) (s : Span) :
    outcome host op old value s = (do
      let l ← old
      let r ← settled (link host value)
      placed s (Value.binary b l r)) := by
  rw [outcome, hop]

/-- An operation on the old value and a value, when the old value is that of its left
operand. What a plain assignment could read of its target it does not read. -/
theorem resemblesAt_outcome {host : Host} {op : AssignOp} {b : BinaryOp}
    (hop : op.binary? = some b) {t e : Expr} {old unread : Eval Value} {w : World}
    (hold : ResemblesAt w (fun v o => o = some v) old (link host t)) (s s₁ s₂ : Span) :
    ResemblesAt w Eq (outcome host op old e s)
      (outcome host .plain unread (.binary b t e s₁) s₂) := by
  have plain : outcome host .plain unread (.binary b t e s₁) s₂ = (do
      let l ← link host t
      let r ← settled (link host e)
      placed s₁ (Value.binary b (l.getD .undefined) r)) := by
    change settled (link host (.binary b t e s₁)) = _
    rw [link]
    simp only [settled, bind_assoc, pure_bind, Option.getD_some, bind_pure]
  rw [outcome_of_binary hop, plain]
  refine hold.bind ?_
  rintro l _ rfl
  exact (Resembles.refl _).bind_eq fun r => resembles_placed s s₁ _

/-- A compound assignment does what the assignment of its operation does. -/
theorem resembles_compound (host : Host) {op : AssignOp} {b : BinaryOp}
    (hop : op.binary? = some b) {t : Expr} (plain : t.hasOptionalLink = false)
    (quiet : ∀ x ∈ t.subexpressions, x.isEffect = false) (e : Expr) (s s₁ s₂ : Span) :
    Resembles Eq (link host (.assign op t e s))
      (link host (.assign .plain t (.binary b t e s₁) s₂)) := by
  intro w
  rcases identifier_or t with ⟨name, place, rfl⟩ | compound
  · have old : ResemblesAt w (fun v o => o = some v) (lookup name place)
        (link host (.identifier name place)) := by
      rw [link]
      exact resembles_some (lookup name place) w
    rw [link_assign_identifier, link_assign_identifier]
    refine (resemblesAt_outcome hop old s s₁ s₂).bind ?_
    rintro v _ rfl
    exact .refl _
  · rw [link_assign_path host op compound, link_assign_path host .plain compound, ResemblesAt]
    rcases hpath : (path host t.span t).run w with ⟨_ | ⟨name, steps⟩, u⟩
    · rw [run_bind_error hpath, run_bind_error hpath]
      exact ⟨.error rfl, rfl⟩
    · obtain ⟨rfl, value⟩ := resemblesAt_path host t.span t.span plain quiet hpath
      rw [run_bind_ok hpath, run_bind_ok hpath]
      cases found : u.scope.get? name with
      | none =>
        have missing := run_lookup_none found t.span
        rw [run_bind_error missing, run_bind_error missing]
        exact ⟨.error rfl, rfl⟩
      | some before =>
        have there := run_lookup found t.span
        rw [run_bind_ok there, run_bind_ok there]
        rw [readAt, ResemblesAt, run_bind_ok there] at value
        refine (resemblesAt_outcome hop value s s₁ s₂).bind ?_
        rintro result _ rfl
        exact .refl _

/-! ## Updates -/

/-- With one on its right, the assignment of an update adds what the update adds. -/
theorem run_outcome (host : Host) (op : UpdateOp) {old : Eval Value} {x : Float} {w : World}
    (hold : old.run w = (.ok (.number x), w)) (s s₁ : Span) :
    (outcome host op.assignOp old (.literal (.number 1) s₁) s).run w =
      (.ok (.number (x + op.delta)), w) := by
  have one : (settled (link host (.literal (.number 1) s₁))).run w = (.ok (.number 1), w) := by
    rw [link]
    rfl
  cases op with
  | increment =>
    have hop : UpdateOp.increment.assignOp.binary? = some .add := rfl
    rw [outcome_of_binary hop, run_bind_ok hold, run_bind_ok one]
    rfl
  | decrement =>
    have hop : UpdateOp.decrement.assignOp.binary? = some .sub := rfl
    rw [outcome_of_binary hop, run_bind_ok hold, run_bind_ok one, UpdateOp.delta,
      Number.add_minusOne]
    rfl

/-- A target that is a number is read as this number along its path. -/
theorem readPath_of_number {host : Host} {t : Expr} {name : String} {s : Span}
    {steps : List Value.Step} {w : World} {x : Float}
    (value : ResemblesAt w (fun v o => o = some v) (readAt name s steps) (link host t))
    (number : ((evaluate host t).run w).1 = .ok (.number x)) :
    ∃ whole, w.scope.get? name = some whole ∧ whole.readPath steps = .ok (.number x) := by
  rw [evaluate, run_settled] at number
  obtain ⟨o, ho, hx⟩ := Value.ok_of_map number
  have results := value.1
  rw [ho] at results
  obtain ⟨v, hv, rfl⟩ := results.exists_ok
  obtain rfl : v = .number x := hx
  cases found : w.scope.get? name with
  | none =>
    rw [readAt, run_bind_error (run_lookup_none found s)] at hv
    cases hv
  | some whole =>
    rw [readAt, run_bind_ok (run_lookup found s), run_ofExcept] at hv
    exact ⟨whole, rfl, hv⟩

/-- An update of a number does what the assignment with one does. The assignment comes to
the new number, the update to the new or to the old one. -/
theorem resemblesAt_update (host : Host) (op : UpdateOp) (before : Bool) {t : Expr}
    (plain : t.hasOptionalLink = false) (quiet : ∀ x ∈ t.subexpressions, x.isEffect = false)
    {w : World} {x : Float} (number : ((evaluate host t).run w).1 = .ok (.number x))
    (s s' s₁ : Span) :
    ResemblesAt w
      (fun v u => v = some (.number (x + op.delta)) ∧
        u = some (.number (if before then x + op.delta else x)))
      (link host (.assign op.assignOp t (.literal (.number 1) s₁) s'))
      (link host (.update op before t s)) := by
  rcases identifier_or t with ⟨name, place, rfl⟩ | compound
  · have value : ResemblesAt w (fun v o => o = some v) (readAt name place [])
        (link host (.identifier name place)) := by
      have hpath : (path host place (.identifier name place)).run w = (.ok (name, []), w) := by
        rw [path]
        rfl
      exact (resemblesAt_path host place place plain quiet hpath).2
    obtain ⟨whole, found, hread⟩ := readPath_of_number value number
    obtain rfl : whole = .number x := Except.ok.inj hread
    have there := run_lookup found place
    rw [link_assign_identifier, link, ResemblesAt]
    rw [run_bind_ok (run_outcome host op there s' s₁), run_bind_ok there]
    exact ⟨.ok ⟨rfl, rfl⟩, rfl⟩
  · rw [link_assign_path host op.assignOp compound, link_update_path host op before compound,
      ResemblesAt]
    rcases hpath : (path host t.span t).run w with ⟨_ | ⟨name, steps⟩, u⟩
    · rw [run_bind_error hpath, run_bind_error hpath]
      exact ⟨.error rfl, rfl⟩
    · obtain ⟨rfl, value⟩ := resemblesAt_path host t.span t.span plain quiet hpath
      obtain ⟨whole, found, hread⟩ := readPath_of_number value number
      have there := run_lookup found t.span
      have old : (ofExcept (whole.readPath steps) : Eval Value).run u = (.ok (.number x), u) := by
        rw [run_ofExcept, hread]
      have operand : op.operand (.number x) = .ok x := rfl
      rw [run_bind_ok hpath, run_bind_ok hpath, run_bind_ok there, run_bind_ok there]
      rw [run_bind_ok (run_outcome host op old s' s₁), run_bind_ok old]
      rw [run_bind_ok (run_placed operand s u), finish, run_bind_ok there]
      cases hwrite : whole.writePath steps (.number (x + op.delta)) with
      | error e => exact ⟨.error rfl, rfl⟩
      | ok changed => exact ⟨.ok ⟨rfl, rfl⟩, rfl⟩

/-- Compound assignments and updates abbreviate assignments, wherever they stand. A compound
assignment to a target whose keys do not assign, update or call does to every world what
the assignment of its operation does, and comes to the same value or to an error with the
same cause. So does an update of a target that is a number and the assignment with one,
except that the update after its target comes to the old number where the assignment
comes to a value. -/
theorem abbreviates_of_isTarget (host : Host) {t : Expr} (target : t.isTarget = true)
    (quiet : ∀ x ∈ t.inside, x.isEffect = false) :
    (∀ op b, AssignOp.binary? op = some b → ∀ e compound plain : Expr,
      compound.bare = .assign op t.bare e.bare Span.none →
      plain.bare = .assign .plain t.bare (.binary b t.bare e.bare Span.none) Span.none →
      Resembles Eq (evaluate host compound) (evaluate host plain)) ∧
    ∀ op before w x, ((evaluate host t).run w).1 = .ok (.number x) →
      ∀ assignment update : Expr,
        assignment.bare =
          .assign op.assignOp t.bare (.literal (.number 1) Span.none) Span.none →
        update.bare = .update op before t.bare Span.none →
        ResemblesAt w
          (fun v u => v = .number (x + op.delta) ∧ u = if before then v else .number x)
          (evaluate host assignment) (evaluate host update) := by
  have plain : t.hasOptionalLink = false := by
    cases t <;> simp_all [isTarget, hasOptionalLink]
  have quiet : ∀ x ∈ t.subexpressions, x.isEffect = false := by
    refine List.forall_mem_cons.mpr ⟨?_, quiet⟩
    cases t <;> first | rfl | cases target
  constructor
  · intro op b hop e compound abbreviated hcompound habbreviated
    have first : Resembles Eq (link host compound) (link host (.assign op t e Span.none)) :=
      resembles_link host hcompound.symm
    have last : Resembles Eq
        (link host (.assign .plain t (.binary b t e Span.none) Span.none))
        (link host abbreviated) :=
      resembles_link host habbreviated
    have middle := resembles_compound host hop plain quiet e Span.none Span.none Span.none
    exact resembles_settled ((first.trans middle).trans last)
  · intro op before w x number assignment update hassignment hupdate
    have first : Resembles Eq (link host assignment)
        (link host (.assign op.assignOp t (.literal (.number 1) Span.none) Span.none)) :=
      resembles_link host hassignment.symm
    have last : Resembles Eq (link host (.update op before t Span.none)) (link host update) :=
      resembles_link host hupdate
    have middle := resemblesAt_update host op before plain quiet number Span.none Span.none
      Span.none
    refine (middle.congr (first w) (last w)).bind ?_
    rintro _ _ ⟨rfl, rfl⟩
    refine .pure ⟨rfl, ?_⟩
    cases before <;> rfl

/-- A product with a value that writes to the same member, and an update of a member. -/
theorem abbreviates_of_isTarget_member :
    let s : Span := Span.none
    let t := Expr.member (.identifier "a" s) (.named "n") false s
    let e := Expr.assign .plain t (.literal (.bool true) s) s
    let w : World := ⟨Scope.ofParameters [("a", .object [("n", .number 1)])], []⟩
    let host : Host := fun _ _ => .error ""
    Resembles Eq (evaluate host (.assign .mul t e s))
      (evaluate host (.assign .plain t (.binary .mul t e s) s)) ∧
    ResemblesAt w (fun v u => v = .number (1 + 1) ∧ u = .number 1)
      (evaluate host (.assign .add t (.literal (.number 1) s) s))
      (evaluate host (.update .increment false t s)) := by
  intro s t e w host
  have quiet : ∀ x ∈ t.inside, x.isEffect = false := by
    intro x hx
    obtain rfl := List.mem_singleton.mp hx
    rfl
  constructor
  · exact (abbreviates_of_isTarget host (t := t) rfl quiet).1 .mul .mul rfl e _ _ rfl rfl
  · exact (abbreviates_of_isTarget host (t := t) rfl quiet).2 .increment false w 1 rfl _ _ rfl rfl

/-- An update after its target does not come to the old number where the number cannot be
written. -/
theorem update_not_old :
    let s : Span := Span.none
    let t := Expr.member (.identifier "a" s) (.named "length") false s
    let w : World := ⟨Scope.ofParameters [("a", .array [])], []⟩
    let host : Host := fun _ _ => .error ""
    t.isTarget = true ∧ (∀ x ∈ t.inside, x.isEffect = false) ∧
      (evaluate host t).run w = (.ok (.number 0), w) ∧
      (evaluate host (.update .decrement false t s)).run w =
        (.error (Cause.invalidLength.on s), w) := by
  intro s t w host
  have below : Value.length? (.number (0 + UpdateOp.decrement.delta)) = none := by
    have whole : Number.integer? (0 + UpdateOp.decrement.delta) = some (-1) := by decide +kernel
    simp [Value.length?, whole]
  have noIndex : Value.index? "length" = none := by decide
  have refused : (Value.array []).writePath [⟨"length", false, s⟩]
      (.number (0 + UpdateOp.decrement.delta)) = .error (Cause.invalidLength.on s) := by
    simp [Value.writePath, Value.withProperty, noIndex, below]
  have stored : Storing host (.update .decrement false t s) w w "a" (.array [])
      [⟨"length", false, s⟩] (.number (0 + UpdateOp.decrement.delta)) := .update rfl rfl rfl rfl
  refine ⟨rfl, ?_, rfl, ?_⟩
  · intro x hx
    obtain rfl := List.mem_singleton.mp hx
    rfl
  · rw [evaluate, run_settled, stored.run_of_refused refused]
    rfl

end Expr

end PromptTemplate
