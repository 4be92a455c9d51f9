import PromptTemplate.Proofs.Compilation.Actions
import PromptTemplate.Proofs.Compilation.Attributes
import PromptTemplate.Proofs.Scope.Grows

/-!
# What walks inherit from their actions

A property of computations that evaluations and single changes of the state have, and that
is kept by doing one thing after another, is a property of every action and of every walk.
-/

namespace PromptTemplate

namespace Compile

/-- The changes that actions make to the state, other than those of config blocks and steps. -/
inductive Change where
  | push
  | pushItem (context : String) (index : Option String) (i : Nat) (v : Value)
  | set (name : String) (v : Value)
  | emit (s : String)
  | flush
  | draft (d : Draft)
  | closeMessage
  | closeContent (kind : ContentKind)
  | respond (ps : List Part)
  | closeFrame

namespace Change

def apply : Change → Compilation → Compilation
  | .push, c => { c with world := { c.world with scope := c.world.scope.push } }
  | .pushItem context index i v, c =>
    { c with world := { c.world with scope := c.world.scope.pushItem context index i v } }
  | .set name v, c => { c with world := { c.world with scope := c.world.scope.set name v } }
  | .emit s, c =>
    match c.draft with
    | some d => { c with draft := some (d.emit s) }
    | none => { c with text := c.text ++ s }
  | .flush, c =>
    { c with
      messages := if (Text.trimmed c.text).isEmpty then c.messages
        else c.messages ++ [Message.ofText .system (Text.trimmed c.text)]
      text := "" }
  | .draft d, c => { c with draft := some d }
  | .closeMessage, c =>
    match c.draft with
    | some d => { c with messages := c.messages ++ [d.message], draft := none }
    | none => c
  | .closeContent kind, c => { c with draft := c.draft.map (·.closeContent kind) }
  | .respond ps, c =>
    { c with response := none, messages := c.messages ++ [Message.ofParts .assistant ps none] }
  | .closeFrame, c =>
    { c with
      world := { c.world with scope := c.world.scope.pop }
      refusedPops := c.refusedPops + if c.world.scope.outer.isEmpty then 1 else 0 }

@[simp] theorem config_apply (k : Change) (c : Compilation) : (k.apply c).config = c.config := by
  cases k with
  | emit s | closeMessage => cases h : c.draft <;> simp [apply, h]
  | flush => simp only [apply]
  | _ => rfl

@[simp] theorem stepConfig_apply (k : Change) (c : Compilation) :
    (k.apply c).stepConfig = c.stepConfig := by
  cases k with
  | emit s | closeMessage => cases h : c.draft <;> simp [apply, h]
  | flush => simp only [apply]
  | _ => rfl

/-- Messages are only added. -/
theorem messages_apply (k : Change) (c : Compilation) :
    c.messages <+: (k.apply c).messages := by
  cases k with
  | emit s => cases h : c.draft <;> simp [apply, h]
  | flush =>
    simp only [apply]
    split
    · exact List.prefix_refl _
    · exact List.prefix_append ..
  | closeMessage => cases h : c.draft <;> simp [apply, h]
  | respond ps => exact List.prefix_append ..
  | push | pushItem | set | draft | closeContent | closeFrame => exact List.prefix_refl _

/-- Well-formed scopes stay so. -/
theorem wellFormed_apply (k : Change) {c : Compilation} (h : c.world.scope.WellFormed) :
    (k.apply c).world.scope.WellFormed := by
  cases k with
  | push => exact h.push
  | pushItem context index i v => exact h.pushItem context index i v
  | set name v => exact h.set name v
  | closeFrame => exact h.pop
  | emit s | closeMessage => cases hd : c.draft <;> simpa [apply, hd] using h
  | flush | draft | closeContent | respond => exact h

end Change

/-! ## Walks -/

/-- A message around what its tag holds. -/
def inMessage (host : Host) (role : Option Role) (as : List Attribute) (s : Span)
    (body : Compile Flow) : Compile Flow := do
  openMessage host role as s
  let _ ← body
  closeMessage
  return .done

/-- A part of a message around what its tag holds. -/
def inContent (kind : ContentKind) (s : Span) (body : Compile Flow) : Compile Flow := do
  openContent kind s
  let _ ← body
  closeContent kind
  return .done

/-- Keeps the settings of a step. -/
def settle (config : Config) : Compile Unit := modify fun c => { c with stepConfig := some config }

/-- Keeps the settings of a config block, unless there are some already. -/
def setConfig (v : Config) : Compile Unit :=
  modify fun c => { c with config := c.config <|> some v }

/-- A property of computations that evaluations and the actions of walks have, and that is
kept by doing one thing after another. A message and a part of it are taken as a whole:
what opens and what closes them need not have the property alone. -/
structure Walking (host : Host) (P : (α : Type) → Compile α → Prop) : Prop
    extends Evaluating host P where
  throw {α : Type} (e : Error) : P α (throw e)
  emit (s : String) : P Unit (emit s)
  flush : P Unit flush
  push : P Unit (changeScope (·.push))
  pushItem (context : String) (index : Option String) (i : Nat) (v : Value) :
    P Unit (changeScope (·.pushItem context index i v))
  closeFrame : P Unit closeFrame
  respond (name : Option String) (s : Span) : P Unit (respond name s)
  inMessage (role : Option Role) (as : List Attribute) (s : Span) {body : Compile Flow}
    (hbody : P Flow body) : P Flow (inMessage host role as s body)
  inContent (kind : ContentKind) (s : Span) {body : Compile Flow} (hbody : P Flow body) :
    P Flow (inContent kind s body)

section

variable {host : Host} {P : (α : Type) → Compile α → Prop}

theorem ite_of {α : Type} {c : Prop} [Decidable c] {p q : Compile α} (hp : P α p) (hq : P α q) :
    P α (if c then p else q) := by
  split
  · exact hp
  · exact hq

namespace Walking

variable (h : Walking host P)
include h

theorem leave (s : Span) (flow : Flow) : P Flow (leave s flow) := by
  cases flow with
  | done => exact h.bind h.closeFrame fun _ => h.pure _
  | suspended rest => exact h.pure _

theorem inFrame (s : Span) {body : Compile Flow} (hbody : P Flow body) :
    P Flow (inFrame s body) :=
  h.bind h.push fun _ => h.bind hbody fun flow => h.leave s flow

theorem forItems (context : String) (index : Option String) (s : Span) {body : Compile Flow}
    (hbody : P Flow body) (vs : List Value) (i : Nat) :
    P Unit (forItems context index s body i vs) := by
  induction vs generalizing i with
  | nil => exact h.pure _
  | cons v rest ih =>
    refine h.bind (h.pushItem context index i v) fun _ => h.bind hbody fun flow => ?_
    cases flow with
    | suspended left => exact h.throw _
    | done => exact h.bind h.closeFrame fun _ => ih (i + 1)

end Walking

mutual

/-- The walk of a node has the property if what config blocks and steps do has it. -/
theorem walking_walk (h : Walking host P) (hstep : ∀ config, P Unit (settle config)) :
    ∀ a : Node, (∀ v s, .config v s ∈ a.walk → P Unit (setConfig v)) → P Flow (walk host a)
  | .text data _, _ => by
    rw [walk]
    exact h.bind (h.emit data) fun _ => h.pure _
  | .config v s, hconfig => by
    rw [walk]
    exact h.bind (hconfig v s (List.mem_singleton.mpr rfl)) fun _ => h.pure _
  | .comment .., _ => by
    rw [walk]
    exact h.pure _
  | .mustache e _, _ => by
    rw [walk]
    refine h.bind (h.evaluate e) fun v => ?_
    exact ite_of (h.bind (h.emit _) fun _ => h.pure _) (h.pure _)
  | .ifBlock e consequent alternate s, hconfig => by
    rw [walk]
    refine h.bind (h.evaluate e) fun v => ite_of (h.inFrame s ?_) ?_
    · exact walking_walkAll h hstep consequent fun v s hv =>
        hconfig v s (List.mem_cons_of_mem _ (List.mem_append_left _ hv))
    · exact walking_walkOption h hstep alternate s fun v s hv =>
        hconfig v s (List.mem_cons_of_mem _ (List.mem_append_right _ hv))
  | .eachBlock e context index body alternate s, hconfig => by
    have walk_body := walking_walkAll h hstep body fun v s hv =>
      hconfig v s (List.mem_cons_of_mem _ (List.mem_append_left _ hv))
    have walk_alternate := walking_walkOption h hstep alternate s fun v s hv =>
      hconfig v s (List.mem_cons_of_mem _ (List.mem_append_right _ hv))
    rw [walk]
    refine h.bind (h.evaluate e) fun v => ite_of (h.bind walk_alternate fun flow => ?_) ?_
    · cases flow with
      | suspended left => exact h.throw _
      | done => exact h.pure _
    · exact h.bind (h.forItems context index s walk_body _ 0) fun _ => h.pure _
  | .message role as children s, hconfig => by
    rw [walk]
    exact h.inMessage role as s (walking_walkAll h hstep children fun v s hv =>
      hconfig v s (List.mem_cons_of_mem _ hv))
  | .content kind as children s, hconfig => by
    rw [walk]
    exact h.inContent kind s (walking_walkAll h hstep children fun v s hv =>
      hconfig v s (List.mem_cons_of_mem _ hv))
  | .reference .., _ => by
    rw [walk]
    exact h.throw _
  | .step as children s, hconfig => by
    have walk_children := walking_walkAll h hstep children fun v s hv =>
      hconfig v s (List.mem_cons_of_mem _ hv)
    rw [walk]
    refine h.bind (h.stepAttributes as none []) fun (name, config) => ?_
    refine h.bind walk_children fun flow => ?_
    cases flow with
    | suspended left => exact h.throw _
    | done => exact h.bind h.flush fun _ => h.bind (hstep config) fun _ => h.pure _
  | .scoped children s, hconfig => by
    have walk_children := walking_walkAll h hstep children fun v s hv =>
      hconfig v s (List.mem_cons_of_mem _ hv)
    rw [walk]
    exact h.bind walk_children fun flow => h.leave s flow
  | .response name s, _ => by
    rw [walk]
    exact h.bind (h.respond name s) fun _ => h.pure _

theorem walking_walkAll (h : Walking host P) (hstep : ∀ config, P Unit (settle config)) :
    ∀ nodes : List Node, (∀ v s, .config v s ∈ Node.walkAll nodes → P Unit (setConfig v)) →
      P Flow (walkAll host nodes)
  | [], _ => by
    rw [walkAll]
    exact h.pure _
  | a :: rest, hconfig => by
    have walk_first := walking_walk h hstep a fun v s hv =>
      hconfig v s (List.mem_append_left _ hv)
    have walk_rest := walking_walkAll h hstep rest fun v s hv =>
      hconfig v s (List.mem_append_right _ hv)
    rw [walkAll]
    refine h.bind walk_first fun flow => ?_
    cases flow with
    | suspended left => exact h.pure _
    | done => exact walk_rest

theorem walking_walkOption (h : Walking host P) (hstep : ∀ config, P Unit (settle config)) :
    ∀ (nodes : Option (List Node)) (s : Span),
      (∀ v s, .config v s ∈ Node.walkOption nodes → P Unit (setConfig v)) →
      P Flow (walkOption host s nodes)
  | none, _, _ => by
    rw [walkOption]
    exact h.pure _
  | some nodes, s, hconfig => by
    rw [walkOption]
    exact h.inFrame s (walking_walkAll h hstep nodes hconfig)

end

theorem walking_whole (h : Walking host P) (hstep : ∀ config, P Unit (settle config))
    (f : Fragment) (hconfig : ∀ v s, .config v s ∈ f.walk → P Unit (setConfig v)) :
    P Flow (whole host f) :=
  h.bind (walking_walkAll h hstep f.children hconfig) fun _ => h.bind h.flush fun _ => h.pure _

end

/-! ## Single changes -/

/-- A property of computations that evaluations and changes have, and that what is put
together from computations with the property has, too. An action may look at the open
message and at the response. -/
structure Closed (host : Host) (P : (α : Type) → Compile α → Prop) : Prop
    extends Evaluating host P where
  throw {α : Type} (e : Error) : P α (throw e)
  look {β : Type} {f : Compilation → Compile β}
    (hlook : ∀ c d, c.draft = d.draft → c.response = d.response → f c = f d)
    (hf : ∀ c, P β (f c)) : P β (get >>= f)
  change (k : Change) : P Unit (modify k.apply)

namespace Closed

variable {host : Host} {P : (α : Type) → Compile α → Prop} (h : Closed host P)
include h

theorem openMessage (role : Option Role) (as : List Attribute) (s : Span) :
    P Unit (openMessage host role as s) := by
  refine h.look (fun c d hdraft _ => by rw [hdraft]) fun c => ite_of (h.throw _) ?_
  refine h.bind (h.change .flush) fun _ => h.bind (h.roleOf role as s) fun role => ?_
  exact h.bind (h.toolIdOf as) fun id => ite_of (h.throw _) (h.change (.draft _))

theorem openContent (kind : ContentKind) (s : Span) : P Unit (openContent kind s) := by
  refine h.look (fun c d hdraft _ => by rw [hdraft]) fun c => ?_
  cases c.draft with
  | none => exact h.throw _
  | some d => exact ite_of (h.throw _) (ite_of (h.throw _) (h.change (.draft _)))

theorem respond (name : Option String) (s : Span) : P Unit (respond name s) := by
  refine h.look (fun c d _ hresponse => by rw [hresponse]) fun c => ?_
  cases c.response with
  | none => exact h.throw _
  | some ps =>
    refine h.bind (h.change (.respond ps)) fun _ => ?_
    cases name with
    | none => exact h.pure _
    | some name => exact h.change (.set name _)

/-- Messages and their parts are opened and closed by single changes. -/
theorem walking : Walking host P where
  toEvaluating := h.toEvaluating
  throw := h.throw
  emit s := h.change (.emit s)
  flush := h.change .flush
  push := h.change .push
  pushItem context index i v := h.change (.pushItem context index i v)
  closeFrame := h.change .closeFrame
  respond := h.respond
  inMessage role as s _ hbody := by
    refine h.bind (h.openMessage role as s) fun _ => h.bind hbody fun _ => ?_
    exact h.bind (h.change .closeMessage) fun _ => h.pure _
  inContent kind s _ hbody := by
    refine h.bind (h.openContent kind s) fun _ => h.bind hbody fun _ => ?_
    exact h.bind (h.change (.closeContent kind)) fun _ => h.pure _

end Closed

/-! ## Relations between states -/

/-- What writes and changes leave as it is, or change along a relation, actions do, too. -/
theorem closed_keeps {host : Host} {R : Compilation → Compilation → Prop}
    [IsPreorder Compilation R]
    (hworld : ∀ (c : Compilation) (w : World),
      Scope.Writes (fun _ _ => True) c.world.scope w.scope → R c { c with world := w })
    (hchange : ∀ (k : Change) c, R c (k.apply c)) :
    Closed host fun _ p => Keeps R (fun _ => True) p where
  pure a := .pure a
  refuse _ _ := .throw trivial
  throw e := .throw trivial
  bind hp hf := .bind hp hf
  look hlook hf := fun c => by
    rw [ends_bind]
    exact hf c c
  evaluate e := fun c => by
    have regular := regular_evaluate host e c
    rw [ends_evaluate] at regular ⊢
    exact regular.imp (fun _ w h => hworld c w h.writes)
      fun _ w h => ⟨hworld c w h.1.writes, trivial⟩
  change k := .modify (hchange k)

/-- A part of the state is left as it is. -/
def Fixes {β : Type} (f : Compilation → β) (c d : Compilation) : Prop := f d = f c

instance {β : Type} (f : Compilation → β) : IsPreorder Compilation (Fixes f) where
  refl _ := rfl
  trans _ _ _ h k := k.trans h

theorem closed_stepConfig (host : Host) :
    Closed host fun _ p => Keeps (Fixes (·.stepConfig)) (fun _ => True) p :=
  closed_keeps (fun _ _ _ => rfl) Change.stepConfig_apply

/-- If the scope of the first compilation is well-formed, so is that of the second. -/
def StaysFormed (c d : Compilation) : Prop :=
  c.world.scope.WellFormed → d.world.scope.WellFormed

instance : IsPreorder Compilation StaysFormed where
  refl _ h := h
  trans _ _ _ h k hc := k (h hc)

theorem closed_staysFormed (host : Host) :
    Closed host fun _ p => Keeps StaysFormed (fun _ => True) p :=
  closed_keeps (fun _ _ writes hc => writes.wellFormed hc) Change.wellFormed_apply

/-- Whatever nodes are walked, a well-formed scope stays so. -/
theorem staysFormed_whole (host : Host) (f : Fragment) :
    Keeps StaysFormed (fun _ => True) (whole host f) :=
  walking_whole (closed_staysFormed host).walking (fun _ => .modify fun _ h => h) f
    fun _ _ _ => .modify fun _ h => h

end Compile

end PromptTemplate
