import PromptTemplate.Proofs.Compilation.Closure

/-!
# What opening tags keep out

No message of a tool is opened without an id, and no image inside a message of the system.
The role is known only when the message is opened, and what is inside it may be anything:
the open message keeps its role and its id until its own tag closes it.
-/

namespace PromptTemplate

/-- A computation that changes the state only along a relation, if it does not fail. -/
def Brings {ε σ α : Type} (R : σ → σ → Prop) (p : ExceptT ε (StateM σ) α) : Prop :=
  ∀ s, Ends p s (fun _ t => R s t) (fun _ _ => True)

namespace Brings

variable {ε σ α β : Type} {R : σ → σ → Prop} [IsPreorder σ R] {p : ExceptT ε (StateM σ) α}

theorem pure (a : α) : Brings R (pure a : ExceptT ε (StateM σ) α) := fun s => refl_of R s

omit [IsPreorder σ R] in
theorem throw (e : ε) : Brings R (throw e : ExceptT ε (StateM σ) α) := fun _ => trivial

theorem after (h : Brings R p) {s t : σ} (hst : R s t) :
    Ends p t (fun _ u => R s u) (fun _ _ => True) :=
  (h t).imp (fun _ _ htu => trans_of R hst htu) fun _ _ h => h

theorem bind {f : α → ExceptT ε (StateM σ) β} (hp : Brings R p) (hf : ∀ a, Brings R (f a)) :
    Brings R (p >>= f) := by
  intro s
  rw [ends_bind]
  exact (hp s).imp (fun a _ hst => (hf a).after hst) fun _ _ h => h

omit [IsPreorder σ R] in
theorem modify {f : σ → σ} (h : ∀ s, R s (f s)) :
    Brings R (modify f : ExceptT ε (StateM σ) PUnit) := h

end Brings

theorem Message.content_ofParts (role : Role) (ps : List Part) (toolId : Option String) :
    (ofParts role ps toolId).content =
      if role.prefersText && ps.all Part.isText then .text (Part.lines ps) else .parts ps := rfl

/-- A message as the checks of tags have it: one of a tool has an id, and one of the system
is a text. -/
structure Message.Lawful (m : Message) : Prop where
  toolId : m.role = .tool → m.toolId.isSome = true
  text : m.role = .system → ∃ s, m.content = .text s

namespace Draft

/-- A message under way that comes to such a message. -/
structure Lawful (d : Draft) : Prop where
  toolId : d.role = .tool → d.toolId.isSome = true
  texts : d.role = .system → ∀ p ∈ d.parts, p.isText = true

/-- What does not change while a message is open. -/
def tag (d : Draft) : Role × Option String := (d.role, d.toolId)

@[simp] theorem tag_flush (d : Draft) : d.flush.tag = d.tag := by simp only [tag, flush]

@[simp] theorem tag_openContent (d : Draft) : d.openContent.tag = d.tag := by
  simp only [tag, openContent, flush]

@[simp] theorem tag_closeContent (d : Draft) (kind : ContentKind) :
    (d.closeContent kind).tag = d.tag := by simp only [tag, closeContent]

@[simp] theorem tag_emit (d : Draft) (s : String) : (d.emit s).tag = d.tag := by
  cases h : d.content <;> simp [emit, h, tag]

namespace Lawful

variable {d : Draft}

/-- Texts do not matter, and neither do parts that are texts. -/
theorem of_parts (h : d.Lawful) {e : Draft} (tag : e.tag = d.tag)
    (parts : d.role = .system → ∀ p ∈ e.parts, p ∈ d.parts ∨ p.isText = true) : e.Lawful := by
  obtain ⟨role, toolId⟩ := Prod.mk.inj tag
  constructor
  · rw [role, toolId]
    exact h.toolId
  · rw [role]
    intro system p hp
    exact (parts system p hp).elim (h.texts system p) id

theorem emit (h : d.Lawful) (s : String) : (d.emit s).Lawful := by
  refine h.of_parts (tag_emit d s) fun _ p hp => .inl ?_
  cases hc : d.content <;> simpa [Draft.emit, hc] using hp

theorem flush (h : d.Lawful) : d.flush.Lawful := by
  refine h.of_parts (tag_flush d) fun _ p hp => ?_
  simp only [Draft.flush] at hp
  split at hp
  · exact .inl hp
  · refine (List.mem_append.mp hp).imp_right fun added => ?_
    rw [List.mem_singleton.mp added]
    rfl

theorem openContent (h : d.Lawful) : d.openContent.Lawful := by
  refine h.flush.of_parts (by simp) fun _ p hp => .inl ?_
  simpa only [Draft.openContent] using hp

theorem closeContent (h : d.Lawful) {kind : ContentKind}
    (allowed : ¬(d.role = .system ∧ kind = .image)) : (d.closeContent kind).Lawful := by
  refine h.of_parts (tag_closeContent d kind) fun system p hp => ?_
  refine (List.mem_append.mp hp).imp_right fun added => ?_
  rw [List.mem_singleton.mp added]
  cases kind with
  | text => rfl
  | image => exact absurd ⟨system, rfl⟩ allowed

theorem message (h : d.Lawful) : d.message.Lawful := by
  have role : d.message.role = d.role := by simp only [Draft.message, Message.ofParts]
  have toolId : d.message.toolId = d.toolId := by simp only [Draft.message, Message.ofParts]
  constructor
  · rw [role, toolId]
    exact h.toolId
  · rw [role]
    intro system
    have flushed : d.flush.role = .system := by simpa only [Draft.flush] using system
    have texts : d.flush.parts.all Part.isText = true :=
      List.all_eq_true.mpr (h.flush.texts flushed)
    refine ⟨Part.lines d.flush.parts, ?_⟩
    rw [Draft.message, Message.content_ofParts, system, texts]
    rfl

end Lawful

end Draft

namespace Compilation

/-- All messages and the open one are as the checks of tags have them. -/
structure Lawful (c : Compilation) : Prop where
  messages : ∀ m ∈ c.messages, m.Lawful
  draft : ∀ d ∈ c.draft, d.Lawful

theorem lawful_start (world : World) (response : Option (List Part)) :
    (start world response).Lawful :=
  ⟨List.forall_mem_nil _, by simp [start]⟩

/-- The same message is open, and what was as the checks have it still is. -/
structure Abides (c d : Compilation) : Prop where
  tag : d.draft.map Draft.tag = c.draft.map Draft.tag
  lawful : c.Lawful → d.Lawful

namespace Abides

instance : IsPreorder Compilation Abides where
  refl _ := ⟨rfl, fun h => h⟩
  trans _ _ _ h k := ⟨k.tag.trans h.tag, fun hc => k.lawful (h.lawful hc)⟩

variable {c d : Compilation}

/-- Messages do not depend on anything else. -/
theorem of_same (draft : d.draft = c.draft) (messages : d.messages = c.messages) : Abides c d := by
  refine ⟨congrArg (Option.map Draft.tag) draft, fun h => ⟨?_, ?_⟩⟩
  · rw [messages]
    exact h.messages
  · rw [draft]
    exact h.draft

/-- A message is added beside the open one. -/
theorem of_added {m : Message} (hm : m.Lawful) (draft : d.draft = c.draft)
    (messages : d.messages = c.messages ++ [m]) : Abides c d := by
  refine ⟨congrArg (Option.map Draft.tag) draft, fun h => ⟨?_, ?_⟩⟩
  · rw [messages]
    exact List.forall_mem_append.mpr ⟨h.messages, List.forall_mem_singleton.mpr hm⟩
  · rw [draft]
    exact h.draft

/-- The open message has changed into one with the same role and id. -/
theorem of_draft {x y : Draft} (hc : c.draft = some x) (hd : d.draft = some y)
    (tag : y.tag = x.tag) (messages : d.messages = c.messages) (lawful : x.Lawful → y.Lawful) :
    Abides c d := by
  refine ⟨by rw [hc, hd, Option.map_some, Option.map_some, tag], fun h => ⟨?_, ?_⟩⟩
  · rw [messages]
    exact h.messages
  · rw [hd]
    rintro _ ⟨⟩
    exact lawful (h.draft x hc)

end Abides

end Compilation

namespace Compile

open Compilation

variable {host : Host} {c d : Compilation}

theorem abides_emit (s : String) (c : Compilation) : Abides c ((Change.emit s).apply c) := by
  cases h : c.draft with
  | none =>
    refine .of_same ?_ ?_
    · simp [Change.apply, h]
    · simp [Change.apply, h]
  | some x =>
    have emitted : (Change.emit s).apply c = { c with draft := some (x.emit s) } := by
      simp [Change.apply, h]
    rw [emitted]
    exact .of_draft h rfl (x.tag_emit s) rfl fun hx => hx.emit s

theorem abides_flush (c : Compilation) : Abides c (Change.flush.apply c) := by
  simp only [Change.apply]
  split
  · exact .of_same rfl rfl
  · refine .of_added ?_ rfl rfl
    constructor
    · intro tool
      cases tool
    · intro _
      exact ⟨_, rfl⟩

theorem brings_respond (name : Option String) (s : Span) : Brings Abides (respond name s) := by
  intro c
  rw [respond, ends_bind, ends_get]
  cases c.response with
  | none => trivial
  | some ps =>
    have answered : (Message.ofParts .assistant ps none).Lawful := by
      constructor <;> · intro other; cases other
    cases name with
    | none => exact .of_added answered rfl rfl
    | some name => exact .of_added answered rfl rfl

theorem evaluating_abides (host : Host) : Evaluating host fun _ p => Brings Abides p where
  pure a := .pure a
  refuse _ _ := .throw _
  bind hp hf := .bind hp hf
  evaluate e := fun _ => (ends_evaluate host e).mpr
    (Ends.any.imp (fun _ _ _ => .of_same rfl rfl) fun _ _ h => h)

/-- A message is opened only where none is open, and as the checks have it. -/
theorem ends_openMessage_lawful (host : Host) (role : Option Role) (as : List Attribute) (s : Span)
    (c : Compilation) :
    Ends (openMessage host role as s) c
      (fun _ d => c.draft = none ∧ d.draft.isSome = true ∧ (c.Lawful → d.Lawful))
      (fun _ _ => True) := by
  rw [openMessage, ends_bind, ends_get]
  cases hc : c.draft with
  | some x => trivial
  | none =>
    have flushed : Brings Abides flush := .modify abides_flush
    rw [if_neg (by simp), ends_bind]
    refine (flushed c).imp ?_ fun _ _ h => h
    intro _ d hd
    rw [ends_bind]
    refine (((evaluating_abides host).roleOf role as s).after hd).imp ?_ fun _ _ h => h
    intro role e he
    rw [ends_bind]
    refine (((evaluating_abides host).toolIdOf as).after he).imp ?_ fun _ _ h => h
    intro id f hf
    split
    · trivial
    · rename_i allowed
      refine ⟨rfl, rfl, fun h => ⟨(hf.lawful h).messages, ?_⟩⟩
      rintro _ ⟨⟩
      refine ⟨fun tool => ?_, fun _ => List.forall_mem_nil _⟩
      have tool : role = .tool := tool
      cases id with
      | none => exact absurd ⟨tool, rfl⟩ allowed
      | some id => rfl

/-- A part is opened only inside a message that it is allowed in. -/
theorem ends_openContent_lawful (kind : ContentKind) (s : Span) (c : Compilation) :
    Ends (openContent kind s) c
      (fun _ d => Abides c d ∧ ∃ x, c.draft = some x ∧ ¬(x.role = .system ∧ kind = .image))
      (fun _ _ => True) := by
  rw [openContent, ends_bind, ends_get]
  cases hc : c.draft with
  | none => trivial
  | some x =>
    dsimp only
    split
    · trivial
    · split
      · trivial
      · rename_i allowed
        exact ⟨.of_draft hc rfl x.tag_openContent rfl fun hx => hx.openContent, x, rfl, allowed⟩

theorem brings_inMessage (role : Option Role) (as : List Attribute) (s : Span)
    {body : Compile Flow} (hbody : Brings Abides body) :
    Brings Abides (inMessage host role as s body) := by
  intro c
  rw [inMessage, ends_bind]
  refine (ends_openMessage_lawful host role as s c).imp ?_ fun _ _ h => h
  rintro _ d ⟨outside, opened, lawful⟩
  rw [ends_bind]
  refine (hbody d).imp ?_ fun _ _ h => h
  intro _ e inside
  obtain ⟨x, hx⟩ := Option.isSome_iff_exists.mp opened
  have still : e.draft.map Draft.tag = some x.tag := by rw [inside.tag, hx, Option.map_some]
  obtain ⟨y, hy, -⟩ := Option.map_eq_some_iff.mp still
  change Abides c (Change.closeMessage.apply e)
  simp only [Change.apply, hy]
  refine ⟨by rw [outside], fun h => ⟨?_, by simp⟩⟩
  have closed := inside.lawful (lawful h)
  exact List.forall_mem_append.mpr
    ⟨closed.messages, List.forall_mem_singleton.mpr (closed.draft y hy).message⟩

theorem brings_inContent (kind : ContentKind) (s : Span) {body : Compile Flow}
    (hbody : Brings Abides body) : Brings Abides (inContent kind s body) := by
  intro c
  rw [inContent, ends_bind]
  refine (ends_openContent_lawful kind s c).imp ?_ fun _ _ h => h
  rintro _ d ⟨opened, x, hx, allowed⟩
  rw [ends_bind]
  refine (hbody.after opened).imp ?_ fun _ _ h => h
  intro _ e inside
  -- The body leaves the role of the open message, for which the kind has been checked.
  have still : e.draft.map Draft.tag = some x.tag := by rw [inside.tag, hx, Option.map_some]
  obtain ⟨y, hy, same⟩ := Option.map_eq_some_iff.mp still
  have allowed : ¬(y.role = .system ∧ kind = .image) := by
    rw [show y.role = x.role from congrArg Prod.fst same]
    exact allowed
  have closed : Abides e (Change.closeContent kind |>.apply e) :=
    .of_draft hy (by simp [Change.apply, hy]) (y.tag_closeContent kind) rfl
      fun h => h.closeContent allowed
  exact trans_of Abides inside closed

theorem walking_abides (host : Host) : Walking host fun _ p => Brings Abides p where
  toEvaluating := evaluating_abides host
  throw e := .throw e
  emit s := .modify (abides_emit s)
  flush := .modify abides_flush
  push := .modify fun _ => .of_same rfl rfl
  pushItem _ _ _ _ := .modify fun _ => .of_same rfl rfl
  closeFrame := .modify fun _ => .of_same rfl rfl
  respond := brings_respond
  inMessage := brings_inMessage
  inContent := brings_inContent

/-- A compilation comes to messages that are as the checks of tags have them. -/
theorem ends_whole_lawful (host : Host) (f : Fragment) (world : World)
    (response : Option (List Part)) :
    Ends (whole host f) (Compilation.start world response) (fun _ d => d.Lawful)
      (fun _ _ => True) := by
  have walked : Brings Abides (whole host f) :=
    walking_whole (walking_abides host) (fun _ => .modify fun _ => .of_same rfl rfl) f
      fun _ _ _ => .modify fun _ => .of_same rfl rfl
  exact (walked _).imp (fun _ _ h => h.lawful (lawful_start world response)) fun _ _ h => h

end Compile

end PromptTemplate
