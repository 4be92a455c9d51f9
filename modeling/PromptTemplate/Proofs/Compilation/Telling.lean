import PromptTemplate.Proofs.Compilation.Closure
import PromptTemplate.Proofs.Compilation.Events
import PromptTemplate.Proofs.Compilation.Resumed

/-!
# Messages are what the events tell

A compilation gathers texts in three places: outside of messages, in the open message and in
the open content tag. What it has gathered, and the messages that it has come to, are always
what the course of its events says. So every text that is emitted is in exactly one place,
in order, whatever blocks it comes from.
-/

namespace PromptTemplate

open Template

namespace Compilation

/-- A compilation outside of messages, where texts have been cut at some boundaries. -/
structure Outside (course : Course) (c : Compilation) : Prop where
  draft : c.draft = none
  messages : c.messages =
    course.settled (Cut.unlessBlank (Message.ofText .system)) Boundary.messages
  text : c.text = String.join course.last

/-- What a compilation has come to is what a sequence of events tells. -/
inductive Tells (c : Compilation) : List Event → Prop where
  | outside (course : Course) (h : Outside course c) : Tells c course.events
  | inMessage (course : Course) (role : Role) (toolId : Option String) (body : Body)
    (draft : c.draft = some ⟨role, toolId,
      body.settled (Cut.unlessBlank .text) fun (kind, inside) => [kind.part inside],
      String.join body.last, none⟩)
    (messages : c.messages = course.messages) (text : c.text = "") :
    Tells c (course.events ++ .openMessage role toolId :: body.events)
  | inContent (course : Course) (role : Role) (toolId : Option String) (body : Body)
    (inside : List String)
    (draft : c.draft = some ⟨role, toolId, body.parts, "", some (String.join inside)⟩)
    (messages : c.messages = course.messages) (text : c.text = "") :
    Tells c (course.events ++ .openMessage role toolId ::
      (body.events ++ .openContent :: Event.ofTexts inside))

variable {c d : Compilation} {es : List Event}

/-- What has been gathered does not depend on anything else. -/
theorem Tells.congr (h : c.Tells es) (draft : d.draft = c.draft)
    (messages : d.messages = c.messages) (text : d.text = c.text) : d.Tells es := by
  cases h with
  | outside course h =>
    exact .outside course
      ⟨draft.trans h.draft, messages.trans h.messages, text.trans h.text⟩
  | inMessage course role toolId body hdraft hmessages htext =>
    exact .inMessage course role toolId body (draft.trans hdraft) (messages.trans hmessages)
      (text.trans htext)
  | inContent course role toolId body inside hdraft hmessages htext =>
    exact .inContent course role toolId body inside (draft.trans hdraft)
      (messages.trans hmessages) (text.trans htext)

theorem Tells.exists_outside (h : c.Tells es) (htags : c.tags = (false, false)) :
    ∃ course : Course, es = course.events ∧ Outside course c := by
  cases h with
  | outside course h => exact ⟨course, rfl, h⟩
  | inMessage course role toolId body draft => simp [tags, draft] at htags
  | inContent course role toolId body inside draft => simp [tags, draft] at htags

/-- A compilation is where a performance is, with the same variables. -/
structure Told (c : Compilation) (s : Performance) : Prop where
  world : s.world = c.world
  response : s.response = c.response
  tells : c.Tells s.events

end Compilation

namespace Compile

open Compilation

variable {host : Host} {n : Nesting} {α β : Type} {c : Compilation} {es : List Event}

/-- Where an action of a compilation ends well, the performance does the same, and the
compilation is told by it again. No tags are open then that were not open before. -/
def EnactsFrom (c : Compilation) (s : Performance) (p : Compile α) (q : Perform α) : Prop :=
  Ends p c (fun a d => d.tags = c.tags ∧ ∃ t, q.run s = (.ok a, t) ∧ d.Told t) (fun _ _ => True)

theorem EnactsFrom.bind {s : Performance} {p : Compile α} {q : Perform α} {f : α → Compile β}
    {g : α → Perform β} (h : EnactsFrom c s p q)
    (hf : ∀ a d t, d.tags = c.tags → d.Told t → EnactsFrom d t (f a) (g a)) :
    EnactsFrom c s (p >>= f) (q >>= g) := by
  rw [EnactsFrom, ends_bind]
  apply h.imp ?_ (fun _ _ h => h)
  rintro a d ⟨htags, t, hrun, hd⟩
  apply (hf a d t htags hd).imp ?_ (fun _ _ h => h)
  rintro b e ⟨htags', u, hrun', he⟩
  exact ⟨htags'.trans htags, u, (run_bind_ok hrun g).trans hrun', he⟩

/-- An action that does so wherever it may stand. -/
def Enacts (n : Nesting) (p : Compile α) (q : Perform α) : Prop :=
  ∀ c s, Standing n c → c.Told s → EnactsFrom c s p q

namespace Enacts

theorem pure (a : α) : Enacts n (pure a) (pure a) := by
  intro c s _ told
  exact ⟨rfl, s, rfl, told⟩

/-- Where the compilation fails, nothing is said of the performance. -/
theorem failing (e : Error) (q : Perform α) : Enacts n (throw e) q := by
  intro c s _ _
  trivial

theorem bind {p : Compile α} {q : Perform α} {f : α → Compile β} {g : α → Perform β}
    (h : Enacts n p q) (hf : ∀ a, Enacts n (f a) (g a)) : Enacts n (p >>= f) (q >>= g) := by
  intro c s hc told
  apply (h c s hc told).bind
  intro a d t htags hd
  exact hf a d t (htags.trans hc) hd

end Enacts

/-! ## Evaluations -/

/-- An action that only looks at variables and only changes variables. -/
def Worldly (p : Compile α) : Prop :=
  ∃ r : World → Except Error α × World,
    ∀ c, p.run c = ((r c.world).1, { c with world := (r c.world).2 })

theorem evaluating_worldly (host : Host) : Evaluating host fun _ p => Worldly p where
  pure a := ⟨fun w => (.ok a, w), fun _ => rfl⟩
  refuse name s := ⟨fun w => (.error ((Cause.invalidRole name).on s), w), fun _ => rfl⟩
  bind := by
    rintro α β p f ⟨r, hp⟩ hf
    choose g hg using hf
    refine ⟨fun w => match r w with
      | (.ok a, v) => g a v
      | (.error e, v) => (.error e, v), fun c => ?_⟩
    rw [run_bind, hp]
    rcases hw : r c.world with ⟨_ | a, v⟩ <;> simp only [hw]
    exact hg a { c with world := v }
  evaluate e := ⟨(Expr.evaluate host e).run, run_evaluate host e⟩

/-- What such an action does to the variables, it does in a performance. -/
theorem Worldly.ends {p : Compile α} (h : Worldly p) {s : Performance}
    (hs : s.world = c.world) :
    Ends p c (fun a d => ∃ w, d = { c with world := w } ∧
      (Perform.act p).run s = (.ok a, { s with world := w })) (fun _ _ => True) := by
  obtain ⟨r, hr⟩ := h
  have hrun := hr (Compilation.start s.world none)
  have started : (Compilation.start s.world none).world = c.world := hs
  rw [started] at hrun
  rw [Ends, hr]
  rcases hw : r c.world with ⟨e | a, w⟩
  · trivial
  · rw [hw] at hrun
    refine ⟨w, rfl, ?_⟩
    simp only [Perform.act, run_bind, run_get, hrun, run_set]
    rfl

theorem Worldly.enacts {p : Compile α} (h : Worldly p) : Enacts n p (Perform.act p) := by
  intro c s _ told
  apply (h.ends told.world).imp ?_ (fun _ _ h => h)
  rintro a _ ⟨w, rfl, performed⟩
  exact ⟨rfl, _, performed, rfl, told.response, told.tells.congr rfl rfl rfl⟩

theorem enacts_evaluate (host : Host) (e : Expr) :
    Enacts n (evaluate host e) (Perform.act (evaluate host e)) :=
  ((evaluating_worldly host).evaluate e).enacts

theorem enacts_changeScope (f : Scope → Scope) :
    Enacts n (changeScope f) (Perform.changeScope f) := by
  intro c s _ told
  have world := congrArg (fun w : World => { w with scope := f w.scope }) told.world
  exact ⟨rfl, _, rfl, world, told.response, told.tells.congr rfl rfl rfl⟩

theorem enacts_closeFrame : Enacts n closeFrame (Perform.changeScope Scope.pop) := by
  intro c s _ told
  have world := congrArg (fun w : World => { w with scope := w.scope.pop }) told.world
  exact ⟨rfl, _, rfl, world, told.response, told.tells.congr rfl rfl rfl⟩

/-! ## Texts -/

/-- A text goes to the end of the run that is open. -/
theorem tells_emit (h : c.Tells es) (s : String) :
    ((Change.emit s).apply c).Tells (es ++ [.text s]) := by
  cases h with
  | outside course h =>
    have later : course.events ++ [.text s] = Course.events (course.add s) :=
      (Event.all_add ..).symm
    rw [later]
    refine .outside _ ⟨?_, ?_, ?_⟩
    · simp [Change.apply, h.draft]
    · simpa [Change.apply, h.draft] using h.messages
    · rw [Cut.join_add, ← h.text]
      simp [Change.apply, h.draft]
  | inMessage course role toolId body draft messages text =>
    have later : body.events ++ [.text s] = Body.events (body.add s) := (Event.all_add ..).symm
    rw [List.append_assoc, List.cons_append, later]
    refine .inMessage course role toolId _ ?_ ?_ ?_
    · rw [Cut.join_add]
      simp only [Change.apply, draft]
      rfl
    · simpa [Change.apply, draft] using messages
    · simpa [Change.apply, draft] using text
  | inContent course role toolId body inside draft messages text =>
    have later : Event.ofTexts inside ++ [.text s] = Event.ofTexts (inside ++ [s]) := by
      simp [Event.ofTexts]
    rw [List.append_assoc, List.cons_append, List.append_assoc, List.cons_append, later]
    refine .inContent course role toolId body _ ?_ ?_ ?_
    · simp [Change.apply, draft, Draft.emit, String.join_append]
    · simpa [Change.apply, draft] using messages
    · simpa [Change.apply, draft] using text

theorem enacts_emit (s : String) : Enacts n (emit s) (Perform.log (.text s)) := by
  intro c p _ told
  have kept : Advances c ((Change.emit s).apply c) := (regular_emit s c).of_ok (run_modify _ c)
  have same : ((Change.emit s).apply c).world = c.world ∧
      ((Change.emit s).apply c).response = c.response := by
    cases h : c.draft <;> simp [Change.apply, h]
  exact ⟨kept.tags, _, rfl, told.world.trans same.1.symm, told.response.trans same.2.symm,
    tells_emit told.tells s⟩

/-! ## Tags -/

/-- The last run of texts becomes a message. -/
theorem messages_flush {course : Course} (h : Outside course c) :
    (Change.flush.apply c).messages = course.messages := by
  simp only [Change.apply, Course.messages, Cut.all, Cut.unlessBlank, h.messages, h.text]
  split <;> simp

/-- Nothing else changes then. -/
theorem beside_flush (c : Compilation) : (Change.flush.apply c).world = c.world ∧
    (Change.flush.apply c).response = c.response ∧ (Change.flush.apply c).text = "" := by
  simp only [Change.apply, and_self]

/-- A boundary ends the last run of texts. -/
theorem tells_boundary {course : Course} (b : Boundary) (draft : c.draft = none)
    (messages : c.messages = course.messages ++ b.messages) (text : c.text = "") :
    c.Tells (course.events ++ b.events) := by
  have marked : course.events ++ b.events = Course.events (course.mark b) :=
    (Cut.all_mark rfl _ _ _).symm
  rw [marked]
  exact .outside _ ⟨draft, messages.trans (Cut.settled_mark ..).symm, text⟩

/-- A message is opened with nothing in it, after all texts before it. -/
theorem ends_openMessage_told (host : Host) (role : Option Role) (as : List Attribute) (s : Span)
    {p : Performance} (htags : c.tags = (false, false)) (told : c.Told p) :
    Ends (openMessage host role as s) c
      (fun _ d => d.tags = (true, false) ∧ ∃ role' toolId p' p'',
        (Perform.act (roleOf host role as s)).run p = (.ok role', p') ∧
        (Perform.act (toolIdOf host as)).run p' = (.ok toolId, p'') ∧
        d.Told { p'' with events := p''.events ++ [.openMessage role' toolId] })
      (fun _ _ => True) := by
  obtain ⟨course, hevents, outside⟩ := told.tells.exists_outside htags
  have flushed : p.world = (Change.flush.apply c).world ∧
      p.response = (Change.flush.apply c).response ∧
      (Change.flush.apply c).messages = course.messages ∧ (Change.flush.apply c).text = "" := by
    obtain ⟨world, response, text⟩ := beside_flush c
    exact ⟨told.world.trans world.symm, told.response.trans response.symm, messages_flush outside,
      text⟩
  rw [openMessage, ends_bind, ends_get, outside.draft]
  simp only [Option.isSome_none, Bool.false_eq_true, if_false, ends_bind]
  change Ends (roleOf host role as s) (Change.flush.apply c) _ _
  generalize Change.flush.apply c = d at flushed ⊢
  obtain ⟨world, response, messages, text⟩ := flushed
  apply (((evaluating_worldly host).roleOf role as s).ends world).imp ?_ (fun _ _ h => h)
  rintro role' _ ⟨w, rfl, hrole⟩
  have evaluated : ({ p with world := w } : Performance).world =
      ({ d with world := w } : Compilation).world := rfl
  apply (((evaluating_worldly host).toolIdOf as).ends evaluated).imp ?_ (fun _ _ h => h)
  rintro toolId _ ⟨w', rfl, htool⟩
  split
  · trivial
  · refine ⟨rfl, role', toolId, _, _, hrole, htool, rfl, response, ?_⟩
    have opened : Body.events Cut.empty = [] := rfl
    rw [hevents, ← opened]
    exact .inMessage course role' toolId Cut.empty rfl messages text

/-- A message is closed with the parts that its texts and content tags are. -/
theorem tells_closeMessage (h : c.Tells es) (htags : c.tags = (true, false)) :
    (Change.closeMessage.apply c).tags = (false, false) ∧
      (Change.closeMessage.apply c).Tells (es ++ [.closeMessage]) := by
  cases h with
  | outside course h => simp [tags, h.draft] at htags
  | inContent course role toolId body inside draft => simp [tags, draft] at htags
  | inMessage course role toolId body draft messages text =>
    have closed : Change.closeMessage.apply c = { c with
        messages := course.messages ++ [Message.ofParts role body.parts toolId], draft := none } := by
      simp only [Change.apply, draft, messages, Draft.message, Draft.flush, Body.parts, Cut.all,
        Cut.unlessBlank]
      split <;> simp
    rw [closed]
    refine ⟨rfl, ?_⟩
    rw [List.append_assoc, List.cons_append]
    exact tells_boundary (.message role toolId body) rfl rfl text

/-- A content tag is opened after the texts of the message before it. -/
theorem ends_openContent_told (kind : ContentKind) (s : Span) (h : c.Tells es)
    (htags : c.tags = (true, false)) :
    Ends (openContent kind s) c
      (fun _ d => d.tags = (true, true) ∧ d.world = c.world ∧ d.response = c.response ∧
        d.Tells (es ++ [.openContent]))
      (fun _ _ => True) := by
  cases h with
  | outside course h => simp [tags, h.draft] at htags
  | inContent course role toolId body inside draft => simp [tags, draft] at htags
  | inMessage course role toolId body draft messages text =>
    simp only [openContent, ends_bind, ends_get, draft, Option.isSome_none, Bool.false_eq_true,
      if_false]
    split
    · trivial
    · refine ⟨rfl, rfl, rfl, ?_⟩
      rw [List.append_assoc, List.cons_append]
      refine .inContent course role toolId body [] ?_ messages text
      simp only [Draft.openContent, Draft.flush, Body.parts, Cut.all, Cut.unlessBlank]
      split <;> simp

/-- A content tag is closed with the part that the texts inside it are. -/
theorem tells_closeContent (kind : ContentKind) (h : c.Tells es) (htags : c.tags = (true, true)) :
    ((Change.closeContent kind).apply c).tags = (true, false) ∧
      ((Change.closeContent kind).apply c).Tells (es ++ [.closeContent kind]) := by
  cases h with
  | outside course h => simp [tags, h.draft] at htags
  | inMessage course role toolId body draft => simp [tags, draft] at htags
  | inContent course role toolId body inside draft messages text =>
    have closed : (Change.closeContent kind).apply c = { c with
        draft := some ⟨role, toolId, body.parts ++ [kind.part inside], "", none⟩ } := by
      cases kind <;> simp [Change.apply, draft, Draft.closeContent, ContentKind.part]
    have marked : body.events ++ .openContent :: Event.ofTexts inside ++ [.closeContent kind] =
        Body.events (body.mark (kind, inside)) := by
      rw [Body.events, Cut.all_mark rfl]
      exact List.append_assoc ..
    rw [closed]
    refine ⟨rfl, ?_⟩
    rw [List.append_assoc, List.cons_append, marked]
    refine .inMessage course role toolId _ ?_ messages text
    rw [Cut.settled_mark]
    rfl

/-! ## Walks -/

namespace Enacts

theorem leave (s : Span) (flow : Flow) :
    Enacts n (Compile.leave s flow) (Perform.leave s flow) := by
  cases flow with
  | done => exact enacts_closeFrame.bind fun _ => .pure _
  | suspended rest => exact .pure _

theorem inFrame {body : Compile Flow} {q : Perform Flow} (h : Enacts n body q) (s : Span) :
    Enacts n (Compile.inFrame s body) (Perform.inFrame s q) :=
  (enacts_changeScope _).bind fun _ => h.bind fun flow => leave s flow

theorem proceed {next : Compile Flow} {q : Perform Flow} (h : Enacts n next q)
    (rest : List Node) (flow : Flow) :
    Enacts n (Compile.proceed rest next flow) (Perform.proceed rest q flow) := by
  cases flow with
  | done => exact h
  | suspended left => exact .pure _

theorem forItems {body : Compile Flow} {q : Perform Flow} (h : Enacts n body q)
    (context : String) (index : Option String) (s : Span) (vs : List Value) (i : Nat) :
    Enacts n (Compile.forItems context index s body i vs)
      (Perform.forItems context index s q i vs) := by
  induction vs generalizing i with
  | nil => exact .pure _
  | cons v rest ih =>
    apply (enacts_changeScope _).bind
    intro _
    apply h.bind
    intro flow
    cases flow with
    | suspended left => exact .failing _ _
    | done => exact enacts_closeFrame.bind fun _ => ih (i + 1)

theorem message {children : Compile Flow} {q : Perform Flow} (outside : n.inMessage = false)
    (h : Enacts { n with inMessage := true } children q) (host : Host) (role : Option Role)
    (as : List Attribute) (s : Span) :
    Enacts n
      (do
        openMessage host role as s
        let _ ← children
        closeMessage
        return .done : Compile Flow)
      (do
        let role ← Perform.act (roleOf host role as s)
        let toolId ← Perform.act (toolIdOf host as)
        Perform.log (.openMessage role toolId)
        let _ ← q
        Perform.log .closeMessage
        return .done : Perform Flow) := by
  intro c p hc told
  have shut : c.tags = (false, false) := tags_outside hc outside
  have inContent : n.inContent = false := (Prod.mk.inj (hc.symm.trans shut)).2
  rw [EnactsFrom, ends_bind]
  apply (ends_openMessage_told host role as s shut told).imp ?_ (fun _ _ h => h)
  rintro _ d ⟨dtags, role', toolId, p', p'', hrole, htool, hd⟩
  have standing : Standing { n with inMessage := true } d := by
    rw [Standing, dtags, inContent]
  rw [ends_bind]
  apply (h d _ standing hd).imp ?_ (fun _ _ h => h)
  rintro flow e ⟨etags, t, hq, he⟩
  obtain ⟨closed, tells⟩ := tells_closeMessage he.tells (etags.trans dtags)
  have same : (Change.closeMessage.apply e).world = e.world ∧
      (Change.closeMessage.apply e).response = e.response := by
    cases hdraft : e.draft <;> simp [Change.apply, hdraft]
  refine ⟨closed.trans shut.symm, { t with events := t.events ++ [.closeMessage] }, ?_,
    he.world.trans same.1.symm, he.response.trans same.2.symm, tells⟩
  rw [run_bind_ok hrole, run_bind_ok htool, Perform.log, run_bind, run_modify]
  dsimp only
  rw [run_bind_ok hq]
  rfl

theorem content {children : Compile Flow} {q : Perform Flow} (within : n.inMessage = true)
    (outside : n.inContent = false) (h : Enacts { n with inContent := true } children q)
    (kind : ContentKind) (s : Span) :
    Enacts n
      (do
        openContent kind s
        let _ ← children
        closeContent kind
        return .done : Compile Flow)
      (do
        Perform.log .openContent
        let _ ← q
        Perform.log (.closeContent kind)
        return .done : Perform Flow) := by
  intro c p hc told
  have opened : c.tags = (true, false) := by rw [hc, within, outside]
  rw [EnactsFrom, ends_bind]
  apply (ends_openContent_told kind s told.tells opened).imp ?_ (fun _ _ h => h)
  rintro _ d ⟨dtags, world, response, tells⟩
  have standing : Standing { n with inContent := true } d := by
    rw [Standing, dtags, within]
  have hd : d.Told { p with events := p.events ++ [.openContent] } :=
    ⟨told.world.trans world.symm, told.response.trans response.symm, tells⟩
  rw [ends_bind]
  apply (h d _ standing hd).imp ?_ (fun _ _ h => h)
  rintro flow e ⟨etags, t, hq, he⟩
  obtain ⟨closed, tells⟩ := tells_closeContent kind he.tells (etags.trans dtags)
  refine ⟨closed.trans opened.symm, { t with events := t.events ++ [.closeContent kind] }, ?_,
    he.world, he.response, tells⟩
  rw [Perform.log, run_bind, run_modify]
  dsimp only
  rw [run_bind_ok hq]
  rfl

theorem step {children : Compile Flow} {q : Perform Flow} (outside : n.inMessage = false)
    (h : Enacts { n with inStep := true } children q) (host : Host) (as : List Attribute)
    (s : Span) :
    Enacts n
      (do
        let (name, config) ← stepAttributes host none [] as
        match ← children with
        | .suspended _ => throw (Cause.stepInStep.on s)
        | .done =>
          flush
          modify fun c => { c with stepConfig := some config }
          return .suspended [.response name s] : Compile Flow)
      (do
        let (name, _) ← Perform.act (stepAttributes host none [] as)
        match ← q with
        | .suspended _ => throw (Cause.stepInStep.on s)
        | .done =>
          Perform.log .step
          return .suspended [.response name s] : Perform Flow) := by
  apply ((evaluating_worldly host).stepAttributes as none []).enacts.bind
  rintro ⟨name, config⟩
  have inside : Enacts n children q := h
  apply inside.bind
  intro flow
  cases flow with
  | suspended left => exact .failing _ _
  | done =>
    intro c p hc told
    have shut : c.tags = (false, false) := tags_outside hc outside
    obtain ⟨course, hevents, houtside⟩ := told.tells.exists_outside shut
    have flushed := messages_flush houtside
    obtain ⟨world, response, text⟩ := beside_flush c
    have kept : (Change.flush.apply c).draft = c.draft := by simp only [Change.apply]
    change EnactsFrom c p
      (do
        modify Change.flush.apply
        modify fun c => { c with stepConfig := some config }
        return _ : Compile Flow) _
    simp only [EnactsFrom, ends_bind, ends_modify, ends_pure]
    generalize Change.flush.apply c = d at flushed world response text kept ⊢
    refine ⟨tags_congr kept, { p with events := p.events ++ [.step] }, rfl,
      told.world.trans world.symm, told.response.trans response.symm, ?_⟩
    rw [hevents]
    exact tells_boundary .step (kept.trans houtside.draft)
      (flushed.trans (List.append_nil _).symm) text

end Enacts

mutual

theorem enacts_walk (host : Host) : ∀ (a : Node) {n : Nesting}, a.Placed n →
    Enacts n (walk host a) (Perform.walk host a)
  | .text data _, n, _ => by
    rw [walk, Perform.walk]
    exact (enacts_emit data).bind fun _ => .pure _
  | .comment .., n, _ => by
    rw [walk, Perform.walk]
    exact .pure _
  | .mustache e _, n, _ => by
    rw [walk, Perform.walk]
    apply (enacts_evaluate host e).bind
    intro v
    split
    · exact (enacts_emit _).bind fun _ => .pure _
    · exact .pure _
  | .ifBlock e consequent alternate s, n, h => by
    rw [walk, Perform.walk]
    apply (enacts_evaluate host e).bind
    intro v
    split
    · exact (enacts_walkAll host consequent h.1).inFrame s
    · exact enacts_walkOption host s alternate h.2
  | .eachBlock e context index body alternate s, n, h => by
    rw [walk, Perform.walk]
    apply (enacts_evaluate host e).bind
    intro v
    have walk_body : Enacts n (walkAll host body) (Perform.walkAll host body) :=
      @enacts_walkAll host body { n with inEach := true } h.1
    have walk_alternate : Enacts n (walkOption host s alternate)
        (Perform.walkOption host s alternate) :=
      @enacts_walkOption host s alternate { n with inEach := true } h.2
    dsimp only
    split
    · apply walk_alternate.bind
      intro flow
      cases flow with
      | suspended left => exact .failing _ _
      | done => exact .pure _
    · exact (walk_body.forItems context index s _ 0).bind fun _ => .pure _
  | .message role as children s, n, h => by
    obtain ⟨inside, hinside, hchildren⟩ := h
    obtain ⟨outside, rfl⟩ := enter_message.mp hinside
    rw [walk, Perform.walk]
    exact .message outside (enacts_walkAll host children hchildren) host role as s
  | .content kind as children s, n, h => by
    obtain ⟨inside, hinside, hchildren⟩ := h
    obtain ⟨within, outside, rfl⟩ := enter_content.mp hinside
    rw [walk, Perform.walk]
    exact .content within outside (enacts_walkAll host children hchildren) kind s
  | .reference .., n, _ => by
    rw [walk]
    exact .failing _ _
  | .step as children s, n, h => by
    obtain ⟨inside, hinside, hchildren⟩ := h
    obtain ⟨outside, -, -, rfl⟩ := enter_step.mp hinside
    rw [walk, Perform.walk]
    exact .step outside (enacts_walkAll host children hchildren) host as s
  | .config .., _, h | .scoped .., _, h | .response .., _, h => h.elim

theorem enacts_walkAll (host : Host) : ∀ (nodes : List Node) {n : Nesting},
    Node.AllPlaced n nodes → Enacts n (walkAll host nodes) (Perform.walkAll host nodes)
  | [], n, _ => by
    rw [walkAll, Perform.walkAll]
    exact .pure _
  | a :: rest, n, h => by
    rw [walkAll, Perform.walkAll]
    exact (enacts_walk host a h.1).bind fun flow =>
      (enacts_walkAll host rest h.2).proceed rest flow

theorem enacts_walkOption (host : Host) (s : Span) : ∀ (nodes : Option (List Node))
    {n : Nesting}, Node.OptionPlaced n nodes →
      Enacts n (walkOption host s nodes) (Perform.walkOption host s nodes)
  | none, n, _ => by
    rw [walkOption, Perform.walkOption]
    exact .pure _
  | some nodes, n, h => by
    rw [walkOption, Perform.walkOption]
    exact (enacts_walkAll host nodes h).inFrame s

end

/-! ## Walks over what is left -/

/-- Where nothing has happened yet, nothing has been gathered. -/
theorem Tells.fresh (h : c.Tells []) : Outside Cut.empty c := by
  generalize hes : ([] : List Event) = es at h
  cases h with
  | outside course h =>
    obtain rfl : Cut.empty = course := Course.events_inj hes
    exact h
  | inMessage course role toolId body => simp at hes
  | inContent course role toolId body inside => simp at hes

/-- The response comes before everything else. -/
theorem enactsFrom_respond (name : Option String) (place : Span) {s : Performance}
    (told : c.Told s) (start : s.events = []) :
    EnactsFrom c s (respond name place) (Perform.respond name place) := by
  have fresh : Outside Cut.empty c := Tells.fresh (start ▸ told.tells)
  rw [EnactsFrom, respond, ends_bind, ends_get]
  cases hresponse : c.response with
  | none => trivial
  | some ps =>
    have here : s.response = some ps := told.response.trans hresponse
    have answered : ({ c with
        response := none
        messages := c.messages ++ [Message.ofParts .assistant ps none] } : Compilation).Told
          { s with response := none, events := s.events ++ [.response ps] } := by
      refine ⟨told.world, rfl, ?_⟩
      have none_before : s.events = Course.events Cut.empty := start
      rw [none_before]
      exact tells_boundary (.response ps) fresh.draft (congrArg (· ++ _) fresh.messages)
        fresh.text
    cases name with
    | none =>
      refine ⟨tags_congr rfl, _, ?_, answered⟩
      rw [Perform.respond, run_bind, run_get]
      simp only [here]
      rfl
    | some name =>
      have named := congrArg (fun w : World =>
        { w with scope := w.scope.set name (.string (Part.lines ps)) }) told.world
      refine ⟨tags_congr rfl, ⟨{ s.world with
        scope := s.world.scope.set name (.string (Part.lines ps)) }, none,
          s.events ++ [Event.response ps]⟩, ?_, named, rfl, answered.tells.congr rfl rfl rfl⟩
      rw [Perform.respond, run_bind, run_get]
      simp only [here]
      rfl

/-- What is left of a template is walked as its nodes are, in the frames that are still open. -/
theorem enactsFrom_remainder (host : Host) {k : Nat} {nodes : List Node} (h : Remainder k nodes)
    {s : Performance} (shut : c.tags = (false, false)) (told : c.Told s)
    (start : s.events = []) :
    EnactsFrom c s (walkAll host nodes) (Perform.walkAll host nodes) := by
  induction h with
  | here name place hrest =>
    simp only [walkAll, walk, Perform.walkAll, Perform.walk, bind_assoc, pure_bind]
    apply (enactsFrom_respond name place told start).bind
    intro _ d t dtags hd
    exact enacts_walkAll host _ hrest d t (dtags.trans shut) hd
  | inside _ place hrest ih =>
    simp only [walkAll, walk, Perform.walkAll, Perform.walk, bind_assoc]
    apply ih.bind
    intro flow d t dtags hd
    have standing : Standing Nesting.none d := dtags.trans shut
    apply (Enacts.leave place flow d t standing hd).bind
    intro flow' e u etags he
    exact (enacts_walkAll host _ hrest).proceed _ flow' e u (etags.trans standing) he

/-- A config block before all nodes is no event. -/
theorem enactsFrom_config (host : Host) (front : Option (Config × Span)) {nodes : List Node}
    (h : Node.AllPlaced Nesting.none nodes) {s : Performance} (shut : c.tags = (false, false))
    (told : c.Told s) :
    EnactsFrom c s
      (walkAll host ((front.map fun (v, s) => Node.config v s).toList ++ nodes))
      (Perform.walkAll host ((front.map fun (v, s) => Node.config v s).toList ++ nodes)) := by
  cases front with
  | none => exact enacts_walkAll host nodes h c s shut told
  | some found =>
    have kept : Compilation.Told { c with config := c.config <|> some found.1 } s :=
      ⟨told.world, told.response, told.tells.congr rfl rfl rfl⟩
    exact enacts_walkAll host nodes h _ s ((tags_congr rfl).trans shut) kept

/-- The performance of the whole has the flow and the variables of the compilation, and its
events are those of a course whose messages are those of the compilation. -/
theorem ends_whole_told {f : Fragment} (h : f.Compilable) (host : Host) (world : World)
    (response : Option (List Part)) :
    Ends (whole host f) (Compilation.start world response)
      (fun flow d => ∃ t, (Perform.walkAll host f.children).run ⟨world, response, []⟩ =
          (.ok flow, t) ∧ t.world = d.world ∧
        ∃ course : Course, t.events = course.events ∧ d.messages = course.messages)
      (fun _ _ => True) := by
  have begun : (Compilation.start world response).Told ⟨world, response, []⟩ :=
    ⟨rfl, rfl, .outside Cut.empty ⟨rfl, rfl, rfl⟩⟩
  have walked : EnactsFrom (Compilation.start world response) ⟨world, response, []⟩
      (walkAll host f.children) (Perform.walkAll host f.children) := by
    rcases h with ⟨front, nodes, hchildren, hnodes⟩ | ⟨k, hk⟩
    · rw [hchildren]
      exact enactsFrom_config host front hnodes rfl begun
    · exact enactsFrom_remainder host hk rfl begun rfl
  rw [whole, ends_bind]
  apply walked.imp ?_ (fun _ _ h => h)
  rintro flow d ⟨shut, t, performed, told⟩
  obtain ⟨course, hevents, outside⟩ := told.tells.exists_outside shut
  exact ⟨t, performed, told.world, course, hevents, messages_flush outside⟩

end Compile

namespace Fragment

open Compile

/-- A compilation of what can be read, or of what is left of it, has the messages of the only
course that has the events of its walk: every text is in the message, or in the part of the
message, that its place in the course says. -/
theorem messages_of_events {source : String} {f : Fragment} (h : Resumed source f)
    (host : Host) (scope : Scope) (response : Option (List Part)) (calls after : List Call)
    (o : Outcome)
    (compiled : (f.compile host source scope response).run calls = (.ok o, after)) :
    ∃ (flow : Flow) (t : Performance),
      (Perform.walkAll host f.children).run ⟨⟨scope, calls⟩, response, []⟩ = (.ok flow, t) ∧
      flow = (if o.completed then .done else .suspended o.rest.children) ∧
      t.world.scope.stash = o.stash ∧ t.world.calls = after ∧
      ∃ course : Course, (∀ course' : Course, t.events = course'.events ↔ course' = course) ∧
        o.messages = course.messages := by
  rcases compile_cases host source f scope response calls with
    ⟨s, -, hcompile⟩ | ⟨-, ⟨e, d, -, hcompile⟩ | ⟨flow, d, hrun, hcompile⟩⟩
  · rw [hcompile] at compiled
    cases compiled
  · rw [hcompile] at compiled
    cases compiled
  · obtain ⟨t, performed, world, course, hevents, hmessages⟩ :=
      (ends_whole_told h.compilable host ⟨scope, calls⟩ response).of_ok hrun
    rw [hcompile] at compiled
    cases compiled
    have goes : flow = if (d.outcome f flow).completed then .done
        else .suspended (d.outcome f flow).rest.children := by
      cases flow <;> rfl
    refine ⟨flow, t, performed, goes, ?_, ?_, course, ?_, ?_⟩
    · rw [world]
      cases flow <;> rfl
    · rw [world]
    · intro course'
      constructor
      · intro h
        exact Course.events_inj (h.symm.trans hevents)
      · intro h
        rw [h, hevents]
    · cases flow <;> exact hmessages

/-- Texts in and before messages in blocks. -/
theorem messages_of_events_blocks :
    ∃ source f o after,
      source = "a\x7b\x7b#if true\x7d\x7db\x7b\x7b#each [1, 2] as x\x7d\x7d" ++
        "<user>c\x7b\x7b x \x7d\x7d<image>d</image></user>" ++
        "\x7b\x7b/each\x7d\x7d\x7b\x7b/if\x7d\x7d" ∧
      ofText source = .ok f ∧
      (f.compile (fun _ _ => .error "") source Scope.empty none).run [] = (.ok o, after) ∧
      (o.messages.map fun m => (m.role, m.content.plain)) =
        [(.system, "ab"), (.user, "c1"), (.user, "c2")] ∧
      ∃ course : Course, o.messages = course.messages := by
  generalize hsource : "a\x7b\x7b#if true\x7d\x7db\x7b\x7b#each [1, 2] as x\x7d\x7d" ++
    "<user>c\x7b\x7b x \x7d\x7d<image>d</image></user>" ++
    "\x7b\x7b/each\x7d\x7d\x7b\x7b/if\x7d\x7d" = source
  have compiles : ((ofText source).toOption.any fun f =>
      ((f.compile (fun _ _ => .error "") source Scope.empty none).run []).1.toOption.any
        fun o => decide ((o.messages.map fun m => (m.role, m.content.plain)) =
          [(.system, "ab"), (.user, "c1"), (.user, "c2")])) = true := by
    rw [← hsource]
    decide +kernel
  cases h : ofText source with
  | error e => simp [h, Except.toOption] at compiles
  | ok f =>
    rcases hrun : (f.compile (fun _ _ => .error "") source Scope.empty none).run [] with
      ⟨e | o, after⟩
    · simp [h, hrun, Except.toOption] at compiles
    · obtain ⟨_, _, _, _, _, _, course, _, hmessages⟩ :=
        messages_of_events (.read h) _ Scope.empty none [] after o hrun
      have texts := by simpa [h, hrun, Except.toOption] using compiles
      exact ⟨source, f, o, after, rfl, h, hrun, texts, course, hmessages⟩

end Fragment

end PromptTemplate
