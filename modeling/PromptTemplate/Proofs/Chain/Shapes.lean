import PromptTemplate.Proofs.Chain.Protocol
import PromptTemplate.Proofs.Compilation.Lawful
import PromptTemplate.Proofs.Compilation.Telling

/-!
# The shapes of messages

Every message of a conversation comes from a text outside of messages, from a message tag or
from a response. The events of the calls tell from which, and what it comes from has a shape
that depends on the role, which may be known only when the tag is opened.
-/

namespace PromptTemplate

namespace Text

/-- A text without blank characters at its two ends. -/
def Tight (s : String) : Prop :=
  (∀ c ∈ s.toList.head?, isBlank c = false) ∧ ∀ c ∈ s.toList.getLast?, isBlank c = false

theorem head?_trimStart (cs : List Char) : ∀ c ∈ (trimStart cs).head?, isBlank c = false := by
  intro c hc
  have first := List.head?_dropWhile_not isBlank cs
  rw [trimStart] at hc
  rw [hc] at first
  exact first

theorem getLast?_trimEnd (cs : List Char) : ∀ c ∈ (trimEnd cs).getLast?, isBlank c = false := by
  intro c hc
  rw [trimEnd, List.getLast?_reverse] at hc
  exact head?_trimStart cs.reverse c hc

theorem trimEnd_prefix (cs : List Char) : trimEnd cs <+: cs := by
  rw [trimEnd, ← List.reverse_suffix, List.reverse_reverse]
  exact List.dropWhile_suffix _

theorem tight_trimmed (s : String) : Tight (trimmed s) := by
  rw [Tight, trimmed, String.toList_ofList, trim]
  refine ⟨fun c hc => ?_, getLast?_trimEnd _⟩
  obtain ⟨rest, hrest⟩ := List.head?_eq_some_iff.mp hc
  obtain ⟨more, hmore⟩ := trimEnd_prefix (trimStart s.toList)
  refine head?_trimStart s.toList c ?_
  rw [← hmore, hrest]
  rfl

end Text

/-- What a template can write as a part: a text or an image, without blanks at its ends. -/
def Part.Written (p : Part) : Prop := ∃ s, (p = .text s ∨ p = .image s) ∧ Text.Tight s

theorem ContentKind.written_part (kind : ContentKind) (texts : List String) :
    (kind.part texts).Written := by
  cases kind with
  | text => exact ⟨_, .inl rfl, Text.tight_trimmed _⟩
  | image => exact ⟨_, .inr rfl, Text.tight_trimmed _⟩

namespace Cut

variable {β γ δ : Type} {run : List String → List γ} {made : β → List γ} {c : Cut β}

theorem map_all (f : γ → δ) (run : List String → List γ) (made : β → List γ) (c : Cut β) :
    (c.all run made).map f = c.all (fun texts => (run texts).map f) fun b => (made b).map f := by
  simp [all, settled, List.map_flatMap]

theorem map_unlessBlank (f : γ → δ) (make : String → γ) (texts : List String) :
    (unlessBlank make texts).map f = unlessBlank (fun s => f (make s)) texts := by
  rw [unlessBlank, unlessBlank]
  split <;> rfl

/-- What is made of runs and marks is made of one of them. -/
theorem forall_mem_all {p : γ → Prop} (hrun : ∀ texts, ∀ x ∈ run texts, p x)
    (hmade : ∀ b, ∀ x ∈ made b, p x) : ∀ x ∈ c.all run made, p x := by
  intro x hx
  rcases List.mem_append.mp hx with hx | hx
  · obtain ⟨⟨texts, b⟩, -, hx⟩ := List.mem_flatMap.mp hx
    exact (List.mem_append.mp hx).elim (hrun texts x) (hmade b x)
  · exact hrun c.last x hx

/-- What is made of a run is made of a text that is not empty and has no blanks at its ends. -/
theorem exists_of_mem_unlessBlank {make : String → γ} {texts : List String} {x : γ}
    (h : x ∈ unlessBlank make texts) : ∃ s, x = make s ∧ s ≠ "" ∧ Text.Tight s := by
  rw [unlessBlank] at h
  split at h
  · cases h
  · rename_i some_left
    refine ⟨_, List.mem_singleton.mp h, fun empty => some_left ?_, Text.tight_trimmed _⟩
    rw [empty]
    rfl

end Cut

theorem Body.written_parts (body : Body) : ∀ p ∈ body.parts, p.Written := by
  refine Cut.forall_mem_all (fun texts p hp => ?_) fun (kind, inside) p hp => ?_
  · obtain ⟨s, rfl, -, tight⟩ := Cut.exists_of_mem_unlessBlank hp
    exact ⟨s, .inl rfl, tight⟩
  · rw [List.mem_singleton.mp hp]
    exact kind.written_part inside

/-! ## Where messages come from -/

/-- What a message is made of. -/
inductive Origin where
  /-- A text outside of messages. -/
  | root (s : String)
  /-- The texts in a message tag, cut by its content tags. -/
  | tag (role : Role) (toolId : Option String) (body : Body)
  /-- The response to a step. -/
  | response (parts : List Part)

namespace Origin

def parts : Origin → List Part
  | .root s => [.text s]
  | .tag _ _ body => body.parts
  | .response ps => ps

def message : Origin → Message
  | .root s => Message.ofText .system s
  | .tag role toolId body => Message.ofParts role body.parts toolId
  | .response ps => Message.ofParts .assistant ps none

/-- Whether it was written in the template. -/
def isWritten : Origin → Bool
  | .root _ | .tag .. => true
  | .response _ => false

/-- The shape of what a message is made of. -/
structure Shaped (o : Origin) : Prop where
  system : o.message.role = .system → o.message.content = .text (Part.lines o.parts)
  others : o.message.role = .user ∨ o.message.role = .tool → o.message.content = .parts o.parts
  assistant : o.message.role = .assistant → o.message.content =
    if ∀ p ∈ o.parts, p.isText = true then .text (Part.lines o.parts) else .parts o.parts
  toolId : o.message.role = .tool → o.message.toolId.isSome = true
  written : o.isWritten = true → ∀ p ∈ o.parts, p.Written
  root : ∀ s, o = .root s → o.message = ⟨.system, .text s, none⟩ ∧ s ≠ "" ∧ Text.Tight s

/-- Messages with parts have the content that their role asks for. -/
theorem content_of_role {o : Origin} {role : Role} {toolId : Option String}
    (made : o.message = Message.ofParts role o.parts toolId) :
    (o.message.role = .user ∨ o.message.role = .tool → o.message.content = .parts o.parts) ∧
      (o.message.role = .assistant → o.message.content =
        if ∀ p ∈ o.parts, p.isText = true then .text (Part.lines o.parts) else .parts o.parts) := by
  rw [made, Message.content_ofParts]
  have all_iff : o.parts.all Part.isText = true ↔ ∀ p ∈ o.parts, p.isText = true :=
    List.all_eq_true
  constructor
  · rintro (rfl | rfl) <;> rfl
  · rintro rfl
    simp only [Role.prefersText, Bool.true_and, all_iff]

theorem shaped_root {s : String} (some_left : s ≠ "") (tight : Text.Tight s) :
    (root s).Shaped where
  system _ := by
    have line : Part.lines [.text s] = s := by simp [Part.lines, Part.text?]
    rw [parts, line]
    rfl
  others := by rintro (h | h) <;> cases h
  assistant h := by cases h
  toolId h := by cases h
  written _ p hp := ⟨s, .inl (List.mem_singleton.mp hp), tight⟩
  root := by
    rintro _ ⟨⟩
    exact ⟨rfl, some_left, tight⟩

theorem shaped_response (ps : List Part) : (response ps).Shaped where
  system h := by cases h
  others := (content_of_role rfl).1
  assistant := (content_of_role rfl).2
  toolId h := by cases h
  written h := by cases h
  root := by
    rintro _ ⟨⟩

/-- A message of the system that is a text has texts only. -/
theorem shaped_tag {role : Role} {toolId : Option String} {body : Body}
    (lawful : (Message.ofParts role body.parts toolId).Lawful) :
    (tag role toolId body).Shaped where
  system system := by
    obtain ⟨s, hs⟩ := lawful.text system
    change (Message.ofParts role body.parts toolId).content = .text (Part.lines body.parts)
    rw [Message.content_ofParts] at hs ⊢
    split at hs
    · rename_i texts
      rw [if_pos texts]
    · cases hs
  others := (content_of_role rfl).1
  assistant := (content_of_role rfl).2
  toolId := lawful.toolId
  written _ := body.written_parts
  root := by
    rintro _ ⟨⟩

end Origin

def Boundary.origins : Boundary → List Origin
  | .message role toolId body => [.tag role toolId body]
  | .step => []
  | .response ps => [.response ps]

/-- What the messages of a course are made of. -/
def Course.origins : Course → List Origin := Cut.all (Cut.unlessBlank .root) Boundary.origins

namespace Course

theorem messages_eq (course : Course) : course.messages = course.origins.map Origin.message := by
  have marks : (fun b : Boundary => b.origins.map Origin.message) = Boundary.messages := by
    funext b
    cases b <;> rfl
  rw [origins, Cut.map_all, marks]
  simp only [Cut.map_unlessBlank]
  rfl

/-- A course has the shapes that the checks of tags leave. -/
theorem shaped_of_lawful {course : Course} (h : ∀ m ∈ course.messages, m.Lawful) :
    ∀ o ∈ course.origins, o.Shaped := by
  rw [messages_eq] at h
  have lawful : ∀ o ∈ course.origins, o.message.Lawful := fun o ho =>
    h _ (List.mem_map_of_mem ho)
  have made : ∀ o ∈ course.origins, o.message.Lawful → o.Shaped := by
    refine Cut.forall_mem_all (fun texts o ho _ => ?_) fun b o ho hlawful => ?_
    · obtain ⟨s, rfl, some_left, tight⟩ := Cut.exists_of_mem_unlessBlank ho
      exact Origin.shaped_root some_left tight
    · cases b with
      | step => cases ho
      | message role toolId body =>
        cases List.mem_singleton.mp ho
        exact Origin.shaped_tag hlawful
      | response ps =>
        cases List.mem_singleton.mp ho
        exact Origin.shaped_response ps
  exact fun o ho => made o ho (lawful o ho)

end Course

/-! ## Conversations -/

namespace Chain

/-- The courses of the calls that went well, for a chain that calls lead to: each has the
events of the walk over what was left before the call. -/
inductive Conversed (host : Host) (first : Chain) : List Course → Chain → List Call → Prop where
  | start (calls : List Call) : Conversed host first [] first calls
  | failed {courses : List Course} {c next : Chain} {calls after : List Call}
    {response : Option (List Part)} {fault : ChainFault} (h : Conversed host first courses c calls)
    (hstep : (c.step host response).run calls = ((.error fault, next), after)) :
    Conversed host first courses next after
  | went {courses : List Course} {c next : Chain} {calls after : List Call}
    {response : Option (List Part)} {s : ChainStep} {course : Course} {flow : Flow}
    {t : Performance} (h : Conversed host first courses c calls)
    (hstep : (c.step host response).run calls = ((.ok s, next), after))
    (performed : (Perform.walkAll host c.rest.children).run ⟨⟨c.scope, calls⟩, response, []⟩ =
      (.ok flow, t)) (told : t.events = course.events) :
    Conversed host first (courses ++ [course]) next after

variable {host : Host} {first c next : Chain} {calls after : List Call}
  {response : Option (List Part)} {s : ChainStep}

/-- A call that goes well adds the messages of one course. -/
theorem exists_course_of_step (fits : c.Fits)
    (hstep : (c.step host response).run calls = ((.ok s, next), after)) :
    ∃ (course : Course) (flow : Flow) (t : Performance),
      (Perform.walkAll host c.rest.children).run ⟨⟨c.scope, calls⟩, response, []⟩ = (.ok flow, t) ∧
      t.events = course.events ∧ (∀ o ∈ course.origins, o.Shaped) ∧
      next.messages = c.messages ++ course.origins.map Origin.message ∧
      s.conversation.messages = next.messages := by
  rcases step_cases host c response calls with ⟨fault, -, went⟩ | ⟨place, -, went⟩ |
    ⟨-, -, ⟨e, d, -, went⟩ | ⟨flow, d, hrun, went⟩⟩ <;> rw [went] at hstep
  · cases hstep
  · cases hstep
  · cases hstep
  · obtain ⟨t, performed, -, course, told, messages⟩ :=
      (Compile.ends_whole_told fits.compilable host ⟨c.scope, calls⟩ response).of_ok hrun
    have lawful := (Compile.ends_whole_lawful host c.rest ⟨c.scope, calls⟩ response).of_ok hrun
    cases hstep
    refine ⟨course, flow, t, performed, told, Course.shaped_of_lawful ?_, ?_, rfl⟩
    · rw [← messages]
      exact lawful.messages
    · rw [← Course.messages_eq, ← messages]
      cases flow <;> rfl

/-- The messages of a chain are made of what its courses tell, in order. -/
theorem exists_conversed (fits : first.Fits) (nothing : first.messages = [])
    (hc : Reaches host first c calls) :
    ∃ courses : List Course, Conversed host first courses c calls ∧
      c.messages = (courses.flatMap Course.origins).map Origin.message ∧
      ∀ o ∈ courses.flatMap Course.origins, o.Shaped := by
  induction hc with
  | start calls => exact ⟨[], .start calls, nothing, List.forall_mem_nil _⟩
  | @call c calls hc response ih =>
    obtain ⟨courses, conversed, messages, shaped⟩ := ih
    have fits := fits_of_reaches fits hc
    have stepped := fits_step fits host response calls
    rcases hstep : (c.step host response).run calls with ⟨⟨fault | s, next⟩, after⟩
    · rw [hstep] at stepped
      obtain ⟨rfl, -⟩ := stepped
      exact ⟨courses, conversed.failed hstep, messages, shaped⟩
    · obtain ⟨course, flow, t, performed, told, hshaped, added, -⟩ :=
        exists_course_of_step fits hstep
      refine ⟨courses ++ [course], conversed.went hstep performed told, ?_, ?_⟩
      · rw [added, messages]
        simp
      · rw [List.flatMap_append, List.flatMap_singleton]
        exact List.forall_mem_append.mpr ⟨shaped, hshaped⟩

/-- Every message of a conversation has the shape that its role asks for. A message of the
system is one text, those of users and tools have parts, and one of the assistant is one text
if all its parts are texts. A message of a tool has an id. What is written in the template has
no blanks at its ends, and a text outside of messages is not empty. -/
theorem conversation_shaped {source : String} {parameters : List (String × Value)}
    (h : start source parameters = .ok first) (hc : Reaches host first c calls)
    (hstep : (c.step host response).run calls = ((.ok s, next), after)) :
    ∃ courses : List Course, Conversed host first courses next after ∧
      s.conversation.messages = (courses.flatMap Course.origins).map Origin.message ∧
      ∀ o ∈ courses.flatMap Course.origins, o.Shaped := by
  have fits := fits_start h
  obtain ⟨f, -, rfl⟩ := exists_of_start h
  obtain ⟨-, -, -, -, -, -, -, same⟩ := exists_course_of_step (fits_of_reaches fits hc) hstep
  have reached := Reaches.call hc response
  rw [hstep] at reached
  rw [same]
  exact exists_conversed fits rfl reached

/-- Texts, tags and a response, for all roles. -/
theorem conversation_shaped_roles :
    ∃ (first c next : Chain) (s : ChainStep) (calls after : List Call) (courses : List Course),
      start ("a<message role=\"assistant\"> b <image>u</image></message>" ++
        "<tool id=\"7\"> r </tool><step></step>c <user>d</user>") [] = .ok first ∧
      Reaches (fun _ _ => .error "") first c calls ∧
      (c.step (fun _ _ => .error "") (some [.image "v"])).run calls = ((.ok s, next), after) ∧
      (s.conversation.messages.map fun m => (m.role, m.content.plain, m.toolId)) =
        [(.system, "a", none), (.assistant, "b", none), (.tool, "r", some "7"),
          (.assistant, "", none), (.system, "c", none), (.user, "d", none)] ∧
      Conversed (fun _ _ => .error "") first courses next after ∧
      s.conversation.messages = (courses.flatMap Course.origins).map Origin.message ∧
      ∀ o ∈ courses.flatMap Course.origins, o.Shaped := by
  generalize hsource : "a<message role=\"assistant\"> b <image>u</image></message>" ++
    "<tool id=\"7\"> r </tool><step></step>c <user>d</user>" = source
  generalize hhost : (fun _ _ => .error "" : Host) = host
  have converses : ((start source []).toOption.any fun first =>
      let stopped := (first.step host none).run []
      ((stopped.1.2.step host (some [.image "v"])).run stopped.2).1.1.toOption.any fun s =>
        decide ((s.conversation.messages.map fun m => (m.role, m.content.plain, m.toolId)) =
          [(.system, "a", none), (.assistant, "b", none), (.tool, "r", some "7"),
            (.assistant, "", none), (.system, "c", none), (.user, "d", none)])) = true := by
    rw [← hsource, ← hhost]
    decide +kernel
  cases h : start source [] with
  | error e => simp [h, Except.toOption] at converses
  | ok first =>
    have reached : Reaches host first _ _ := .call (.start []) none
    rcases hstep : (((first.step host none).run []).1.2.step host (some [.image "v"])).run
      ((first.step host none).run []).2 with ⟨⟨fault | s, next⟩, after⟩
    · simp [h, hstep, Except.toOption] at converses
    · obtain ⟨courses, conversed, messages, shaped⟩ := conversation_shaped h reached hstep
      have texts := by simpa [h, hstep, Except.toOption] using converses
      exact ⟨first, _, next, s, _, after, courses, rfl, reached, hstep, texts, conversed, messages,
        shaped⟩

end Chain

end PromptTemplate
