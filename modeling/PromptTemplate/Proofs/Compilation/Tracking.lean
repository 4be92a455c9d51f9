import PromptTemplate.Proofs.Compilation.Uniform
import PromptTemplate.Proofs.Compilation.Remainder

/-!
# Stopped walks and direct walks

A direct walk comes to the same as a walk up to the step at which that one stops, and goes
on there as a direct walk over what is left. So does a direct walk over what is left, with
the response that the step waits for.
-/

namespace PromptTemplate

open Compile Compilation Template

/-- How a direct walk goes on after a walk. -/
def Flow.resumed (host : Host) : Flow → Direct Unit
  | .done => return ()
  | .suspended rest => Direct.walkAll host rest

/-- A direct walk has come to the same as a walk, with some responses left. -/
def Tracks (host : Host) (before : List Message) (q : Direct Unit) (s : Dialogue)
    (left : List (List Part)) (flow : Flow) (c : Compilation) : Prop :=
  ∃ d, Alike before c d ∧ q.run s = (flow.resumed host).run ⟨d, left⟩

/-- A direct walk fails as a walk does, with some responses left. -/
def Breaks (q : Direct Unit) (s : Dialogue) (left : List (List Part)) (e : Error) : Prop :=
  ∃ d, q.run s = (.error (.failed e), ⟨d, left⟩)

/-- What is performed does the same in a direct walk. -/
theorem Compile.Uniform.perform {α : Type} {p : Compile α} (hp : Uniform p)
    {before : List Message} {c d : Compilation} (h : Alike before c d)
    (left : List (List Part)) :
    Ends p c
      (fun a c' => ∃ d', Alike before c' d' ∧
        (Direct.perform p).run ⟨d, left⟩ = (.ok a, ⟨d', left⟩))
      (fun e _ => ∃ d', (Direct.perform p).run ⟨d, left⟩ = (.error (.failed e), ⟨d', left⟩)) := by
  obtain ⟨hresult, halike⟩ := hp before c d h
  rw [Ends]
  rw [Direct.run_perform]
  rcases hc : p.run c with ⟨r, c'⟩
  rcases hd : p.run d with ⟨r', d'⟩
  rw [hc, hd] at hresult halike
  cases hresult
  cases r with
  | ok a => exact ⟨d', halike, rfl⟩
  | error e => exact ⟨d', rfl⟩

variable {host : Host} {before : List Message} {q q' : Direct Unit} {s s' : Dialogue}
  {left : List (List Part)} {flow : Flow} {c : Compilation} {e : Error} {n : Nesting}

theorem Tracks.of_run (hrun : q.run s = q'.run s') (h : Tracks host before q' s' left flow c) :
    Tracks host before q s left flow c := by
  obtain ⟨d, hd, heq⟩ := h
  exact ⟨d, hd, hrun.trans heq⟩

theorem Breaks.of_run (hrun : q.run s = q'.run s') (h : Breaks q' s' left e) :
    Breaks q s left e := by
  obtain ⟨d, heq⟩ := h
  exact ⟨d, hrun.trans heq⟩

theorem Breaks.bind (h : Breaks q s left e) (f : Unit → Direct Unit) :
    Breaks (q >>= f) s left e := by
  obtain ⟨d, heq⟩ := h
  exact ⟨d, run_bind_error heq f⟩

/-- A walk and a direct walk that come to the same. -/
def Mirrors (host : Host) (n : Nesting) (p : Compile Flow) (q : Direct Unit) : Prop :=
  ∀ before c d, Standing n c → Alike before c d → ∀ left,
    Ends p c (Tracks host before q ⟨d, left⟩ left) (fun e _ => Breaks q ⟨d, left⟩ left e)

/-- At the end of a block its frame is closed in both walks. -/
theorem Tracks.leave (h : Tracks host before q s left flow c) (place : Span) :
    Ends (Compile.leave place flow) c
      (Tracks host before (q >>= fun _ => Direct.perform closeFrame) s left)
      (fun e _ => Breaks (q >>= fun _ => Direct.perform closeFrame) s left e) := by
  obtain ⟨d, hd, heq⟩ := h
  have next := run_bind_congr heq fun _ => Direct.perform closeFrame
  cases flow with
  | done =>
    rw [Compile.leave, ends_bind]
    refine (uniform_closeFrame.perform hd left).imp ?_ ?_
    · rintro _ c' ⟨d', hd', hrun⟩
      exact ⟨d', hd', next.trans hrun⟩
    · rintro e c' ⟨d', hrun⟩
      exact ⟨d', next.trans hrun⟩
  | suspended rest =>
    refine ⟨d, hd, next.trans ?_⟩
    simp [Flow.resumed, Direct.walkAll, Direct.walk]

/-- Both walks go on with the nodes that follow. -/
theorem Tracks.go_on {rest : List Node} (h : Tracks host before q s left flow c)
    (hrest : Mirrors host n (walkAll host rest) (Direct.walkAll host rest))
    (hc : flow = .done → Standing n c) :
    Ends (proceed rest (walkAll host rest) flow) c
      (Tracks host before (q >>= fun _ => Direct.walkAll host rest) s left)
      (fun e _ => Breaks (q >>= fun _ => Direct.walkAll host rest) s left e) := by
  obtain ⟨d, hd, heq⟩ := h
  have next := run_bind_congr heq fun _ => Direct.walkAll host rest
  cases flow with
  | done =>
    refine (hrest before c d (hc rfl) hd left).imp ?_ ?_
    · intro _ _ h
      exact h.of_run next
    · intro _ _ h
      exact h.of_run next
  | suspended nodes =>
    refine ⟨d, hd, next.trans ?_⟩
    simp [Flow.resumed, Direct.walkAll_append]

namespace Mirrors

theorem done : Mirrors host n (return .done) (return ()) :=
  fun _ _ d _ h _ => ⟨d, h, rfl⟩

theorem bind {α : Type} {p : Compile α} {f : α → Compile Flow} {g : α → Direct Unit}
    (hr : Regular p) (hu : Uniform p) (h : ∀ a, Mirrors host n (f a) (g a)) :
    Mirrors host n (p >>= f) (Direct.perform p >>= g) := by
  intro before c d hc hcd left
  rw [ends_bind]
  refine ((hr c).and (hu.perform hcd left)).imp ?_ ?_
  · rintro a c' ⟨hadvances, d', hd', hrun⟩
    have next := run_bind_ok hrun g
    refine (h a before c' d' (hadvances.balanced.standing hc) hd' left).imp ?_ ?_
    · intro _ _ h
      exact h.of_run next
    · intro _ _ h
      exact h.of_run next
  · rintro e c' ⟨-, d', hrun⟩
    exact ⟨d', run_bind_error hrun g⟩

/-- An action alone. -/
theorem act {p : Compile Unit} (hr : Regular p) (hu : Uniform p) :
    Mirrors host n (do p; return .done) (Direct.perform p) := by
  have whole : Mirrors host n (do p; return .done) (Direct.perform p >>= fun _ => return ()) :=
    bind hr hu fun _ => done
  simpa using whole

theorem inFrame {p : Compile Flow} (h : Mirrors host n p q) (place : Span) :
    Mirrors host n (Compile.inFrame place p) (Direct.inFrame q) := by
  intro before c d hc hcd left
  rw [Compile.inFrame, ends_bind]
  obtain ⟨d', hd', hrun⟩ := (uniform_changeScope (·.push)).perform hcd left
  have opened := run_bind_ok hrun fun _ => q >>= fun _ => Direct.perform closeFrame
  change Ends (p >>= Compile.leave place) _ _ _
  rw [ends_bind]
  refine (h before c.framed d' hc.framed hd' left).imp (fun flow c' hflow => ?_) ?_
  · refine (hflow.leave place).imp ?_ ?_
    · intro _ _ h
      exact h.of_run opened
    · intro _ _ h
      exact h.of_run opened
  · intro _ _ h
    exact (h.bind _).of_run opened

/-- Nodes inside a tag or an each block are walked to their end. -/
theorem finishes {p : Compile Flow} (closed : n ≠ Nesting.none) (ho : Orderly n p)
    (h : Mirrors host n p q) {d : Compilation} (hc : Standing n c) (hcd : Alike before c d)
    (left : List (List Part)) :
    Ends p c
      (fun flow c' => flow = .done ∧ Balanced c c' ∧
        ∃ d', Alike before c' d' ∧ q.run ⟨d, left⟩ = (.ok (), ⟨d', left⟩))
      (fun e _ => Breaks q ⟨d, left⟩ left e) := by
  refine ((ho c hc).and (h before c d hc hcd left)).imp ?_ (fun _ _ h => h.2)
  rintro (_ | rest) c' ⟨hfollows, d', hd', hrun⟩
  · exact ⟨rfl, hfollows, d', hd', hrun⟩
  · exact absurd hfollows.1 closed

/-- Both walks open something, walk what is inside, and close it. -/
theorem enclosed {opening closing : Compile Unit} {inside : Compile Flow}
    (hopen : Uniform opening) (hclose : Uniform closing) (closed : n ≠ Nesting.none)
    (ho : Orderly n inside) (h : Mirrors host n inside q) {d : Compilation}
    (hstanding : Ends opening c (fun _ c' => Standing n c') (fun _ _ => True))
    (hcd : Alike before c d) (left : List (List Part)) :
    Ends (do opening; let _ ← inside; closing; return Flow.done) c
      (Tracks host before (do Direct.perform opening; q; Direct.perform closing) ⟨d, left⟩ left)
      (fun e _ =>
        Breaks (do Direct.perform opening; q; Direct.perform closing) ⟨d, left⟩ left e) := by
  rw [ends_bind]
  refine (hstanding.and (hopen.perform hcd left)).imp ?_ ?_
  · rintro _ c' ⟨standing, d', hd', hrun⟩
    have opened := run_bind_ok hrun fun _ => do q; Direct.perform closing
    rw [ends_bind]
    refine (finishes closed ho h standing hd' left).imp ?_ (fun _ _ h => (h.bind _).of_run opened)
    rintro flow c'' ⟨-, -, d'', hd'', hrun'⟩
    have walked := opened.trans (run_bind_ok hrun' fun _ => Direct.perform closing)
    rw [ends_bind]
    refine (hclose.perform hd'' left).imp ?_ ?_
    · rintro _ e ⟨f, hf, hrun''⟩
      exact ⟨f, hf, walked.trans hrun''⟩
    · rintro err e ⟨f, hrun''⟩
      exact ⟨f, walked.trans hrun''⟩
  · rintro e c' ⟨-, d', hrun⟩
    exact ⟨d', run_bind_error hrun _⟩

/-- The body of an each block is walked for every item in both walks. -/
theorem forItems {p : Compile Flow} (ho : Orderly { n with inEach := true } p)
    (h : Mirrors host { n with inEach := true } p q) (context : String) (index : Option String)
    (place : Span) (vs : List Value) (i : Nat) :
    Mirrors host n (do Compile.forItems context index place p i vs; return .done)
      (Direct.forItems context index q i vs) := by
  induction vs generalizing i with
  | nil => exact fun _ _ d _ h _ => ⟨d, h, rfl⟩
  | cons v rest ih =>
    intro before c d hc hcd left
    have closed : { n with inEach := true } ≠ Nesting.none :=
      ne_none_of Nesting.inEach rfl rfl
    have standing : Standing { n with inEach := true }
        { c with world := { c.world with scope := c.world.scope.pushItem context index i v } } :=
      (tags_congr rfl).trans hc
    obtain ⟨d', hd', hrun⟩ :=
      (uniform_changeScope (·.pushItem context index i v)).perform hcd left
    have opened := run_bind_ok hrun fun _ => do
      q
      Direct.perform closeFrame
      Direct.forItems context index q (i + 1) rest
    simp only [Compile.forItems, changeScope, ends_bind, ends_modify]
    refine (finishes closed ho h standing hd' left).imp ?_ fun _ _ h => (h.bind _).of_run opened
    rintro flow c' ⟨rfl, hbalanced, d'', hd'', hrun'⟩
    have walked := opened.trans (run_bind_ok hrun' fun _ => do
      Direct.perform closeFrame
      Direct.forItems context index q (i + 1) rest)
    have kept : Ends closeFrame c' (fun _ e => Standing n e) (fun _ _ => True) :=
      (tags_congr rfl).trans (hbalanced.tags.trans standing)
    simp only [ends_bind]
    refine (kept.and (uniform_closeFrame.perform hd'' left)).imp ?_ ?_
    · rintro _ e ⟨hkept, f, hf, hrun''⟩
      have left_frame := walked.trans (run_bind_ok hrun'' _)
      have more := ih (i + 1) before e f hkept hf left
      rw [ends_bind] at more
      refine more.imp (fun _ _ hdone => ?_) (fun _ _ h => h.of_run left_frame)
      exact Tracks.of_run left_frame hdone
    · rintro err e ⟨-, f, hrun''⟩
      exact ⟨f, walked.trans (run_bind_error hrun'' _)⟩

theorem inMessage {children : Compile Flow} (outside : n.inMessage = false)
    (ho : Orderly { n with inMessage := true } children)
    (h : Mirrors host { n with inMessage := true } children q) (role : Option Role)
    (as : List Attribute) (place : Span) :
    Mirrors host n (do
        openMessage host role as place
        let _ ← children
        closeMessage
        return .done)
      (do
        Direct.perform (openMessage host role as place)
        q
        Direct.perform closeMessage) := by
  intro before c d hc hcd left
  have standing := opens_message host role as place outside hc
  refine enclosed (uniform_openMessage host role as place) uniform_closeMessage ?_ ho h
    (standing.imp (fun _ _ h => h.1) fun _ _ _ => trivial) hcd left
  exact ne_none_of Nesting.inMessage rfl rfl

theorem inContent {children : Compile Flow} (within : n.inMessage = true)
    (outside : n.inContent = false) (ho : Orderly { n with inContent := true } children)
    (h : Mirrors host { n with inContent := true } children q) (kind : ContentKind)
    (place : Span) :
    Mirrors host n (do
        openContent kind place
        let _ ← children
        closeContent kind
        return .done)
      (do
        Direct.perform (openContent kind place)
        q
        Direct.perform (closeContent kind)) := by
  intro before c d hc hcd left
  have standing := opens_content kind place within outside hc
  refine enclosed (uniform_openContent kind place) (uniform_closeContent kind) ?_ ho h
    (standing.imp (fun _ _ h => h.1) fun _ _ _ => trivial) hcd left
  exact ne_none_of Nesting.inContent rfl rfl

theorem inStep {children : Compile Flow} (ho : Orderly { n with inStep := true } children)
    (h : Mirrors host { n with inStep := true } children q) (as : List Attribute)
    (place : Span) :
    Mirrors host n (do
        let (name, config) ← stepAttributes host none [] as
        match ← children with
        | .suspended _ => throw (Cause.stepInStep.on place)
        | .done =>
          flush
          modify fun c => { c with stepConfig := some config }
          return .suspended [.response name place])
      (do
        let (name, _) ← Direct.perform (stepAttributes host none [] as)
        q
        Direct.perform flush
        Direct.answer name) := by
  refine .bind ((evaluating_regular host).stepAttributes as none [])
    ((evaluating_uniform host).stepAttributes as none []) ?_
  rintro ⟨name, config⟩ before c d hc hcd left
  have closed : { n with inStep := true } ≠ Nesting.none :=
    ne_none_of Nesting.inStep rfl rfl
  rw [ends_bind]
  refine (finishes closed ho h hc hcd left).imp ?_ (fun _ _ h => h.bind _)
  rintro flow c' ⟨rfl, -, d', hd', hrun⟩
  have walked := run_bind_ok hrun fun _ => do Direct.perform flush; Direct.answer name
  simp only [ends_bind]
  refine (uniform_flush.perform hd' left).imp ?_ ?_
  · rintro _ e ⟨f, hf, hrun'⟩
    have flushed := walked.trans (run_bind_ok hrun' fun _ => Direct.answer name)
    refine ⟨f, ⟨hf.scope, hf.messages, hf.text, hf.draft⟩, flushed.trans ?_⟩
    simp [Flow.resumed, Direct.walkAll, Direct.walk]
  · rintro err e ⟨f, hrun'⟩
    exact ⟨f, walked.trans (run_bind_error hrun' _)⟩

end Mirrors

mutual

theorem mirrors_walk (host : Host) : ∀ (a : Node) {n : Nesting}, a.Placed n →
    Mirrors host n (walk host a) (Direct.walk host a)
  | .text data _, n, _ => by
    rw [walk, Direct.walk]
    exact .act (regular_emit data) (uniform_emit data)
  | .config .., _, h => False.elim h
  | .comment .., n, _ => by
    rw [walk, Direct.walk]
    exact .done
  | .mustache e s, n, _ => by
    have action : walk host (.mustache e s) = do
        (do
          let v ← evaluate host e
          if !e.isAssignment then emit v.output)
        return .done := by
      rw [walk]
      cases e.isAssignment <;> simp
    rw [action, Direct.walk]
    refine .act (.bind (regular_evaluate host e) fun v => ?_)
      (.bind (uniform_evaluate host e) fun v => ?_)
    · exact .ite (regular_emit _) (.pure _)
    · exact .ite (uniform_emit _) (.pure _)
  | .ifBlock e consequent alternate s, n, h => by
    rw [walk, Direct.walk]
    refine .bind (regular_evaluate host e) (uniform_evaluate host e) fun v => ?_
    split
    · exact .inFrame (mirrors_walkAll host consequent h.1) s
    · exact mirrors_walkOption host s alternate h.2
  | .eachBlock e context index body alternate s, n, h => by
    rw [walk, Direct.walk]
    refine .bind (regular_evaluate host e) (uniform_evaluate host e) fun v => ?_
    dsimp only
    split
    · intro before c d hc hcd left
      have closed : { n with inEach := true } ≠ Nesting.none :=
        ne_none_of Nesting.inEach rfl rfl
      rw [ends_bind]
      refine (Mirrors.finishes closed (orderly_walkOption host s alternate h.2)
        (mirrors_walkOption host s alternate h.2) hc hcd left).imp ?_ (fun _ _ h => h)
      rintro flow c' ⟨rfl, -, d', hd', hrun⟩
      exact ⟨d', hd', hrun⟩
    · exact .forItems (orderly_walkAll host body h.1) (mirrors_walkAll host body h.1) context index
        s _ 0
  | .message role as children s, n, h => by
    obtain ⟨inside, hinside, hchildren⟩ := h
    obtain ⟨outside, rfl⟩ := enter_message.mp hinside
    rw [walk, Direct.walk]
    exact .inMessage outside (orderly_walkAll host children hchildren)
      (mirrors_walkAll host children hchildren) role as s
  | .content kind as children s, n, h => by
    obtain ⟨inside, hinside, hchildren⟩ := h
    obtain ⟨within, outside, rfl⟩ := enter_content.mp hinside
    rw [walk, Direct.walk]
    exact .inContent within outside (orderly_walkAll host children hchildren)
      (mirrors_walkAll host children hchildren) kind s
  | .reference as s, n, _ => by
    rw [walk, Direct.walk]
    intro _ _ d _ _ _
    exact ⟨d, rfl⟩
  | .step as children s, n, h => by
    obtain ⟨inside, hinside, hchildren⟩ := h
    obtain ⟨-, -, -, rfl⟩ := enter_step.mp hinside
    rw [walk, Direct.walk]
    exact .inStep (orderly_walkAll host children hchildren)
      (mirrors_walkAll host children hchildren) as s
  | .scoped .., _, h => False.elim h
  | .response .., _, h => False.elim h

theorem mirrors_walkAll (host : Host) : ∀ (nodes : List Node) {n : Nesting},
    Node.AllPlaced n nodes → Mirrors host n (walkAll host nodes) (Direct.walkAll host nodes)
  | [], n, _ => by
    rw [walkAll, Direct.walkAll]
    exact .done
  | a :: rest, n, h => by
    intro before c d hc hcd left
    rw [walkAll, Direct.walkAll, ends_bind]
    refine ((orderly_walk host a h.1 c hc).and
      (mirrors_walk host a h.1 before c d hc hcd left)).imp ?_ ?_
    · rintro flow c' ⟨hfollows, htracks⟩
      refine htracks.go_on (mirrors_walkAll host rest h.2) ?_
      rintro rfl
      exact hfollows.standing hc
    · intro e c' he
      exact he.2.bind _

theorem mirrors_walkOption (host : Host) (s : Span) : ∀ (nodes : Option (List Node)) {n : Nesting},
    Node.OptionPlaced n nodes →
    Mirrors host n (walkOption host s nodes) (Direct.walkOption host nodes)
  | none, n, _ => by
    rw [walkOption, Direct.walkOption]
    exact .done
  | some nodes, n, h => by
    rw [walkOption, Direct.walkOption]
    exact .inFrame (mirrors_walkAll host nodes h) s

end

/-- Nodes that may follow a config block may stand alone, too. -/
theorem mirrors_config (host : Host) (front : Option (Config × Span)) {nodes : List Node}
    (h : Node.AllPlaced Nesting.none nodes) :
    Mirrors host Nesting.none
      (walkAll host ((front.map fun (v, s) => Node.config v s).toList ++ nodes))
      (Direct.walkAll host ((front.map fun (v, s) => Node.config v s).toList ++ nodes)) := by
  cases front with
  | none => exact mirrors_walkAll host nodes h
  | some found =>
    obtain ⟨v, s⟩ := found
    intro before c d hc hcd left
    have kept : Uniform (modify fun c => { c with config := c.config <|> some v }) :=
      .modify fun h => ⟨h.scope, h.messages, h.text, h.draft⟩
    obtain ⟨d', hd', hrun⟩ := kept.perform hcd left
    have next := run_bind_ok hrun fun _ => Direct.walkAll host nodes
    simp only [Option.map_some, Option.toList_some, List.cons_append, List.nil_append, walkAll,
      walk, Direct.walkAll, Direct.walk, ends_bind, ends_modify]
    have standing : Standing Nesting.none { c with config := c.config <|> some v } :=
      (tags_congr rfl).trans hc
    refine (mirrors_walkAll host nodes h before _ d' standing hd' left).imp ?_ ?_
    · intro _ _ h
      exact Tracks.of_run next h
    · intro _ _ h
      exact Breaks.of_run next h

/-! ## Resumed walks -/

/-- A response is put into both conversations. -/
theorem ends_respond_alike (name : Option String) (place : Span) {ps : List Part}
    (hresponse : c.response = some ps) {d : Compilation} (hcd : Alike before c d)
    (left : List (List Part)) :
    Ends (respond name place) c
      (fun _ c' => ∃ d', Alike before c' d' ∧
        (Direct.answer name).run ⟨d, ps :: left⟩ = (.ok (), ⟨d', left⟩))
      (fun e _ => Breaks (Direct.answer name) ⟨d, ps :: left⟩ left e) := by
  have said : (respond name place).run c =
      (Direct.say ps name).run { c with response := none } := by
    simp only [respond, run_bind, run_get, hresponse, run_modify]
    cases name <;> rfl
  have alike : Alike before { c with response := none } d := ⟨hcd.1, hcd.2, hcd.3, hcd.4⟩
  have := (uniform_say ps name).perform alike left
  rw [Ends] at this ⊢
  rw [said]
  exact this

/-- What is left is walked with the response that it waits for. -/
theorem tracks_resume {k : Nat} {nodes : List Node} (h : Remainder k nodes) {ps : List Part}
    {b c d : Compilation} (hc : Deeper k b c) (hb : Standing Nesting.none b)
    (hresponse : c.response = some ps) (hcd : Alike before c d) (left : List (List Part)) :
    Ends (walkAll host nodes) c
      (Tracks host before (Direct.walkAll host nodes) ⟨d, ps :: left⟩ left)
      (fun e _ => Breaks (Direct.walkAll host nodes) ⟨d, ps :: left⟩ left e) := by
  induction h generalizing b with
  | @here name place rest hrest =>
    simp only [walkAll, walk, Direct.walkAll, Direct.walk, ends_bind]
    refine ((ends_respond name place hresponse).and
      (ends_respond_alike name place hresponse hcd left)).imp ?_ (fun _ _ h => h.2.bind _)
    rintro _ c' ⟨hbalanced, d', hd', hrun⟩
    have answered := run_bind_ok hrun fun _ => Direct.walkAll host rest
    have standing : Standing Nesting.none c' := hbalanced.tags.trans (hc.tags.trans hb)
    refine (mirrors_walkAll host rest hrest before c' d' standing hd' left).imp ?_ ?_
    · intro _ _ h
      exact Tracks.of_run answered h
    · intro _ _ h
      exact Breaks.of_run answered h
  | @inside k children hchildren place rest hrest ih =>
    simp only [walkAll, walk, Direct.walkAll, Direct.walk, ends_bind]
    have present : c.response.isSome = true := by simp [hresponse]
    refine ((ends_resume host hchildren hc.framed hb.framed present).and
      (ih hc.framed hb.framed)).imp ?_ (fun _ _ h => (h.2.bind _).bind _)
    rintro flow c' ⟨hfollows, htracks⟩
    refine ((hfollows.leave place).and (htracks.leave place)).imp ?_ (fun _ _ h => h.2.bind _)
    rintro flow' e ⟨hfollows', htracks'⟩
    refine htracks'.go_on (mirrors_walkAll host rest hrest) ?_
    rintro rfl
    exact hfollows'.standing hb

end PromptTemplate
