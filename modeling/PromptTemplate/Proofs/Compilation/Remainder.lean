import PromptTemplate.Proofs.Compilation.Actions
import PromptTemplate.Proofs.Template.Nesting

/-!
# What a compilation leaves

What is left when a walk stops at a step begins with the place of the response, inside
one node for every frame that is still open. A walk over nodes as they are written, and a
walk over what another one has left, closes exactly the frames that it should, and stops
nowhere but at a step.
-/

namespace PromptTemplate

open Template

/-- What is left of a template, with the number of frames that are open in it. -/
inductive Remainder : Nat → List Node → Prop where
  | here (name : Option String) (s : Span) {rest : List Node}
    (h : Node.AllPlaced Nesting.none rest) : Remainder 0 (.response name s :: rest)
  | inside {k : Nat} {children : List Node} (hc : Remainder k children) (s : Span)
    {rest : List Node} (h : Node.AllPlaced Nesting.none rest) :
    Remainder (k + 1) (.scoped children s :: rest)

theorem Remainder.append {k : Nat} {left rest : List Node} (h : Remainder k left)
    (hrest : Node.AllPlaced Nesting.none rest) : Remainder k (left ++ rest) := by
  cases h with
  | here name s h => exact .here name s (allPlaced_append h hrest)
  | inside hc s h => exact .inside hc s (allPlaced_append h hrest)

theorem Scope.depth_pushItem (s : Scope) (context : String) (index : Option String) (i : Nat)
    (v : Value) : (s.pushItem context index i v).depth = s.depth + 1 := by
  cases index <;> rfl

theorem Scope.depth_pop {s : Scope} (h : 2 ≤ s.depth) : s.pop.depth + 1 = s.depth := by
  rw [pop]
  split
  · simp [depth, frames, *] at h
  · simp [depth, frames, *]

theorem Scope.outer_isEmpty {s : Scope} (h : 2 ≤ s.depth) : s.outer.isEmpty = false := by
  cases ho : s.outer with
  | nil => simp [depth, frames, ho] at h
  | cons f rest => rfl

namespace Compilation

def depth (c : Compilation) : Nat := c.world.scope.depth

/-- The tags that are open are those around a place. -/
def Standing (n : Nesting) (c : Compilation) : Prop := c.tags = (n.inMessage, n.inContent)

/-- A run that has closed the frames and tags that it has opened, and no others. -/
structure Balanced (c d : Compilation) : Prop where
  depth : d.depth = c.depth
  refusedPops : d.refusedPops = c.refusedPops
  tags : d.tags = c.tags

instance : IsPreorder Compilation Balanced where
  refl _ := ⟨rfl, rfl, rfl⟩
  trans _ _ _ h k :=
    ⟨k.depth.trans h.depth, k.refusedPops.trans h.refusedPops, k.tags.trans h.tags⟩

/-- With the frame of a block open. -/
def framed (c : Compilation) : Compilation :=
  { c with world := { c.world with scope := c.world.scope.push } }

theorem depth_framed (c : Compilation) : c.framed.depth = c.depth + 1 := rfl

theorem Standing.framed {n : Nesting} {c : Compilation} (h : Standing n c) :
    Standing n c.framed := (tags_congr rfl).trans h

/-- The second of two compilations has more frames open than the first. -/
structure Deeper (k : Nat) (b c : Compilation) : Prop where
  depth : c.depth = b.depth + k
  refusedPops : c.refusedPops = b.refusedPops
  tags : c.tags = b.tags

theorem Deeper.framed {k : Nat} {b c : Compilation} (h : Deeper (k + 1) b c) :
    Deeper k b.framed c := by
  refine ⟨?_, h.refusedPops, h.tags.trans (tags_congr rfl)⟩
  rw [h.depth, depth_framed]
  omega

theorem Advances.balanced {c d : Compilation} (h : Advances c d) : Balanced c d :=
  ⟨h.writes.depth_eq, h.refusedPops, h.tags⟩

theorem Balanced.standing {n : Nesting} {c d : Compilation} (h : Balanced c d)
    (hc : Standing n c) : Standing n d := h.tags.trans hc

/-- A run that has stopped at a step, with some nodes left: it had opened the frames that
are open in them, and no tags. -/
structure Stopped (c d : Compilation) (rest : List Node) : Prop where
  left : ∃ k, Remainder k rest ∧ d.depth = c.depth + k
  refusedPops : d.refusedPops = c.refusedPops
  draft : d.draft = none
  text : d.text = ""

end Compilation

namespace Compile

open Compilation

/-- What a walk over nodes that stand somewhere has come to. -/
def Follows (n : Nesting) (c : Compilation) : Flow → Compilation → Prop
  | .done, d => Balanced c d
  | .suspended rest, d => n = Nesting.none ∧ Stopped c d rest

/-- How a compilation fails: no frame was closed that must stay open. -/
def Fails (c : Compilation) (e : Error) (d : Compilation) : Prop :=
  d.refusedPops = c.refusedPops ∧ e.OfCompilation

theorem Follows.after {n : Nesting} {c d e : Compilation} {flow : Flow} (h : Balanced c d)
    (hd : Follows n d flow e) : Follows n c flow e := by
  cases flow with
  | done => exact trans_of Balanced h hd
  | suspended rest =>
    obtain ⟨hn, ⟨k, hk, hdepth⟩, hpops, hdraft, htext⟩ := hd
    exact ⟨hn, ⟨k, hk, h.depth ▸ hdepth⟩, hpops.trans h.refusedPops, hdraft, htext⟩

theorem Fails.after {c d f : Compilation} {e : Error} (h : Balanced c d) (hd : Fails d e f) :
    Fails c e f := ⟨hd.1.trans h.refusedPops, hd.2⟩

/-- A walk that behaves as walks over nodes that stand somewhere do. -/
def Orderly (n : Nesting) (p : Compile Flow) : Prop :=
  ∀ c, Standing n c → Ends p c (Follows n c) (Fails c)

namespace Orderly

variable {n : Nesting}

theorem done : Orderly n (return .done) := fun c _ => refl_of Balanced c

/-- A walk goes on after something balanced. -/
theorem after {p : Compile Flow} (hp : Orderly n p) {c d : Compilation} (h : Balanced c d)
    (hc : Standing n c) : Ends p d (Follows n c) (Fails c) :=
  (hp d (h.standing hc)).imp (fun _ _ hf => hf.after h) (fun _ _ hf => hf.after h)

theorem bind_regular {α : Type} {p : Compile α} {f : α → Compile Flow} (hp : Regular p)
    (hf : ∀ a, Orderly n (f a)) : Orderly n (p >>= f) := by
  intro c hc
  rw [ends_bind]
  refine (hp c).imp (fun a d hd => (hf a).after hd.balanced hc) ?_
  rintro e d ⟨hd, he⟩
  exact ⟨hd.refusedPops, he⟩

end Orderly

/-- A walk goes on with the nodes that follow, or leaves them. -/
theorem Follows.go_on {host : Host} {n : Nesting} {c d : Compilation} {flow : Flow}
    {rest : List Node} (hd : Follows n c flow d) (hrest : Node.AllPlaced n rest)
    (h : Orderly n (walkAll host rest)) (hc : Standing n c) :
    Ends (proceed rest (walkAll host rest) flow) d (Follows n c) (Fails c) := by
  cases flow with
  | done => exact h.after hd hc
  | suspended left =>
    obtain ⟨rfl, ⟨k, hk, hdepth⟩, hpops, hdraft, htext⟩ := hd
    exact ⟨rfl, ⟨k, hk.append hrest, hdepth⟩, hpops, hdraft, htext⟩

/-! ## Tags -/

theorem tags_outside {n : Nesting} {c : Compilation} (hc : Standing n c)
    (outside : n.inMessage = false) : c.tags = (false, false) := by
  have closed : c.draft = none := draft_eq_none ((Prod.mk.inj hc).1.trans outside)
  simp [tags, closed]

/-- What opening a tag leaves alone. -/
structure Opened (c d : Compilation) : Prop where
  depth : d.depth = c.depth
  refusedPops : d.refusedPops = c.refusedPops

theorem opens_message {n : Nesting} {c : Compilation} (host : Host) (role : Option Role)
    (as : List Attribute) (s : Span) (outside : n.inMessage = false) (hc : Standing n c) :
    Ends (openMessage host role as s) c
      (fun _ d => Standing { n with inMessage := true } d ∧ Opened c d) (Fails c) := by
  have shut := tags_outside hc outside
  refine (ends_openMessage host role as s (draft_eq_none (Prod.mk.inj shut).1)).imp ?_ ?_
  · rintro _ _ ⟨e, he, role, id, rfl⟩
    refine ⟨?_, he.writes.depth_eq, he.refusedPops⟩
    have : n.inContent = false := (Prod.mk.inj (hc.symm.trans shut)).2
    simp [Standing, tags, Draft.empty, this]
  · intro err d hd
    exact ⟨hd.1.refusedPops, hd.2⟩

theorem opens_content {n : Nesting} {c : Compilation} (kind : ContentKind) (s : Span)
    (within : n.inMessage = true) (outside : n.inContent = false) (hc : Standing n c) :
    Ends (openContent kind s) c
      (fun _ d => Standing { n with inContent := true } d ∧ Opened c d) (Fails c) := by
  have opened : c.tags = (true, false) := hc.trans (by rw [within, outside])
  refine (ends_openContent kind s opened).imp ?_ ?_
  · rintro _ _ ⟨draft, rfl, hdraft⟩
    refine ⟨?_, rfl, rfl⟩
    simp [Standing, tags, hdraft, within]
  · rintro err _ ⟨rfl, he⟩
    exact ⟨rfl, he⟩

/-! ## Frames -/

/-- The frame of a block is closed at its end. -/
theorem ends_closeFrame {c d : Compilation} (hdepth : d.depth = c.depth + 1)
    (hpops : d.refusedPops = c.refusedPops) (htags : d.tags = c.tags) :
    Ends closeFrame d (fun _ e => Balanced c e) (Fails c) := by
  have deep : 2 ≤ d.depth := by
    have : 1 ≤ c.depth := Nat.succ_pos _
    omega
  have closed := Scope.depth_pop deep
  refine ⟨?_, ?_, (tags_congr rfl).trans htags⟩
  · exact Nat.succ.inj (closed.trans hdepth)
  · simpa [Scope.outer_isEmpty deep] using hpops

/-- The end of a walk over the body of a block. -/
theorem Follows.leave {n : Nesting} {b d : Compilation} {flow : Flow}
    (hd : Follows n b.framed flow d) (s : Span) :
    Ends (Compile.leave s flow) d (Follows n b) (Fails b) := by
  cases flow with
  | done =>
    have closed := ends_closeFrame (hd.depth.trans b.depth_framed) hd.refusedPops
      (hd.tags.trans (tags_congr rfl))
    exact closed
  | suspended rest =>
    obtain ⟨hn, ⟨k, hk, hleft⟩, hrefused, hdraft, htext⟩ := hd
    refine ⟨hn, ⟨k + 1, .inside hk s trivial, ?_⟩, hrefused, hdraft, htext⟩
    rw [hleft, depth_framed]
    omega

namespace Orderly

variable {n : Nesting}

theorem inFrame {body : Compile Flow} (h : Orderly n body) (s : Span) :
    Orderly n (inFrame s body) := by
  intro c hc
  simp only [Compile.inFrame, changeScope, ends_bind, ends_modify]
  exact (h c.framed hc.framed).imp (fun _ _ hd => hd.leave s) (fun _ _ hf => hf)

theorem forItems {body : Compile Flow} (h : Orderly { n with inEach := true } body)
    (context : String) (index : Option String) (s : Span) (vs : List Value) (i : Nat) :
    ∀ c, Standing n c →
      Ends (forItems context index s body i vs) c (fun _ d => Balanced c d) (Fails c) := by
  induction vs generalizing i with
  | nil => exact fun c _ => refl_of Balanced c
  | cons v rest ih =>
    intro c hc
    have standing : Standing { n with inEach := true }
        { c with world := { c.world with scope := c.world.scope.pushItem context index i v } } :=
      (tags_congr rfl).trans hc
    simp only [Compile.forItems, changeScope, ends_bind, ends_modify]
    refine (h _ standing).imp ?_ (fun _ _ hf => hf)
    intro flow d hd
    cases flow with
    | suspended left => exact absurd hd.1 (ne_none_of Nesting.inEach rfl rfl)
    | done =>
      obtain ⟨hdepth, hpops, htags⟩ := hd
      have opened : d.depth = c.depth + 1 := hdepth.trans (Scope.depth_pushItem ..)
      rw [ends_bind]
      refine (ends_closeFrame opened hpops htags).imp (fun _ e he => ?_) (fun _ _ hf => hf)
      refine (ih (i + 1) e (he.standing hc)).imp ?_ (fun _ _ hf => hf.after he)
      intro _ _ hf
      exact trans_of Balanced he hf

theorem inMessage {children : Compile Flow} (outside : n.inMessage = false)
    (h : Orderly { n with inMessage := true } children) (host : Host) (role : Option Role)
    (as : List Attribute) (s : Span) :
    Orderly n (do
      openMessage host role as s
      let _ ← children
      closeMessage
      return .done) := by
  intro c hc
  have shut : c.tags = (false, false) := tags_outside hc outside
  rw [ends_bind]
  refine (opens_message host role as s outside hc).imp ?_ ?_
  · rintro _ d ⟨standing, hd⟩
    rw [ends_bind]
    refine (h d standing).imp ?_ (fun err e he => ⟨he.1.trans hd.refusedPops, he.2⟩)
    intro flow e he
    cases flow with
    | suspended left => exact absurd he.1 (ne_none_of Nesting.inMessage rfl rfl)
    | done =>
      obtain ⟨hdepth, hpops, htags⟩ := he
      obtain ⟨draft, hdraft⟩ := Option.isSome_iff_exists.mp (Prod.mk.inj (htags.trans standing)).1
      simp only [closeMessage, ends_bind, ends_modify, hdraft]
      exact ⟨hdepth.trans hd.depth, hpops.trans hd.refusedPops, shut.symm⟩
  · intro err d hd
    exact hd

theorem inContent {children : Compile Flow} (within : n.inMessage = true)
    (outside : n.inContent = false) (h : Orderly { n with inContent := true } children)
    (kind : ContentKind) (s : Span) :
    Orderly n (do
      openContent kind s
      let _ ← children
      closeContent kind
      return .done) := by
  intro c hc
  rw [ends_bind]
  refine (opens_content kind s within outside hc).imp ?_ ?_
  · rintro _ d ⟨standing, hd⟩
    rw [ends_bind]
    refine (h d standing).imp ?_ (fun err e he => ⟨he.1.trans hd.refusedPops, he.2⟩)
    intro flow e he
    cases flow with
    | suspended left => exact absurd he.1 (ne_none_of Nesting.inContent rfl rfl)
    | done =>
      obtain ⟨hdepth, hpops, htags⟩ := he
      obtain ⟨draft, hdraft⟩ := Option.isSome_iff_exists.mp
        ((Prod.mk.inj (htags.trans standing)).1.trans within)
      refine ⟨hdepth.trans hd.depth, hpops.trans hd.refusedPops, ?_⟩
      have opened : c.tags = (true, false) := hc.trans (by rw [within, outside])
      rw [opened]
      simp [tags, Draft.closeContent, hdraft]
  · intro err d hd
    exact hd

theorem inStep {children : Compile Flow} (hmessage : n.inMessage = false)
    (hstep : n.inStep = false) (heach : n.inEach = false)
    (h : Orderly { n with inStep := true } children) (host : Host)
    (as : List Attribute) (s : Span) :
    Orderly n (do
      let (name, config) ← stepAttributes host none [] as
      match ← children with
      | .suspended _ => throw (Cause.stepInStep.on s)
      | .done =>
        flush
        modify fun c => { c with stepConfig := some config }
        return .suspended [.response name s]) := by
  intro c hc
  have closed : c.draft = none := draft_eq_none ((Prod.mk.inj hc).1.trans hmessage)
  have hn : n = Nesting.none := by
    have : n.inContent = false := by
      have := (Prod.mk.inj hc).2
      simpa [closed] using this.symm
    cases n
    simp_all [Nesting.none]
  rw [ends_bind]
  refine ((evaluating_regular host).stepAttributes as none [] c).imp ?_ ?_
  · rintro ⟨name, config⟩ d hd
    have standing : Standing { n with inStep := true } d := hd.balanced.standing hc
    rw [ends_bind]
    refine (h d standing).imp ?_ ?_
    · intro flow e he
      cases flow with
      | suspended left => exact absurd he.1 (ne_none_of Nesting.inStep rfl rfl)
      | done =>
        simp only [ends_bind]
        refine ends_flush.imp ?_ (fun _ _ h => h.elim)
        rintro _ f ⟨hf, htext⟩
        have inside : Balanced c e := trans_of Balanced hd.balanced he
        have whole : Balanced c f := trans_of Balanced inside hf.balanced
        have hdraft : f.draft = none := draft_eq_none (whole.tags ▸ by simp [tags, closed])
        exact ⟨hn, ⟨0, .here name s trivial, whole.depth⟩, whole.refusedPops, hdraft, htext⟩
    · intro err e he
      exact he.after hd.balanced
  · intro err d hd
    exact ⟨hd.1.refusedPops, hd.2⟩

end Orderly

mutual

theorem orderly_walk (host : Host) : ∀ (a : Node) {n : Nesting}, a.Placed n →
    Orderly n (walk host a)
  | .text data _, n, _ => by
    rw [walk]
    exact .bind_regular (regular_emit data) fun _ => .done
  | .config .., _, h => False.elim h
  | .comment .., n, _ => by
    rw [walk]
    exact .done
  | .mustache e _, n, _ => by
    rw [walk]
    refine .bind_regular (regular_evaluate host e) fun v => ?_
    split
    · exact .bind_regular (regular_emit _) fun _ => .done
    · exact .done
  | .ifBlock e consequent alternate s, n, h => by
    rw [walk]
    refine .bind_regular (regular_evaluate host e) fun v => ?_
    split
    · exact .inFrame (orderly_walkAll host consequent h.1) s
    · exact orderly_walkOption host s alternate h.2
  | .eachBlock e context index body alternate s, n, h => by
    rw [walk]
    refine .bind_regular (regular_evaluate host e) fun v => ?_
    intro c hc
    have standing : Standing { n with inEach := true } c := hc
    dsimp only
    split
    · rw [ends_bind]
      refine (orderly_walkOption host s alternate h.2 c standing).imp ?_ (fun _ _ hf => hf)
      intro flow d hd
      cases flow with
      | done => exact hd
      | suspended left => exact absurd hd.1 (ne_none_of Nesting.inEach rfl rfl)
    · rw [ends_bind]
      exact Orderly.forItems (orderly_walkAll host body h.1) context index s _ 0 c hc
  | .message role as children s, n, h => by
    obtain ⟨inside, hinside, hchildren⟩ := h
    obtain ⟨outside, rfl⟩ := enter_message.mp hinside
    rw [walk]
    exact .inMessage outside (orderly_walkAll host children hchildren) host role as s
  | .content kind as children s, n, h => by
    obtain ⟨inside, hinside, hchildren⟩ := h
    obtain ⟨within, outside, rfl⟩ := enter_content.mp hinside
    rw [walk]
    exact .inContent within outside (orderly_walkAll host children hchildren) kind s
  | .reference as s, n, _ => by
    rw [walk]
    intro c _
    exact ⟨rfl, Error.ofCompilation_on (by simp [Cause.code, Code.ofCompilation]) s⟩
  | .step as children s, n, h => by
    obtain ⟨inside, hinside, hchildren⟩ := h
    obtain ⟨hmessage, hstep, heach, rfl⟩ := enter_step.mp hinside
    rw [walk]
    exact .inStep hmessage hstep heach (orderly_walkAll host children hchildren) host as s
  | .scoped .., _, h => False.elim h
  | .response .., _, h => False.elim h

theorem orderly_walkAll (host : Host) : ∀ (nodes : List Node) {n : Nesting},
    Node.AllPlaced n nodes → Orderly n (walkAll host nodes)
  | [], n, _ => by
    rw [walkAll]
    exact .done
  | a :: rest, n, h => by
    rw [walkAll]
    intro c hc
    rw [ends_bind]
    refine (orderly_walk host a h.1 c hc).imp (fun _ _ hd => ?_) (fun _ _ hf => hf)
    exact hd.go_on h.2 (orderly_walkAll host rest h.2) hc

theorem orderly_walkOption (host : Host) (s : Span) : ∀ (nodes : Option (List Node)) {n : Nesting},
    Node.OptionPlaced n nodes → Orderly n (walkOption host s nodes)
  | none, n, _ => by
    rw [walkOption]
    exact .done
  | some nodes, n, h => by
    rw [walkOption]
    exact .inFrame (orderly_walkAll host nodes h) s

end

/-! ## Walks over what is left -/

/-- A response puts a message into the conversation and leaves frames and tags alone. -/
theorem ends_respond (name : Option String) (s : Span) {c : Compilation} {ps : List Part}
    (h : c.response = some ps) :
    Ends (respond name s) c (fun _ d => Balanced c d) (Fails c) := by
  rw [respond]
  rw [ends_bind, ends_get, h]
  cases name with
  | none => exact ⟨rfl, rfl, tags_congr rfl⟩
  | some name =>
    refine ⟨?_, rfl, tags_congr rfl⟩
    have := Scope.outer_set c.world.scope name (.string (Part.lines ps))
    simp [depth, Scope.depth, Scope.frames, this]

/-- What is left is walked with its frames open, and they are closed at its end. -/
theorem ends_resume (host : Host) {k : Nat} {nodes : List Node} (h : Remainder k nodes)
    {b c : Compilation} (hc : Deeper k b c) (hb : Standing Nesting.none b)
    (hresponse : c.response.isSome = true) :
    Ends (walkAll host nodes) c (Follows Nesting.none b) (Fails b) := by
  induction h generalizing b with
  | here name s hrest =>
    obtain ⟨ps, hps⟩ := Option.isSome_iff_exists.mp hresponse
    have start : Balanced b c := ⟨hc.depth, hc.refusedPops, hc.tags⟩
    simp only [walkAll, walk, ends_bind]
    refine (ends_respond name s hps).imp (fun _ d hd => ?_) (fun _ _ hf => hf.after start)
    exact (orderly_walkAll host _ hrest).after (trans_of Balanced start hd) hb
  | inside _ s hrest ih =>
    simp only [walkAll, walk, ends_bind]
    refine (ih hc.framed hb.framed).imp (fun flow d hd => ?_) (fun _ _ hf => hf)
    refine (hd.leave s).imp (fun flow e he => ?_) (fun _ _ hf => hf)
    exact he.go_on hrest (orderly_walkAll host _ hrest) hb

/-- Nodes that may follow a config block may stand alone, too. -/
theorem orderly_config (host : Host) (front : Option (Config × Span)) {nodes : List Node}
    (h : Node.AllPlaced Nesting.none nodes) :
    Orderly Nesting.none
      (walkAll host ((front.map fun (v, s) => Node.config v s).toList ++ nodes)) := by
  cases front with
  | none => exact orderly_walkAll host nodes h
  | some found =>
    obtain ⟨v, s⟩ := found
    intro c hc
    simp only [Option.map_some, Option.toList_some, List.cons_append, List.nil_append, walkAll,
      walk, ends_bind, ends_modify]
    exact (orderly_walkAll host nodes h).after ⟨rfl, rfl, tags_congr rfl⟩ hc

/-- The text that a whole walk has gathered is in a message at its end. -/
theorem ends_whole (host : Host) (f : Fragment) {b c : Compilation}
    (h : Ends (walkAll host f.children) c (Follows Nesting.none b) (Fails b)) :
    Ends (whole host f) c (fun flow d => Follows Nesting.none b flow d ∧ d.text = "")
      (Fails b) := by
  rw [whole, ends_bind]
  refine h.imp (fun flow d hd => ?_) (fun _ _ hf => hf)
  rw [ends_bind]
  refine ends_flush.imp (fun _ e he => ?_) (fun _ _ h => h.elim)
  obtain ⟨hde, htext⟩ := he
  refine ⟨?_, htext⟩
  cases flow with
  | done => exact trans_of Balanced hd hde.balanced
  | suspended rest =>
    obtain ⟨hn, ⟨k, hk, hdepth⟩, hpops, hdraft, _⟩ := hd
    have even := hde.balanced
    have closed : e.draft = none := draft_eq_none (even.tags ▸ by simp [tags, hdraft])
    exact ⟨hn, ⟨k, hk, even.depth.trans hdepth⟩, even.refusedPops.trans hpops, closed, htext⟩

end Compile

end PromptTemplate
