import PromptTemplate.Proofs.Compilation.Closure
import PromptTemplate.Proofs.Compilation.Resumed
import PromptTemplate.Proofs.Scope.Blocks

/-!
# Variables of blocks

The body of a block is walked in a frame of its own, once, or once for every item. If it is walked
to its end, then the frames are what they were right after the condition or the list was evaluated;
what the body wrote to variables outside of the block is still there; and a variable outside that
has the name of a variable of the loop has kept its value.
-/

namespace PromptTemplate

open Template

/-- Whether a walk went to the end. -/
def Flow.isDone : Flow → Bool
  | .done => true
  | .suspended _ => false

namespace Compilation

/-- With the innermost frame closed. -/
def closed (c : Compilation) : Compilation :=
  { c with
    world := { c.world with scope := c.world.scope.pop }
    refusedPops := c.refusedPops + if c.world.scope.outer.isEmpty then 1 else 0 }

end Compilation

namespace Compile

open Compilation

variable {host : Host} {n m : Nesting} {c d t : Compilation} {nodes : List Node}

/-! ## Walks that settle -/

/-- A walk whose end settles the scope, if it comes to it. -/
def Settling (n : Nesting) (p : Compile Flow) : Prop :=
  ∀ c, Standing n c → Ends p c
    (fun flow d => flow = .done → Scope.Settles c.world.scope d.world.scope) (fun _ _ => True)

namespace Settling

theorem done : Settling n (return .done) := fun c _ _ => refl_of Scope.Settles c.world.scope

/-- A walk goes on after something that has settled the scope. -/
theorem after {p : Compile Flow} (h : Settling n p) (hd : Standing n d)
    (settled : Scope.Settles c.world.scope d.world.scope) :
    Ends p d (fun flow e => flow = .done → Scope.Settles c.world.scope e.world.scope)
      (fun _ _ => True) :=
  (h d hd).imp (fun _ _ he done => trans_of Scope.Settles settled (he done)) fun _ _ h => h

theorem bind_regular {α : Type} {p : Compile α} {f : α → Compile Flow} (hp : Regular p)
    (hf : ∀ a, Settling n (f a)) : Settling n (p >>= f) := by
  intro c hc
  rw [ends_bind]
  refine (hp c).imp (fun a d hd => ?_) fun _ _ _ => trivial
  exact (hf a).after (hd.balanced.standing hc) (.of_writes hd.writes)

end Settling

/-- The body of a block, walked to its end in a frame of its own. -/
theorem ends_inFrame {body : Compile Flow} (h : Settling n body) (s : Span)
    (hc : Standing n c) :
    Ends (inFrame s body) c
      (fun flow d => flow = .done → ∃ b, body.run c.framed = (.ok .done, b) ∧ d = b.closed ∧
        Scope.Settles c.framed.world.scope b.world.scope) (fun _ _ => True) := by
  rw [inFrame, changeScope, ends_bind, ends_modify, ends_bind]
  refine ((h c.framed hc.framed).and .run).imp ?_ fun _ _ _ => trivial
  rintro flow b ⟨settled, hrun⟩
  cases flow with
  | suspended left =>
    intro done
    cases done
  | done => exact fun _ => ⟨b, hrun, rfl, settled rfl⟩

theorem Settling.inFrame {body : Compile Flow} (h : Settling n body) (s : Span) :
    Settling n (inFrame s body) := by
  intro c hc
  refine (ends_inFrame h s hc).imp (fun flow d hd done => ?_) fun _ _ h => h
  obtain ⟨b, -, rfl, settled⟩ := hd done
  exact (Scope.Opens.push c.world.scope).settles_pop settled

/-- The variables that the frame of an item has. -/
def loopNames (context : String) (index : Option String) : List String :=
  index.toList ++ [context]

/-- The turns of a loop: the body is walked to its end for every item, each time in a frame of its
own. -/
inductive Turns (host : Host) (context : String) (index : Option String) (body : List Node) :
    Nat → List Value → Compilation → Compilation → Prop where
  | ended (i : Nat) (c : Compilation) : Turns host context index body i [] c c
  | turn {i : Nat} {v : Value} {rest : List Value} {c b d : Compilation}
    (hbody : (walkAll host body).run (c.atItem context index i v) = (.ok .done, b))
    (encloses : Scope.Encloses (loopNames context index) c.world.scope b.world.scope
      b.closed.world.scope)
    (h : Turns host context index body (i + 1) rest b.closed d) :
    Turns host context index body i (v :: rest) c d

theorem ends_forItems {body : List Node} (orderly : Orderly { n with inEach := true }
    (walkAll host body)) (h : Settling { n with inEach := true } (walkAll host body))
    (context : String) (index : Option String) (s : Span) (vs : List Value) (i : Nat)
    (hc : Standing n c) :
    Ends (forItems context index s (walkAll host body) i vs) c
      (fun _ d => Scope.Settles c.world.scope d.world.scope ∧
        Turns host context index body i vs c d) (fun _ _ => True) := by
  induction vs generalizing i c with
  | nil => exact ⟨refl_of Scope.Settles c.world.scope, .ended i c⟩
  | cons v rest ih =>
    have standing : Standing { n with inEach := true } (c.atItem context index i v) :=
      (tags_congr rfl).trans hc
    have opens := Scope.Opens.pushItem c.world.scope context index i v
    rw [Ends, run_forItems_cons]
    change Ends _ _ _ _
    rw [ends_bind]
    refine (((orderly _ standing).and (h _ standing)).and .run).imp ?_ fun _ _ _ => trivial
    rintro flow b ⟨⟨follows, settled⟩, hrun⟩
    cases flow with
    | suspended left => trivial
    | done =>
      have after : Standing n b.closed :=
        (tags_congr rfl).trans (follows.tags.trans ((tags_congr rfl).trans hc))
      have turned := opens.settles_pop (settled rfl)
      rw [ends_bind, closeFrame, ends_modify]
      refine (ih (i + 1) after).imp ?_ fun _ _ h => h
      rintro _ d ⟨hsettled, hturns⟩
      exact ⟨trans_of Scope.Settles turned hsettled,
        .turn hrun (opens.encloses (settled rfl)) hturns⟩

/-- The nodes inside a tag, where no walk stops. -/
theorem Settling.tagged {opening closing : Compile Unit} {children : Compile Flow}
    (hopening : ∀ c, Standing n c → Ends opening c
      (fun _ d => Standing m d ∧ Scope.Settles c.world.scope d.world.scope) fun _ _ => True)
    (hm : m ≠ Nesting.none) (orderly : Orderly m children) (h : Settling m children)
    (hclosing : ∀ c, Ends closing c (fun _ d => d.world.scope = c.world.scope) fun _ _ => True) :
    Settling n (do
      opening
      let _ ← children
      closing
      return .done) := by
  intro c hc
  rw [ends_bind]
  refine (hopening c hc).imp ?_ fun _ _ _ => trivial
  rintro _ d ⟨hd, opened⟩
  rw [ends_bind]
  refine ((orderly d hd).and (h d hd)).imp ?_ fun _ _ _ => trivial
  rintro flow e ⟨follows, settled⟩
  cases flow with
  | suspended left => exact absurd follows.1 hm
  | done =>
    rw [ends_bind]
    refine (hclosing e).imp (fun _ f hf _ => ?_) fun _ _ _ => trivial
    rw [hf]
    exact trans_of Scope.Settles opened (settled rfl)

theorem Settling.message {children : Compile Flow} (outside : n.inMessage = false)
    (orderly : Orderly { n with inMessage := true } children)
    (h : Settling { n with inMessage := true } children) (host : Host) (role : Option Role)
    (as : List Attribute) (s : Span) :
    Settling n (do
      openMessage host role as s
      let _ ← children
      closeMessage
      return .done) := by
  refine .tagged (fun c hc => ?_) (ne_none_of Nesting.inMessage rfl rfl) orderly h fun c => ?_
  · have shut := tags_outside hc outside
    have opened := ends_openMessage host role as s (draft_eq_none (Prod.mk.inj shut).1)
    refine ((opens_message host role as s outside hc).and opened).imp ?_ fun _ _ _ => trivial
    rintro _ d ⟨⟨standing, -⟩, e, he, role, id, rfl⟩
    exact ⟨standing, .of_writes he.writes⟩
  · rw [closeMessage, ends_modify]
    cases c.draft <;> rfl

theorem Settling.content {children : Compile Flow} (within : n.inMessage = true)
    (outside : n.inContent = false) (orderly : Orderly { n with inContent := true } children)
    (h : Settling { n with inContent := true } children) (kind : ContentKind) (s : Span) :
    Settling n (do
      openContent kind s
      let _ ← children
      closeContent kind
      return .done) := by
  refine .tagged (fun c hc => ?_) (ne_none_of Nesting.inContent rfl rfl) orderly h fun c => rfl
  have opened := ends_openContent kind s (hc.trans (by rw [within, outside]))
  refine ((opens_content kind s within outside hc).and opened).imp ?_ fun _ _ _ => trivial
  rintro _ d ⟨⟨standing, -⟩, draft, rfl, -⟩
  exact ⟨standing, refl_of Scope.Settles c.world.scope⟩

mutual

theorem settling_walk (host : Host) : ∀ (a : Node) {n : Nesting}, a.Placed n →
    Settling n (walk host a)
  | .text data _, n, _ => by
    rw [walk]
    exact .bind_regular (regular_emit data) fun _ => .done
  | .config .., _, h => False.elim h
  | .comment .., n, _ => by
    rw [walk]
    exact .done
  | .mustache e _, n, _ => by
    rw [walk]
    refine .bind_regular (regular_evaluate host e) fun v => ?_
    split
    · exact .bind_regular (regular_emit _) fun _ => .done
    · exact .done
  | .ifBlock e consequent alternate s, n, h => by
    rw [walk]
    refine .bind_regular (regular_evaluate host e) fun v => ?_
    split
    · exact .inFrame (settling_walkAll host consequent h.1) s
    · exact settling_walkOption host s alternate h.2
  | .eachBlock e context index body alternate s, n, h => by
    rw [walk]
    refine .bind_regular (regular_evaluate host e) fun v => ?_
    intro c hc
    dsimp only
    split
    · rw [ends_bind]
      refine (settling_walkOption host s alternate h.2 c hc).imp ?_ fun _ _ h => h
      intro flow d hd
      cases flow with
      | done => exact fun _ => hd rfl
      | suspended left => trivial
    · rw [ends_bind]
      have walked := ends_forItems (orderly_walkAll host body h.1) (settling_walkAll host body h.1)
        context index s v.iterated 0 hc
      exact walked.imp (fun _ _ hd _ => hd.1) fun _ _ h => h
  | .message role as children s, n, h => by
    obtain ⟨inside, hinside, hchildren⟩ := h
    obtain ⟨outside, rfl⟩ := enter_message.mp hinside
    rw [walk]
    exact .message outside (orderly_walkAll host children hchildren)
      (settling_walkAll host children hchildren) host role as s
  | .content kind as children s, n, h => by
    obtain ⟨inside, hinside, hchildren⟩ := h
    obtain ⟨within, outside, rfl⟩ := enter_content.mp hinside
    rw [walk]
    exact .content within outside (orderly_walkAll host children hchildren)
      (settling_walkAll host children hchildren) kind s
  | .reference .., n, _ => by
    rw [walk]
    exact fun _ _ => trivial
  | .step as children s, n, h => by
    -- the walk of a step is never done
    rw [walk]
    intro c hc
    rw [ends_bind]
    refine Ends.any.imp (fun named d _ => ?_) fun _ _ h => h
    rw [ends_bind]
    refine Ends.any.imp (fun flow e _ => ?_) fun _ _ h => h
    cases flow with
    | suspended left => trivial
    | done =>
      intro done
      cases done
  | .scoped .., _, h => False.elim h
  | .response .., _, h => False.elim h

theorem settling_walkAll (host : Host) : ∀ (nodes : List Node) {n : Nesting},
    Node.AllPlaced n nodes → Settling n (walkAll host nodes)
  | [], n, _ => by
    rw [walkAll]
    exact .done
  | a :: rest, n, h => by
    rw [walkAll]
    intro c hc
    rw [ends_bind]
    refine ((orderly_walk host a h.1 c hc).and (settling_walk host a h.1 c hc)).imp ?_
      fun _ _ _ => trivial
    rintro flow d ⟨follows, settled⟩
    cases flow with
    | suspended left =>
      intro done
      cases done
    | done => exact (settling_walkAll host rest h.2).after (follows.standing hc) (settled rfl)

theorem settling_walkOption (host : Host) (s : Span) : ∀ (nodes : Option (List Node))
    {n : Nesting}, Node.OptionPlaced n nodes → Settling n (walkOption host s nodes)
  | none, n, _ => by
    rw [walkOption]
    exact .done
  | some nodes, n, h => by
    rw [walkOption]
    exact .inFrame (settling_walkAll host nodes h) s

end

/-! ## Turns of loops -/

namespace Turns

variable {context : String} {index : Option String} {body : List Node} {i : Nat}
  {vs : List Value}

theorem restores (h : Turns host context index body i vs c d) :
    Scope.Restores c.world.scope d.world.scope := by
  induction h with
  | ended i c => exact refl_of Scope.Restores c.world.scope
  | turn _ encloses _ ih => exact trans_of Scope.Restores encloses.toRestores ih

/-- The variables of a loop shadow those outside in every turn. -/
theorem shadowed (h : Turns host context index body i vs c d) (hc : c.world.scope.WellFormed) :
    ∀ name ∈ loopNames context index, d.world.scope.get? name = c.world.scope.get? name := by
  induction h with
  | ended => exact fun _ _ => rfl
  | turn _ encloses _ ih =>
    intro name hname
    exact (ih (encloses.wellFormed hc) name hname).trans (encloses.shadowed hc name hname)

end Turns

/-! ## Blocks -/

/-- A branch of a block, if there is one, is walked to its end in a frame of its own. -/
def Branch (host : Host) (branch : Option (List Node)) (c t : Compilation) : Prop :=
  match branch with
  | none => t = c
  | some nodes => ∃ b, (walkAll host nodes).run c.framed = (.ok .done, b) ∧ t = b.closed ∧
      Scope.Encloses [] c.world.scope b.world.scope t.world.scope

theorem Branch.restores {branch : Option (List Node)} (h : Branch host branch c t) :
    Scope.Restores c.world.scope t.world.scope := by
  cases branch with
  | none =>
    cases h
    exact refl_of Scope.Restores _
  | some nodes =>
    obtain ⟨b, -, -, encloses⟩ := h
    exact encloses.toRestores

theorem branch_of_inFrame (h : Node.AllPlaced n nodes) (hc : Standing n c) {s : Span}
    (done : (inFrame s (walkAll host nodes)).run c = (.ok .done, t)) :
    Branch host (some nodes) c t := by
  obtain ⟨b, hrun, rfl, settled⟩ :=
    (ends_inFrame (settling_walkAll host nodes h) s hc).of_ok done rfl
  exact ⟨b, hrun, rfl, (Scope.Opens.push c.world.scope).encloses settled⟩

theorem branch_of_walkOption {branch : Option (List Node)} (h : Node.OptionPlaced n branch)
    (hc : Standing n c) {s : Span} (done : (walkOption host s branch).run c = (.ok .done, t)) :
    Branch host branch c t := by
  cases branch with
  | none =>
    rw [walkOption] at done
    cases done
    rfl
  | some nodes =>
    rw [walkOption] at done
    exact branch_of_inFrame h hc done

/-- Where a computation ends well, its first part has ended well. -/
theorem exists_of_bind_ok {α β : Type} {p : Compile α} {f : α → Compile β} {x : β}
    (h : (p >>= f).run c = (.ok x, t)) :
    ∃ a d, p.run c = (.ok a, d) ∧ (f a).run d = (.ok x, t) := by
  rw [run_bind] at h
  split at h
  · rename_i a d hp
    exact ⟨a, d, hp, h⟩
  · cases h

/-- An if block that is walked to its end. -/
theorem branch_of_ifBlock {e : Expr} {consequent : List Node} {alternate : Option (List Node)}
    {s : Span} (h : (Node.ifBlock e consequent alternate s).Placed n) (hc : Standing n c)
    (done : (walk host (.ifBlock e consequent alternate s)).run c = (.ok .done, t)) :
    ∃ w d, (evaluate host e).run c = (.ok w, d) ∧
      Branch host (if w.isTruthy then some consequent else alternate) d t := by
  rw [walk] at done
  obtain ⟨w, d, hw, done⟩ := exists_of_bind_ok done
  have hd := ((regular_evaluate host e c).of_ok hw).balanced.standing hc
  refine ⟨w, d, hw, ?_⟩
  split at done
  · rename_i truthy
    rw [if_pos truthy]
    exact branch_of_inFrame h.1 hd done
  · rename_i falsy
    rw [if_neg falsy]
    exact branch_of_walkOption h.2 hd done

/-- An each block that is walked to its end. -/
theorem turns_of_eachBlock {e : Expr} {context : String} {index : Option String}
    {body : List Node} {alternate : Option (List Node)} {s : Span}
    (h : (Node.eachBlock e context index body alternate s).Placed n) (hc : Standing n c)
    (done : (walk host (.eachBlock e context index body alternate s)).run c = (.ok .done, t)) :
    ∃ w d, (evaluate host e).run c = (.ok w, d) ∧
      if w.iterated.isEmpty then Branch host alternate d t
      else Turns host context index body 0 w.iterated d t := by
  rw [walk] at done
  obtain ⟨w, d, hw, done⟩ := exists_of_bind_ok done
  have hd := ((regular_evaluate host e c).of_ok hw).balanced.standing hc
  refine ⟨w, d, hw, ?_⟩
  dsimp only at done
  split at done
  · rename_i none_left
    rw [if_pos none_left]
    obtain ⟨flow, u, hwalk, done⟩ := exists_of_bind_ok done
    cases flow with
    | suspended left => cases done
    | done =>
      cases done
      have standing : Standing { n with inEach := true } d := hd
      exact branch_of_walkOption h.2 standing hwalk
  · rename_i some_left
    rw [if_neg some_left]
    obtain ⟨_, u, hitems, done⟩ := exists_of_bind_ok done
    cases done
    exact ((ends_forItems (orderly_walkAll host body h.1) (settling_walkAll host body h.1) context
      index s w.iterated 0 hd).of_ok hitems).2

/-! ## Well-formed scopes -/

theorem Enters.staysFormed {a : Node} {children : List Node} (enters : Enters host a c children d) :
    StaysFormed c d := by
  have closed := closed_staysFormed host
  cases enters with
  | consequent hv => exact fun hc => ((closed.evaluate _ c).of_ok hv hc).push
  | alternate hv => exact fun hc => ((closed.evaluate _ c).of_ok hv hc).push
  | noItem hv => exact fun hc => ((closed.evaluate _ c).of_ok hv hc).push
  | @item e v w before _ _ d _ context index _ s hv _ hbefore =>
    have body_formed := walking_walkAll closed.walking (fun _ => .modify fun _ h => h) children
      fun _ _ _ => .modify fun _ h => h
    have formed := (closed.walking.forItems context index s body_formed before 0 d).of_ok hbefore
    exact fun hc => (formed ((closed.evaluate _ c).of_ok hv hc)).pushItem context index _ w
  | message hopen => exact (closed.openMessage _ _ _ c).of_ok hopen
  | content hopen => exact (closed.openContent _ _ c).of_ok hopen
  | step has => exact (closed.stepAttributes _ none [] c).of_ok has
  | resumed => exact fun hc => hc

/-- Wherever a walk comes to, the scope is well-formed if it was at the beginning. -/
theorem Visits.staysFormed {v : Visit} (hv : Visits host nodes c v) : StaysFormed c v.state := by
  induction hv with
  | here a rest c => exact refl_of StaysFormed c
  | @later a rest c d v done _ ih =>
    have closed := closed_staysFormed host
    have walked := walking_walk closed.walking (fun _ => .modify fun _ h => h) a
      fun _ _ _ => .modify fun _ h => h
    exact trans_of StaysFormed ((walked c).of_ok done) ih
  | inside enters _ _ ih => exact trans_of StaysFormed enters.staysFormed ih

end Compile

namespace Fragment

open Compile

/-- Blocks keep their variables to themselves, in any template that can be read, in what
compilations of it leave, and in any scope. After an if block or an each block that is walked to
its end, the frames are those right after the condition or the list was evaluated, and nothing more
is visible. The body, or the branch that is walked in its place, writes to the variables outside.
The variables of a loop hide those of the same names, which keep their values. -/
theorem blocks_of_visits {source : String} {f : Fragment} (h : Resumed source f) {host : Host}
    {scope : Scope} {response : Option (List Part)} {calls : List Call} {v : Visit}
    (hv : Visits host f.children (Compilation.start ⟨scope, calls⟩ response) v)
    {t : Compilation} (done : (Compile.walk host v.node).run v.state = (.ok .done, t)) :
    (∀ e consequent alternate s, v.node = .ifBlock e consequent alternate s →
      ∃ w d, (evaluate host e).run v.state = (.ok w, d) ∧
        Scope.Restores d.world.scope t.world.scope ∧
        Branch host (if w.isTruthy then some consequent else alternate) d t) ∧
    (∀ e context index body alternate s, v.node = .eachBlock e context index body alternate s →
      ∃ w d, (evaluate host e).run v.state = (.ok w, d) ∧
        Scope.Restores d.world.scope t.world.scope ∧
        if w.iterated.isEmpty then Branch host alternate d t
        else Turns host context index body 0 w.iterated d t ∧
          (scope.WellFormed → ∀ name ∈ loopNames context index,
            t.world.scope.get? name = d.world.scope.get? name)) := by
  have placed := h.compilable.wellPlaced rfl hv
  constructor
  · intro e consequent alternate s hnode
    rw [hnode] at done
    obtain ⟨-, -, -, hif, -⟩ | ⟨n, hplaced, standing, -⟩ := placed
    · rw [hnode] at hif
      cases hif
    · rw [hnode] at hplaced
      obtain ⟨w, d, hw, branch⟩ := branch_of_ifBlock hplaced standing done
      exact ⟨w, d, hw, branch.restores, branch⟩
  · intro e context index body alternate s hnode
    rw [hnode] at done
    obtain ⟨-, -, -, -, heach⟩ | ⟨n, hplaced, standing, -⟩ := placed
    · rw [hnode] at heach
      cases heach
    · rw [hnode] at hplaced
      obtain ⟨w, d, hw, walked⟩ := turns_of_eachBlock hplaced standing done
      refine ⟨w, d, hw, ?_⟩
      split at walked
      · rename_i none_left
        rw [if_pos none_left]
        exact ⟨walked.restores, walked⟩
      · rename_i some_left
        rw [if_neg some_left]
        refine ⟨walked.restores, walked, fun formed => walked.shadowed ?_⟩
        exact ((closed_staysFormed host).evaluate e _).of_ok hw (hv.staysFormed formed)

/-- Whether a walk that went well went to the end. -/
def finished (r : Except Error Flow) : Bool := r.toOption.any Flow.isDone

/-- The variable of a loop hides one outside, and another one outside is written. -/
theorem blocks_of_visits_loop :
    ∃ f v t,
      ofText "\x7b\x7b#each [1] as x\x7d\x7d\x7b\x7by = x = 3\x7d\x7d\x7b\x7b/each\x7d\x7d" = .ok f ∧
      Visits (fun _ _ => .error "") f.children (Compilation.start
        ⟨Scope.ofParameters [("x", .null), ("y", .null)], []⟩ none) v ∧
      (Compile.walk (fun _ _ => .error "") v.node).run v.state = (.ok .done, t) ∧
      v.node.isEach = true ∧
      ∀ e context index body alternate s, v.node = .eachBlock e context index body alternate s →
        ∃ w d, (evaluate (fun _ _ => .error "") e).run v.state = (.ok w, d) ∧
          Scope.Restores d.world.scope t.world.scope ∧
          if w.iterated.isEmpty then Branch (fun _ _ => .error "") alternate d t
          else Turns (fun _ _ => .error "") context index body 0 w.iterated d t ∧
            ∀ name ∈ loopNames context index,
              t.world.scope.get? name = d.world.scope.get? name := by
  have ends : ((ofText "\x7b\x7b#each [1] as x\x7d\x7d\x7b\x7by = x = 3\x7d\x7d\x7b\x7b/each\x7d\x7d").toOption.any
      fun f => f.children.head?.any fun a => a.isEach && finished
        ((Compile.walk (fun _ _ => .error "") a).run (Compilation.start
          ⟨Scope.ofParameters [("x", .null), ("y", .null)], []⟩ none)).1) = true := by
    decide +kernel
  cases h : ofText "\x7b\x7b#each [1] as x\x7d\x7d\x7b\x7by = x = 3\x7d\x7d\x7b\x7b/each\x7d\x7d" with
  | error e => simp [h, Except.toOption] at ends
  | ok f =>
    cases hc : f.children with
    | nil => simp [h, hc, Except.toOption] at ends
    | cons a rest =>
      obtain ⟨heach, hdone⟩ : a.isEach = true ∧ finished _ = true := by
        simpa [h, hc, Except.toOption] using ends
      have visits : Visits (fun _ _ => .error "") (a :: rest) _ _ := .here a rest
        (Compilation.start ⟨Scope.ofParameters [("x", .null), ("y", .null)], []⟩ none)
      rw [← hc] at visits
      rcases hrun : (Compile.walk (fun _ _ => .error "") a).run (Compilation.start
        ⟨Scope.ofParameters [("x", .null), ("y", .null)], []⟩ none) with ⟨_ | _ | _, t⟩
      · simp [hrun, finished, Except.toOption] at hdone
      · refine ⟨f, _, t, rfl, visits, hrun, heach, ?_⟩
        intro e context index body alternate s hnode
        obtain ⟨w, d, hw, restores, walked⟩ :=
          (blocks_of_visits (.read h) visits hrun).2 e context index body alternate s hnode
        refine ⟨w, d, hw, restores, ?_⟩
        split at walked
        · rename_i none_left
          rw [if_pos none_left]
          exact walked
        · rename_i some_left
          rw [if_neg some_left]
          exact ⟨walked.1, walked.2 (Scope.wellFormed_ofParameters _)⟩
      · simp [hrun, finished, Flow.isDone, Except.toOption] at hdone

end Fragment

end PromptTemplate
