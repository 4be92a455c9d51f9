import PromptTemplate.Proofs.Expr.Placeless
import PromptTemplate.Proofs.Template.Seen
import PromptTemplate.Compilation

/-!
# Compilations of what is seen

A walk over nodes and a walk over what is seen of them do the same, up to the places of errors,
and the same is seen of what they leave.
-/

namespace PromptTemplate

/-- What is seen of what a walk leaves. -/
def Flow.seen : Flow → Flow
  | .done => .done
  | .suspended rest => .suspended (Node.seenAll rest)

namespace Compile

variable {α β γ δ : Type} {R : α → β → Prop} {S : γ → δ → Prop}

/-- Two computations that do the same to every compilation, up to matching results. -/
def Resembles (R : α → β → Prop) (p : Compile α) (q : Compile β) : Prop :=
  ∀ c, Matches R (p.run c).1 (q.run c).1 ∧ (q.run c).2 = (p.run c).2

namespace Resembles

theorem refl (p : Compile α) : Resembles Eq p p := fun _ => ⟨.refl _, rfl⟩

theorem pure {a : α} {b : β} (h : R a b) : Resembles R (pure a) (pure b) :=
  fun _ => ⟨.ok h, rfl⟩

theorem throw {e e' : Error} (h : e'.cause = e.cause) :
    Resembles R (throw e : Compile α) (throw e' : Compile β) :=
  fun _ => ⟨.error h, rfl⟩

theorem bind {p : Compile α} {q : Compile β} {f : α → Compile γ} {g : β → Compile δ}
    (h : Resembles R p q) (hf : ∀ a b, R a b → Resembles S (f a) (g b)) :
    Resembles S (p >>= f) (q >>= g) := by
  intro c
  obtain ⟨results, states⟩ := h c
  rw [run_bind, run_bind]
  rcases hp : p.run c with ⟨a, d⟩
  rcases hq : q.run c with ⟨b, d'⟩
  rw [hp, hq] at results states
  cases states
  cases results with
  | ok h => exact hf _ _ h d
  | error h => exact ⟨.error h, rfl⟩

/-- What follows the same value. -/
theorem bind_eq {p q : Compile α} {f : α → Compile γ} {g : α → Compile δ} (h : Resembles Eq p q)
    (hf : ∀ a, Resembles S (f a) (g a)) : Resembles S (p >>= f) (q >>= g) :=
  h.bind fun a _ hab => hab ▸ hf a

theorem ite {c : Prop} [Decidable c] {p p' : Compile α} {q q' : Compile β} (h : Resembles R p q)
    (h' : Resembles R p' q') : Resembles R (if c then p else p') (if c then q else q') := by
  split
  · exact h
  · exact h'

/-- Two computations that resemble a third one. -/
theorem between {p : Compile α} {p' : Compile γ} {q : Compile β} {R' : γ → β → Prop}
    (h : Resembles R p q) (h' : Resembles R' p' q) :
    Resembles (fun a a' => ∃ b, R a b ∧ R' a' b) p p' := by
  intro c
  obtain ⟨results, states⟩ := h c
  obtain ⟨results', states'⟩ := h' c
  refine ⟨?_, states'.symm.trans states⟩
  generalize (p.run c).1 = r at results ⊢
  generalize (p'.run c).1 = r' at results' ⊢
  generalize (q.run c).1 = s at results results'
  cases results with
  | ok h =>
    cases results' with
    | ok h' => exact .ok ⟨_, h, h'⟩
  | error h =>
    cases results' with
    | error h' => exact .error (h'.symm.trans h)

end Resembles

/-! ## Actions -/

theorem resembles_evaluate (host : Host) (e : Expr) :
    Resembles Eq (evaluate host e) (evaluate host e.bare) := by
  refine .bind_eq (.refl _) fun c => ?_
  obtain ⟨results, worlds⟩ := Eval.resembles_settled (Expr.resembles_bare host e) c.world
  change Matches Eq ((Expr.evaluate host e).run c.world).1 _ at results
  change _ = ((Expr.evaluate host e).run c.world).2 at worlds
  rcases hp : (Expr.evaluate host e).run c.world with ⟨r, w⟩
  rcases hq : (Expr.evaluate host e.bare).run c.world with ⟨r', w'⟩
  rw [hp] at results worlds
  change Matches Eq r ((Expr.evaluate host e.bare).run c.world).1 at results
  change ((Expr.evaluate host e.bare).run c.world).2 = w at worlds
  rw [hq] at results worlds
  cases worlds
  refine .bind_eq (.refl _) fun _ => ?_
  cases results with
  | ok h => exact .pure h
  | error h => exact .throw h

theorem isAssignment_bare (e : Expr) : e.bare.isAssignment = e.isAssignment := by
  cases e <;> rfl

theorem resembles_piecesText (host : Host) (ps : List Piece) :
    Resembles Eq (piecesText host ps) (piecesText host (ps.map Piece.bare)) := by
  induction ps with
  | nil => exact .refl _
  | cons p rest ih =>
    cases p with
    | text data s => exact ih.bind_eq fun _ => .refl _
    | mustache e s =>
      refine (resembles_evaluate host e).bind_eq fun v => ?_
      rw [isAssignment_bare]
      exact ih.bind_eq fun _ => .refl _

theorem resembles_attributeValue (host : Host) (a : Attribute) :
    Resembles Eq (attributeValue host a) (attributeValue host a.bare) := by
  obtain ⟨name, value, s⟩ := a
  cases value with
  | flag => exact .refl _
  | pieces ps =>
    have texts := (resembles_piecesText host ps).bind_eq fun s => .refl (pure (Value.string s))
    match ps with
    | [] => exact texts
    | [.text data s] => exact texts
    | [.mustache e s] => exact resembles_evaluate host e
    | .text data s :: p :: rest => exact texts
    | .mustache e s :: p :: rest => exact texts

theorem find?_bare (as : List Attribute) (name : String) :
    Attribute.find? (as.map Attribute.bare) name = (Attribute.find? as name).map Attribute.bare :=
  List.find?_map ..

theorem resembles_valueNamed (host : Host) (as : List Attribute) (name : String) :
    Resembles Eq (valueNamed host as name) (valueNamed host (as.map Attribute.bare) name) := by
  rw [valueNamed, valueNamed, find?_bare]
  cases Attribute.find? as name with
  | none => exact .refl _
  | some a => exact resembles_attributeValue host a

theorem resembles_roleOf (host : Host) (role : Option Role) (as : List Attribute) (s s' : Span) :
    Resembles Eq (roleOf host role as s) (roleOf host role (as.map Attribute.bare) s') := by
  cases role with
  | some role => exact .refl _
  | none =>
    refine (resembles_valueNamed host as "role").bind_eq fun v => ?_
    split
    · exact .refl _
    · exact .throw rfl

theorem resembles_toolIdOf (host : Host) (as : List Attribute) :
    Resembles Eq (toolIdOf host as) (toolIdOf host (as.map Attribute.bare)) := by
  rw [toolIdOf, toolIdOf, find?_bare]
  cases Attribute.find? as "id" with
  | none => exact .refl _
  | some a => exact (resembles_attributeValue host a).bind_eq fun _ => .refl _

theorem resembles_openMessage (host : Host) (role : Option Role) (as : List Attribute)
    (s s' : Span) :
    Resembles Eq (openMessage host role as s)
      (openMessage host role (as.map Attribute.bare) s') := by
  refine .bind_eq (.refl _) fun c => .ite (.throw rfl) (.bind_eq (.refl _) fun _ => ?_)
  refine (resembles_roleOf host role as s s').bind_eq fun role => ?_
  refine (resembles_toolIdOf host as).bind_eq fun id => ?_
  exact .ite (.throw rfl) (.refl _)

theorem resembles_openContent (kind : ContentKind) (s s' : Span) :
    Resembles Eq (openContent kind s) (openContent kind s') := by
  refine .bind_eq (.refl _) fun c => ?_
  cases c.draft with
  | none => exact .throw rfl
  | some d => exact .ite (.throw rfl) (.ite (.throw rfl) (.refl _))

theorem resembles_stepAttributes (host : Host) (as : List Attribute) (name : Option String)
    (config : Config) :
    Resembles Eq (stepAttributes host name config as)
      (stepAttributes host name config (as.map Attribute.bare)) := by
  induction as generalizing name config with
  | nil => exact .refl _
  | cons a rest ih =>
    refine (resembles_attributeValue host a).bind_eq fun v => ?_
    exact .ite (ih _ _) (ih _ _)

theorem resembles_respond (name : Option String) (s s' : Span) :
    Resembles Eq (respond name s) (respond name s') := by
  refine .bind_eq (.refl _) fun c => ?_
  cases c.response with
  | none => exact .throw rfl
  | some ps => exact .refl _

/-! ## Walks -/

/-- A walk of what is seen, which leaves what is seen of what the other walk leaves. -/
def SeenBy (p q : Compile Flow) : Prop := Resembles (fun flow flow' => flow' = flow.seen) p q

variable {p q : Compile Flow}

theorem SeenBy.done : SeenBy (pure .done) (pure .done) := .pure rfl

theorem SeenBy.leave (h : SeenBy p q) (s : Span) :
    SeenBy (p >>= leave s) (q >>= leave Span.none) := by
  refine h.bind ?_
  rintro (_ | rest) _ rfl
  · exact .bind_eq (.refl _) fun _ => SeenBy.done
  · exact .pure (by simp [Flow.seen, Node.seenAll, Node.seen])

theorem SeenBy.inFrame (h : SeenBy p q) (s : Span) :
    SeenBy (inFrame s p) (inFrame Span.none q) :=
  .bind_eq (.refl _) fun _ => h.leave s

theorem SeenBy.proceed {next next' : Compile Flow} (h : SeenBy p q) (rest : List Node)
    (hnext : SeenBy next next') :
    SeenBy (p >>= proceed rest next) (q >>= proceed (Node.seenAll rest) next') := by
  refine h.bind ?_
  rintro (_ | left) _ rfl
  · exact hnext
  · exact .pure (by rw [Flow.seen, Node.seenAll_append])

theorem resembles_forItems (h : SeenBy p q) (context : String) (index : Option String)
    (s s' : Span) (items : List Value) (i : Nat) :
    Resembles Eq (forItems context index s p i items) (forItems context index s' q i items) := by
  induction items generalizing i with
  | nil => exact .refl _
  | cons v rest ih =>
    refine .bind_eq (.refl _) fun _ => h.bind ?_
    rintro (_ | left) _ rfl
    · exact .bind_eq (.refl _) fun _ => ih _
    · exact .throw rfl

/-- A walk of one node after another. -/
theorem walkAll_append (host : Host) (ns ms : List Node) :
    walkAll host (ns ++ ms) = walkAll host ns >>= proceed ms (walkAll host ms) := by
  induction ns with
  | nil => rw [List.nil_append, walkAll, pure_bind]; rfl
  | cons a ns ih =>
    rw [List.cons_append, walkAll, walkAll, bind_assoc]
    refine congrArg (_ >>= ·) (funext fun flow => ?_)
    cases flow with
    | done => exact ih
    | suspended left => simp [Compile.proceed]

theorem walkAll_singleton (host : Host) (a : Node) : walkAll host [a] = walk host a := by
  rw [walkAll]
  conv_rhs => rw [← bind_pure (walk host a)]
  refine congrArg (_ >>= ·) (funext fun flow => ?_)
  cases flow with
  | done => rw [Compile.proceed, walkAll]
  | suspended left => rw [Compile.proceed, List.append_nil]

/-! ## Literal text -/

theorem emit_append (s t : String) : emit (s ++ t) = emit s >>= fun _ => emit t := by
  refine funext fun c => congrArg (Except.ok (), ·) ?_
  obtain ⟨world, response, messages, text, _ | ⟨role, id, parts, outside, _ | inside⟩⟩ := c
  all_goals simp [Draft.emit, String.append_assoc]

theorem emit_empty : emit "" = pure () := by
  refine funext fun c => congrArg (Except.ok (), ·) ?_
  obtain ⟨world, response, messages, text, _ | ⟨role, id, parts, outside, _ | inside⟩⟩ := c
  all_goals simp [Draft.emit]

/-- A text is put out character by character. -/
theorem walkAll_characters (host : Host) (cs : List Char) :
    walkAll host (cs.map Node.character) = (do emit (String.ofList cs); return .done) := by
  induction cs with
  | nil =>
    rw [List.map_nil, walkAll, show String.ofList [] = "" from rfl, emit_empty, pure_bind]
  | cons x cs ih =>
    have text : String.ofList (x :: cs) = String.ofList [x] ++ String.ofList cs := by
      rw [← String.ofList_append, List.singleton_append]
    rw [List.map_cons, walkAll, Node.character, walk, ih, text, emit_append, bind_assoc, bind_assoc]
    rfl

/-! ## Walks over what is seen -/

mutual

theorem seenBy_walk (host : Host) (a : Node) :
    SeenBy (walk host a) (walkAll host a.seen) := by
  match a with
  | .text data s =>
    rw [Node.seen, walkAll_characters, String.ofList_toList]
    exact .bind_eq (.refl _) fun _ => SeenBy.done
  | .comment .. => exact SeenBy.done
  | .config value s =>
    rw [Node.seen, walkAll_singleton]
    exact .bind_eq (.refl _) fun _ => SeenBy.done
  | .mustache e s =>
    rw [Node.seen, walkAll_singleton]
    refine (resembles_evaluate host e).bind_eq fun v => ?_
    rw [isAssignment_bare]
    exact .ite (.bind_eq (.refl _) fun _ => SeenBy.done) SeenBy.done
  | .message role as children s =>
    rw [Node.seen, walkAll_singleton]
    refine (resembles_openMessage host role as s Span.none).bind_eq fun _ => ?_
    refine (seenBy_walkAll host children).bind fun _ _ _ => ?_
    exact .bind_eq (.refl _) fun _ => SeenBy.done
  | .content kind as children s =>
    rw [Node.seen, walkAll_singleton]
    refine (resembles_openContent kind s Span.none).bind_eq fun _ => ?_
    refine (seenBy_walkAll host children).bind fun _ _ _ => ?_
    exact .bind_eq (.refl _) fun _ => SeenBy.done
  | .reference as s =>
    rw [Node.seen, walkAll_singleton]
    exact .throw rfl
  | .step as children s =>
    rw [Node.seen, walkAll_singleton]
    refine (resembles_stepAttributes host as none []).bind_eq fun (name, config) => ?_
    refine (seenBy_walkAll host children).bind ?_
    rintro (_ | rest) _ rfl
    · exact .bind_eq (.refl _) fun _ => .bind_eq (.refl _) fun _ => .pure rfl
    · exact .throw rfl
  | .ifBlock e consequent alternate s =>
    rw [Node.seen, walkAll_singleton]
    refine (resembles_evaluate host e).bind_eq fun v => ?_
    exact .ite ((seenBy_walkAll host consequent).inFrame s) (seenBy_walkOption host s alternate)
  | .eachBlock e context index body alternate s =>
    rw [Node.seen, walkAll_singleton]
    refine (resembles_evaluate host e).bind_eq fun v => .ite ?_ ?_
    · refine (seenBy_walkOption host s alternate).bind ?_
      rintro (_ | rest) _ rfl
      · exact SeenBy.done
      · exact .throw rfl
    · have items := resembles_forItems (seenBy_walkAll host body) context index s Span.none
      exact (items _ _).bind_eq fun _ => SeenBy.done
  | .scoped children s =>
    rw [Node.seen, walkAll_singleton]
    exact (seenBy_walkAll host children).leave s
  | .response name s =>
    rw [Node.seen, walkAll_singleton]
    exact (resembles_respond name s Span.none).bind_eq fun _ => SeenBy.done

theorem seenBy_walkAll (host : Host) (ns : List Node) :
    SeenBy (walkAll host ns) (walkAll host (Node.seenAll ns)) := by
  match ns with
  | [] => exact SeenBy.done
  | a :: rest =>
    rw [Node.seenAll, walkAll, walkAll_append]
    exact (seenBy_walk host a).proceed rest (seenBy_walkAll host rest)

theorem seenBy_walkOption (host : Host) (s : Span) (alternate : Option (List Node)) :
    SeenBy (walkOption host s alternate)
      (walkOption host Span.none (Node.seenOption alternate)) := by
  match alternate with
  | none => exact SeenBy.done
  | some ns => exact (seenBy_walkAll host ns).inFrame s

end

/-- Templates of which the same is seen are compiled alike. -/
theorem resembles_whole (host : Host) {f g : Fragment}
    (h : Node.seenAll g.children = Node.seenAll f.children) :
    Resembles (fun flow flow' => flow'.seen = flow.seen) (whole host f) (whole host g) := by
  have walks := (seenBy_walkAll host f.children).between (h ▸ seenBy_walkAll host g.children)
  refine walks.bind ?_
  rintro flow flow' ⟨_, rfl, same⟩
  exact .bind_eq (.refl _) fun _ => .pure same.symm

end Compile

end PromptTemplate
