import PromptTemplate.Proofs.Template.Nesting

/-!
# The nodes around a node

All nodes of a template are listed with the nodes around them. In a template that can be
read no message is in a message, every content tag is in exactly one message and in no
content tag, no step is in a message, a step or an each block, and a config block stands
only at the beginning.
-/

namespace PromptTemplate

open Template

namespace Node

def isMessage : Node → Bool
  | .message .. => true
  | _ => false

def isContent : Node → Bool
  | .content .. => true
  | _ => false

def isStep : Node → Bool
  | .step .. => true
  | _ => false

def isIf : Node → Bool
  | .ifBlock .. => true
  | _ => false

def isEach : Node → Bool
  | .eachBlock .. => true
  | _ => false

def isConfig : Node → Bool
  | .config .. => true
  | _ => false

mutual

/-- A node and all nodes inside it, each with the nodes around it, the innermost first. -/
def occurrences (around : List Node) : Node → List (List Node × Node)
  | .message role as children s =>
    (around, .message role as children s) ::
      occurrencesAll (.message role as children s :: around) children
  | .content kind as children s =>
    (around, .content kind as children s) ::
      occurrencesAll (.content kind as children s :: around) children
  | .step as children s =>
    (around, .step as children s) :: occurrencesAll (.step as children s :: around) children
  | .scoped children s =>
    (around, .scoped children s) :: occurrencesAll (.scoped children s :: around) children
  | .ifBlock e consequent alternate s =>
    (around, .ifBlock e consequent alternate s) ::
      (occurrencesAll (.ifBlock e consequent alternate s :: around) consequent ++
        occurrencesOption (.ifBlock e consequent alternate s :: around) alternate)
  | .eachBlock e context index body alternate s =>
    (around, .eachBlock e context index body alternate s) ::
      (occurrencesAll (.eachBlock e context index body alternate s :: around) body ++
        occurrencesOption (.eachBlock e context index body alternate s :: around) alternate)
  | a => [(around, a)]

def occurrencesAll (around : List Node) : List Node → List (List Node × Node)
  | [] => []
  | a :: rest => occurrences around a ++ occurrencesAll around rest

def occurrencesOption (around : List Node) : Option (List Node) → List (List Node × Node)
  | none => []
  | some nodes => occurrencesAll around nodes

end

mutual

theorem map_occurrences : ∀ (a : Node) (around : List Node),
    (a.occurrences around).map Prod.snd = a.walk
  | .message _ _ children _, around | .content _ _ children _, around
  | .step _ children _, around | .scoped children _, around => by
    simp [occurrences, walk, map_occurrencesAll children]
  | .ifBlock _ consequent alternate _, around => by
    simp [occurrences, walk, map_occurrencesAll consequent, map_occurrencesOption alternate]
  | .eachBlock _ _ _ body alternate _, around => by
    simp [occurrences, walk, map_occurrencesAll body, map_occurrencesOption alternate]
  | .text .., _ | .config .., _ | .mustache .., _ | .comment .., _ | .reference .., _
  | .response .., _ => rfl

theorem map_occurrencesAll : ∀ (nodes : List Node) (around : List Node),
    (occurrencesAll around nodes).map Prod.snd = walkAll nodes
  | [], _ => rfl
  | a :: rest, around => by
    simp [occurrencesAll, walkAll, map_occurrences a, map_occurrencesAll rest]

theorem map_occurrencesOption : ∀ (nodes : Option (List Node)) (around : List Node),
    (occurrencesOption around nodes).map Prod.snd = walkOption nodes
  | none, _ => rfl
  | some nodes, around => map_occurrencesAll nodes around

end

/-- The nodes around a place, counted by kind. -/
structure Counted (n : Nesting) (around : List Node) : Prop where
  messages : around.countP isMessage = n.inMessage.toNat
  contents : around.countP isContent = n.inContent.toNat
  steps : around.countP isStep = n.inStep.toNat
  blocks : around.any isEach = n.inEach

theorem counted_nil : Counted Nesting.none [] := ⟨rfl, rfl, rfl, rfl⟩

namespace Counted

variable {n : Nesting} {around : List Node}

/-- Inside one more node, which may be counted. -/
theorem cons (h : Counted n around) {inside : Nesting} (a : Node)
    (messages : inside.inMessage.toNat = n.inMessage.toNat + if a.isMessage then 1 else 0)
    (contents : inside.inContent.toNat = n.inContent.toNat + if a.isContent then 1 else 0)
    (steps : inside.inStep.toNat = n.inStep.toNat + if a.isStep then 1 else 0)
    (blocks : inside.inEach = (a.isEach || n.inEach)) : Counted inside (a :: around) := by
  constructor
  · rw [List.countP_cons, h.messages, messages]
  · rw [List.countP_cons, h.contents, contents]
  · rw [List.countP_cons, h.steps, steps]
  · rw [List.any_cons, h.blocks, blocks]

theorem message (h : Counted n around) (outside : n.inMessage = false) (role : Option Role)
    (as : List Attribute) (children : List Node) (s : Span) :
    Counted { n with inMessage := true } (.message role as children s :: around) :=
  h.cons _ (by rw [outside]; rfl) rfl rfl rfl

theorem content (h : Counted n around) (outside : n.inContent = false) (kind : ContentKind)
    (as : List Attribute) (children : List Node) (s : Span) :
    Counted { n with inContent := true } (.content kind as children s :: around) :=
  h.cons _ rfl (by rw [outside]; rfl) rfl rfl

theorem step (h : Counted n around) (outside : n.inStep = false) (as : List Attribute)
    (children : List Node) (s : Span) :
    Counted { n with inStep := true } (.step as children s :: around) :=
  h.cons _ rfl rfl (by rw [outside]; rfl) rfl

theorem ifBlock (h : Counted n around) (e : Expr) (consequent : List Node)
    (alternate : Option (List Node)) (s : Span) :
    Counted n (.ifBlock e consequent alternate s :: around) :=
  h.cons _ rfl rfl rfl rfl

theorem eachBlock (h : Counted n around) (e : Expr) (context : String) (index : Option String)
    (body : List Node) (alternate : Option (List Node)) (s : Span) :
    Counted { n with inEach := true }
      (.eachBlock e context index body alternate s :: around) :=
  h.cons _ rfl rfl rfl rfl

end Counted

/-- Whether a node may stand inside some nodes. -/
structure Proper (around : List Node) (a : Node) : Prop where
  message : a.isMessage = true → around.countP isMessage = 0
  content : a.isContent = true → around.countP isMessage = 1 ∧ around.countP isContent = 0
  step : a.isStep = true → ∀ b ∈ around,
    b.isMessage = false ∧ b.isStep = false ∧ b.isEach = false

/-- A node that may stand anywhere. -/
theorem proper_anywhere {around : List Node} {a : Node} (ha : a.isMessage = false ∧
    a.isContent = false ∧ a.isStep = false) : Proper around a := by
  obtain ⟨hmessage, hcontent, hstep⟩ := ha
  exact ⟨by simp [hmessage], by simp [hcontent], by simp [hstep]⟩

theorem proper_message {n : Nesting} {around : List Node} (h : Counted n around)
    (outside : n.inMessage = false) {role : Option Role} {as : List Attribute}
    {children : List Node} {s : Span} : Proper around (.message role as children s) := by
  refine ⟨fun _ => ?_, by simp [isContent], by simp [isStep]⟩
  rw [h.messages, outside]
  rfl

theorem proper_content {n : Nesting} {around : List Node} (h : Counted n around)
    (within : n.inMessage = true) (outside : n.inContent = false) {kind : ContentKind}
    {as : List Attribute} {children : List Node} {s : Span} :
    Proper around (.content kind as children s) := by
  refine ⟨by simp [isMessage], fun _ => ?_, by simp [isStep]⟩
  rw [h.messages, h.contents, within, outside]
  exact ⟨rfl, rfl⟩

theorem proper_step {n : Nesting} {around : List Node} (h : Counted n around)
    (hmessage : n.inMessage = false) (hstep : n.inStep = false) (heach : n.inEach = false)
    {as : List Attribute} {children : List Node} {s : Span} :
    Proper around (.step as children s) := by
  refine ⟨by simp [isMessage], by simp [isContent], fun _ b hb => ?_⟩
  have no_message : around.countP isMessage = 0 := by rw [h.messages, hmessage]; rfl
  have no_step : around.countP isStep = 0 := by rw [h.steps, hstep]; rfl
  have no_each : around.any isEach = false := by rw [h.blocks, heach]
  rw [List.countP_eq_zero] at no_message no_step
  rw [List.any_eq_false] at no_each
  exact ⟨by simpa using no_message b hb, by simpa using no_step b hb,
    by simpa using no_each b hb⟩

mutual

/-- Nodes that stand where they may by the parser's flags may stand inside the nodes that are
around them, and none of them is a config block. -/
theorem proper_of_placed : ∀ (a : Node) {n : Nesting} {around : List Node}, a.Placed n →
    Counted n around → ∀ p ∈ a.occurrences around, Proper p.1 p.2 ∧ p.2.isConfig = false
  | .text .., _, _, _, _ | .mustache .., _, _, _, _ | .comment .., _, _, _, _
  | .reference .., _, _, _, _ =>
    List.forall_mem_singleton.mpr ⟨proper_anywhere ⟨rfl, rfl, rfl⟩, rfl⟩
  | .message role as children s, n, around, h, counted => by
    obtain ⟨inside, hinside, hchildren⟩ := h
    obtain ⟨outside, rfl⟩ := enter_message.mp hinside
    refine List.forall_mem_cons.mpr ⟨⟨proper_message counted outside, rfl⟩, ?_⟩
    exact proper_of_allPlaced children hchildren (counted.message outside ..)
  | .content kind as children s, n, around, h, counted => by
    obtain ⟨inside, hinside, hchildren⟩ := h
    obtain ⟨within, outside, rfl⟩ := enter_content.mp hinside
    refine List.forall_mem_cons.mpr ⟨⟨proper_content counted within outside, rfl⟩, ?_⟩
    exact proper_of_allPlaced children hchildren (counted.content outside ..)
  | .step as children s, n, around, h, counted => by
    obtain ⟨inside, hinside, hchildren⟩ := h
    obtain ⟨hmessage, hstep, heach, rfl⟩ := enter_step.mp hinside
    refine List.forall_mem_cons.mpr ⟨⟨proper_step counted hmessage hstep heach, rfl⟩, ?_⟩
    exact proper_of_allPlaced children hchildren (counted.step hstep ..)
  | .ifBlock e consequent alternate s, n, around, h, counted => by
    have inside := counted.ifBlock e consequent alternate s
    refine List.forall_mem_cons.mpr ⟨⟨proper_anywhere ⟨rfl, rfl, rfl⟩, rfl⟩, ?_⟩
    exact List.forall_mem_append.mpr ⟨proper_of_allPlaced consequent h.1 inside,
      proper_of_optionPlaced alternate h.2 inside⟩
  | .eachBlock e context index body alternate s, n, around, h, counted => by
    have inside := counted.eachBlock e context index body alternate s
    refine List.forall_mem_cons.mpr ⟨⟨proper_anywhere ⟨rfl, rfl, rfl⟩, rfl⟩, ?_⟩
    exact List.forall_mem_append.mpr ⟨proper_of_allPlaced body h.1 inside,
      proper_of_optionPlaced alternate h.2 inside⟩
  | .config .., _, _, h, _ | .scoped .., _, _, h, _ | .response .., _, _, h, _ =>
    False.elim h

theorem proper_of_allPlaced : ∀ (nodes : List Node) {n : Nesting} {around : List Node},
    AllPlaced n nodes → Counted n around →
      ∀ p ∈ occurrencesAll around nodes, Proper p.1 p.2 ∧ p.2.isConfig = false
  | [], _, _, _, _ => List.forall_mem_nil _
  | a :: rest, _, _, h, counted =>
    List.forall_mem_append.mpr ⟨proper_of_placed a h.1 counted,
      proper_of_allPlaced rest h.2 counted⟩

theorem proper_of_optionPlaced : ∀ (nodes : Option (List Node)) {n : Nesting}
    {around : List Node}, OptionPlaced n nodes → Counted n around →
      ∀ p ∈ occurrencesOption around nodes, Proper p.1 p.2 ∧ p.2.isConfig = false
  | none, _, _, _, _ => List.forall_mem_nil _
  | some nodes, _, _, h, counted => proper_of_allPlaced nodes h counted

end

/-- There is no config block among nodes that may stand at the top. -/
theorem not_isConfig_of_allPlaced {nodes : List Node} (h : AllPlaced Nesting.none nodes) :
    ∀ x ∈ walkAll nodes, x.isConfig = false := by
  intro x hx
  rw [← map_occurrencesAll nodes []] at hx
  obtain ⟨p, hp, rfl⟩ := List.mem_map.mp hx
  exact (proper_of_allPlaced nodes h counted_nil p hp).2

end Node

namespace Fragment

/-- All nodes of a template with those around them. -/
def occurrences (f : Fragment) : List (List Node × Node) := Node.occurrencesAll [] f.children

/-- What the tags of a template say about each other. -/
structure ProperlyNested (f : Fragment) : Prop where
  proper : ∀ p ∈ f.occurrences, Node.Proper p.1 p.2
  config : ∀ p ∈ f.occurrences, p.2.isConfig = true → p.1 = [] ∧ f.children.head? = some p.2
  config_once : f.walk.countP Node.isConfig ≤ 1

theorem WellNested.properlyNested {f : Fragment} (h : f.WellNested) : f.ProperlyNested := by
  obtain ⟨front, nodes, hchildren, hnodes⟩ := h
  have below := Node.proper_of_allPlaced nodes hnodes Node.counted_nil
  have no_config : (Node.walkAll nodes).countP Node.isConfig = 0 := by
    rw [List.countP_eq_zero]
    intro x hx
    simp [Node.not_isConfig_of_allPlaced hnodes x hx]
  cases front with
  | none =>
    obtain rfl : f.children = nodes := hchildren
    constructor
    · exact fun p hp => (below p hp).1
    · intro p hp hconfig
      rw [(below p hp).2] at hconfig
      cases hconfig
    · exact Nat.le_trans (Nat.le_of_eq no_config) (Nat.zero_le 1)
  | some found =>
    obtain ⟨v, s⟩ := found
    have listed : f.occurrences = ([], .config v s) :: Node.occurrencesAll [] nodes := by
      rw [occurrences, hchildren]
      rfl
    constructor
    · rw [listed]
      exact List.forall_mem_cons.mpr
        ⟨Node.proper_anywhere ⟨rfl, rfl, rfl⟩, fun p hp => (below p hp).1⟩
    · rw [listed]
      refine List.forall_mem_cons.mpr
        ⟨fun _ => ⟨rfl, by rw [hchildren]; rfl⟩, fun p hp hconfig => ?_⟩
      rw [(below p hp).2] at hconfig
      cases hconfig
    · have counted : f.walk.countP Node.isConfig =
          (Node.walkAll nodes).countP Node.isConfig + 1 := by
        rw [walk, hchildren]
        exact List.countP_cons_of_pos rfl
      omega

end Fragment

end PromptTemplate
