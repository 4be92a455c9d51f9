import PromptTemplate.Proofs.Run
import PromptTemplate.Template.Parser

/-!
# The nesting of what is read

Every node that is read stands where it may: messages not in messages, content tags in
messages, steps neither in messages nor in each blocks nor in steps. A config block stands
only at the beginning, and the nodes of what a compilation leaves are not read at all.
-/

namespace PromptTemplate

open Template Text

mutual

/-- Whether a node, with all nodes inside it, may stand inside some tags and blocks. -/
def Node.Placed (n : Nesting) : Node → Prop
  | .text .. | .mustache .. | .comment .. | .reference .. => True
  | .message role _ children _ =>
    ∃ inside, (ElementKind.message role).enter n = .ok inside ∧ Node.AllPlaced inside children
  | .content kind _ children _ =>
    ∃ inside, (ElementKind.content kind).enter n = .ok inside ∧ Node.AllPlaced inside children
  | .step _ children _ =>
    ∃ inside, ElementKind.step.enter n = .ok inside ∧ Node.AllPlaced inside children
  | .ifBlock _ consequent alternate _ =>
    Node.AllPlaced n consequent ∧ Node.OptionPlaced n alternate
  | .eachBlock _ _ _ body alternate _ =>
    Node.AllPlaced { n with inEach := true } body ∧
      Node.OptionPlaced { n with inEach := true } alternate
  | .config .. | .scoped .. | .response .. => False

def Node.AllPlaced (n : Nesting) : List Node → Prop
  | [] => True
  | a :: rest => Node.Placed n a ∧ Node.AllPlaced n rest

def Node.OptionPlaced (n : Nesting) : Option (List Node) → Prop
  | none => True
  | some nodes => Node.AllPlaced n nodes

end

namespace Template

variable {n : Nesting}

theorem allPlaced_iff {nodes : List Node} :
    Node.AllPlaced n nodes ↔ ∀ a ∈ nodes, a.Placed n := by
  induction nodes with
  | nil => simp [Node.AllPlaced]
  | cons a rest ih => simp [Node.AllPlaced, ih]

theorem allPlaced_append {nodes more : List Node} (h : Node.AllPlaced n nodes)
    (hmore : Node.AllPlaced n more) : Node.AllPlaced n (nodes ++ more) := by
  rw [allPlaced_iff] at *
  exact List.forall_mem_append.mpr ⟨h, hmore⟩

/-- Inside something is not at the top. -/
theorem ne_none_of (flag : Nesting → Bool) (outside : flag Nesting.none = false)
    (inside : flag n = true) : n ≠ Nesting.none := by
  rintro rfl
  rw [outside] at inside
  cases inside

theorem enter_message {role : Option Role} {inside : Nesting} :
    (ElementKind.message role).enter n = .ok inside ↔
      n.inMessage = false ∧ inside = { n with inMessage := true } := by
  cases h : n.inMessage <;> simp [ElementKind.enter, h, eq_comm]

theorem enter_content {kind : ContentKind} {inside : Nesting} :
    (ElementKind.content kind).enter n = .ok inside ↔
      n.inMessage = true ∧ n.inContent = false ∧ inside = { n with inContent := true } := by
  cases h : n.inMessage <;> cases h' : n.inContent <;> simp [ElementKind.enter, h, h', eq_comm]

theorem enter_step {inside : Nesting} :
    ElementKind.step.enter n = .ok inside ↔
      n.inMessage = false ∧ n.inStep = false ∧ n.inEach = false ∧
        inside = { n with inStep := true } := by
  cases h : n.inMessage <;> cases h' : n.inStep <;> cases h'' : n.inEach <;>
    simp [ElementKind.enter, h, h', h'', eq_comm]

/-! ## Blocks -/

theorem allPlaced_trimFirst {nodes : List Node} (h : Node.AllPlaced n nodes) :
    Node.AllPlaced n (trimFirst nodes) := by
  simp only [trimFirst]
  split
  · exact ⟨trivial, h.2⟩
  · exact h

theorem allPlaced_trimLast {nodes : List Node} (h : Node.AllPlaced n nodes) :
    Node.AllPlaced n (trimLast nodes) := by
  induction nodes with
  | nil => exact h
  | cons a rest ih =>
    unfold trimLast
    split
    · trivial
    · exact ⟨trivial, trivial⟩
    · rename_i heq
      cases heq
      exact ⟨h.1, ih h.2⟩

theorem allPlaced_trimBlock {nodes : List Node} (h : Node.AllPlaced n nodes) :
    Node.AllPlaced n (trimBlock nodes) := by
  have trimmed := allPlaced_iff.mp (allPlaced_trimLast (allPlaced_trimFirst h))
  exact allPlaced_iff.mpr fun a ha => trimmed a (List.mem_filter.mp ha).1

theorem placed_node {kind : ElementKind} {inside : Nesting} (h : kind.enter n = .ok inside)
    {children : List Node} (hc : Node.AllPlaced inside children) (as : List Attribute)
    (s : Span) : (kind.node as children s).Placed n := by
  cases kind with
  | reference => trivial
  | message role => exact ⟨inside, h, hc⟩
  | content kind => exact ⟨inside, h, hc⟩
  | step => exact ⟨inside, h, hc⟩

/-! ## Nodes -/

theorem yields_comment (opening closing : List Char) (c : Cursor) (h : c.rest ≠ [])
    (ho : 0 < opening.length) :
    Yields (fun r => r.1.Placed n) (comment opening closing c h ho) := by
  rw [comment]
  split
  · exact .error _
  · exact .ok trivial

mutual

theorem yields_nodes (n : Nesting) (c : Cursor) :
    Yields (fun r => Node.AllPlaced n r.1) (nodes n c) := by
  rw [nodes]
  have shorter := Cursor.length_skip_le c (literal c.rest).2
  have first : Node.AllPlaced n (if (literal c.rest).1.isEmpty then []
      else [Node.text (String.ofList (literal c.rest).1)
        (c.span (c.skip (literal c.rest).2))]) := by
    split
    · trivial
    · exact ⟨trivial, trivial⟩
  dsimp only
  split
  · exact .ok first
  · refine .bind (yields_item n _ _) ?_
    rintro ⟨a | stop, e, he⟩ ha
    · refine .bind (yields_nodes n e) ?_
      rintro ⟨more, stop⟩ hmore
      exact .ok (allPlaced_append first ⟨ha a rfl, hmore⟩)
    · exact .ok first
termination_by c.rest.length * 4 + 2

theorem yields_item (n : Nesting) (c : Cursor) (h : c.rest ≠ []) :
    Yields (fun r => ∀ a, r.1 = .inl a → a.Placed n) (item n c h) := by
  rw [item]
  have node : ∀ {a : Node} {d : c.Shorter}, a.Placed n →
      Yields (fun r => ∀ a, r.1 = .inl a → a.Placed n)
        (.ok (.inl a, d) : Except Error ((Node ⊕ Stop) × c.Shorter)) :=
    fun ha => .ok fun b hb => Sum.inl.inj hb ▸ ha
  have stop : ∀ {s : Stop} {d : c.Shorter},
      Yields (fun r => ∀ a, r.1 = .inl a → a.Placed n)
        (.ok (.inr s, d) : Except Error ((Node ⊕ Stop) × c.Shorter)) :=
    .ok fun _ hb => absurd hb Sum.inr_ne_inl
  split
  · exact .bind (yields_comment _ _ c h _) fun _ ha => node ha
  · split
    · exact .bind (yields_comment _ _ c h _) fun _ ha => node ha
    · split
      · refine .bind (.any _) ?_
        rintro ⟨_ | e | header | _ | _, d, hd⟩ _
        · exact node trivial
        · exact .bind (yields_ifRest n _ e d) fun _ ha => node ha
        · exact .bind (yields_eachRest n _ header d) fun _ ha => node ha
        · exact stop
        · exact stop
      · split
        · exact .bind (.any _) fun _ _ => stop
        · exact .bind (yields_element n c h) fun _ ha => node ha
termination_by c.rest.length * 4 + 1

theorem yields_ifRest (n : Nesting) (start : Position) (condition : Expr) (c : Cursor) :
    Yields (fun r => r.1.Placed n) (ifRest n start condition c) := by
  rw [ifRest]
  refine .bind (yields_nodes n c) ?_
  rintro ⟨consequent, stop⟩ hconsequent
  have first := allPlaced_trimBlock hconsequent
  dsimp only
  split
  · exact .ok ⟨first, trivial⟩
  · refine .bind (yields_nodes n _) ?_
    rintro ⟨alternate, stop⟩ halternate
    dsimp only
    split
    · exact .ok ⟨first, allPlaced_trimBlock halternate⟩
    · exact .error _
  · refine .bind (yields_ifRest n _ _ _) ?_
    intro _ hnested
    exact .ok ⟨first, hnested, trivial⟩
  · exact .error _
termination_by c.rest.length * 4 + 3

theorem yields_eachRest (n : Nesting) (start : Position) (header : EachHeader) (c : Cursor) :
    Yields (fun r => r.1.Placed n) (eachRest n start header c) := by
  rw [eachRest]
  refine .bind (yields_nodes { n with inEach := true } c) ?_
  rintro ⟨body, stop⟩ hbody
  have first := allPlaced_trimBlock hbody
  dsimp only
  split
  · exact .ok ⟨first, trivial⟩
  · refine .bind (yields_nodes { n with inEach := true } _) ?_
    rintro ⟨alternate, stop⟩ halternate
    dsimp only
    split
    · exact .ok ⟨first, allPlaced_trimBlock halternate⟩
    · exact .error _
  · exact .error _
  · exact .error _
termination_by c.rest.length * 4 + 3

theorem yields_element (n : Nesting) (c : Cursor) (h : c.rest ≠ []) :
    Yields (fun r => r.1.Placed n) (element n c h) := by
  rw [element]
  refine .bind (.any _) ?_
  rintro ⟨opening, d, hd⟩ _
  dsimp only
  split
  · exact .error _
  · split
    · exact .error _
    · rename_i inside hinside
      split
      · exact .ok (placed_node hinside (show Node.AllPlaced inside [] from trivial) _ _)
      · refine .bind (yields_nodes inside d) ?_
        rintro ⟨children, stop⟩ hchildren
        dsimp only
        split
        · split
          · exact .ok (placed_node hinside hchildren _ _)
          · exact .error _
        · exact .error _
        · exact .error _
termination_by c.rest.length * 4

end

theorem yields_configBlock (c : Cursor) :
    Yields (fun r => ∀ a, r.1 = some a → ∃ v s, a = .config v s) (configBlock c) := by
  rw [configBlock]
  dsimp only
  split
  · refine .ok fun a ha => ?_
    cases ha
  · split
    · exact .error _
    · split
      · exact .error _
      · refine .ok fun a ha => ?_
        cases ha
        exact ⟨_, _, rfl⟩

end Template

/-- A template as it is written: perhaps a config block, and then nodes that stand where
they may. -/
def Fragment.WellNested (f : Fragment) : Prop :=
  ∃ front : Option (Config × Span), ∃ nodes,
    f.children = (front.map fun (v, s) => Node.config v s).toList ++ nodes ∧
      Node.AllPlaced Nesting.none nodes

theorem Fragment.read_of_ofText {source : String} {f : Fragment}
    (h : Fragment.ofText source = .ok f) : Template.read source.toList = .ok f := by
  rw [Fragment.ofText] at h
  split at h
  · rename_i found
    exact found.trans h
  · cases h

theorem Fragment.wellNested_of_ofText {source : String} {f : Fragment}
    (h : Fragment.ofText source = .ok f) : f.WellNested := by
  have read : Yields Fragment.WellNested (Template.read source.toList) := by
    rw [Template.read]
    refine .bind (yields_configBlock _) ?_
    rintro ⟨config, c⟩ hconfig
    refine .bind (yields_nodes Nesting.none c) ?_
    rintro ⟨children, stop⟩ hchildren
    dsimp only
    split
    · exact .error _
    · refine .ok ?_
      cases config with
      | none => exact ⟨none, children, rfl, hchildren⟩
      | some a =>
        obtain ⟨v, s, rfl⟩ := hconfig a rfl
        exact ⟨some (v, s), children, rfl, hchildren⟩
  exact read f (Fragment.read_of_ofText h)

end PromptTemplate
