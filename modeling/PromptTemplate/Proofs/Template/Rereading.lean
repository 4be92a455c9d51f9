import PromptTemplate.Metadata
import PromptTemplate.Proofs.Template.Decomposition
import PromptTemplate.Proofs.Template.Fences
import PromptTemplate.Proofs.Template.Joining
import PromptTemplate.Proofs.Template.Recomposition

/-!
# Texts and their stretches

A text that is read has a config block, perhaps, and then the stretches of its nodes. A text of
lexemes that write an outline is read if its nodes stand where they may, and then it has that
outline.
-/

namespace PromptTemplate

open Text Text.Cursor Template

/-- The parts of a text that is read: what its nodes begin after, and their stretches. -/
structure Template.Read (cs : List Char) (f : Fragment) (config : Option Node) (c : Cursor)
    (ss : List Stretch) : Prop where
  headed : Headed cs config c
  text : c.rest = Stretch.textAll ss
  fits : Stretch.AllFit [] ss
  located : Stretch.Located c.position ss
  tree : ∃ children, f.children = config.toList ++ children ∧ Tree ss children ∧
    Node.AllPlaced Nesting.none children

theorem Fragment.exists_stretches {source : String} {f : Fragment}
    (h : Fragment.ofText source = .ok f) : ∃ config c ss, Template.Read source.toList f config c ss := by
  have read : Yields (fun f => ∃ config c ss, Template.Read source.toList f config c ss)
      (Template.read source.toList) := by
    rw [Template.read]
    refine .bind (fun r hr => headed_of_configBlock hr) ?_
    rintro ⟨config, c⟩ headed
    refine .bind (fun r hr => And.intro (parts_nodes Nesting.none c r hr)
      (yields_nodes Nesting.none c r hr)) ?_
    rintro ⟨children, stop⟩ ⟨⟨ss, d, covers, tree, hstop⟩, placed⟩
    dsimp only
    split
    · exact .error _
    · have done : d.rest = [] := hstop
      refine .ok ⟨config, c, ss, headed, ?_, ?_, covers.located, children, rfl, tree, placed⟩
      · rw [covers.takes.rest, done, List.append_nil]
      · rw [← done]
        exact covers.fits
  exact read f (Fragment.read_of_ofText h)

/-! ## Config blocks and reference tags -/

namespace Node

/-- A config block with its place. -/
def config? : Node → Option (Config × Span)
  | .config value s => some (value, s)
  | _ => none

mutual

/-- There is no config block among nodes that stand where they may. -/
theorem config?_walk {n : Nesting} {a : Node} (h : a.Placed n) : a.walk.findSome? config? = none :=
  match a with
  | .text .. | .mustache .. | .comment .. | .reference .. => rfl
  | .message _ _ children _ | .content _ _ children _ | .step _ children _ => by
    obtain ⟨m, -, hchildren⟩ := h
    exact config?_walkAll hchildren
  | .ifBlock _ consequent alternate _ => by
    obtain ⟨hconsequent, halternate⟩ := h
    refine (List.findSome?_cons_of_isNone rfl).trans ?_
    rw [List.findSome?_append, config?_walkAll hconsequent, config?_walkOption halternate]
    rfl
  | .eachBlock _ _ _ body alternate _ => by
    obtain ⟨hbody, halternate⟩ := h
    refine (List.findSome?_cons_of_isNone rfl).trans ?_
    rw [List.findSome?_append, config?_walkAll hbody, config?_walkOption halternate]
    rfl
  | .config .. | .scoped .. | .response .. => h.elim

theorem config?_walkAll {n : Nesting} {ns : List Node} (h : AllPlaced n ns) :
    (walkAll ns).findSome? config? = none :=
  match ns with
  | [] => rfl
  | a :: rest => by
    rw [walkAll, List.findSome?_append, config?_walk h.1, config?_walkAll h.2]
    rfl

theorem config?_walkOption {n : Nesting} {alternate : Option (List Node)}
    (h : OptionPlaced n alternate) : (walkOption alternate).findSome? config? = none :=
  match alternate with
  | none => rfl
  | some _ => config?_walkAll h

end

end Node

namespace Template.Read

variable {cs : List Char} {f : Fragment} {config : Option Node} {c : Cursor} {ss : List Stretch}

/-- The reference tags of a template are those among its stretches. -/
theorem references (h : Template.Read cs f config c ss) : f.references = Stretch.tags ss := by
  obtain ⟨children, hf, tree, -⟩ := h.tree
  have front : Node.references config.toList = [] := by
    cases h.headed <;> rfl
  calc f.references = Node.references f.children := rfl
    _ = Node.references children := by rw [hf, Node.references_append, front, List.nil_append]
    _ = Stretch.tags ss := tree.references

/-- The config block of a template is the one that it begins with. -/
theorem config? (h : Template.Read cs f config c ss) : f.config? = config.bind Node.config? := by
  obtain ⟨children, hf, -, placed⟩ := h.tree
  have later := Node.config?_walkAll placed
  calc f.config? = (Node.walkAll f.children).findSome? Node.config? := rfl
    _ = config.bind Node.config? := by
      rw [hf, Node.walkAll_append, List.findSome?_append, later, Option.or_none]
      cases h.headed <;> rfl

end Template.Read

/-! ## Written texts -/

section

variable {source : String} {config : Option Node} {c : Cursor} {ps : List Lexeme} {ns : List Node}

/-- A text whose nodes are written by lexemes is read as the outline that these write. -/
theorem Fragment.ofText_written (hconfig : configBlock (Cursor.start source.toList) = .ok (config, c))
    (hc : c.rest = Lexeme.textAll ps) (hwritten : Node.AllWritten ns (Lexeme.signs ps))
    (fits : Lexeme.AllFit [] ps) :
    ((∃ f, Fragment.ofText source = .ok f) ↔ Node.AllPlaced Nesting.none ns) ∧
      ∀ f, Fragment.ofText source = .ok f →
        ∀ inside, Node.outlineAll inside f.children = ns := by
  have front (inside : List Attribute → List Node) : Node.outlineAll inside config.toList = [] := by
    cases hnode : config with
    | none => rfl
    | some a =>
      obtain ⟨v, s, rfl⟩ := yields_configBlock _ _ hconfig a hnode
      rfl
  rw [Fragment.ofText, Template.read, hconfig]
  dsimp only [bind, Except.bind]
  by_cases placed : Node.AllPlaced Nesting.none ns
  · have houtcome (inside : List Attribute → List Node) :=
      (outcome_of_written inside hwritten fits hc).1 placed
    obtain ⟨children, hnodes, -⟩ := outcome_ended.mp (houtcome fun _ => [])
    rw [hnodes]
    refine ⟨iff_of_true ⟨_, rfl⟩ placed, fun f hf inside => ?_⟩
    cases hf
    obtain ⟨children', hnodes', houtline⟩ := outcome_ended.mp (houtcome inside)
    cases hnodes.symm.trans hnodes'
    rw [Node.outlineAll_append, front, houtline, List.nil_append]
  · obtain ⟨err, hnodes⟩ := outcome_none.mp
      ((outcome_of_written (fun _ => []) hwritten fits hc).2 placed)
    rw [hnodes]
    refine ⟨iff_of_false ?_ placed, fun f hf => ?_⟩
    · rintro ⟨f, hf⟩
      cases hf
    · cases hf

end

end PromptTemplate
