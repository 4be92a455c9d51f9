import PromptTemplate.Proofs.Template.Lexemes

/-!
# Nodes and the tags that they are written with

An outline is written by a list of tags. It is written in several ways, as a tag that has
nothing inside may be closed by itself, and as an if block in the other branch of another one
may be written without its own end.
-/

namespace PromptTemplate

open Template

/-- The ways to write an element around nodes. -/
def Template.ElementKind.Written (kind : ElementKind) (as : List Attribute) (children : List Node)
    (inside : List Sign → Prop) (ss : List Sign) : Prop :=
  ∃ name, ElementKind.ofName? name = some kind ∧
    ((children = [] ∧ ss = [.opening ⟨name, as, true⟩]) ∨
      ∃ body, inside body ∧ ss = .opening ⟨name, as, false⟩ :: (body ++ [.closing name]))

namespace Node

mutual

/-- Whether a node of an outline is written by some tags. -/
def Written : Node → List Sign → Prop
  | .mustache e s => fun ss => s = Span.none ∧ ss = [.brace (.output e)]
  | .message role as children s => fun ss =>
    s = Span.none ∧ (ElementKind.message role).Written as children (AllWritten children) ss
  | .content kind as children s => fun ss =>
    s = Span.none ∧ (ElementKind.content kind).Written as children (AllWritten children) ss
  | .step as children s => fun ss =>
    s = Span.none ∧ ElementKind.step.Written as children (AllWritten children) ss
  | .ifBlock e consequent alternate s => fun ss =>
    s = Span.none ∧ ∃ body rest, ss = .brace (.ifOpening e) :: (body ++ rest) ∧ AllWritten consequent body ∧
      ((alternate = none ∧ rest = [.brace (.closing "if")]) ∨
        (∃ other, OptionWritten alternate other ∧
          rest = .brace (.otherwise none) :: (other ++ [.brace (.closing "if")])) ∨
        (∃ x e' more, alternate = some [x] ∧
          OptionWritten alternate (.brace (.ifOpening e') :: more) ∧
          rest = .brace (.otherwise (some e')) :: more))
  | .eachBlock e context index inside alternate s => fun ss =>
    s = Span.none ∧ ∃ body rest, ss = .brace (.eachOpening ⟨e, context, index⟩) :: (body ++ rest) ∧
      AllWritten inside body ∧
      ((alternate = none ∧ rest = [.brace (.closing "each")]) ∨
        (∃ other, OptionWritten alternate other ∧
          rest = .brace (.otherwise none) :: (other ++ [.brace (.closing "each")])))
  | .text .. | .config .. | .comment .. | .reference .. | .scoped .. | .response .. =>
    fun _ => False

def AllWritten : List Node → List Sign → Prop
  | [] => fun ss => ss = []
  | a :: rest => fun ss => ∃ front back, ss = front ++ back ∧ Written a front ∧ AllWritten rest back

/-- Whether there is another branch and it is written by some tags. -/
def OptionWritten : Option (List Node) → List Sign → Prop
  | none => fun _ => False
  | some nodes => AllWritten nodes

end

variable {a : Node} {ns ms : List Node} {ss ts : List Sign}

theorem allWritten_nil : AllWritten [] ss ↔ ss = [] := by
  simp only [AllWritten]

theorem allWritten_cons :
    AllWritten (a :: ns) ss ↔ ∃ front back, ss = front ++ back ∧ a.Written front ∧
      AllWritten ns back := by
  simp only [AllWritten]

theorem allWritten_singleton : AllWritten [a] ss ↔ a.Written ss := by
  simp only [AllWritten]
  constructor
  · rintro ⟨front, back, rfl, h, rfl⟩
    rwa [List.append_nil]
  · intro h
    exact ⟨ss, [], (List.append_nil ss).symm, h, rfl⟩

theorem AllWritten.append (h : AllWritten ns ss) (k : AllWritten ms ts) :
    AllWritten (ns ++ ms) (ss ++ ts) := by
  induction ns generalizing ss with
  | nil =>
    rw [allWritten_nil] at h
    rw [h]
    exact k
  | cons a ns ih =>
    obtain ⟨front, back, rfl, ha, hback⟩ := allWritten_cons.mp h
    rw [List.append_assoc]
    exact allWritten_cons.mpr ⟨front, back ++ ts, rfl, ha, ih hback⟩

end Node

/-! ## Blocks -/

namespace Template

variable {α : Type} {f : Node → List α}

/-- Trimming the first text changes its characters only. -/
theorem flatMap_trimFirst (h : ∀ data data' s, f (.text data s) = f (.text data' s))
    (ns : List Node) : (trimFirst ns).flatMap f = ns.flatMap f := by
  unfold trimFirst
  split
  · rw [List.flatMap_cons, List.flatMap_cons, h]
  · rfl

/-- Trimming the last text changes its characters only. -/
theorem flatMap_trimLast (h : ∀ data data' s, f (.text data s) = f (.text data' s))
    (ns : List Node) : (trimLast ns).flatMap f = ns.flatMap f := by
  induction ns with
  | nil => rfl
  | cons a ns ih =>
    unfold trimLast
    split
    · rename_i none
      cases none
    · rename_i last
      cases last
      rw [List.flatMap_cons, List.flatMap_cons, h]
    · rename_i more
      cases more
      rw [List.flatMap_cons, List.flatMap_cons, ih]

/-- Trimming a block concerns its texts only. -/
theorem flatMap_trimBlock (h : ∀ data s, f (.text data s) = []) (ns : List Node) :
    (trimBlock ns).flatMap f = ns.flatMap f := by
  have filtered (ms : List Node) : (ms.filter (!isEmptyText ·)).flatMap f = ms.flatMap f := by
    induction ms with
    | nil => rfl
    | cons a ms ih =>
      rw [List.filter_cons]
      split
      · rw [List.flatMap_cons, List.flatMap_cons, ih]
      · rename_i empty
        cases a with
        | text data s => rw [List.flatMap_cons, h, ih, List.nil_append]
        | _ => exact absurd rfl empty
  have silent (data data' : String) (s : Span) : f (.text data s) = f (.text data' s) :=
    (h data s).trans (h data' s).symm
  rw [trimBlock, filtered, flatMap_trimLast silent, flatMap_trimFirst silent]

theorem outlineAll_trimBlock (nodes : List Attribute → List Node) (ns : List Node) :
    Node.outlineAll nodes (trimBlock ns) = Node.outlineAll nodes ns := by
  rw [Node.outlineAll_eq_flatMap, Node.outlineAll_eq_flatMap]
  exact flatMap_trimBlock (fun _ _ => rfl) ns

theorem references_trimBlock (ns : List Node) :
    Node.references (trimBlock ns) = Node.references ns := by
  rw [Node.references_eq_flatMap, Node.references_eq_flatMap]
  exact flatMap_trimBlock (fun _ _ => rfl) ns

/-! ## Elements -/

variable {kind : ElementKind} {as : List Attribute} {ns : List Node} {s : Span}

theorem outline_node (hkind : kind ≠ .reference) (nodes : List Attribute → List Node) :
    Node.outline nodes (kind.node as ns s) =
      [kind.node (as.map Attribute.bare) (Node.outlineAll nodes ns) Span.none] := by
  cases kind with
  | reference => exact absurd rfl hkind
  | _ => rfl

theorem references_node (hkind : kind ≠ .reference) :
    Node.references [kind.node as ns s] = Node.references ns := by
  cases kind with
  | reference => exact absurd rfl hkind
  | _ => simp [ElementKind.node, Node.references, Node.walkAll, Node.walk, List.filterMap_cons,
      Node.reference?]

theorem written_node (hkind : kind ≠ .reference) {ss : List Sign} :
    (kind.node as ns Span.none).Written ss ↔ kind.Written as ns (Node.AllWritten ns) ss := by
  cases kind with
  | reference => exact absurd rfl hkind
  | _ => simp only [ElementKind.node, Node.Written, true_and]

end Template

end PromptTemplate
