import PromptTemplate.Proofs.Template.Written

/-!
# Stretches of a template

A template is cut into lexemes and reference tags, with all that stands inside those tags.
Other lexemes can be put in the place of each reference tag. Stretches have the form of nodes
if the result then writes the outline of those nodes, with the nodes of the other lexemes in
the place of each reference tag.
-/

namespace PromptTemplate

open Text Text.Cursor Template

namespace Template

/-- A lexeme, or a reference tag with all that stands inside it. -/
inductive Stretch where
  | kept (p : Lexeme)
  | reference (used : List Char) (attributes : List Attribute) (span : Span)

namespace Stretch

def text : Stretch → List Char
  | kept p => p.text
  | reference used _ _ => used

def textAll (ss : List Stretch) : List Char := ss.flatMap text

def tag? : Stretch → Option (List Attribute × Span)
  | kept _ => none
  | reference _ as s => some (as, s)

def tags (ss : List Stretch) : List (List Attribute × Span) := ss.filterMap tag?

/-- The lexemes that are there, and given ones in the place of each reference tag. -/
def fill (lexemes : List Attribute → List Lexeme) : Stretch → List Lexeme
  | kept p => [p]
  | reference _ as _ => lexemes as

def fillAll (lexemes : List Attribute → List Lexeme) (ss : List Stretch) : List Lexeme :=
  ss.flatMap (fill lexemes)

/-- Whether the lexemes are read as themselves. -/
def AllFit (following : List Char) : List Stretch → Prop
  | [] => True
  | kept p :: rest => p.Fits (textAll rest ++ following) ∧ AllFit following rest
  | reference .. :: rest => AllFit following rest

/-- Whether the reference tags have the places where they stand after a position, and no
attribute twice. -/
def Located (p : Position) : List Stretch → Prop
  | [] => True
  | kept q :: rest => Located (p.advance q.text) rest
  | reference used as s :: rest =>
    (used.head? = some '<' ∧ (as.map Attribute.name).Nodup ∧ s = Span.between p (p.advance used)) ∧
      Located (p.advance used) rest

variable {ss ts : List Stretch} {following : List Char} {p : Position}

@[simp] theorem textAll_nil : textAll [] = [] := rfl

@[simp] theorem textAll_cons (s : Stretch) (ss : List Stretch) :
    textAll (s :: ss) = s.text ++ textAll ss := rfl

@[simp] theorem textAll_append (ss ts : List Stretch) :
    textAll (ss ++ ts) = textAll ss ++ textAll ts := List.flatMap_append

theorem textAll_kept (ps : List Lexeme) : textAll (ps.map kept) = Lexeme.textAll ps := by
  induction ps with
  | nil => rfl
  | cons q ps ih => rw [List.map_cons, textAll_cons, ih]; rfl

theorem tags_append (ss ts : List Stretch) : tags (ss ++ ts) = tags ss ++ tags ts :=
  List.filterMap_append

@[simp] theorem tags_nil : tags [] = [] := rfl

@[simp] theorem tags_kept (q : Lexeme) (ss : List Stretch) : tags (kept q :: ss) = tags ss := rfl

theorem fillAll_append (lexemes : List Attribute → List Lexeme) (ss ts : List Stretch) :
    fillAll lexemes (ss ++ ts) = fillAll lexemes ss ++ fillAll lexemes ts :=
  List.flatMap_append

theorem AllFit.append (h : AllFit (textAll ts ++ following) ss) (k : AllFit following ts) :
    AllFit following (ss ++ ts) := by
  induction ss with
  | nil => exact k
  | cons s ss ih =>
    rw [List.cons_append]
    cases s with
    | kept q =>
      refine ⟨?_, ih h.2⟩
      rw [textAll_append, List.append_assoc]
      exact h.1
    | reference used as s => exact ih h

theorem Located.append (h : Located p ss) (k : Located (p.advance (textAll ss)) ts) :
    Located p (ss ++ ts) := by
  induction ss generalizing p with
  | nil => exact k
  | cons s ss ih =>
    rw [textAll_cons, Position.advance_append] at k
    cases s with
    | kept q => exact ih h k
    | reference used as s => exact ⟨h.1, ih h.2 k⟩

end Stretch

open Stretch

/-! ## From one cursor to another -/

/-- A piece of a text in its stretches. -/
structure Covers (c : Cursor) (ss : List Stretch) (d : Cursor) : Prop where
  takes : c.Takes (textAll ss) d
  fits : Stretch.AllFit d.rest ss
  located : Located c.position ss

namespace Covers

variable {c d e : Cursor} {ss ts : List Stretch}

theorem refl (c : Cursor) : Covers c [] c := ⟨.refl c, trivial, trivial⟩

theorem append (h : Covers c ss d) (k : Covers d ts e) : Covers c (ss ++ ts) e where
  takes := by
    rw [textAll_append]
    exact h.takes.trans k.takes
  fits := by
    have fits := h.fits
    rw [k.takes.rest] at fits
    exact fits.append k.fits
  located := by
    have located := k.located
    rw [h.takes.position] at located
    exact h.located.append located

theorem lexeme {p : Lexeme} (takes : c.Takes p.text d) (fits : p.Fits d.rest) :
    Covers c [.kept p] d where
  takes := by
    rw [textAll_cons, textAll_nil, List.append_nil]
    exact takes
  fits := ⟨fits, trivial⟩
  located := trivial

theorem lexemes {ps : List Lexeme} (takes : c.Takes (Lexeme.textAll ps) d)
    (fits : Lexeme.AllFit d.rest ps) : Covers c (ps.map .kept) d where
  takes := by
    rw [textAll_kept]
    exact takes
  fits := by
    clear takes
    induction ps with
    | nil => trivial
    | cons q ps ih =>
      refine ⟨?_, ih fits.2⟩
      rw [textAll_kept]
      exact fits.1
  located := by
    generalize c.position = p
    clear takes fits
    induction ps generalizing p with
    | nil => trivial
    | cons q ps ih => exact ih _

/-- All that has been read may be taken as the place of one reference tag. -/
theorem reference (h : Covers c ss d) (angle : c.rest.head? = some '<')
    (shorter : d.rest.length < c.rest.length)
    {as : List Attribute} (distinct : (as.map Attribute.name).Nodup) :
    Covers c [.reference (textAll ss) as (c.span d)] d where
  takes := by
    rw [textAll_cons, textAll_nil, List.append_nil]
    exact h.takes
  fits := trivial
  located := by
    refine ⟨⟨?_, distinct, ?_⟩, trivial⟩
    · rw [h.takes.rest] at angle shorter
      cases hused : textAll ss with
      | nil =>
        rw [hused] at shorter
        exact absurd shorter (Nat.lt_irrefl _)
      | cons x used =>
        rw [hused] at angle
        exact angle
    · rw [Cursor.span, h.takes.position]

end Covers

/-! ## Nodes and stretches -/

/-- The tags that stretches are written with, with given lexemes in the place of each
reference tag. -/
def Stretch.signs (lexemes : List Attribute → List Lexeme) (ss : List Stretch) : List Sign :=
  Lexeme.signs (fillAll lexemes ss)

theorem Stretch.signs_append (lexemes : List Attribute → List Lexeme) (ss ts : List Stretch) :
    Stretch.signs lexemes (ss ++ ts) = Stretch.signs lexemes ss ++ Stretch.signs lexemes ts := by
  rw [Stretch.signs, fillAll_append, Lexeme.signs, List.filterMap_append]
  rfl

theorem Stretch.signs_sign (lexemes : List Attribute → List Lexeme) (used : List Char) (s : Sign)
    (ss : List Stretch) :
    Stretch.signs lexemes (.kept (.sign used s) :: ss) = s :: Stretch.signs lexemes ss := rfl

/-- Whether nodes for the reference tags are written by the lexemes for them. -/
def Stretch.Written (nodes : List Attribute → List Node) (lexemes : List Attribute → List Lexeme)
    (ss : List Stretch) : Prop :=
  ∀ as s, (as, s) ∈ tags ss → Node.AllWritten (nodes as) (Lexeme.signs (lexemes as))

section

variable {nodes : List Attribute → List Node} {lexemes : List Attribute → List Lexeme}

theorem Stretch.written_append {ss ts : List Stretch} :
    Stretch.Written nodes lexemes (ss ++ ts) ↔
      Stretch.Written nodes lexemes ss ∧ Stretch.Written nodes lexemes ts := by
  simp only [Stretch.Written, tags_append, List.mem_append, or_imp, forall_and]

end

/-- Stretches that nodes have been read from. -/
structure Tree (ss : List Stretch) (ns : List Node) : Prop where
  references : Node.references ns = tags ss
  written : ∀ nodes lexemes, Stretch.Written nodes lexemes ss →
    Node.AllWritten (Node.outlineAll nodes ns) (Stretch.signs lexemes ss)

namespace Tree

variable {ss ts : List Stretch} {ns ms : List Node}

theorem append (h : Tree ss ns) (k : Tree ts ms) : Tree (ss ++ ts) (ns ++ ms) where
  references := by rw [Node.references_append, tags_append, h.references, k.references]
  written nodes lexemes hwritten := by
    obtain ⟨front, back⟩ := Stretch.written_append.mp hwritten
    rw [Node.outlineAll_append, Stretch.signs_append]
    exact (h.written nodes lexemes front).append (k.written nodes lexemes back)

theorem nil : Tree [] [] := ⟨rfl, fun _ _ _ => Node.allWritten_nil.mpr rfl⟩

/-- Texts and comments are not written by tags. -/
theorem silent {ps : List Lexeme} (hps : Lexeme.signs ps = [])
    (hrefs : Node.references ns = []) (hns : ∀ nodes, Node.outlineAll nodes ns = []) :
    Tree (ps.map .kept) ns where
  references := by
    rw [hrefs, tags, List.filterMap_map, List.filterMap_eq_nil_iff.mpr]
    exact fun _ _ => rfl
  written nodes lexemes _ := by
    rw [hns, Node.allWritten_nil, Stretch.signs, fillAll, List.flatMap_map]
    rw [show (fun p => fill lexemes (kept p)) = fun p => [p] from rfl, List.flatMap_singleton']
    exact hps

/-- A block without the blanks at its two ends. -/
theorem trim (h : Tree ss ns) : Tree ss (trimBlock ns) where
  references := by rw [references_trimBlock, h.references]
  written nodes lexemes hwritten := by
    rw [outlineAll_trimBlock]
    exact h.written nodes lexemes hwritten

variable {used used' used'' : List Char} {as : List Attribute} {e e' : Expr} {s : Span}

theorem output : Tree [.kept (.sign used (.brace (.output e.bare)))] [.mustache e s] where
  references := rfl
  written _ _ _ := Node.allWritten_singleton.mpr ⟨rfl, rfl⟩

theorem reference : Tree [.reference used as s] [.reference as s] where
  references := rfl
  written nodes lexemes hwritten := by
    rw [Node.outlineAll_singleton, Stretch.signs, fillAll, List.flatMap_cons, List.flatMap_nil,
      List.append_nil]
    exact hwritten as s (List.mem_singleton.mpr rfl)

variable {name : String} {kind : ElementKind}

/-- An element without anything inside it. -/
theorem closedElement (hname : ElementKind.ofName? name = some kind) (hkind : kind ≠ .reference) :
    Tree [.kept (.sign used (.opening ⟨name, as.map Attribute.bare, true⟩))]
      [kind.node as [] s] where
  references := references_node hkind
  written _ _ _ := by
    rw [Node.outlineAll_singleton, outline_node hkind]
    exact Node.allWritten_singleton.mpr
      ((written_node hkind).mpr ⟨name, hname, .inl ⟨rfl, rfl⟩⟩)

theorem element (h : Tree ss ns) (hname : ElementKind.ofName? name = some kind)
    (hkind : kind ≠ .reference) :
    Tree (.kept (.sign used (.opening ⟨name, as.map Attribute.bare, false⟩)) ::
      (ss ++ [.kept (.sign used' (.closing name))])) [kind.node as ns s] where
  references := by
    rw [references_node hkind, h.references]
    simp [tags_append]
  written nodes lexemes hwritten := by
    have inside := (Stretch.written_append.mp hwritten).1
    rw [Node.outlineAll_singleton, outline_node hkind, Stretch.signs_sign, Stretch.signs_append]
    exact Node.allWritten_singleton.mpr ((written_node hkind).mpr
      ⟨name, hname, .inr ⟨_, h.written nodes lexemes inside, rfl⟩⟩)

/-! ### Blocks -/

theorem references_ifBlock (alternate : Option (List Node)) :
    Node.references [.ifBlock e ns alternate s] =
      Node.references ns ++ Node.references (alternate.getD []) := by
  cases alternate <;>
    simp [Node.references, Node.walkAll, Node.walk, Node.walkOption, List.filterMap_cons,
      Node.reference?]

theorem references_eachBlock (context : String) (index : Option String)
    (alternate : Option (List Node)) :
    Node.references [.eachBlock e context index ns alternate s] =
      Node.references ns ++ Node.references (alternate.getD []) := by
  cases alternate <;>
    simp [Node.references, Node.walkAll, Node.walk, Node.walkOption, List.filterMap_cons,
      Node.reference?]

theorem ifBlock (h : Tree ss ns) :
    Tree (.kept (.sign used (.brace (.ifOpening e.bare))) ::
      (ss ++ [.kept (.sign used' (.brace (.closing "if")))])) [.ifBlock e ns none s] where
  references := by
    rw [references_ifBlock, h.references]
    simp [tags_append, Node.references, Node.walkAll]
  written nodes lexemes hwritten := by
    have inside := (Stretch.written_append.mp hwritten).1
    rw [Node.outlineAll_singleton, Stretch.signs_sign, Stretch.signs_append]
    exact Node.allWritten_singleton.mpr
      ⟨rfl, _, _, rfl, h.written nodes lexemes inside, .inl ⟨rfl, rfl⟩⟩

theorem ifElse (h : Tree ss ns) (k : Tree ts ms) :
    Tree (.kept (.sign used (.brace (.ifOpening e.bare))) ::
      (ss ++ .kept (.sign used' (.brace (.otherwise none))) ::
        (ts ++ [.kept (.sign used'' (.brace (.closing "if")))])))
          [.ifBlock e ns (some ms) s] where
  references := by
    rw [references_ifBlock, h.references, Option.getD_some, k.references]
    simp [tags_append]
  written nodes lexemes hwritten := by
    obtain ⟨inside, other⟩ := Stretch.written_append.mp hwritten
    have other := (Stretch.written_append.mp other).1
    rw [Node.outlineAll_singleton, Stretch.signs_sign, Stretch.signs_append, Stretch.signs_sign,
      Stretch.signs_append]
    exact Node.allWritten_singleton.mpr ⟨rfl, _, _, rfl, h.written nodes lexemes inside,
      .inr (.inl ⟨_, k.written nodes lexemes other, rfl⟩)⟩

/-- An if block in the other branch, without its own end. -/
theorem ifElseIf (h : Tree ss ns) {a : Node} (one : ∀ nodes, ∃ x, Node.outline nodes a = [x])
    (k : Tree (.kept (.sign used'' (.brace (.ifOpening e'.bare))) :: ts) [a]) :
    Tree (.kept (.sign used (.brace (.ifOpening e.bare))) ::
      (ss ++ .kept (.sign used' (.brace (.otherwise (some e'.bare)))) :: ts))
        [.ifBlock e ns (some [a]) s] where
  references := by
    rw [references_ifBlock, h.references, Option.getD_some, k.references]
    simp [tags_append]
  written nodes lexemes hwritten := by
    obtain ⟨inside, other⟩ := Stretch.written_append.mp hwritten
    obtain ⟨x, hx⟩ := one nodes
    have written := k.written nodes lexemes other
    rw [Node.outlineAll_singleton, Stretch.signs_sign] at written
    rw [Node.outlineAll_singleton, Stretch.signs_sign, Stretch.signs_append, Stretch.signs_sign]
    refine Node.allWritten_singleton.mpr ⟨rfl, _, _, rfl, h.written nodes lexemes inside,
      .inr (.inr ⟨x, e'.bare, _, ?_, ?_, rfl⟩)⟩
    · rw [Node.outlineOption, Node.outlineAll_singleton, hx]
    · rw [Node.outlineOption, Node.outlineAll_singleton]
      exact written

variable {header : EachHeader}

theorem eachBlock (h : Tree ss ns) :
    Tree (.kept (.sign used (.brace (.eachOpening header.bare))) ::
      (ss ++ [.kept (.sign used' (.brace (.closing "each")))]))
        [.eachBlock header.expression header.context header.index ns none s] where
  references := by
    rw [references_eachBlock, h.references]
    simp [tags_append, Node.references, Node.walkAll]
  written nodes lexemes hwritten := by
    have inside := (Stretch.written_append.mp hwritten).1
    rw [Node.outlineAll_singleton, Stretch.signs_sign, Stretch.signs_append]
    exact Node.allWritten_singleton.mpr
      ⟨rfl, _, _, rfl, h.written nodes lexemes inside, .inl ⟨rfl, rfl⟩⟩

theorem eachElse (h : Tree ss ns) (k : Tree ts ms) :
    Tree (.kept (.sign used (.brace (.eachOpening header.bare))) ::
      (ss ++ .kept (.sign used' (.brace (.otherwise none))) ::
        (ts ++ [.kept (.sign used'' (.brace (.closing "each")))])))
          [.eachBlock header.expression header.context header.index ns (some ms) s] where
  references := by
    rw [references_eachBlock, h.references, Option.getD_some, k.references]
    simp [tags_append]
  written nodes lexemes hwritten := by
    obtain ⟨inside, other⟩ := Stretch.written_append.mp hwritten
    have other := (Stretch.written_append.mp other).1
    rw [Node.outlineAll_singleton, Stretch.signs_sign, Stretch.signs_append, Stretch.signs_sign,
      Stretch.signs_append]
    exact Node.allWritten_singleton.mpr ⟨rfl, _, _, rfl, h.written nodes lexemes inside,
      .inr ⟨_, k.written nodes lexemes other, rfl⟩⟩

end Tree

end Template

end PromptTemplate
