import PromptTemplate.Proofs.Template.Decomposition

/-!
# Where literal text begins

Every text of a template begins where a lexeme ends, or where the nodes of the template begin,
and it goes as far as literal text can go from there. Trimming a block does not change the places
of its texts.
-/

namespace PromptTemplate

open Text Text.Cursor

namespace Node

def textSpan? : Node → Option Span
  | .text _ s => some s
  | _ => none

/-- The places of all texts in nodes. -/
def textSpans (ns : List Node) : List Span := (walkAll ns).filterMap textSpan?

variable {ns ms : List Node} {s : Span}

theorem textSpans_eq_flatMap (ns : List Node) :
    textSpans ns = ns.flatMap fun a => a.walk.filterMap textSpan? := by
  induction ns with
  | nil => rfl
  | cons a ns ih =>
    rw [textSpans, walkAll, List.filterMap_append, List.flatMap_cons, ← ih, textSpans]

theorem textSpans_append (ns ms : List Node) :
    textSpans (ns ++ ms) = textSpans ns ++ textSpans ms := by
  simp only [textSpans_eq_flatMap, List.flatMap_append]

/-- The texts that are left in a block are texts of it. -/
theorem textSpans_trimBlock (h : s ∈ textSpans (Template.trimBlock ns)) : s ∈ textSpans ns := by
  rw [Template.trimBlock, textSpans_eq_flatMap, List.mem_flatMap] at h
  obtain ⟨a, ha, hs⟩ := h
  rw [textSpans_eq_flatMap, ← Template.flatMap_trimFirst fun _ _ _ => rfl,
    ← Template.flatMap_trimLast fun _ _ _ => rfl, List.mem_flatMap]
  exact ⟨a, (List.mem_filter.mp ha).1, hs⟩

theorem textSpans_ifBlock (e : Expr) (alternate : Option (List Node)) (s : Span) :
    textSpans [.ifBlock e ns alternate s] = textSpans ns ++ textSpans (alternate.getD []) := by
  cases alternate <;>
    simp [textSpans, walkAll, walk, walkOption, List.filterMap_cons, textSpan?]

theorem textSpans_eachBlock (e : Expr) (context : String) (index : Option String)
    (alternate : Option (List Node)) (s : Span) :
    textSpans [.eachBlock e context index ns alternate s] =
      textSpans ns ++ textSpans (alternate.getD []) := by
  cases alternate <;>
    simp [textSpans, walkAll, walk, walkOption, List.filterMap_cons, textSpan?]

/-- What is inside a reference tag is dropped with its texts. -/
theorem textSpans_element {kind : Template.ElementKind} {as : List Attribute} {s t : Span}
    (h : t ∈ textSpans [kind.node as ns s]) : t ∈ textSpans ns := by
  cases kind with
  | reference => cases h
  | _ =>
    simpa [Template.ElementKind.node, textSpans, walkAll, walk, List.filterMap_cons, textSpan?]
      using h

end Node

namespace Template

open Node

/-! ## Lexemes between two cursors -/

/-- Lexemes are read one after another between two cursors. -/
structure Lexed (c : Cursor) (ps : List Lexeme) (d : Cursor) : Prop where
  takes : c.Takes (Lexeme.textAll ps) d
  fits : Lexeme.AllFit d.rest ps

namespace Lexed

variable {c d e : Cursor} {ps qs : List Lexeme}

theorem refl (c : Cursor) : Lexed c [] c := ⟨.refl c, trivial⟩

theorem append (h : Lexed c ps d) (k : Lexed d qs e) : Lexed c (ps ++ qs) e where
  takes := by
    rw [Lexeme.textAll_append]
    exact h.takes.trans k.takes
  fits := by
    have fits := h.fits
    rw [k.takes.rest] at fits
    exact Lexeme.allFit_append.mpr ⟨fits, k.fits⟩

theorem single {p : Lexeme} (takes : c.Takes p.text d) (fits : p.Fits d.rest) : Lexed c [p] d where
  takes := by
    rw [Lexeme.textAll_cons, Lexeme.textAll_nil, List.append_nil]
    exact takes
  fits := ⟨fits, trivial⟩

end Lexed

/-! ## Boundaries -/

/-- A piece of literal text comes after some lexemes and is as long as it can be. -/
def Bounded (c : Cursor) (s : Span) : Prop :=
  ∃ ps d, Lexed c ps d ∧ s = d.span (d.skip (literal d.rest).2)

def TextsBounded (c : Cursor) (ns : List Node) : Prop := ∀ s ∈ textSpans ns, Bounded c s

variable {c d e : Cursor} {ns ms : List Node}

theorem Bounded.after {ps : List Lexeme} {s : Span} (h : Lexed c ps d) (k : Bounded d s) :
    Bounded c s := by
  obtain ⟨qs, e, lexed, hs⟩ := k
  exact ⟨ps ++ qs, e, h.append lexed, hs⟩

/-- Nodes between two cursors, where lexemes are read. -/
structure Cut (c : Cursor) (ns : List Node) (d : Cursor) : Prop where
  lexed : ∃ ps, Lexed c ps d
  texts : TextsBounded c ns

namespace Cut

theorem append (h : Cut c ns d) (k : Cut d ms e) : Cut c (ns ++ ms) e := by
  obtain ⟨ps, lexed⟩ := h.lexed
  obtain ⟨qs, lexed'⟩ := k.lexed
  refine ⟨⟨ps ++ qs, lexed.append lexed'⟩, fun s hs => ?_⟩
  rw [textSpans_append, List.mem_append] at hs
  rcases hs with hs | hs
  · exact h.texts s hs
  · exact (k.texts s hs).after lexed

/-- Nodes whose texts are texts of the others. -/
theorem imp (h : Cut c ns d) (himp : ∀ s ∈ textSpans ms, s ∈ textSpans ns) : Cut c ms d :=
  ⟨h.lexed, fun s hs => h.texts s (himp s hs)⟩

theorem trim (h : Cut c ns d) : Cut c (trimBlock ns) d := h.imp fun _ => textSpans_trimBlock

/-- A lexeme without texts. -/
theorem lexeme {p : Lexeme} (takes : c.Takes p.text d) (fits : p.Fits d.rest) : Cut c [] d :=
  ⟨⟨[p], .single takes fits⟩, fun s hs => by cases hs⟩

theorem brace {tag : BraceTag} {h : c.rest ≠ []} {hd : d.rest.length < c.rest.length}
    (braces : ['\x7b', '\x7b'].isPrefixOf c.rest = true)
    (read : braceTag c h = .ok (tag, ⟨d, hd⟩)) : Cut c [] d := by
  obtain ⟨used, takes, piecewise⟩ := exists_brace braces read
  exact .lexeme (p := .sign used _) takes piecewise

end Cut

/-! ## Readers -/

/-- Nodes up to a stop or to the end of the text. -/
def NodesCut {c : Cursor} (r : List Node × Option (Stop × c.Shorter)) : Prop :=
  TextsBounded c r.1 ∧ ∀ stop d, r.2 = some (stop, d) → Cut c r.1 d.1

/-- A node or a stop. -/
def ItemCut {c : Cursor} (r : (Node ⊕ Stop) × c.Shorter) : Prop :=
  Cut c (r.1.elim (fun a => [a]) fun _ => []) r.2.1

/-- The literal text in front. -/
theorem cut_literal (c : Cursor) :
    let d := c.skip (literal c.rest).2
    Cut c (if (literal c.rest).1.isEmpty then []
      else [.text (String.ofList (literal c.rest).1) (c.span d)]) d ∧
      (d.rest = [] ∨ beginsMarkup d.rest = true) := by
  obtain ⟨ps, text, -, fits, stops⟩ := exists_literal c.rest
  refine ⟨⟨⟨ps, ?_, fits⟩, fun s hs => ?_⟩, stops⟩
  · rw [text]
    exact .skip c _
  · split at hs
    · cases hs
    · obtain rfl := List.mem_singleton.mp hs
      exact ⟨[], c, .refl c, rfl⟩

theorem cut_comment {opening closing : List Char} {h : c.rest ≠ []} {ho : 0 < opening.length}
    (hmark : opening = ['/', '*'] ∧ closing = ['*', '/'] ∨
      opening = ['<', '!', '-', '-'] ∧ closing = ['-', '-', '>'])
    (front : opening.isPrefixOf c.rest = true) :
    Yields (fun r => Cut c [r.1] r.2.1) (comment opening closing c h ho) := by
  rintro ⟨a, d, hd⟩ hread
  obtain ⟨used, takes, piecewise⟩ := exists_comment hmark front hread
  have silent : ∃ data codes s, a = .comment data codes s := by
    rw [comment] at hread
    split at hread
    · cases hread
    · cases hread
      exact ⟨_, _, _, rfl⟩
  obtain ⟨data, codes, s, rfl⟩ := silent
  exact .imp (.lexeme (p := .comment used) takes piecewise) fun s hs => by cases hs

mutual

theorem cut_nodes (n : Nesting) (c : Cursor) : Yields NodesCut (nodes n c) := by
  rw [nodes]
  have shorter := Cursor.length_skip_le c (literal c.rest).2
  obtain ⟨text, stops⟩ := cut_literal c
  dsimp only
  split
  · exact .ok ⟨text.texts, fun _ _ h => by cases h⟩
  · rename_i more
    refine .bind (cut_item n _ more (stops.resolve_left more)) ?_
    rintro ⟨a | stop, e, he⟩ ha
    · refine .bind (cut_nodes n e) ?_
      rintro ⟨rest, stop⟩ ⟨texts, stopped⟩
      have front := text.append ha
      obtain ⟨ps, lexed⟩ := front.lexed
      refine .ok ⟨fun s hs => ?_, ?_⟩
      · change s ∈ textSpans (_ ++ a :: rest) at hs
        rw [List.append_cons, textSpans_append, List.mem_append] at hs
        rcases hs with hs | hs
        · exact front.texts s hs
        · exact (texts s hs).after lexed
      · rintro stop' d hstop
        cases stop with
        | none => cases hstop
        | some r =>
          cases hstop
          change Cut c (_ ++ a :: rest) _
          rw [List.append_cons]
          exact front.append (stopped _ _ rfl)
    · refine .ok ⟨text.texts, ?_⟩
      rintro stop' d hstop
      cases hstop
      have front := text.append ha
      rwa [Sum.elim_inr, List.append_nil] at front
termination_by c.rest.length * 4 + 2

theorem cut_item (n : Nesting) (c : Cursor) (h : c.rest ≠ [])
    (mark : beginsMarkup c.rest = true) : Yields ItemCut (item n c h) := by
  rw [item]
  split
  · rename_i front
    exact .bind (cut_comment (.inl ⟨rfl, rfl⟩) front) fun _ ha => .ok ha
  · rename_i notComment
    split
    · rename_i front
      exact .bind (cut_comment (.inr ⟨rfl, rfl⟩) front) fun _ ha => .ok ha
    · rename_i notComment'
      split
      · rename_i braces
        have cut : Yields (fun r => Cut c [] r.2.1) (braceTag c h) :=
          fun _ read => .brace braces read
        refine .bind cut ?_
        rintro ⟨e | e | header | e | name, d, hd⟩ cut
        · exact .ok (cut.imp fun s hs => by cases hs)
        · refine .bind (cut_ifRest n _ e d) ?_
          rintro ⟨a, f, hf⟩ ha
          exact .ok (cut.append ha)
        · refine .bind (cut_eachRest n _ header d) ?_
          rintro ⟨a, f, hf⟩ ha
          exact .ok (cut.append ha)
        · exact .ok cut
        · exact .ok cut
      · rename_i notBraces
        split
        · rename_i slash
          have cut : Yields (fun r => Cut c [] r.2.1) (closingTag c h) := by
            rintro ⟨name, d, hd⟩ read
            obtain ⟨used, takes, piecewise⟩ := exists_closing mark slash read
            exact .lexeme (p := .sign used _) takes piecewise
          exact .bind cut fun _ cut => .ok cut
        · rename_i notSlash
          obtain ⟨angle, letter⟩ := beginsOpening mark notComment notComment' notBraces notSlash
          exact .bind (cut_element n c h angle letter) fun _ ha => .ok ha
termination_by c.rest.length * 4 + 1

theorem cut_ifRest (n : Nesting) (start : Position) (e : Expr) (c : Cursor) :
    Yields (fun r => Cut c [r.1] r.2.1) (ifRest n start e c) := by
  rw [ifRest]
  refine .bind (cut_nodes n c) ?_
  rintro ⟨consequent, stop⟩ ⟨-, stopped⟩
  dsimp only
  split
  · have cut := (stopped _ _ rfl).trim
    refine .ok (cut.imp fun s hs => ?_)
    rw [textSpans_ifBlock, Option.getD_none] at hs
    simpa [textSpans, walkAll] using hs
  · have cut := (stopped _ _ rfl).trim
    refine .bind (cut_nodes n _) ?_
    rintro ⟨alternate, stop⟩ ⟨-, stopped'⟩
    dsimp only
    split
    · refine .ok ((cut.append (stopped' _ _ rfl).trim).imp fun s hs => ?_)
      rwa [textSpans_ifBlock, Option.getD_some, ← textSpans_append] at hs
    · exact .error _
  · have cut := (stopped _ _ rfl).trim
    refine .bind (cut_ifRest n _ _ _) ?_
    rintro ⟨a, f, hf⟩ ha
    refine .ok ((cut.append ha).imp fun s hs => ?_)
    rwa [textSpans_ifBlock, Option.getD_some, ← textSpans_append] at hs
  · exact .error _
termination_by c.rest.length * 4 + 3

theorem cut_eachRest (n : Nesting) (start : Position) (header : EachHeader) (c : Cursor) :
    Yields (fun r => Cut c [r.1] r.2.1) (eachRest n start header c) := by
  rw [eachRest]
  refine .bind (cut_nodes { n with inEach := true } c) ?_
  rintro ⟨body, stop⟩ ⟨-, stopped⟩
  dsimp only
  split
  · have cut := (stopped _ _ rfl).trim
    refine .ok (cut.imp fun s hs => ?_)
    rw [textSpans_eachBlock, Option.getD_none] at hs
    simpa [textSpans, walkAll] using hs
  · have cut := (stopped _ _ rfl).trim
    refine .bind (cut_nodes { n with inEach := true } _) ?_
    rintro ⟨alternate, stop⟩ ⟨-, stopped'⟩
    dsimp only
    split
    · refine .ok ((cut.append (stopped' _ _ rfl).trim).imp fun s hs => ?_)
      rwa [textSpans_eachBlock, Option.getD_some, ← textSpans_append] at hs
    · exact .error _
  · exact .error _
  · exact .error _
termination_by c.rest.length * 4 + 3

theorem cut_element (n : Nesting) (c : Cursor) (h : c.rest ≠ [])
    (angle : c.rest.head? = some '<') (letter : (c.rest.drop 1).head?.any Char.isAlpha = true) :
    Yields (fun r => Cut c [r.1] r.2.1) (element n c h) := by
  rw [element]
  have opening : Yields (fun r => Cut c [] r.2.1) (openingTag c h) := by
    rintro ⟨tag, d, hd⟩ read
    obtain ⟨used, takes, piecewise⟩ := exists_opening angle letter read
    exact .lexeme (p := .sign used _) takes piecewise
  refine .bind opening ?_
  rintro ⟨tag, d, hd⟩ cut
  dsimp only
  split
  · exact .error _
  · split
    · exact .error _
    · rename_i inside hinside
      split
      · exact .ok (cut.imp fun s hs => textSpans_element hs)
      · refine .bind (cut_nodes inside d) ?_
        rintro ⟨children, stop⟩ ⟨-, stopped⟩
        dsimp only
        split
        · split
          · exact .ok ((cut.append (stopped _ _ rfl)).imp fun s hs => textSpans_element hs)
          · exact .error _
        · exact .error _
        · exact .error _
termination_by c.rest.length * 4

end

end Template

end PromptTemplate
