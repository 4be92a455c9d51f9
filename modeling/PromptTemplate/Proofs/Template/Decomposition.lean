import PromptTemplate.Proofs.Run
import PromptTemplate.Proofs.Template.Stretches

/-!
# Templates taken apart

Whatever is read as nodes is cut into stretches that have the form of those nodes. What is
read as a reference tag becomes one stretch, as nothing inside it is kept.
-/

namespace PromptTemplate

open Text Text.Cursor

namespace Template

/-! ## What a list of nodes stops at -/

/-- What comes at a cursor: the end of the text, or the tag of a stop. -/
def StopsAt {c : Cursor} (d : Cursor) : Option (Stop × c.Shorter) → Prop
  | none => d.rest = []
  | some (stop, e) => ∃ used, Covers d [.kept (.sign used stop.sign)] e.1

/-- The parts of nodes up to a stop. -/
def NodeParts {c : Cursor} (r : List Node × Option (Stop × c.Shorter)) : Prop :=
  ∃ ss d, Covers c ss d ∧ Tree ss r.1 ∧ StopsAt d r.2

/-- The parts of one node. -/
def Parts {c : Cursor} (r : Node × c.Shorter) : Prop :=
  ∃ ss, Covers c ss r.2.1 ∧ Tree ss [r.1]

/-- The parts of one node that follow a tag. -/
def PartsAfter {c : Cursor} (tag : Sign) (r : Node × c.Shorter) : Prop :=
  ∃ ss, Covers c ss r.2.1 ∧ ∀ used, Tree (.kept (.sign used tag) :: ss) [r.1]

/-- The parts of one node, or the tag of a stop. -/
def ItemParts {c : Cursor} (r : (Node ⊕ Stop) × c.Shorter) : Prop :=
  match r.1 with
  | .inl a => Parts (a, r.2)
  | .inr stop => ∃ used, Covers c [.kept (.sign used stop.sign)] r.2.1

/-! ## Texts and comments -/

variable {c : Cursor}

theorem parts_literal (c : Cursor) :
    let d := c.skip (literal c.rest).2
    (∃ ss, Covers c ss d ∧ Tree ss (if (literal c.rest).1.isEmpty then []
      else [.text (String.ofList (literal c.rest).1) (c.span d)])) ∧
      (d.rest = [] ∨ beginsMarkup d.rest = true) := by
  obtain ⟨ps, text, none, fits, stops⟩ := exists_literal c.rest
  refine ⟨⟨ps.map .kept, .lexemes ?_ fits, .silent none ?_ fun nodes => ?_⟩, stops⟩
  · rw [text]
    exact .skip c _
  · split <;> rfl
  · split <;> rfl

theorem parts_comment {opening closing : List Char} {h : c.rest ≠ []} {ho : 0 < opening.length}
    (hmark : opening = ['/', '*'] ∧ closing = ['*', '/'] ∨
      opening = ['<', '!', '-', '-'] ∧ closing = ['-', '-', '>'])
    (front : opening.isPrefixOf c.rest = true) :
    Yields Parts (comment opening closing c h ho) := by
  rintro ⟨a, d, hd⟩ hread
  obtain ⟨used, takes, piecewise⟩ := exists_comment hmark front hread
  have silent : ∃ data codes s, a = .comment data codes s := by
    rw [comment] at hread
    split at hread
    · cases hread
    · cases hread
      exact ⟨_, _, _, rfl⟩
  obtain ⟨data, codes, s, rfl⟩ := silent
  have tree : Tree ([Lexeme.comment used].map .kept) [.comment data codes s] :=
    .silent rfl rfl fun _ => rfl
  exact ⟨_, .lexeme (p := .comment used) takes piecewise, tree⟩

/-! ## Tags -/

theorem covers_brace {h : c.rest ≠ []} (braces : ['\x7b', '\x7b'].isPrefixOf c.rest = true) :
    Yields (fun r => ∃ used, Covers c [.kept (.sign used (.brace r.1.bare))] r.2.1)
      (braceTag c h) := by
  rintro ⟨tag, d, hd⟩ hread
  obtain ⟨used, takes, piecewise⟩ := exists_brace braces hread
  exact ⟨used, .lexeme takes piecewise⟩

theorem covers_closing {h : c.rest ≠ []} (mark : beginsMarkup c.rest = true)
    (slash : ['<', '/'].isPrefixOf c.rest = true) :
    Yields (fun r => ∃ used, Covers c [.kept (.sign used (.closing r.1))] r.2.1)
      (closingTag c h) := by
  rintro ⟨name, d, hd⟩ hread
  obtain ⟨used, takes, piecewise⟩ := exists_closing mark slash hread
  exact ⟨used, .lexeme takes piecewise⟩

/-- A tag has no attribute twice, as the names before one are known. -/
theorem nodup_attributes (used : List String) (c : Cursor) :
    Yields (fun r => (r.1.map Attribute.name).Nodup ∧ ∀ x ∈ r.1, x.name ∉ used)
      (attributes used c) := by
  have blanks : c.skipBlank.rest.length ≤ c.rest.length := Cursor.length_skipWhile_le _ _
  rw [attributes]
  dsimp only
  split
  · exact .error _
  · rename_i more
    split
    · exact .ok ⟨.nil, fun _ h => by cases h⟩
    · split
      · exact .ok ⟨.nil, fun _ h => by cases h⟩
      · split
        · exact .error _
        · rename_i some
          split
          · exact .error _
          · split
            · exact .error _
            · rename_i fresh
              have shorter := Cursor.length_skip_lt more (Nat.pos_of_ne_zero some)
              refine .bind (.any _) ?_
              rintro ⟨value, e, he⟩ -
              refine .bind (nodup_attributes _ e) ?_
              rintro ⟨as, closed, f, hf⟩ ⟨distinct, other⟩
              refine .ok ⟨?_, ?_⟩
              · rw [List.map_cons, List.nodup_cons]
                refine ⟨fun again => ?_, distinct⟩
                obtain ⟨x, hx, same⟩ := List.mem_map.mp again
                exact other x hx (by rw [same]; exact List.mem_cons_self)
              · rintro x (_ | ⟨_, hx⟩)
                · exact fun known => fresh (List.contains_iff_mem.mpr known)
                · exact fun known => other x hx (List.mem_cons_of_mem _ known)
termination_by c.rest.length

theorem nodup_openingTag {h : c.rest ≠ []} :
    Yields (fun r => (r.1.attributes.map Attribute.name).Nodup) (openingTag c h) := by
  rw [openingTag]
  refine .bind (nodup_attributes [] _) ?_
  rintro ⟨as, closed, d, hd⟩ ⟨distinct, -⟩
  exact .ok distinct

theorem covers_opening {h : c.rest ≠ []} (angle : c.rest.head? = some '<')
    (letter : (c.rest.drop 1).head?.any Char.isAlpha = true) :
    Yields (fun r => (r.1.attributes.map Attribute.name).Nodup ∧
      ∃ used, Covers c [.kept (.sign used (.opening r.1.bare))] r.2.1) (openingTag c h) := by
  rintro ⟨tag, d, hd⟩ hread
  obtain ⟨used, takes, piecewise⟩ := exists_opening angle letter hread
  exact ⟨nodup_openingTag _ hread, used, .lexeme takes piecewise⟩

/-- A mark of no other kind begins an opening tag. -/
theorem beginsOpening {cs : List Char} (mark : beginsMarkup cs = true)
    (comment : ¬ ['/', '*'].isPrefixOf cs = true)
    (comment' : ¬ ['<', '!', '-', '-'].isPrefixOf cs = true)
    (braces : ¬ ['\x7b', '\x7b'].isPrefixOf cs = true)
    (slash : ¬ ['<', '/'].isPrefixOf cs = true) :
    cs.head? = some '<' ∧ (cs.drop 1).head?.any Char.isAlpha = true := by
  simp only [beginsMarkup, comment, comment', braces, Bool.false_or, Bool.and_eq_true,
    beq_iff_eq] at mark
  obtain ⟨angle, letter⟩ := mark
  refine ⟨angle, ?_⟩
  obtain ⟨rest, rfl⟩ := List.head?_eq_some_iff.mp angle
  rw [List.drop_succ_cons, List.drop_zero, beginsTag.eq_def] at letter
  split at letter
  · simp [List.isPrefixOf] at slash
  · exact letter

/-! ## Nodes -/

mutual

theorem parts_nodes (n : Nesting) (c : Cursor) : Yields NodeParts (nodes n c) := by
  rw [nodes]
  have shorter := Cursor.length_skip_le c (literal c.rest).2
  obtain ⟨⟨ss, covers, tree⟩, stops⟩ := parts_literal c
  dsimp only
  split
  · rename_i done
    exact .ok ⟨ss, _, covers, tree, done⟩
  · rename_i more
    refine .bind (parts_item n _ more (stops.resolve_left more)) ?_
    rintro ⟨a | stop, e, he⟩ ha
    · obtain ⟨ts, covers', tree'⟩ := ha
      refine .bind (parts_nodes n e) ?_
      rintro ⟨rest, stop⟩ ⟨us, d, covers'', tree'', hstop⟩
      refine .ok ⟨_, d, covers.append (covers'.append covers''),
        tree.append (tree'.append tree''), ?_⟩
      cases stop with
      | none => exact hstop
      | some _ => exact hstop
    · exact .ok ⟨ss, _, covers, tree, ha⟩
termination_by c.rest.length * 4 + 2

theorem parts_item (n : Nesting) (c : Cursor) (h : c.rest ≠ [])
    (mark : beginsMarkup c.rest = true) : Yields ItemParts (item n c h) := by
  rw [item]
  split
  · rename_i front
    exact .bind (parts_comment (.inl ⟨rfl, rfl⟩) front) fun _ ha => .ok ha
  · rename_i notComment
    split
    · rename_i front
      exact .bind (parts_comment (.inr ⟨rfl, rfl⟩) front) fun _ ha => .ok ha
    · rename_i notComment'
      split
      · rename_i braces
        refine .bind (covers_brace braces) ?_
        rintro ⟨e | e | header | e | name, d, hd⟩ ⟨used, covers⟩
        · exact .ok ⟨_, covers, .output⟩
        · refine .bind (parts_ifRest n _ e d) ?_
          rintro ⟨a, f, hf⟩ ⟨-, ss, covers', tree⟩
          exact .ok ⟨_, covers.append covers', tree used⟩
        · refine .bind (parts_eachRest n _ header d) ?_
          rintro ⟨a, f, hf⟩ ⟨ss, covers', tree⟩
          exact .ok ⟨_, covers.append covers', tree used⟩
        · exact .ok ⟨used, covers⟩
        · exact .ok ⟨used, covers⟩
      · rename_i notBraces
        split
        · rename_i slash
          exact .bind (covers_closing mark slash) fun _ covers => .ok covers
        · rename_i notSlash
          obtain ⟨angle, letter⟩ := beginsOpening mark notComment notComment' notBraces notSlash
          exact .bind (parts_element n c h angle letter) fun _ ha => .ok ha
termination_by c.rest.length * 4 + 1

theorem parts_ifRest (n : Nesting) (start : Position) (e : Expr) (c : Cursor) :
    Yields (fun r => (∃ consequent alternate s, r.1 = .ifBlock e consequent alternate s) ∧
      PartsAfter (.brace (.ifOpening e.bare)) r) (ifRest n start e c) := by
  rw [ifRest]
  refine .bind (parts_nodes n c) ?_
  rintro ⟨consequent, stop⟩ ⟨ss, d', covers, tree, hstop⟩
  dsimp only
  split
  · obtain ⟨used', covers'⟩ := hstop
    exact .ok ⟨⟨_, _, _, rfl⟩, _, covers.append covers', fun _ => .ifBlock tree.trim⟩
  · obtain ⟨used', covers'⟩ := hstop
    refine .bind (parts_nodes n _) ?_
    rintro ⟨alternate, stop⟩ ⟨ts, e', covers'', tree', hstop'⟩
    dsimp only
    split
    · obtain ⟨used'', covers'''⟩ := hstop'
      exact .ok ⟨⟨_, _, _, rfl⟩, _,
        covers.append (covers'.append (covers''.append covers''')),
        fun _ => .ifElse tree.trim tree'.trim⟩
    · exact .error _
  · obtain ⟨used', covers'⟩ := hstop
    refine .bind (parts_ifRest n _ _ _) ?_
    rintro ⟨a, f, hf⟩ ⟨⟨_, _, _, rfl⟩, ts, covers'', tree'⟩
    exact .ok ⟨⟨_, _, _, rfl⟩, _, covers.append (covers'.append covers''),
      fun _ => .ifElseIf tree.trim (fun _ => ⟨_, rfl⟩) (tree' [])⟩
  · exact .error _
termination_by c.rest.length * 4 + 3

theorem parts_eachRest (n : Nesting) (start : Position) (header : EachHeader) (c : Cursor) :
    Yields (PartsAfter (.brace (.eachOpening header.bare))) (eachRest n start header c) := by
  rw [eachRest]
  refine .bind (parts_nodes { n with inEach := true } c) ?_
  rintro ⟨body, stop⟩ ⟨ss, d', covers, tree, hstop⟩
  dsimp only
  split
  · obtain ⟨used', covers'⟩ := hstop
    exact .ok ⟨_, covers.append covers', fun _ => .eachBlock tree.trim⟩
  · obtain ⟨used', covers'⟩ := hstop
    refine .bind (parts_nodes { n with inEach := true } _) ?_
    rintro ⟨alternate, stop⟩ ⟨ts, e', covers'', tree', hstop'⟩
    dsimp only
    split
    · obtain ⟨used'', covers'''⟩ := hstop'
      exact .ok ⟨_, covers.append (covers'.append (covers''.append covers''')),
        fun _ => .eachElse tree.trim tree'.trim⟩
    · exact .error _
  · exact .error _
  · exact .error _
termination_by c.rest.length * 4 + 3

theorem parts_element (n : Nesting) (c : Cursor) (h : c.rest ≠ [])
    (angle : c.rest.head? = some '<') (letter : (c.rest.drop 1).head?.any Char.isAlpha = true) :
    Yields Parts (element n c h) := by
  rw [element]
  refine .bind (covers_opening angle letter) ?_
  rintro ⟨opening, d, hd⟩ ⟨distinct, used, covers⟩
  dsimp only
  split
  · exact .error _
  · rename_i kind hname
    split
    · exact .error _
    · rename_i inside hinside
      split
      · rename_i closed
        refine .ok ?_
        by_cases hkind : kind = .reference
        · subst hkind
          exact ⟨_, covers.reference angle hd distinct, .reference⟩
        · refine ⟨_, covers, ?_⟩
          rw [Opening.bare, closed]
          exact .closedElement hname hkind
      · rename_i notClosed
        refine .bind (parts_nodes inside d) ?_
        rintro ⟨children, stop⟩ ⟨ss, d', covers', tree, hstop⟩
        dsimp only
        split
        · split
          · rename_i same
            obtain ⟨used', covers''⟩ := hstop
            have covers := covers.append (covers'.append covers'')
            refine .ok ?_
            by_cases hkind : kind = .reference
            · subst hkind
              exact ⟨_, covers.reference angle (Nat.lt_trans ‹_ < d.rest.length› hd) distinct, .reference⟩
            · refine ⟨_, covers, ?_⟩
              rw [Opening.bare, Stop.sign, same, Bool.eq_false_iff.mpr notClosed]
              exact .element tree hname hkind
          · exact .error _
        · exact .error _
        · exact .error _
termination_by c.rest.length * 4

end

end Template

end PromptTemplate
