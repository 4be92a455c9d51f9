import PromptTemplate.Proofs.Template.Insertion

/-!
# Nodes around a comment that is put in

Where a comment is put into literal text after a blank, all nodes are read as before, but for the
text that the comment divides. The same is then seen of them, if the comment leaves the ends of all
branches as they are.
-/

namespace PromptTemplate

open Text Text.Cursor

namespace Template

open Node

variable {coming : Prop} {inserted following : List Char} {offset : Nat} {c c' : Cursor}
  {ns ns' : List Node}

/-! ## What agrees -/

/-- The comments at an offset leave the ends of all branches as they are. -/
def AllLeaveEnds (offset : Nat) (following : List Char) (ns : List Node) : Prop :=
  ∀ branch ∈ branchesAll ns, LeavesEnds offset following branch

instance (offset : Nat) (following : List Char) (ns : List Node) :
    Decidable (AllLeaveEnds offset following ns) :=
  inferInstanceAs (Decidable (∀ branch ∈ branchesAll ns, LeavesEnds offset following branch))

theorem allLeaveEnds_append {ms : List Node} :
    AllLeaveEnds offset following (ns ++ ms) ↔
      AllLeaveEnds offset following ns ∧ AllLeaveEnds offset following ms := by
  simp only [AllLeaveEnds, branchesAll_append, List.mem_append, or_imp, forall_and]

theorem allLeaveEnds_cons {a : Node} :
    AllLeaveEnds offset following (a :: ns) ↔
      AllLeaveEnds offset following [a] ∧ AllLeaveEnds offset following ns := by
  rw [← allLeaveEnds_append, List.singleton_append]

theorem allLeaveEnds_trimBlock :
    AllLeaveEnds offset following (trimBlock ns) ↔ AllLeaveEnds offset following ns := by
  rw [AllLeaveEnds, AllLeaveEnds, branchesAll_trimBlock]

/-- The same nodes, but for a comment at an offset, which may divide a text. -/
def Divided (offset : Nat) (following : List Char) (ns ns' : List Node) : Prop :=
  ∃ xs data codes s ys, ns' = xs ++ .comment data codes s :: ys ∧ s.start = offset ∧
    atomsAll ns = atomsAll xs ++ atomsAll ys ∧
      ((atomsAll ys).head?.any Node.isBlank = true → following.head?.any Text.isBlank = true)

/-- Two lists of nodes that agree, but for a comment that may be put into the second. -/
structure AllAgree (coming : Prop) (offset : Nat) (following : List Char) (ns ns' : List Node) :
    Prop where
  parted : Parted ns
  parted' : Parted ns'
  atoms : AllLeaveEnds offset following ns' →
    atomsAll ns' = atomsAll ns ∨ coming ∧ Divided offset following ns ns'

/-- Two nodes that agree and are not literal text. -/
structure Agree (offset : Nat) (following : List Char) (a a' : Node) : Prop where
  solid : a.isText = false
  solid' : a'.isText = false
  atoms : AllLeaveEnds offset following [a'] → Node.atoms a' = Node.atoms a

namespace AllAgree

theorem seen (h : AllAgree coming offset following ns ns')
    (ends : AllLeaveEnds offset following ns') : seenAll ns' = seenAll ns := by
  rcases h.atoms ends with same | ⟨-, xs, data, codes, s, ys, rfl, -, same, -⟩
  · exact seenAll_congr same
  · rw [← filter_atomsAll ns, same, List.filter_append, filter_atomsAll, filter_atomsAll,
      seenAll_append]
    rfl

theorem trim (h : AllAgree coming offset following ns ns')
    (ends : LeavesEnds offset following (trimBlock ns'))
    (inside : AllLeaveEnds offset following ns') :
    seenAll (trimBlock ns') = seenAll (trimBlock ns) := by
  rcases h.atoms inside with same | ⟨-, xs, data, codes, s, ys, rfl, hs, same, blank⟩
  · refine seenAll_congr ?_
    rw [atomsAll_trimBlock h.parted', atomsAll_trimBlock h.parted, same]
  · have before : Parted xs := h.parted'.left_of_append
    have after : Parted ys := (List.isChain_cons.mp h.parted'.right_of_append).2
    exact seenAll_trimBlock_comment h.parted before after same hs blank ends

end AllAgree

/-! ## Blocks and elements -/

theorem branchesAll_block {a : Node} {alternate : Option (List Node)}
    (hwalk : a.walk = a :: (walkAll ns ++ walkOption alternate))
    (hbranches : branches a = ns :: alternate.toList) :
    branchesAll [a] =
      ns :: (alternate.toList ++ (branchesAll ns ++ branchesAll (alternate.getD []))) := by
  rw [branchesAll, walkAll, walkAll, List.append_nil, hwalk, List.flatMap_cons, hbranches,
    List.flatMap_append, List.cons_append]
  cases alternate <;> rfl

theorem branchesAll_plain {a : Node} (hwalk : a.walk = a :: walkAll ns)
    (hbranches : branches a = []) : branchesAll [a] = branchesAll ns := by
  rw [branchesAll, walkAll, walkAll, List.append_nil, hwalk, List.flatMap_cons, hbranches,
    List.nil_append, branchesAll]

theorem allLeaveEnds_block {a : Node} {alternate : Option (List Node)}
    (hwalk : a.walk = a :: (walkAll (trimBlock ns) ++ walkOption alternate))
    (hbranches : branches a = trimBlock ns :: alternate.toList)
    (h : AllLeaveEnds offset following [a]) :
    (LeavesEnds offset following (trimBlock ns) ∧ AllLeaveEnds offset following ns) ∧
      ∀ ms ∈ alternate, LeavesEnds offset following ms ∧ AllLeaveEnds offset following ms := by
  rw [AllLeaveEnds, branchesAll_block hwalk hbranches, List.forall_mem_cons,
    List.forall_mem_append, List.forall_mem_append] at h
  obtain ⟨here, other, inside, more⟩ := h
  refine ⟨⟨here, allLeaveEnds_trimBlock.mp inside⟩, ?_⟩
  rintro ms ⟨⟩
  exact ⟨other ms (List.mem_singleton_self ms), more⟩

/-- Two other branches that agree, if the comments in them leave their ends as they are. -/
def BranchesAgree (offset : Nat) (following : List Char)
    (alternate alternate' : Option (List Node)) : Prop :=
  (∀ ms ∈ alternate', LeavesEnds offset following ms ∧ AllLeaveEnds offset following ms) →
    seenOption alternate' = seenOption alternate

theorem AllAgree.branch (h : AllAgree coming offset following ns ns') :
    BranchesAgree offset following (some (trimBlock ns)) (some (trimBlock ns')) := by
  intro ends
  obtain ⟨ends, inside⟩ := ends _ rfl
  exact congrArg some (h.trim ends (allLeaveEnds_trimBlock.mp inside))

theorem Agree.branch {a a' : Node} (h : Agree offset following a a') :
    BranchesAgree offset following (some [a]) (some [a']) := by
  intro ends
  refine congrArg some (seenAll_congr ?_)
  rw [atomsAll_cons, atomsAll_cons, h.atoms (ends _ rfl).2]

theorem AllAgree.ifBlock {x x' : Expr} {alternate alternate' : Option (List Node)} {s s' : Span}
    (h : AllAgree coming offset following ns ns') (same : x'.bare = x.bare)
    (other : BranchesAgree offset following alternate alternate') :
    Agree offset following (.ifBlock x (trimBlock ns) alternate s)
      (.ifBlock x' (trimBlock ns') alternate' s') where
  solid := rfl
  solid' := rfl
  atoms ends := by
    obtain ⟨⟨here, inside⟩, more⟩ := allLeaveEnds_block rfl rfl ends
    simp only [Node.atoms, Node.seen, same, h.trim here inside, other more]

theorem AllAgree.eachBlock {header header' : EachHeader} {alternate alternate' : Option (List Node)}
    {s s' : Span} (h : AllAgree coming offset following ns ns') (same : header'.bare = header.bare)
    (other : BranchesAgree offset following alternate alternate') :
    Agree offset following
      (.eachBlock header.expression header.context header.index (trimBlock ns) alternate s)
      (.eachBlock header'.expression header'.context header'.index (trimBlock ns') alternate' s')
    where
  solid := rfl
  solid' := rfl
  atoms ends := by
    obtain ⟨⟨here, inside⟩, more⟩ := allLeaveEnds_block rfl rfl ends
    obtain ⟨hx, hcontext, hindex⟩ := EachHeader.mk.inj same
    simp only [Node.atoms, Node.seen, hx, hcontext, hindex, h.trim here inside, other more]

theorem Agree.element {kind : ElementKind} {as as' : List Attribute} {s s' : Span}
    (h : AllAgree coming offset following ns ns')
    (same : as'.map Attribute.bare = as.map Attribute.bare) :
    Agree offset following (kind.node as ns s) (kind.node as' ns' s') where
  solid := by cases kind <;> rfl
  solid' := by cases kind <;> rfl
  atoms ends := by
    cases kind with
    | reference => simp only [ElementKind.node, Node.atoms, Node.seen, same]
    | _ =>
      have inside : AllLeaveEnds offset following ns' := by
        rwa [AllLeaveEnds, branchesAll_plain rfl rfl] at ends
      simp only [ElementKind.node, Node.atoms, Node.seen, same, h.seen inside]

/-! ## Texts -/

theorem atomsAll_textAt (c : Cursor) : atomsAll (textAt c) = (literal c.rest).1.map character := by
  rw [textAt]
  split
  · rename_i none
    rw [List.isEmpty_iff.mp none]
    rfl
  · rw [atomsAll_cons, atomsAll_nil, List.append_nil, atoms_text]

/-- What goes on after literal text begins with a node of another kind. -/
theorem parted_textAt_append (c : Cursor) (h : Parted ns)
    (solid : ∀ a ∈ ns.head?, a.isText = false) : Parted (textAt c ++ ns) := by
  rw [textAt]
  split
  · exact h
  · cases ns with
    | nil => exact .singleton _
    | cons a ns => exact .cons_cons (.inr (solid a rfl)) h

/-- The first character of literal text, if it is blank, is the first of the text. -/
theorem head?_of_literal {cs more : List Char} {x : Char} (h : (literal cs).1 = x :: more)
    (blank : Text.isBlank x = true) : cs.head?.any Text.isBlank = true := by
  cases cs with
  | nil => simp [literal] at h
  | cons y cs =>
    rw [literal] at h
    split at h
    · rename_i escaped
      obtain ⟨rfl, escaped⟩ := escaped
      cases cs with
      | nil => cases escaped
      | cons z cs =>
        obtain ⟨rfl, -⟩ := List.cons.inj h
        have plain := isEscapable_eq_false_of_blank blank
        rw [show isEscapable z = true from escaped] at plain
        cases plain
    · split at h
      · cases h
      · obtain ⟨rfl, -⟩ := List.cons.inj h
        exact blank

/-! ## Lists -/

variable {ms ms' : List Node}

theorem Divided.prepend (h : Divided offset following ns ns') (same : atomsAll ms' = atomsAll ms) :
    Divided offset following (ms ++ ns) (ms' ++ ns') := by
  obtain ⟨xs, data, codes, s, ys, rfl, hs, atoms, blank⟩ := h
  refine ⟨ms' ++ xs, data, codes, s, ys, by rw [List.append_assoc], hs, ?_, blank⟩
  rw [atomsAll_append, atomsAll_append, atoms, same, List.append_assoc]

namespace AllAgree

theorem nil : AllAgree coming offset following [] [] := ⟨.nil, .nil, fun _ => .inl rfl⟩

theorem cons {a a' : Node} (ha : Agree offset following a a')
    (h : AllAgree coming offset following ns ns') :
    AllAgree coming offset following (a :: ns) (a' :: ns') where
  parted := List.isChain_cons.mpr ⟨fun _ _ => .inl ha.solid, h.parted⟩
  parted' := List.isChain_cons.mpr ⟨fun _ _ => .inl ha.solid', h.parted'⟩
  atoms ends := by
    obtain ⟨here, later⟩ := allLeaveEnds_cons.mp ends
    have same := ha.atoms here
    rcases h.atoms later with rest | ⟨come, divided⟩
    · exact .inl (by rw [atomsAll_cons, atomsAll_cons, same, rest])
    · have first : atomsAll [a'] = atomsAll [a] := by rw [atomsAll_cons, atomsAll_cons, same]
      exact .inr ⟨come, divided.prepend first⟩

/-- Lists after the same literal text. -/
theorem text (h : AllAgree coming offset following ns ns')
    (solid : ∀ a ∈ ns.head?, a.isText = false) (solid' : ∀ a ∈ ns'.head?, a.isText = false)
    (same : (literal c'.rest).1 = (literal c.rest).1) :
    AllAgree coming offset following (textAt c ++ ns) (textAt c' ++ ns') where
  parted := parted_textAt_append c h.parted solid
  parted' := parted_textAt_append c' h.parted' solid'
  atoms ends := by
    have texts : atomsAll (textAt c') = atomsAll (textAt c) := by
      rw [atomsAll_textAt, atomsAll_textAt, same]
    rcases h.atoms (allLeaveEnds_append.mp ends).2 with rest | ⟨come, divided⟩
    · exact .inl (by rw [atomsAll_append, atomsAll_append, texts, rest])
    · exact .inr ⟨come, divided.prepend texts⟩

/-- The same literal text. -/
theorem last (same : (literal c'.rest).1 = (literal c.rest).1) :
    AllAgree coming offset following (textAt c) (textAt c') := by
  have agree : AllAgree coming offset following (textAt c ++ []) (textAt c' ++ []) :=
    nil.text (fun _ h => by cases h) (fun _ h => by cases h) same
  rwa [List.append_nil, List.append_nil] at agree

end AllAgree

/-- A comment that divides a text, and what follows it. -/
theorem Meets.agree {e : Cursor} {data : String} {codes : List String} {s : Span}
    (h : Meets inserted following offset c c') (come : coming) (he : e.rest = following)
    (hs : s.start = offset) (hns : AllAgree False offset following ns ns')
    (solid : ∀ a ∈ ns.head?, a.isText = false) (solid' : ∀ a ∈ ns'.head?, a.isText = false) :
    AllAgree coming offset following (textAt c ++ ns)
      (textAt c' ++ .comment data codes s :: (textAt e ++ ns')) where
  parted := parted_textAt_append c hns.parted solid
  parted' := by
    have later := parted_textAt_append e hns.parted' solid'
    refine parted_textAt_append c' (List.isChain_cons.mpr ⟨fun _ _ => .inl rfl, later⟩) ?_
    rintro a ⟨⟩
    rfl
  atoms ends := by
    have inside : AllLeaveEnds offset following ns' :=
      (allLeaveEnds_append.mp (allLeaveEnds_cons.mp (allLeaveEnds_append.mp ends).2).2).2
    obtain same | ⟨⟨⟩, -⟩ := hns.atoms inside
    obtain ⟨u, -, front, front'⟩ := h.text
    refine .inr ⟨come, textAt c', data, codes, s, textAt e ++ ns', rfl, hs, ?_, fun blank => ?_⟩
    · rw [atomsAll_append, atomsAll_append, atomsAll_textAt, atomsAll_textAt, atomsAll_textAt,
        front, front', he, same, List.map_append, List.append_assoc]
    · rw [atomsAll_append, atomsAll_textAt, he] at blank
      cases hv : (literal following).1 with
      | nil =>
        rw [hv, List.map_nil, List.nil_append] at blank
        cases ns' with
        | nil => cases blank
        | cons a ns' =>
          obtain ⟨b, hb, plain⟩ := exists_atom (solid' a rfl)
          rw [atomsAll_cons, hb, List.singleton_append, List.head?_cons, Option.any_some,
            plain] at blank
          cases blank
      | cons x v =>
        rw [hv, List.map_cons, List.cons_append, List.head?_cons, Option.any_some,
          isBlank_character] at blank
        exact head?_of_literal hv blank

/-- A comment that divides the last text. -/
theorem Meets.agree_last {e : Cursor} {data : String} {codes : List String} {s : Span}
    (h : Meets inserted following offset c c') (come : coming) (he : e.rest = following)
    (hs : s.start = offset) :
    AllAgree coming offset following (textAt c)
      (textAt c' ++ .comment data codes s :: textAt e) := by
  have agree : AllAgree coming offset following (textAt c ++ [])
      (textAt c' ++ .comment data codes s :: (textAt e ++ [])) :=
    h.agree come he hs .nil (fun _ h => by cases h) (fun _ h => by cases h)
  rwa [List.append_nil, List.append_nil] at agree

/-! ## Readers -/

/-- A text is read as a comment before another one. -/
structure IsComment (inserted following : List Char) : Prop where
  begins : beginsMarkup (inserted ++ following) = true
  read : ∀ (n : Nesting) (c : Cursor) (h : c.rest ≠ []), c.rest = inserted ++ following →
    ∃ data codes d hd, item n c h = .ok (.inl (.comment data codes (c.span d)), ⟨d, hd⟩) ∧
      d.rest = following

/-- The comment and what is read after it. -/
theorem Meets.listed (h : Meets inserted following offset c c')
    (comment : IsComment inserted following) (n : Nesting) :
    ∃ e data codes s, e.rest = following ∧ s.start = offset ∧
      ∀ ns stop, Template.listed n e = .ok (ns, stop) →
        Template.listed n c' = .ok (textAt c' ++ .comment data codes s :: ns, stop) := by
  have nonempty : (afterText c').rest ≠ [] :=
    rest_ne_nil_of_mark (by rw [h.rest']; exact comment.begins)
  obtain ⟨data, codes, e, he, found, rest⟩ := comment.read n _ nonempty h.rest'
  exact ⟨e, data, codes, _, rest, h.place, fun ns stop later => listed_node found later⟩

variable (inserted following offset)

/-- What nodes stop at, side by side. -/
inductive StopsAgree (coming : Prop) {c : Cursor} :
    Option (Stop × c.Shorter) → Option (Stop × Cursor) → Prop
  | ended : StopsAgree coming none none
  | stopped {stop stop' : Stop} {d : c.Shorter} {d' : Cursor} (sign : stop'.sign = stop.sign)
    (beside : Beside coming inserted following offset d.1 d') :
    StopsAgree coming (some (stop, d)) (some (stop', d'))

/-- Two nodes, or two stops. -/
inductive PartsAgree : Node ⊕ Stop → Node ⊕ Stop → Prop
  | node {a a' : Node} (h : Agree offset following a a') : PartsAgree (.inl a) (.inl a')
  | stop {stop stop' : Stop} (h : stop'.sign = stop.sign) : PartsAgree (.inr stop) (.inr stop')

/-- Nodes that are read at all cursors beside one. -/
def NodesAgree (n : Nesting) (c : Cursor) (r : List Node × Option (Stop × c.Shorter)) : Prop :=
  ∀ coming c', Beside coming inserted following offset c c' → ∃ ns' stop',
    listed n c' = .ok (ns', stop') ∧ AllAgree coming offset following r.1 ns' ∧
      StopsAgree inserted following offset coming r.2 stop'

/-- A node or a stop that is read at all cursors beside one. -/
def ItemAgrees (n : Nesting) (c : Cursor) (r : (Node ⊕ Stop) × c.Shorter) : Prop :=
  ∀ coming c' (h : c'.rest ≠ []), Beside coming inserted following offset c c' → ∃ x d' hd',
    item n c' h = .ok (x, ⟨d', hd'⟩) ∧ PartsAgree following offset r.1 x ∧
      Beside coming inserted following offset r.2.1 d'

/-! ### Comments and tags -/

section

variable {inserted following offset} {d : Cursor} {h : c.rest ≠ []}
  {hd : d.rest.length < c.rest.length} (beside : Beside coming inserted following offset c c')
include beside

theorem Beside.ne_nil (h : c.rest ≠ []) : c'.rest ≠ [] := by
  rcases beside with same | ⟨-, ps, facing⟩
  · rwa [same]
  · cases ps with
    | nil => exact absurd rfl facing.ne_nil
    | cons p ps =>
      rw [facing.rest', Lexeme.textAll_cons, List.append_assoc]
      exact List.append_ne_nil_of_left_ne_nil (Lexeme.text_ne_nil facing.fits.1) _

theorem Beside.comment {opening closing : List Char} {a : Node} {ho : 0 < opening.length}
    (hmark : opening = ['/', '*'] ∧ closing = ['*', '/'] ∨
      opening = ['<', '!', '-', '-'] ∧ closing = ['-', '-', '>'])
    (front : opening.isPrefixOf c.rest = true)
    (read : comment opening closing c h ho = .ok (a, ⟨d, hd⟩)) (n : Nesting) (h' : c'.rest ≠ []) :
    (∃ data codes s, a = .comment data codes s) ∧ ∃ data codes s d' hd',
      item n c' h' = .ok (.inl (.comment data codes s), ⟨d', hd'⟩) ∧
        Beside coming inserted following offset d d' := by
  obtain ⟨data, codes, s, rfl⟩ : ∃ data codes s, a = .comment data codes s := by
    rw [Template.comment] at read
    split at read
    · cases read
    · cases read
      exact ⟨_, _, _, rfl⟩
  have mark : Marked c d none := by
    rcases hmark with ⟨rfl, rfl⟩ | ⟨rfl, rfl⟩
    · exact ⟨by simp [beginsMarkup, front], .inl ⟨front, fun _ _ => ⟨_, _, _, hd, read⟩⟩⟩
    · exact ⟨by simp [beginsMarkup, front], .inr ⟨front, fun _ _ => ⟨_, _, _, hd, read⟩⟩⟩
  obtain ⟨d', ⟨-, ⟨front', reads⟩ | ⟨front', reads⟩⟩, beside'⟩ := beside.marked mark
  all_goals
    obtain ⟨data', codes', s', hd', read'⟩ := reads h' (by decide)
    refine ⟨⟨_, _, _, rfl⟩, data', codes', s', d', hd', ?_, beside'⟩
  · exact item_comment front' read'
  · exact item_htmlComment front' read'

theorem Beside.brace {tag : BraceTag} (braces : ['\x7b', '\x7b'].isPrefixOf c.rest = true)
    (read : braceTag c h = .ok (tag, ⟨d, hd⟩)) (h' : c'.rest ≠ []) :
    ['\x7b', '\x7b'].isPrefixOf c'.rest = true ∧ ∃ tag' d' hd',
      braceTag c' h' = .ok (tag', ⟨d', hd'⟩) ∧ tag'.bare = tag.bare ∧
        Beside coming inserted following offset d d' := by
  have mark : Marked c d (some (.brace tag.bare)) :=
    ⟨by simp [beginsMarkup, braces], braces, fun _ => ⟨tag, hd, read, rfl⟩⟩
  obtain ⟨d', ⟨-, braces', reads⟩, beside'⟩ := beside.marked mark
  obtain ⟨tag', hd', read', same⟩ := reads h'
  exact ⟨braces', tag', d', hd', read', same, beside'⟩

theorem Beside.closing {name : String} (mark : beginsMarkup c.rest = true)
    (slash : ['<', '/'].isPrefixOf c.rest = true)
    (read : closingTag c h = .ok (name, ⟨d, hd⟩)) (h' : c'.rest ≠ []) :
    ['<', '/'].isPrefixOf c'.rest = true ∧ ∃ d' hd',
      closingTag c' h' = .ok (name, ⟨d', hd'⟩) ∧
        Beside coming inserted following offset d d' := by
  have mark : Marked c d (some (.closing name)) := ⟨mark, slash, fun _ => ⟨hd, read⟩⟩
  obtain ⟨d', ⟨-, slash', reads⟩, beside'⟩ := beside.marked mark
  obtain ⟨hd', read'⟩ := reads h'
  exact ⟨slash', d', hd', read', beside'⟩

theorem Beside.opening {tag : Opening} (mark : beginsMarkup c.rest = true)
    (angle : c.rest.head? = some '<') (letter : (c.rest.drop 1).head?.any Char.isAlpha = true)
    (read : openingTag c h = .ok (tag, ⟨d, hd⟩)) (h' : c'.rest ≠ []) :
    (c'.rest.head? = some '<' ∧ (c'.rest.drop 1).head?.any Char.isAlpha = true) ∧
      ∃ tag' d' hd', openingTag c' h' = .ok (tag', ⟨d', hd'⟩) ∧ tag'.bare = tag.bare ∧
        Beside coming inserted following offset d d' := by
  have mark : Marked c d (some (.opening tag.bare)) :=
    ⟨mark, ⟨angle, letter⟩, fun _ => ⟨tag, hd, read, rfl⟩⟩
  obtain ⟨d', ⟨-, front, reads⟩, beside'⟩ := beside.marked mark
  obtain ⟨tag', hd', read', same⟩ := reads h'
  exact ⟨front, tag', d', hd', read', same, beside'⟩

end

variable {inserted following offset}

theorem StopsAgree.past {c : Cursor} {stop : Option (Stop × c.Shorter)}
    {stop' : Option (Stop × Cursor)} (h : StopsAgree inserted following offset False stop stop') :
    StopsAgree inserted following offset coming stop stop' := by
  cases h with
  | ended => exact .ended
  | stopped sign beside =>
    obtain same | ⟨⟨⟩, -⟩ := beside
    exact .stopped sign (.inl same)

theorem sign_tagEnd {stop : Stop} {name : String} (h : stop.sign = .closing name) :
    ∃ s, stop = .tagEnd name s := by
  cases stop with
  | otherwise e s => cases h
  | blockEnd name' s => cases h
  | tagEnd name' s =>
    cases h
    exact ⟨s, rfl⟩

mutual

/-- What is read at a cursor is read beside it, by induction on what is left of the first text. Once
the comment has been read, nothing is coming any more. -/
theorem agree_nodes (comment : IsComment inserted following) (n : Nesting) (c : Cursor) :
    Yields (NodesAgree inserted following offset n c) (nodes n c) := by
  rw [nodes]
  have shorter := Cursor.length_skip_le c (literal c.rest).2
  have stops := (parts_literal c).2
  dsimp only
  split
  · rename_i done
    refine .ok fun coming c' h => ?_
    -- the comment divides the text in front, or it has been read before
    obtain ⟨come, meets⟩ | ⟨same, -, ended⟩ := h.text comment.begins
    · obtain ⟨e, data, codes, s, he, hs, reads⟩ := meets.listed comment n
      have rest : (afterText e).rest = [] := by
        rw [afterText, rest_skip, he, ← meets.rest]
        exact done
      exact ⟨_, none, reads _ _ (listed_ended rest), meets.agree_last come he hs, .ended⟩
    · exact ⟨_, none, listed_ended (ended done), .last same, .ended⟩
  · rename_i more
    refine .bind (agree_item comment n _ more (stops.resolve_left more)) ?_
    rintro ⟨a | stop, e, he⟩ ha
    · refine .bind (agree_nodes comment n e) ?_
      rintro ⟨rest, stop⟩ hrest
      have stopped {coming : Prop} {stop' : Option (Stop × Cursor)}
          (h : StopsAgree inserted following offset coming stop stop') :
          StopsAgree inserted following offset coming
            (stop.map fun r => ((r.1, ⟨r.2.1, by have := r.2.2; omega⟩) : Stop × c.Shorter))
            stop' := by
        cases h with
        | ended => exact .ended
        | stopped sign beside => exact .stopped sign beside
      refine .ok fun coming c' h => ?_
      obtain ⟨come, meets⟩ | ⟨same, after, -⟩ := h.text comment.begins
      · obtain ⟨f, data, codes, s, hf, hs, reads⟩ := meets.listed comment n
        -- after the comment and the other part of the text both go on with the same node
        have same : (afterText f).rest = (afterText c).rest := by
          rw [meets.rest, afterText, rest_skip, hf]
        obtain ⟨x, d', hd', found, part, beside⟩ := ha False _ (same ▸ more) (.inl same)
        obtain ⟨hnode⟩ := part
        obtain ⟨ns', stop', later, agree, stops⟩ := hrest False d' beside
        refine ⟨_, stop', reads _ _ (listed_node found later), ?_, stopped stops.past⟩
        refine meets.agree come hf hs (agree.cons hnode) ?_ ?_
        · rintro b ⟨⟩
          exact hnode.solid
        · rintro b ⟨⟩
          exact hnode.solid'
      · obtain ⟨x, d', hd', found, part, beside⟩ := ha coming _ (after.ne_nil more) after
        obtain ⟨hnode⟩ := part
        obtain ⟨ns', stop', later, agree, stops⟩ := hrest coming d' beside
        refine ⟨_, stop', listed_node found later, ?_, stopped stops⟩
        refine (agree.cons hnode).text ?_ ?_ same
        · rintro b ⟨⟩
          exact hnode.solid
        · rintro b ⟨⟩
          exact hnode.solid'
    · refine .ok fun coming c' h => ?_
      obtain ⟨come, meets⟩ | ⟨same, after, -⟩ := h.text comment.begins
      · obtain ⟨f, data, codes, s, hf, hs, reads⟩ := meets.listed comment n
        have same : (afterText f).rest = (afterText c).rest := by
          rw [meets.rest, afterText, rest_skip, hf]
        obtain ⟨x, d', hd', found, part, beside⟩ := ha False _ (same ▸ more) (.inl same)
        cases part with
        | stop sign =>
          obtain same | ⟨⟨⟩, -⟩ := beside
          exact ⟨_, _, reads _ _ (listed_stopped found), meets.agree_last come hf hs,
            .stopped sign (.inl same)⟩
      · obtain ⟨x, d', hd', found, part, beside⟩ := ha coming _ (after.ne_nil more) after
        cases part with
        | stop sign => exact ⟨_, _, listed_stopped found, .last same, .stopped sign beside⟩
termination_by c.rest.length * 4 + 2

theorem agree_item (comment : IsComment inserted following) (n : Nesting) (c : Cursor)
    (h : c.rest ≠ []) (mark : beginsMarkup c.rest = true) :
    Yields (ItemAgrees inserted following offset n c) (item n c h) := by
  have comments {opening closing : List Char} {ho : 0 < opening.length}
      (hmark : opening = ['/', '*'] ∧ closing = ['*', '/'] ∨
        opening = ['<', '!', '-', '-'] ∧ closing = ['-', '-', '>'])
      (front : opening.isPrefixOf c.rest = true) :
      Yields (fun r => ItemAgrees inserted following offset n c (.inl r.1, r.2))
        (Template.comment opening closing c h ho) := by
    rintro ⟨a, d, hd⟩ read coming c' h' beside
    obtain ⟨⟨_, _, _, rfl⟩, _, _, _, d', hd', found, beside'⟩ :=
      beside.comment hmark front read n h'
    exact ⟨_, d', hd', found, .node ⟨rfl, rfl, fun _ => rfl⟩, beside'⟩
  rw [item]
  split
  · rename_i front
    exact .bind (comments (.inl ⟨rfl, rfl⟩) front) fun _ ha => .ok ha
  · rename_i notComment
    split
    · rename_i front
      exact .bind (comments (.inr ⟨rfl, rfl⟩) front) fun _ ha => .ok ha
    · rename_i notComment'
      split
      · rename_i braces
        have tags : Yields (fun r => ∀ coming c' (h' : c'.rest ≠ []),
            Beside coming inserted following offset c c' →
              ['\x7b', '\x7b'].isPrefixOf c'.rest = true ∧ ∃ tag' d' hd',
                braceTag c' h' = .ok (tag', ⟨d', hd'⟩) ∧ tag'.bare = r.1.bare ∧
                  Beside coming inserted following offset r.2.1 d') (braceTag c h) :=
          fun _ read coming c' h' beside => beside.brace braces read h'
        refine .bind tags ?_
        rintro ⟨e | e | header | e | name, d, hd⟩ tag
        · refine .ok fun coming c' h' beside => ?_
          obtain ⟨braces', tag', d', hd', read, same, beside'⟩ := tag coming c' h' beside
          cases tag' with
          | output e' =>
            have same : e'.bare = e.bare := BraceTag.output.inj same
            refine ⟨_, d', hd', item_output braces' read, .node ⟨rfl, rfl, fun _ => ?_⟩, beside'⟩
            simp only [Node.atoms, Node.seen, same]
          | _ => cases same
        · refine .bind (agree_ifRest comment n _ e d) ?_
          rintro ⟨a, f, hf⟩ ha
          refine .ok fun coming c' h' beside => ?_
          obtain ⟨braces', tag', d', hd', read, same, beside'⟩ := tag coming c' h' beside
          obtain ⟨e', rfl, he'⟩ := bare_ifOpening same
          obtain ⟨a', f', hf', rest, agree, beside''⟩ := ha coming d' c'.position e' beside' he'
          exact ⟨_, f', _, item_ifBlock braces' read rest, .node agree, beside''⟩
        · refine .bind (agree_eachRest comment n _ header d) ?_
          rintro ⟨a, f, hf⟩ ha
          refine .ok fun coming c' h' beside => ?_
          obtain ⟨braces', tag', d', hd', read, same, beside'⟩ := tag coming c' h' beside
          obtain ⟨header', rfl, hheader'⟩ := bare_eachOpening same
          obtain ⟨a', f', hf', rest, agree, beside''⟩ :=
            ha coming d' c'.position header' beside' hheader'
          exact ⟨_, f', _, item_eachBlock braces' read rest, .node agree, beside''⟩
        · refine .ok fun coming c' h' beside => ?_
          obtain ⟨braces', tag', d', hd', read, same, beside'⟩ := tag coming c' h' beside
          cases tag' with
          | otherwise e' =>
            refine ⟨_, d', hd', item_otherwise braces' read, .stop ?_, beside'⟩
            exact congrArg Sign.brace same
          | _ => cases same
        · refine .ok fun coming c' h' beside => ?_
          obtain ⟨braces', tag', d', hd', read, same, beside'⟩ := tag coming c' h' beside
          cases tag' with
          | closing name' =>
            refine ⟨_, d', hd', item_blockEnd braces' read, .stop ?_, beside'⟩
            exact congrArg Sign.brace same
          | _ => cases same
      · rename_i notBraces
        split
        · rename_i slash
          refine .bind (P := fun r => ∀ coming c' (h' : c'.rest ≠ []),
            Beside coming inserted following offset c c' →
              ['<', '/'].isPrefixOf c'.rest = true ∧ ∃ d' hd',
                closingTag c' h' = .ok (r.1, ⟨d', hd'⟩) ∧
                  Beside coming inserted following offset r.2.1 d')
            (fun _ read coming c' h' beside => beside.closing mark slash read h') ?_
          rintro ⟨name, d, hd⟩ tag
          refine .ok fun coming c' h' beside => ?_
          obtain ⟨slash', d', hd', read, beside'⟩ := tag coming c' h' beside
          exact ⟨_, d', hd', item_tagEnd slash' read, .stop rfl, beside'⟩
        · rename_i notSlash
          obtain ⟨angle, letter⟩ := beginsOpening mark notComment notComment' notBraces notSlash
          exact .bind (agree_element comment n c h mark angle letter) fun _ ha => .ok ha
termination_by c.rest.length * 4 + 1

theorem agree_ifRest (comment : IsComment inserted following) (n : Nesting) (start : Position)
    (e : Expr) (c : Cursor) :
    Yields (fun r => ∀ coming c' start' (e' : Expr),
      Beside coming inserted following offset c c' → e'.bare = e.bare → ∃ a' d' hd',
        ifRest n start' e' c' = .ok (a', ⟨d', hd'⟩) ∧ Agree offset following r.1 a' ∧
          Beside coming inserted following offset r.2.1 d') (ifRest n start e c) := by
  rw [ifRest]
  refine .bind (agree_nodes comment n c) ?_
  rintro ⟨consequent, stop⟩ body
  dsimp only
  split
  · refine .ok fun coming c' start' e' beside same => ?_
    obtain ⟨ns', stop', read, agree, stops⟩ := body coming c' beside
    cases stops with
    | stopped sign beside' =>
      obtain ⟨s', rfl⟩ := sign_blockEnd sign
      obtain ⟨hd', rest⟩ := ifRest_plain read
      exact ⟨_, _, hd', rest, agree.ifBlock same fun _ => rfl, beside'⟩
  · refine .bind (agree_nodes comment n _) ?_
    rintro ⟨alternate, stop⟩ other
    dsimp only
    split
    · refine .ok fun coming c' start' e' beside same => ?_
      obtain ⟨ns', stop', read, agree, stops⟩ := body coming c' beside
      cases stops with
      | stopped sign beside' =>
        obtain ⟨s', rfl⟩ := sign_else sign
        obtain ⟨ms', stop', read', agree', stops'⟩ := other coming _ beside'
        cases stops' with
        | stopped sign' beside'' =>
          obtain ⟨s'', rfl⟩ := sign_blockEnd sign'
          obtain ⟨hd', rest⟩ := ifRest_else read read'
          exact ⟨_, _, hd', rest, agree.ifBlock same agree'.branch, beside''⟩
    · exact .error _
  · refine .bind (agree_ifRest comment n _ _ _) ?_
    rintro ⟨a, f, hf⟩ other
    refine .ok fun coming c' start' e' beside same => ?_
    obtain ⟨ns', stop', read, agree, stops⟩ := body coming c' beside
    cases stops with
    | stopped sign beside' =>
      obtain ⟨x', s', rfl, hx'⟩ := sign_elseIf sign
      obtain ⟨a', f', hf', read', agree', beside''⟩ := other coming _ _ x' beside' hx'
      obtain ⟨hd', rest⟩ := ifRest_elseIf read read'
      exact ⟨_, _, hd', rest, agree.ifBlock same agree'.branch, beside''⟩
  · exact .error _
termination_by c.rest.length * 4 + 3

theorem agree_eachRest (comment : IsComment inserted following) (n : Nesting) (start : Position)
    (header : EachHeader) (c : Cursor) :
    Yields (fun r => ∀ coming c' start' (header' : EachHeader),
      Beside coming inserted following offset c c' → header'.bare = header.bare → ∃ a' d' hd',
        eachRest n start' header' c' = .ok (a', ⟨d', hd'⟩) ∧ Agree offset following r.1 a' ∧
          Beside coming inserted following offset r.2.1 d') (eachRest n start header c) := by
  rw [eachRest]
  refine .bind (agree_nodes comment { n with inEach := true } c) ?_
  rintro ⟨inside, stop⟩ body
  dsimp only
  split
  · refine .ok fun coming c' start' header' beside same => ?_
    obtain ⟨ns', stop', read, agree, stops⟩ := body coming c' beside
    cases stops with
    | stopped sign beside' =>
      obtain ⟨s', rfl⟩ := sign_blockEnd sign
      obtain ⟨hd', rest⟩ := eachRest_plain read
      exact ⟨_, _, hd', rest, agree.eachBlock same fun _ => rfl, beside'⟩
  · refine .bind (agree_nodes comment { n with inEach := true } _) ?_
    rintro ⟨alternate, stop⟩ other
    dsimp only
    split
    · refine .ok fun coming c' start' header' beside same => ?_
      obtain ⟨ns', stop', read, agree, stops⟩ := body coming c' beside
      cases stops with
      | stopped sign beside' =>
        obtain ⟨s', rfl⟩ := sign_else sign
        obtain ⟨ms', stop', read', agree', stops'⟩ := other coming _ beside'
        cases stops' with
        | stopped sign' beside'' =>
          obtain ⟨s'', rfl⟩ := sign_blockEnd sign'
          obtain ⟨hd', rest⟩ := eachRest_else read read'
          exact ⟨_, _, hd', rest, agree.eachBlock same agree'.branch, beside''⟩
    · exact .error _
  · exact .error _
  · exact .error _
termination_by c.rest.length * 4 + 3

theorem agree_element (comment : IsComment inserted following) (n : Nesting) (c : Cursor)
    (h : c.rest ≠ []) (mark : beginsMarkup c.rest = true) (angle : c.rest.head? = some '<')
    (letter : (c.rest.drop 1).head?.any Char.isAlpha = true) :
    Yields (fun r => ItemAgrees inserted following offset n c (.inl r.1, r.2)) (element n c h) := by
  rw [element]
  refine .bind (P := fun r => ∀ coming c' (h' : c'.rest ≠ []),
    Beside coming inserted following offset c c' →
      (c'.rest.head? = some '<' ∧ (c'.rest.drop 1).head?.any Char.isAlpha = true) ∧
        ∃ tag' d' hd', openingTag c' h' = .ok (tag', ⟨d', hd'⟩) ∧ tag'.bare = r.1.bare ∧
          Beside coming inserted following offset r.2.1 d')
    (fun _ read coming c' h' beside => beside.opening mark angle letter read h') ?_
  rintro ⟨⟨name, as, closed⟩, d, hd⟩ tag
  dsimp only
  split
  · exact .error _
  · rename_i kind hname
    split
    · exact .error _
    · rename_i inside henter
      split
      · rename_i closed
        refine .ok fun coming c' h' beside => ?_
        obtain ⟨⟨angle', letter'⟩, ⟨name', as', closed'⟩, d', hd', read, same, beside'⟩ :=
          tag coming c' h' beside
        obtain ⟨rfl, has, rfl⟩ := Opening.mk.inj same
        have found := element_closed read hname henter closed
        have empty : AllAgree coming offset following [] [] := .nil
        exact ⟨_, d', hd', item_element angle' letter' found, .node (.element empty has), beside'⟩
      · rename_i notClosed
        refine .bind (agree_nodes comment inside d) ?_
        rintro ⟨children, stop⟩ body
        dsimp only
        split
        · split
          · rename_i sameName
            refine .ok fun coming c' h' beside => ?_
            obtain ⟨⟨angle', letter'⟩, ⟨name', as', closed'⟩, d', hd', read, same, beside'⟩ :=
              tag coming c' h' beside
            obtain ⟨rfl, has, rfl⟩ := Opening.mk.inj same
            obtain ⟨ns', stop', children', agree, stops⟩ := body coming d' beside'
            cases stops with
            | stopped sign beside'' =>
              subst sameName
              obtain ⟨s', rfl⟩ := sign_tagEnd sign
              obtain ⟨he, hnodes⟩ := nodes_of_listed children'
              have found := (element_open read hname henter (Bool.eq_false_iff.mpr notClosed)).2
                _ _ he hnodes
              exact ⟨_, _, _, item_element angle' letter' found, .node (.element agree has),
                beside''⟩
          · exact .error _
        · exact .error _
        · exact .error _
termination_by c.rest.length * 4

end

end Template

end PromptTemplate
