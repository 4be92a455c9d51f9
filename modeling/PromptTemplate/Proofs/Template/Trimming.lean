import PromptTemplate.Proofs.Template.Seen
import PromptTemplate.Proofs.Template.Written
import Mathlib.Data.List.Chain
import Mathlib.Data.List.DropRight

/-!
# What trimming leaves

A block is trimmed at its two ends. In the characters, comments and nodes of the block one after
another, the blanks before the first of anything else are left out, and so are those after the
last. A comment therefore ends the blanks that are left out.
-/

namespace PromptTemplate

open Text Template

/-! ## Lists without what is at their ends -/

section

variable {α : Type} {p : α → Bool} {xs ys : List α}

theorem rdropWhile_append :
    (xs ++ ys).rdropWhile p =
      if ys.rdropWhile p = [] then xs.rdropWhile p else xs ++ ys.rdropWhile p := by
  simp only [List.rdropWhile, List.reverse_append, List.dropWhile_append, List.isEmpty_iff,
    List.reverse_eq_nil_iff]
  split
  · rfl
  · rw [List.reverse_append, List.reverse_reverse]

/-- What is left out at the two ends of a list is left out at the ends of two parts of it, if
neither part is left out alone and the second part does not begin with more of it. -/
theorem drop_append (hstart : ys.rdropWhile p = [] → xs.dropWhile p = [])
    (hstop : xs.dropWhile p = [] → ys.rdropWhile p ≠ [] → ys.head?.any p = false) :
    ((xs ++ ys).dropWhile p).rdropWhile p = xs.dropWhile p ++ ys.rdropWhile p := by
  by_cases hys : ys.rdropWhile p = []
  · have all : ∀ y ∈ ys, p y = true := List.rdropWhile_eq_nil_iff.mp hys
    have none : ys.dropWhile p = [] := List.dropWhile_eq_nil_iff.mpr all
    rw [List.dropWhile_append, hstart hys, List.isEmpty_nil, if_pos rfl, none, hys]
    rfl
  · by_cases hxs : xs.dropWhile p = []
    · have first : ys.dropWhile p = ys := by
        cases ys with
        | nil => rfl
        | cons y ys => exact List.dropWhile_cons_of_neg (by simpa using hstop hxs hys)
      rw [List.dropWhile_append, hxs, List.isEmpty_nil, if_pos rfl, first, List.nil_append]
    · rw [List.dropWhile_append, if_neg (by simpa using hxs), rdropWhile_append, if_neg hys]

end

namespace Node

/-! ## Characters, comments and other nodes -/

def isText : Node → Bool
  | .text .. => true
  | _ => false

def isComment : Node → Bool
  | .comment .. => true
  | _ => false

/-- A comment, of which no more is told. -/
def mark : Node := .comment "" [] Span.none

/-- What is seen of a node, and that it is a comment if it is one. -/
def atoms : Node → List Node
  | .comment .. => [mark]
  | a => a.seen

def atomsAll (ns : List Node) : List Node := ns.flatMap atoms

def isBlank : Node → Bool
  | .text data _ => data.toList.all Text.isBlank
  | _ => false

variable {a : Node} {ns ms : List Node}

@[simp] theorem atomsAll_nil : atomsAll [] = [] := rfl

@[simp] theorem atomsAll_cons (a : Node) (ns : List Node) :
    atomsAll (a :: ns) = atoms a ++ atomsAll ns := rfl

@[simp] theorem atomsAll_append (ns ms : List Node) :
    atomsAll (ns ++ ms) = atomsAll ns ++ atomsAll ms := List.flatMap_append

theorem isBlank_character (x : Char) : isBlank (character x) = Text.isBlank x := by
  rw [character, isBlank, String.toList_ofList, List.all_cons, List.all_nil, Bool.and_true]

/-- What is not literal text is one thing that is not blank. -/
theorem exists_atom (h : a.isText = false) : ∃ b, atoms a = [b] ∧ isBlank b = false := by
  cases a with
  | text => cases h
  | _ => exact ⟨_, rfl, rfl⟩

theorem filter_atoms (a : Node) : (atoms a).filter (!isComment ·) = seen a := by
  cases a with
  | text data s =>
    refine List.filter_eq_self.mpr fun b hb => ?_
    obtain ⟨x, -, rfl⟩ := List.mem_map.mp hb
    rfl
  | _ => rfl

/-- Comments are not seen. -/
theorem filter_atomsAll (ns : List Node) : (atomsAll ns).filter (!isComment ·) = seenAll ns := by
  rw [atomsAll, List.filter_flatMap, seenAll_eq_flatMap]
  exact List.flatMap_congr fun a _ => filter_atoms a

theorem seenAll_congr (h : atomsAll ms = atomsAll ns) : seenAll ms = seenAll ns := by
  rw [← filter_atomsAll, h, filter_atomsAll]

/-! ## Trimming -/

/-- No literal text comes right after another. -/
def Parted (ns : List Node) : Prop := ns.IsChain fun a b => a.isText = false ∨ b.isText = false

theorem dropWhile_atomsAll (h : ∀ a ∈ ns.head?, a.isText = false) :
    (atomsAll ns).dropWhile isBlank = atomsAll ns := by
  cases ns with
  | nil => rfl
  | cons a ns =>
    obtain ⟨b, hb, solid⟩ := exists_atom (h a rfl)
    rw [atomsAll_cons, hb, List.singleton_append, List.dropWhile_cons_of_neg (by simp [solid])]

theorem atoms_text (cs : List Char) (s : Span) :
    atoms (.text (String.ofList cs) s) = cs.map character := by
  rw [atoms, seen, String.toList_ofList]
  exact fun _ _ _ h => by cases h

theorem dropWhile_characters (cs : List Char) :
    (cs.map character).dropWhile isBlank = (trimStart cs).map character := by
  rw [List.dropWhile_map, trimStart]
  refine congrArg (List.map _) (congrArg (List.dropWhile · cs) (funext fun x => ?_))
  exact isBlank_character x

theorem rdropWhile_characters (cs : List Char) :
    (cs.map character).rdropWhile isBlank = (trimEnd cs).map character := by
  rw [List.rdropWhile, ← List.map_reverse, dropWhile_characters, ← List.map_reverse]
  rfl

theorem atomsAll_trimFirst (h : Parted ns) :
    atomsAll (trimFirst ns) = (atomsAll ns).dropWhile isBlank := by
  cases ns with
  | nil => rfl
  | cons a ns =>
    cases text : a.isText with
    | false =>
      have first : (atomsAll (a :: ns)).dropWhile isBlank = atomsAll (a :: ns) :=
        dropWhile_atomsAll fun b hb => by cases hb; exact text
      rw [first]
      cases a with
      | text => cases text
      | _ => rfl
    | true =>
      cases a with
      | text data s =>
        have next : ∀ b ∈ ns.head?, b.isText = false := by
          intro b hb
          cases ns with
          | nil => cases hb
          | cons c ns =>
            cases hb
            exact (List.isChain_cons_cons.mp h).1.resolve_left (by simp [isText])
        have whole : atoms (.text data s) = data.toList.map character := rfl
        rw [trimFirst, atomsAll_cons, atomsAll_cons, atoms_text, whole, List.dropWhile_append,
          dropWhile_characters, dropWhile_atomsAll next]
        split
        · rename_i none
          rw [List.isEmpty_iff.mp none, List.nil_append]
        · rfl
      | _ => cases text

theorem atomsAll_trimLast (h : Parted ns) :
    atomsAll (trimLast ns) = (atomsAll ns).rdropWhile isBlank := by
  induction ns with
  | nil => rfl
  | cons a ns ih =>
    cases ns with
    | nil =>
      cases text : a.isText with
      | false =>
        obtain ⟨b, hb, solid⟩ := exists_atom text
        have same : trimLast [a] = [a] := by
          cases a with
          | text => cases text
          | _ => rfl
        rw [same, atomsAll_cons, atomsAll_nil, List.append_nil, hb, List.rdropWhile_singleton,
          solid, if_neg Bool.false_ne_true]
      | true =>
        cases a with
        | text data s =>
          have whole : atoms (.text data s) = data.toList.map character := rfl
          rw [trimLast, atomsAll_cons, atomsAll_cons, atomsAll_nil, List.append_nil,
            List.append_nil, atoms_text, whole, rdropWhile_characters]
        | _ => cases text
    | cons b ns =>
      obtain ⟨parted, rest⟩ := List.isChain_cons_cons.mp h
      have step : trimLast (a :: b :: ns) = a :: trimLast (b :: ns) := by
        cases a <;> rfl
      rw [step, atomsAll_cons, ih rest, atomsAll_cons a, rdropWhile_append]
      split
      · rename_i none
        have solid : a.isText = false := by
          refine parted.resolve_right fun other => ?_
          obtain ⟨c, hc, solid⟩ := exists_atom other
          have blank := List.rdropWhile_eq_nil_iff.mp none c (by simp [hc])
          rw [solid] at blank
          cases blank
        obtain ⟨c, hc, solid⟩ := exists_atom solid
        rw [none, List.append_nil, hc, List.rdropWhile_singleton, solid,
          if_neg Bool.false_ne_true]
      · rfl

theorem atomsAll_filter (ns : List Node) :
    atomsAll (ns.filter (!isEmptyText ·)) = atomsAll ns := by
  induction ns with
  | nil => rfl
  | cons a ns ih =>
    rw [List.filter_cons]
    split
    · rw [atomsAll_cons, atomsAll_cons, ih]
    · rename_i empty
      cases a with
      | text data s =>
        obtain rfl : data = "" := by simpa [isEmptyText] using empty
        exact ih
      | _ => exact absurd rfl empty

theorem parted_trimFirst (h : Parted ns) : Parted (trimFirst ns) := by
  unfold trimFirst
  split
  · cases ‹List Node› with
    | nil => exact .singleton _
    | cons b ns =>
      obtain ⟨parted, rest⟩ := List.isChain_cons_cons.mp h
      exact List.isChain_cons_cons.mpr ⟨parted, rest⟩
  · exact h

/-- What is left of a block in which no text comes right after another. -/
theorem atomsAll_trimBlock (h : Parted ns) :
    atomsAll (trimBlock ns) = ((atomsAll ns).dropWhile isBlank).rdropWhile isBlank := by
  rw [trimBlock, atomsAll_filter, atomsAll_trimLast (parted_trimFirst h), atomsAll_trimFirst h]

/-! ## Blocks with a comment -/

/-- What is left of the nodes before a comment. -/
def trimBefore (ns : List Node) : List Node := (trimFirst ns).filter (!isEmptyText ·)

/-- What is left of the nodes after a comment. -/
def trimAfter (ns : List Node) : List Node := (trimLast ns).filter (!isEmptyText ·)

theorem trimLast_append (ns ms : List Node) (b : Node) :
    trimLast (ns ++ b :: ms) = ns ++ trimLast (b :: ms) := by
  induction ns with
  | nil => rfl
  | cons a ns ih =>
    rw [List.cons_append, List.cons_append, ← ih]
    cases ns <;> cases a <;> rfl

theorem trimBlock_comment (ns ms : List Node) (data : String) (codes : List String) (s : Span) :
    trimBlock (ns ++ .comment data codes s :: ms) =
      trimBefore ns ++ .comment data codes s :: trimAfter ms := by
  have first : trimFirst (ns ++ .comment data codes s :: ms) =
      trimFirst ns ++ .comment data codes s :: ms := by
    cases ns with
    | nil => rfl
    | cons a ns => cases a <;> rfl
  have last : trimLast (.comment data codes s :: ms) = .comment data codes s :: trimLast ms := by
    cases ms <;> rfl
  rw [trimBlock, first, trimLast_append, last, List.filter_append, List.filter_cons_of_pos rfl]
  rfl

theorem eq_nil_of_atomsAll (h : atomsAll (ns.filter (!isEmptyText ·)) = []) :
    ns.filter (!isEmptyText ·) = [] := by
  cases hns : ns.filter (!isEmptyText ·) with
  | nil => rfl
  | cons a rest =>
    have some : a ∈ ns.filter (!isEmptyText ·) := by
      rw [hns]
      exact List.mem_cons_self
    have filled := (List.mem_filter.mp some).2
    rw [hns, atomsAll_cons, List.append_eq_nil_iff] at h
    cases a with
    | text data s =>
      have empty : data = "" := String.toList_eq_nil_iff.mp (List.map_eq_nil_iff.mp h.1)
      rw [empty] at filled
      cases filled
    | _ => exact absurd h.1 (by simp [atoms, seen, mark])

/-! ## Branches of blocks -/

/-- The branches of a block. -/
def branches : Node → List (List Node)
  | .ifBlock _ consequent alternate _ => consequent :: alternate.toList
  | .eachBlock _ _ _ body alternate _ => body :: alternate.toList
  | _ => []

/-- The branches of all blocks in nodes. -/
def branchesAll (ns : List Node) : List (List Node) := (walkAll ns).flatMap branches

theorem branchesAll_eq_flatMap (ns : List Node) :
    branchesAll ns = ns.flatMap fun a => a.walk.flatMap branches := by
  induction ns with
  | nil => rfl
  | cons a ns ih =>
    rw [branchesAll, walkAll, List.flatMap_append, List.flatMap_cons, ← ih, branchesAll]

theorem branchesAll_append (ns ms : List Node) :
    branchesAll (ns ++ ms) = branchesAll ns ++ branchesAll ms := by
  simp only [branchesAll_eq_flatMap, List.flatMap_append]

theorem branchesAll_trimBlock (ns : List Node) : branchesAll (trimBlock ns) = branchesAll ns := by
  rw [branchesAll_eq_flatMap, branchesAll_eq_flatMap]
  exact flatMap_trimBlock (fun _ _ => rfl) ns

/-- A comment at an offset, before some text, leaves the ends of a branch as they are: it is not
the last node, and if it is the first one, no blank follows it, unless it stands alone. -/
def LeavesEnds (offset : Nat) (following : List Char) (branch : List Node) : Prop :=
  ∀ before data codes s after, branch = before ++ .comment data codes s :: after →
    s.start = offset → (after = [] → before = []) ∧
      (before = [] → after ≠ [] → following.head?.any Text.isBlank = false)

def commentSpan? : Node → Option Span
  | .comment _ _ s => some s
  | _ => none

theorem leavesEnds_iff {offset : Nat} {following : List Char} {branch : List Node} :
    LeavesEnds offset following branch ↔
      ∀ i, i < branch.length → ∀ s ∈ branch[i]?.bind commentSpan?, s.start = offset →
        (branch.drop (i + 1) = [] → branch.take i = []) ∧
          (branch.take i = [] → branch.drop (i + 1) ≠ [] →
            following.head?.any Text.isBlank = false) := by
  constructor
  · intro h i hi s hs
    obtain ⟨a, ha, hs⟩ := Option.bind_eq_some_iff.mp hs
    rw [List.getElem?_eq_getElem hi, Option.some.injEq] at ha
    have split : branch = branch.take i ++ a :: branch.drop (i + 1) := by
      rw [← ha, List.getElem_cons_drop, List.take_append_drop]
    cases a with
    | comment data codes s' =>
      cases hs
      exact h _ data codes _ _ split
    | _ => cases hs
  · rintro h before data codes s after rfl
    simpa [commentSpan?] using h before.length (by simp) s (by simp [commentSpan?])

instance (offset : Nat) (following : List Char) (branch : List Node) :
    Decidable (LeavesEnds offset following branch) :=
  decidable_of_iff' _ leavesEnds_iff

/-- A comment that leaves the ends of a block as they are makes no difference to what is seen of
it. -/
theorem seenAll_trimBlock_comment {offset : Nat} {following : List Char} {xs ys : List Node}
    {data : String} {codes : List String} {s : Span} (hns : Parted ns) (hxs : Parted xs)
    (hys : Parted ys) (hatoms : atomsAll ns = atomsAll xs ++ atomsAll ys) (hs : s.start = offset)
    (hblank : (atomsAll ys).head?.any isBlank = true → following.head?.any Text.isBlank = true)
    (h : LeavesEnds offset following (trimBlock (xs ++ .comment data codes s :: ys))) :
    seenAll (trimBlock (xs ++ .comment data codes s :: ys)) = seenAll (trimBlock ns) := by
  rw [trimBlock_comment] at h ⊢
  obtain ⟨last, first⟩ := h _ _ _ _ _ rfl hs
  have before : atomsAll (trimBefore xs) = (atomsAll xs).dropWhile isBlank := by
    rw [trimBefore, atomsAll_filter, atomsAll_trimFirst hxs]
  have after : atomsAll (trimAfter ys) = (atomsAll ys).rdropWhile isBlank := by
    rw [trimAfter, atomsAll_filter, atomsAll_trimLast hys]
  have atoms : atomsAll (trimBlock ns) = atomsAll (trimBefore xs) ++ atomsAll (trimAfter ys) := by
    rw [atomsAll_trimBlock hns, hatoms, before, after]
    -- trimming goes over the comment only where nothing is left on one side of it
    refine drop_append (fun none => ?_) (fun none some => ?_)
    · rw [← before, last (eq_nil_of_atomsAll (after.trans none)), atomsAll_nil]
    · have some' : trimAfter ys ≠ [] := by
        intro empty
        rw [← after, empty] at some
        exact some rfl
      have plain := first (eq_nil_of_atomsAll (before.trans none)) some'
      exact Bool.eq_false_iff.mpr fun blank => by simp [hblank blank] at plain
  rw [← filter_atomsAll (trimBlock ns), atoms, List.filter_append, filter_atomsAll,
    filter_atomsAll, seenAll_append]
  rfl

end Node

end PromptTemplate
