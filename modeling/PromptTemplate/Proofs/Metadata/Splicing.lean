import PromptTemplate.Proofs.Metadata.Clean
import PromptTemplate.Proofs.Template.Inside
import PromptTemplate.Proofs.Template.Rereading

/-!
# Texts with pieces replaced

The reference tags of a template stand one after the other, and none inside another one: what
stands inside a reference tag is not part of the template. So the texts that a scan puts in
their places take nothing else away, and leave a config block, which is before all of them,
where it is.
-/

namespace PromptTemplate

open Text

/-! ## Replacing -/

namespace Reference

/-- A text that begins at an offset, and what it is with the pieces at given offsets replaced:
all that is between the pieces is kept, in its order, and nothing is added. -/
inductive Replaced : Nat → List Char → List Splice → List Char → Prop where
  | kept (offset : Nat) (text : List Char) : Replaced offset text [] text
  | piece {offset : Nat} {kept removed rest : List Char} {body : List Char} {ss : List Splice}
    {result : List Char}
    (h : Replaced (offset + byteLength kept + byteLength removed) rest ss result) :
    Replaced offset (kept ++ (removed ++ rest))
      (⟨offset + byteLength kept, offset + byteLength kept + byteLength removed, body⟩ :: ss)
      (kept ++ (body ++ result))

/-- Pieces of a text from an offset on, one after the other. -/
def Laid (source : List Char) : Nat → List Splice → Prop
  | low, [] => low ≤ byteLength source
  | low, s :: rest =>
    low ≤ s.start ∧ s.start ≤ s.stop ∧ (cut? source s.start).isSome = true ∧
      (cut? source s.stop).isSome = true ∧ Laid source s.stop rest

/-- What is between two places of a text. -/
theorem exists_between {source front back : List Char} {n : Nat} (hsource : source = front ++ back)
    (hcut : (cut? source n).isSome = true) (hle : byteLength front ≤ n) :
    ∃ between after, back = between ++ after ∧ n = byteLength (front ++ between) := by
  obtain ⟨⟨used, after⟩, hcut⟩ := Option.isSome_iff_exists.mp hcut
  obtain ⟨happend, rfl⟩ := append_of_cut? hcut
  rcases List.append_eq_append_iff.mp (happend.trans hsource) with
    ⟨more, rfl, rfl⟩ | ⟨between, rfl, hback⟩
  · -- the place is not before the front, so there is nothing between them
    rw [byteLength_append] at hle
    obtain rfl : more = [] := eq_nil_of_byteLength (by omega)
    exact ⟨[], back, rfl, by simp⟩
  · exact ⟨between, after, hback, rfl⟩

/-- Pieces that are laid out one after the other are replaced, and nothing else. -/
theorem replaced_spliceFrom {source front back : List Char} {ss : List Splice}
    (hsource : source = front ++ back) (h : Laid source (byteLength front) ss) :
    Replaced (byteLength front) back ss (spliceFrom source (byteLength front) ss) := by
  induction ss generalizing front back with
  | nil =>
    rw [spliceFrom, hsource, cut?_append]
    exact .kept _ _
  | cons s ss ih =>
    obtain ⟨start, stop, body⟩ := s
    obtain ⟨hlow, hle, hstart, hstop, hrest⟩ := h
    obtain ⟨kept, after, rfl, rfl⟩ := exists_between hsource hstart hlow
    rw [← List.append_assoc] at hsource
    obtain ⟨removed, rest, rfl, rfl⟩ := exists_between hsource hstop hle
    rw [← List.append_assoc] at hsource
    have piece : slice? source (byteLength front) (byteLength (front ++ kept)) = some kept := by
      rw [hsource, List.append_assoc, List.append_assoc]
      exact slice?_append _ _ _
    have spliced : spliceFrom source (byteLength front)
        (⟨byteLength (front ++ kept), byteLength (front ++ kept ++ removed), body⟩ :: ss) =
          kept ++ (body ++ spliceFrom source (byteLength (front ++ kept ++ removed)) ss) := by
      rw [spliceFrom, piece, Option.getD_some, List.append_assoc]
    have next := ih hsource hrest
    rw [spliced]
    simp only [byteLength_append] at next ⊢
    exact .piece next

theorem replaced_splice {source : List Char} {ss : List Splice} (h : Laid source 0 ss) :
    Replaced 0 source ss (splice source ss) := by
  have text : source = [] ++ source := rfl
  exact replaced_spliceFrom text h

/-- Text before the first piece stays in front. -/
theorem splice_eq_append {front back : List Char} {ss : List Splice}
    (h : Laid (front ++ back) (byteLength front) ss) :
    splice (front ++ back) ss = front ++ spliceFrom (front ++ back) (byteLength front) ss := by
  cases ss with
  | nil =>
    have whole : cut? (front ++ back) 0 = some ([], front ++ back) := cut?_append [] _
    rw [splice, spliceFrom, spliceFrom, whole, cut?_append]
    rfl
  | cons s ss =>
    obtain ⟨start, stop, body⟩ := s
    obtain ⟨hlow, -, hstart, -⟩ := h
    obtain ⟨kept, after, rfl, rfl⟩ := exists_between rfl hstart hlow
    have whole : slice? (front ++ (kept ++ after)) 0 (byteLength (front ++ kept)) =
        some (front ++ kept) := by
      rw [← List.append_assoc]
      exact slice?_append [] _ _
    rw [splice, spliceFrom, spliceFrom, whole, slice?_append]
    simp

/-- A front that is before all pieces stays as it is, and can be cut off again. -/
theorem exists_behind {front back : List Char} {ss : List Splice}
    (h : Laid (front ++ back) (byteLength front) ss) :
    ∃ behind, splice (front ++ back) ss = front ++ behind ∧
      Replaced (byteLength front) back ss behind ∧
      cut? (splice (front ++ back) ss) (byteLength front) = some (front, behind) := by
  refine ⟨_, splice_eq_append h, replaced_spliceFrom rfl h, ?_⟩
  rw [splice_eq_append h]
  exact cut?_append _ _

theorem Laid.mono_low {source : List Char} {low less : Nat} {ss : List Splice}
    (h : Laid source low ss) (hless : less ≤ low) : Laid source less ss := by
  cases ss with
  | nil => exact Nat.le_trans hless h
  | cons s ss => exact ⟨Nat.le_trans hless h.1, h.2⟩

/-- What is put in the places of those reference tags for which there is a text. -/
def replacements (body? : List Attribute × Span → Option (List Char))
    (tags : List (List Attribute × Span)) : List Splice :=
  tags.filterMap fun tag => (body? tag).map (⟨tag.2.start, tag.2.stop, ·⟩)

section

variable {body? : List Attribute × Span → Option (List Char)} {tag : List Attribute × Span}
  {tags : List (List Attribute × Span)}

theorem replacements_none (h : body? tag = none) :
    replacements body? (tag :: tags) = replacements body? tags :=
  List.filterMap_cons_none (by rw [h]; rfl)

theorem replacements_some {body : List Char} (h : body? tag = some body) :
    replacements body? (tag :: tags) =
      ⟨tag.2.start, tag.2.stop, body⟩ :: replacements body? tags :=
  List.filterMap_cons_some (by rw [h]; rfl)

end

/-- Whichever reference tags there is a text for, their places are laid out in the text. -/
theorem laid_replacements {source : List Char} {low : Nat} {tags : List (List Attribute × Span)}
    (ordered : Span.Ordered low (byteLength source) (tags.map Prod.snd))
    (located : ∀ tag ∈ tags, tag.2.Locates source)
    (body? : List Attribute × Span → Option (List Char)) :
    Laid source low (replacements body? tags) := by
  induction tags generalizing low with
  | nil => exact ordered
  | cons tag rest ih =>
    obtain ⟨hlow, hle, hrest⟩ := ordered
    obtain ⟨here, later⟩ := List.forall_mem_cons.mp located
    have next := ih hrest later
    cases hbody : body? tag with
    | none =>
      rw [replacements_none hbody]
      exact next.mono_low (Nat.le_trans hlow hle)
    | some body =>
      rw [replacements_some hbody]
      exact ⟨hlow, hle, here.front, here.back, next⟩

end Reference

open Reference

/-! ## Reference tags -/

namespace Template.Stretch

variable {p : Position} {ss : List Stretch}

/-- Reference tags stand one after the other. -/
theorem Located.ordered (h : Located p ss) :
    Span.Ordered p.offset (p.offset + byteLength (textAll ss)) ((tags ss).map Prod.snd) := by
  induction ss generalizing p with
  | nil => exact Nat.le_refl _
  | cons s ss ih =>
    cases s with
    | kept q =>
      have next := ih h
      rw [Position.offset_advance, Nat.add_assoc, ← byteLength_append] at next
      exact next.mono_low (Nat.le_add_right _ _)
    | reference used as s =>
      obtain ⟨⟨-, -, rfl⟩, hrest⟩ := h
      have stop : (p.advance used).offset = p.offset + byteLength used := p.offset_advance used
      have next := ih hrest
      rw [stop, Nat.add_assoc, ← byteLength_append, ← stop] at next
      refine ⟨Nat.le_refl _, ?_, next⟩
      rw [Span.between, stop]
      exact Nat.le_add_right _ _

/-- No reference tag is empty. -/
theorem Located.start_lt (h : Located p ss) : ∀ tag ∈ tags ss, tag.2.start < tag.2.stop := by
  induction ss generalizing p with
  | nil => exact List.forall_mem_nil _
  | cons s ss ih =>
    cases s with
    | kept q => exact ih h
    | reference used as s =>
      obtain ⟨⟨angle, -, rfl⟩, hrest⟩ := h
      refine List.forall_mem_cons.mpr ⟨?_, ih hrest⟩
      obtain ⟨more, rfl⟩ := List.head?_eq_some_iff.mp angle
      have positive := Char.utf8Size_pos '<'
      rw [Span.between, Position.offset_advance, byteLength]
      dsimp only
      omega

end Template.Stretch

theorem Span.Ordered.pairwise {low high : Nat} {ss : List Span} (h : Ordered low high ss) :
    ss.Pairwise fun s t => s.stop ≤ t.start := by
  induction ss generalizing low with
  | nil => exact .nil
  | cons s ss ih => exact .cons (fun t ht => (h.2.2.bounds ht).1) (ih h.2.2)

/-- Where a text begins after its blanks. -/
theorem Text.Cursor.offset_skipBlank (cs : List Char) :
    (Cursor.start cs).skipBlank.offset = byteLength (cs.takeWhile isBlank) := by
  have blanks := (Takes.skip (Cursor.start cs) (cs.takeWhile isBlank).length).offset
  rw [Cursor.start, ← List.prefix_iff_eq_take.mp (List.takeWhile_prefix _)] at blanks
  exact blanks.trans (Nat.zero_add _)

namespace Fragment

open Template Template.Stretch Text.Cursor

variable {source : String} {f : Fragment}

theorem mem_walk_of_references {as : List Attribute} {s : Span} (h : (as, s) ∈ f.references) :
    .reference as s ∈ f.walk := by
  obtain ⟨a, ha, found⟩ := List.mem_filterMap.mp h
  split at found
  · cases found
    exact ha
  · cases found

theorem locates_of_walk (h : ofText source = .ok f) {a : Node} (ha : a ∈ f.walk) :
    a.span.Locates source.toList := by
  rw [← a.span_spans]
  exact (faithful_of_walk h ha).locates

theorem locates_of_references (h : ofText source = .ok f) :
    ∀ tag ∈ f.references, tag.2.Locates source.toList :=
  fun _ htag => locates_of_walk h (mem_walk_of_references htag)

/-- The reference tags of a template stand one after the other behind its config block. -/
theorem ordered_of_read {cs : List Char} {config : Option Node} {c : Cursor} {ss : List Stretch}
    (h : Template.Read cs f config c ss) :
    Span.Ordered c.offset (byteLength cs) (f.references.map Prod.snd) := by
  obtain ⟨front, rfl, hposition⟩ := h.headed.exists_front
  have finish : c.offset + byteLength (textAll ss) = byteLength (front ++ c.rest) := by
    rw [Cursor.offset, hposition, Position.offset_advance, ← h.text, byteLength_append]
    exact congrArg (· + _) (Nat.zero_add _)
  rw [h.references, ← finish]
  exact h.located.ordered

/-- A config block has only blanks before it, and all reference tags after it. -/
theorem exists_block_of_config (h : ofText source = .ok f) {v : Config} {s : Span}
    (hconfig : f.config? = some (v, s)) :
    ∃ blanks block back, (∀ x ∈ blanks, isBlank x = true) ∧
      source.toList = blanks ++ block ++ back ∧ s.start = byteLength blanks ∧
      s.stop = byteLength (blanks ++ block) ∧
      Span.Ordered s.stop (byteLength source.toList) (f.references.map Prod.snd) := by
  -- the block has its place in the text, and is the one that the text begins with
  have located : s.Locates source.toList := by
    obtain ⟨a, ha, found⟩ := List.exists_of_findSome?_eq_some hconfig
    split at found
    · cases found
      exact locates_of_walk h ha
    · cases found
  obtain ⟨config, c, ss, read⟩ := exists_stretches h
  have ordered := ordered_of_read read
  have first := read.config?
  rw [hconfig] at first
  have headed := read.headed
  cases headed with
  | plain => cases first
  | block front rest value place whole hends hstop again =>
    cases first
    have filled := (Template.read_configBlock (Cursor.on_start (front ++ rest)) _
      (again rest hends)).2
    have start : s.start = byteLength (source.toList.takeWhile isBlank) := by
      rw [whole]
      exact filled.contiguous.1.trans (offset_skipBlank _)
    obtain ⟨block, back, hback, hblock⟩ := exists_between
      List.takeWhile_append_dropWhile.symm located.back (start ▸ located.le)
    refine ⟨source.toList.takeWhile isBlank, block, back,
      List.all_eq_true.mp List.all_takeWhile, ?_, start, hblock, ?_⟩
    · rw [List.append_assoc, ← hback, List.takeWhile_append_dropWhile]
    · have finish : (Position.first.advance front).offset = s.stop := by
        rw [hstop, Position.offset_advance]
        exact Nat.zero_add _
      rw [Cursor.offset, finish] at ordered
      exact ordered

end Fragment

/-! ## Scans -/

namespace Metadata

variable {documents : Documents} {lineage : List String} {path : String}

/-- The text that a scan puts in the place of a reference tag, if it goes there. -/
def inlined? (documents : Documents) (lineage : List String) (path : String)
    (tag : List Attribute × Span) : Option (List Char) :=
  (behind? documents lineage path tag.1).map fun d =>
    (scanned documents (lineage ++ [d.path]) d).body

/-- A scan replaces those reference tags that it goes to. -/
theorem splices_scanReferences (cs : List Char) (tags : List (List Attribute × Span))
    (found : Findings) :
    (scanReferences documents lineage path cs tags found).1.1 =
      replacements (inlined? documents lineage path) tags := by
  induction tags generalizing found with
  | nil =>
    rw [scanReferences]
    rfl
  | cons tag rest ih =>
    obtain ⟨as, s⟩ := tag
    cases hbehind : behind? documents lineage path as with
    | none =>
      obtain ⟨e, skip⟩ := scanReferences_skip cs s rest hbehind
      rw [skip, ih, replacements_none (by rw [inlined?, hbehind]; rfl)]
    | some d =>
      have same := (alike_scan documents (lineage ++ [d.path]) d.path d.content found
        ⟨[], []⟩).same
      have body : inlined? documents lineage path (as, s) =
          some (scanned documents (lineage ++ [d.path]) d).body := by
        rw [inlined?, hbehind]
        rfl
      rw [scanReferences_follow hbehind, replacements_some body]
      dsimp only
      rw [ih, same, scanned]

/-- What the scan of a text that can be read returns. -/
theorem resolved_of_ofText {source : String} {f : Fragment} (h : Fragment.ofText source = .ok f)
    (documents : Documents) (lineage : List String) (path : String) (found : Findings) :
    (scan documents lineage path source found).1.resolved =
        splice source.toList (replacements (inlined? documents lineage path) f.references) ∧
      (scan documents lineage path source found).1.config = f.config? := by
  rw [scan_ok h]
  dsimp only
  rw [splices_scanReferences]
  exact ⟨rfl, rfl⟩

/-- The reference tags of a template stand one after the other, each with a piece of the text.
Whichever of them there is a text for, exactly their pieces are replaced, and a scan replaces so
those that it goes to. A config block has its text and its place in the resolved text, too: what
is cut off with it are the blanks before it and the block, and what remains is the rest of the
text with the same pieces replaced. -/
theorem spliced_of_ofText {source : String} {f : Fragment} (h : Fragment.ofText source = .ok f) :
    (f.references.map Prod.snd).Pairwise (fun s t => s.start < t.start ∧ s.stop ≤ t.start) ∧
    (∀ tag ∈ f.references, tag.2.start < tag.2.stop ∧ tag.2.Locates source.toList) ∧
    (∀ body? : List Attribute × Span → Option (List Char),
      Replaced 0 source.toList (replacements body? f.references)
        (splice source.toList (replacements body? f.references))) ∧
    ∀ (documents : Documents) (lineage : List String) (path : String) (found : Findings),
      let r := (scan documents lineage path source found).1
      let pieces := replacements (inlined? documents lineage path) f.references
      Replaced 0 source.toList pieces r.resolved ∧
      match f.config? with
      | none => r.body = r.resolved
      | some (_, s) => ∃ blanks block back back', (∀ x ∈ blanks, isBlank x = true) ∧
        s.start = byteLength blanks ∧ s.stop = byteLength (blanks ++ block) ∧
        source.toList = blanks ++ block ++ back ∧ r.resolved = blanks ++ block ++ back' ∧
        Replaced s.stop back pieces back' ∧ cut? r.resolved s.stop = some (blanks ++ block, back') ∧
        r.body = trimStart back' := by
  have located := Fragment.locates_of_references h
  obtain ⟨config, c, ss, read⟩ := Fragment.exists_stretches h
  have ordered := (Fragment.ordered_of_read read).mono_low (Nat.zero_le _)
  have filled : ∀ tag ∈ f.references, tag.2.start < tag.2.stop := by
    rw [read.references]
    exact read.located.start_lt
  have laid := laid_replacements ordered located
  refine ⟨?_, fun tag htag => ⟨filled tag htag, located tag htag⟩,
    fun body? => replaced_splice (laid body?), fun documents lineage path found => ?_⟩
  · refine ordered.pairwise.imp_of_mem ?_
    rintro s t hs - apart
    obtain ⟨tag, htag, rfl⟩ := List.mem_map.mp hs
    exact ⟨Nat.lt_of_lt_of_le (filled tag htag) apart, apart⟩
  · obtain ⟨resolved, hconfig⟩ := resolved_of_ofText h documents lineage path found
    dsimp only
    rw [Scanned.body, hconfig, resolved]
    refine ⟨replaced_splice (laid _), ?_⟩
    cases first : f.config? with
    | none => rfl
    | some block =>
      obtain ⟨v, s⟩ := block
      obtain ⟨blanks, block, back, hblanks, hsource, start, stop, behind⟩ :=
        Fragment.exists_block_of_config h first
      have laid := laid_replacements behind located (inlined? documents lineage path)
      rw [stop, hsource] at laid
      obtain ⟨back', whole, replaced, parts⟩ := exists_behind laid
      rw [← hsource] at whole parts
      rw [← stop] at replaced parts
      refine ⟨blanks, block, back, back', hblanks, start, stop, hsource, whole, replaced, parts, ?_⟩
      dsimp only
      rw [parts]
      rfl

/-- A reference tag inside another one, behind a config block. -/
theorem spliced_of_ofText_nested :
    ∃ source f,
      source = "\n---\n---\na<ref prompt=\"b\"><ref prompt=\"c\"/></ref>d" ∧
      Fragment.ofText source = .ok f ∧ f.references.map Prod.snd = [⟨10, 49, 4, 2⟩] ∧
      splice source.toList (replacements (fun _ => some ['x']) f.references) =
        "\n---\n---\naxd".toList ∧
      Replaced 0 source.toList (replacements (fun _ => some ['x']) f.references)
        "\n---\n---\naxd".toList ∧
      ∀ documents lineage path found,
        Replaced 0 source.toList (replacements (inlined? documents lineage path) f.references)
          (scan documents lineage path source found).1.resolved := by
  have computed : (Fragment.ofText
      "\n---\n---\na<ref prompt=\"b\"><ref prompt=\"c\"/></ref>d").toOption.map
        (fun f => (f.references.map Prod.snd,
          splice "\n---\n---\na<ref prompt=\"b\"><ref prompt=\"c\"/></ref>d".toList
            (replacements (fun _ => some ['x']) f.references))) =
      some ([⟨10, 49, 4, 2⟩], "\n---\n---\naxd".toList) := by decide +kernel
  cases h : Fragment.ofText "\n---\n---\na<ref prompt=\"b\"><ref prompt=\"c\"/></ref>d" with
  | error e =>
    rw [h] at computed
    cases computed
  | ok f =>
    rw [h] at computed
    obtain ⟨spans, spliced⟩ := Prod.mk.inj (Option.some.inj computed)
    obtain ⟨-, -, replaced, scans⟩ := spliced_of_ofText h
    refine ⟨_, f, rfl, h, spans, spliced, ?_, fun documents lineage path found => ?_⟩
    · have exact_pieces := replaced fun _ => some ['x']
      rw [spliced] at exact_pieces
      exact exact_pieces
    · exact (scans documents lineage path found).1

end Metadata

end PromptTemplate
