import PromptTemplate.Proofs.Metadata.Ways

/-!
# Paths of documents

The path that a reference leads to is a key: documents are looked up by it, and a circle is
found by comparing it with the paths that the way has come by. So it matters whether one place
has one path. It has where the folder of the referring document is told without dots: the
segments of the reference are followed one by one, and what they leave are names. The segments
of that folder are kept as they stand, though, so a dot among them stays in the path.
-/

namespace PromptTemplate

namespace Reference

/-- A segment that names a folder or a document. -/
def IsName (s : List Char) : Prop := s ≠ [] ∧ s ≠ ['.'] ∧ s ≠ ['.', '.'] ∧ '/' ∉ s

instance (s : List Char) : Decidable (IsName s) :=
  inferInstanceAs (Decidable (_ ∧ _ ∧ _ ∧ _))

/-- Names joined by slashes. -/
def joined (names : List (List Char)) : String := String.ofList (List.intercalate ['/'] names)

/-- A path that tells its place in the one way that has neither dots nor empty segments. -/
def Canonical (path : String) : Prop := ∃ names, (∀ s ∈ names, IsName s) ∧ path = joined names

/-- The names on the way from the root to the place that a path means. -/
def place (path : String) : List (List Char) := (segments path.toList).foldl follow []

/-- The names on the way from the root to the place that a reference in a document means: the
folder of the document is walked from the root, and the reference from there. -/
def location (path source : String) : List (List Char) :=
  (segments path.toList).foldl follow
    (if path.toList.head? = some '/' then [] else (folder source.toList).foldl follow [])

/-- Whether a reference is independent of dots in the path of its document: it begins at the
root, or at a folder that is told by names. -/
def Dotless (path source : String) : Prop :=
  path.toList.head? = some '/' ∨ ∀ s ∈ folder source.toList, IsName s

instance (path source : String) : Decidable (Dotless path source) :=
  inferInstanceAs (Decidable (_ ∨ _))

/-! ## Segments -/

theorem segments_eq_splitOn (cs : List Char) : segments cs = cs.splitOn '/' := by
  induction cs with
  | nil => rfl
  | cons c cs ih =>
    have next : (c :: cs).splitOn '/' = if c == '/' then [] :: cs.splitOn '/' else
        (cs.splitOn '/').modifyHead (c :: ·) := List.splitOnP_cons_eq_if_modifyHead c cs
    rw [segments, ih, next]
    by_cases h : c = '/'
    · simp [h]
    · rw [if_neg h, if_neg (by simpa using h)]
      cases pieces : cs.splitOn '/' with
      | nil => exact absurd pieces (List.splitOn_ne_nil _ _)
      | cons s rest => rfl

theorem slash_notMem_of_segments (cs : List Char) : ∀ s ∈ segments cs, '/' ∉ s := by
  induction cs with
  | nil => simp [segments]
  | cons c cs ih =>
    rw [segments]
    split
    · exact List.forall_mem_cons.mpr ⟨List.not_mem_nil, ih⟩
    · rename_i other
      split
      · simpa using Ne.symm other
      · rename_i s rest h
        rw [h] at ih
        obtain ⟨first, later⟩ := List.forall_mem_cons.mp ih
        refine List.forall_mem_cons.mpr ⟨?_, later⟩
        simpa using ⟨Ne.symm other, first⟩

theorem segments_intercalate {names : List (List Char)} (h : ∀ s ∈ names, IsName s)
    (some : names ≠ []) : segments (List.intercalate ['/'] names) = names := by
  rw [segments_eq_splitOn]
  exact List.splitOn_intercalate '/' (fun s hs => (h s hs).2.2.2) some

/-! ## Following segments -/

variable {names base : List (List Char)} {s : List Char}

theorem follow_name (h : IsName s) : follow base s = base ++ [s] := by
  obtain ⟨filled, dot, dots, -⟩ := h
  rw [follow, if_neg (not_or.mpr ⟨filled, dot⟩), if_neg dots]

/-- One segment leaves names. -/
theorem isName_follow (h : ∀ n ∈ base, IsName n) (hs : '/' ∉ s) :
    ∀ n ∈ follow base s, IsName n := by
  rw [follow]
  split
  · exact h
  · rename_i filled
    split
    · exact fun n hn => h n (List.dropLast_subset _ hn)
    · rename_i dots
      obtain ⟨nonempty, dot⟩ := not_or.mp filled
      intro n hn
      rcases List.mem_append.mp hn with old | new
      · exact h n old
      · rw [List.mem_singleton.mp new]
        exact ⟨nonempty, dot, dots, hs⟩

/-- All segments leave names. -/
theorem isName_foldl_follow {ss : List (List Char)} (h : ∀ n ∈ base, IsName n)
    (hs : ∀ s ∈ ss, '/' ∉ s) : ∀ n ∈ ss.foldl follow base, IsName n := by
  induction ss generalizing base with
  | nil => exact h
  | cons s ss ih =>
    obtain ⟨first, later⟩ := List.forall_mem_cons.mp hs
    exact ih (isName_follow h first) later

theorem foldl_follow_names (h : ∀ s ∈ names, IsName s) :
    names.foldl follow base = base ++ names := by
  induction names generalizing base with
  | nil => simp
  | cons s rest ih =>
    obtain ⟨first, later⟩ := List.forall_mem_cons.mp h
    rw [List.foldl_cons, follow_name first, ih later, List.append_assoc, List.singleton_append]

/-! ## Canonical paths -/

theorem place_joined (h : ∀ s ∈ names, IsName s) : place (joined names) = names := by
  by_cases empty : names = []
  · subst empty
    rfl
  · rw [place, joined, String.toList_ofList, segments_intercalate h empty, foldl_follow_names h,
      List.nil_append]

theorem folder_joined (h : ∀ s ∈ names, IsName s) :
    folder (joined names).toList = names.dropLast := by
  by_cases empty : names = []
  · subst empty
    rfl
  · have filled : names.filter (!·.isEmpty) = names := by
      rw [List.filter_eq_self]
      intro s hs
      simpa using (h s hs).1
    rw [folder, joined, String.toList_ofList, segments_intercalate h empty, filled]

theorem isName_folder_joined (h : ∀ s ∈ names, IsName s) :
    ∀ s ∈ folder (joined names).toList, IsName s := by
  rw [folder_joined h]
  exact fun s hs => h s (List.dropLast_subset _ hs)

theorem Canonical.joined_place {path : String} (h : Canonical path) :
    joined (place path) = path := by
  obtain ⟨names, all, rfl⟩ := h
  rw [place_joined all]

/-- Canonical paths tell places apart. -/
theorem Canonical.place_inj {path path' : String} (h : Canonical path) (h' : Canonical path') :
    place path = place path' ↔ path = path' := by
  constructor
  · intro same
    rw [← h.joined_place, ← h'.joined_place, same]
  · rintro rfl
    rfl

theorem Canonical.dotless {source : String} (h : Canonical source) (path : String) :
    Dotless path source := by
  obtain ⟨names, all, rfl⟩ := h
  exact .inr (isName_folder_joined all)

/-- From the root, a canonical path leads to itself. -/
theorem Canonical.resolve_root {path root : String} (h : Canonical path)
    (top : folder root.toList = []) : resolve path root = path := by
  have same : resolve path root = joined (place path) := by
    rw [resolve, joined, place, top, ite_self]
  rw [same, h.joined_place]

/-! ## Where references lead to -/

section

variable {path source : String}

theorem isName_location (path source : String) : ∀ s ∈ location path source, IsName s := by
  have slashless : ∀ s ∈ folder source.toList, '/' ∉ s := fun s hs =>
    slash_notMem_of_segments _ s (List.mem_filter.mp (List.dropLast_subset _ hs)).1
  refine isName_foldl_follow ?_ (slash_notMem_of_segments _)
  split
  · simp
  · exact isName_foldl_follow (by simp) slashless

/-- What a reference leads to is the one path of its place. -/
theorem Dotless.resolve_eq (h : Dotless path source) :
    resolve path source = joined (location path source) := by
  rw [resolve, joined, location]
  congr 3
  by_cases absolute : path.toList.head? = some '/'
  · rw [if_pos absolute, if_pos absolute]
  · rw [if_neg absolute, if_neg absolute, foldl_follow_names (h.resolve_left absolute),
      List.nil_append]

theorem Dotless.place_resolve (h : Dotless path source) :
    place (resolve path source) = location path source := by
  rw [h.resolve_eq, place_joined (isName_location path source)]

theorem Dotless.canonical (h : Dotless path source) : Canonical (resolve path source) :=
  ⟨_, isName_location path source, h.resolve_eq⟩

end

end Reference

namespace Metadata

open Reference Documents

variable {documents : Documents} {d : Document} {rest : List Document}

/-- Whether a document can be read and has, anywhere in it, a reference tag with a path. -/
def Asks (d : Document) (wanted : String) : Prop :=
  ∃ f, Fragment.ofText d.content = .ok f ∧
    ∃ as s, Node.reference as s ∈ f.walk ∧ wantedPath? as = some wanted

theorem refers_iff_asks {target : String} :
    d.Refers target ↔ ∃ wanted, Asks d wanted ∧ resolve wanted d.path = target := by
  constructor
  · rintro ⟨f, hf, as, s, tag, wanted, named, reached⟩
    exact ⟨wanted, ⟨f, hf, as, s, tag, named⟩, reached⟩
  · rintro ⟨wanted, ⟨f, hf, as, s, tag, named⟩, reached⟩
    exact ⟨f, hf, as, s, tag, wanted, named, reached⟩

/-- From a canonical path, a way comes by canonical paths only. -/
theorem canonical_of_linked (linked : (d :: rest).IsChain fun a b => a.Refers b.path)
    (h : Canonical d.path) : ∀ e ∈ d :: rest, Canonical e.path := by
  induction rest generalizing d with
  | nil => simpa using h
  | cons e rest ih =>
    obtain ⟨refers, linked⟩ := List.isChain_cons_cons.mp linked
    obtain ⟨wanted, -, reached⟩ := refers_iff_asks.mp refers
    have next : Canonical e.path := reached ▸ (h.dotless wanted).canonical
    exact List.forall_mem_cons.mpr ⟨h, ih linked next⟩

/-- On a way from a canonical path, a reference leads to a path that the way has come by exactly
if it means the place of a document that the way has come by. -/
theorem mem_paths_iff (linked : (d :: rest).IsChain fun a b => a.Refers b.path)
    (h : Canonical d.path) {source : Document} (come : source ∈ d :: rest) (wanted : String) :
    resolve wanted source.path ∈ (d :: rest).map Document.path ↔
      ∃ e ∈ d :: rest, place e.path = location wanted source.path := by
  have canonical := canonical_of_linked linked h
  have dotless : Dotless wanted source.path := (canonical source come).dotless wanted
  have same : ∀ e ∈ d :: rest,
      e.path = resolve wanted source.path ↔ place e.path = location wanted source.path := by
    intro e he
    rw [← dotless.place_resolve, (canonical e he).place_inj dotless.canonical]
  rw [List.mem_map]
  exact exists_congr fun e => and_congr_right fun he => same e he

/-- Where the path of the referring document has no dots before its last segment, or the
reference begins at the root, the path that a reference leads to consists of names joined by
slashes, it leads to itself from the root, and it is the same for two references exactly if they
mean the same place. Where the path of the first document is such a path itself, so are all
paths that its scan comes by, and a reference is taken for one to a document that the way has
come by exactly if it means the place of one: that is when the scan reports a circle. -/
theorem canonical_paths (path source : String) (h : Dotless path source) :
    Canonical (resolve path source) ∧
    (∀ root : String, folder root.toList = [] →
      resolve (resolve path source) root = resolve path source) ∧
    (∀ path' source', Dotless path' source' →
      (resolve path source = resolve path' source' ↔
        location path source = location path' source')) ∧
    ∀ (documents : Documents) (root : Document), Canonical root.path →
      (∀ rest, Way documents root rest →
        ∀ source ∈ root :: rest, Canonical source.path ∧
          ∀ wanted, resolve wanted source.path ∈ (root :: rest).map Document.path ↔
            ∃ e ∈ root :: rest, place e.path = location wanted source.path) ∧
      ((scan documents [root.path] root.path root.content ⟨[], []⟩).2.Circular ↔
        ∃ rest, Way documents root rest ∧
          ∃ wanted, Asks ((root :: rest).getLast (List.cons_ne_nil root rest)) wanted ∧
            ∃ e ∈ root :: rest, place e.path =
              location wanted ((root :: rest).getLast (List.cons_ne_nil root rest)).path) := by
  refine ⟨h.canonical, fun root top => h.canonical.resolve_root top, fun path' source' h' => ?_,
    fun documents root h => ⟨fun rest way source come => ?_, ?_⟩⟩
  · rw [← h.canonical.place_inj h'.canonical, h.place_resolve, h'.place_resolve]
  · exact ⟨canonical_of_linked way.linked h source come, mem_paths_iff way.linked h come⟩
  · have circular := (finds_scan documents [root.path] root.path root.content ⟨[], []⟩).circular
    have before : ¬ Findings.Circular ⟨[], []⟩ := fun ⟨_, h, _⟩ => List.not_mem_nil h
    rw [circular, ← circles_iff, or_iff_right before, Circles]
    refine exists_congr fun rest => ?_
    rw [← way_iff_onward]
    refine and_congr_right fun way => ?_
    have last := List.getLast_mem (List.cons_ne_nil root rest)
    constructor
    · rintro ⟨target, come, refers⟩
      obtain ⟨wanted, asks, rfl⟩ := refers_iff_asks.mp refers
      exact ⟨wanted, asks, (mem_paths_iff way.linked h last wanted).mp come⟩
    · rintro ⟨wanted, asks, same⟩
      exact ⟨_, (mem_paths_iff way.linked h last wanted).mpr same,
        refers_iff_asks.mpr ⟨wanted, asks, rfl⟩⟩

/-- Two documents that refer to each other by paths with dots. -/
theorem canonical_paths_circle :
    ∃ (documents : Documents) (root : Document),
      documents = [("dir/b", "<ref prompt=\"./../dir//a\"/>")] ∧
      root = ⟨"dir/a", "<ref prompt=\"./b\"/>"⟩ ∧ Dotless "./../dir//a" "dir/b" ∧
      resolve (resolve "./../dir//a" "dir/b") "" = "dir/a" ∧
      resolve "./../dir//a" "dir/b" = resolve "/dir/a" "./x/b" ∧
      (scan documents [root.path] root.path root.content ⟨[], []⟩).2.Circular := by
  have dotless : Dotless "./../dir//a" "dir/b" := by decide +kernel
  obtain ⟨-, again, keys, scans⟩ := canonical_paths _ _ dotless
  have absolute : Dotless "/dir/a" "./x/b" := by decide +kernel
  have canonical : Canonical "dir/a" := ⟨["dir".toList, "a".toList], by decide +kernel, rfl⟩
  have there : Document.Refers ⟨"dir/a", "<ref prompt=\"./b\"/>"⟩ "dir/b" := by decide +kernel
  have back : Document.Refers ⟨"dir/b", "<ref prompt=\"./../dir//a\"/>"⟩ "dir/a" := by
    decide +kernel
  have way : Way [("dir/b", "<ref prompt=\"./../dir//a\"/>")]
      ⟨"dir/a", "<ref prompt=\"./b\"/>"⟩ [⟨"dir/b", "<ref prompt=\"./../dir//a\"/>"⟩] :=
    { known := List.forall_mem_singleton.mpr rfl
      linked := .cons_cons there (.singleton _)
      distinct := by decide }
  refine ⟨_, _, rfl, rfl, dotless, ?_, ?_, ?_⟩
  · rw [again "" rfl]
    decide +kernel
  · exact (keys _ _ absolute).mpr (by decide +kernel)
  · obtain ⟨ways, circular⟩ := scans [("dir/b", "<ref prompt=\"./../dir//a\"/>")]
      ⟨"dir/a", "<ref prompt=\"./b\"/>"⟩ canonical
    obtain ⟨wanted, asks, reached⟩ := refers_iff_asks.mp back
    obtain ⟨-, known⟩ := ways _ way _ (List.mem_cons_of_mem _ List.mem_cons_self)
    have come := (known wanted).mp (by rw [reached]; exact List.mem_cons_self)
    exact circular.mpr ⟨_, way, wanted, asks, come⟩

/-- A dot in the path of the referring document stays: one place has two keys, neither the
look-up nor the check for circles takes them for the same, and the path is not resolved to
itself. -/
theorem not_canonical_of_dot :
    ¬ Canonical (resolve "b" "./a") ∧ resolve "b" "./a" = "./b" ∧
      location "b" "./a" = location "b" "a" ∧ resolve "b" "./a" ≠ resolve "b" "a" ∧
      place "./a" = location "a" "b" ∧ resolve "a" "b" ∉ ["./a"] := by
  have kept : resolve "b" "./a" = "./b" := by decide +kernel
  refine ⟨fun h => ?_, kept, by decide +kernel, by decide +kernel, by decide +kernel,
    by decide +kernel⟩
  have top : folder "".toList = [] := rfl
  have unchanged := h.resolve_root top
  rw [kept] at unchanged
  revert unchanged
  decide +kernel

end Metadata

end PromptTemplate
