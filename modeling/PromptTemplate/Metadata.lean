import PromptTemplate.Digest
import PromptTemplate.Parameters
import PromptTemplate.Reference
import PromptTemplate.Schema
import PromptTemplate.Template.Parser

/-!
# Metadata of templates

Reading metadata does not execute a template. It finds the parameters, the config block
and the documents that are referenced, directly or through others, and puts their texts
in place of the reference tags. What is wrong is collected in a list of errors, each
located in the text of its own document.

A document is not scanned again inside itself: the paths on the way to it are known, and
a reference to one of them is an error. As every path on the way names another document,
the scan ends.
-/

namespace PromptTemplate

/-- The documents that can be referenced, by their paths. -/
abbrev Documents := Dictionary String

/-- What has been found in all documents. -/
structure Findings where
  errors : List Error
  references : List String

namespace Findings

def report (f : Findings) (e : Error) : Findings := { f with errors := f.errors ++ [e] }

def cite (f : Findings) (path : String) : Findings :=
  if f.references.contains path then f else { f with references := f.references ++ [path] }

end Findings

/-- What a scan of one document yields. -/
structure Scanned where
  /-- The text with the texts of references in their places. -/
  resolved : List Char
  parameters : List String
  config : Option (Config × Span)

namespace Scanned

/-- The text that is put in the place of a reference: without the config block and the
blanks before it and after it. -/
def body (s : Scanned) : List Char :=
  match s.config with
  | some (_, span) =>
    Text.trimStart (((Text.cut? s.resolved span.stop).map (·.2)).getD [])
  | none => s.resolved

end Scanned

namespace Fragment

/-- The reference tags of a template. -/
def references (f : Fragment) : List (List Attribute × Span) :=
  f.walk.filterMap fun
    | .reference as s => some (as, s)
    | _ => none

/-- The first config block of a template. -/
def config? (f : Fragment) : Option (Config × Span) :=
  f.walk.findSome? fun
    | .config value s => some (value, s)
    | _ => none

end Fragment

namespace Metadata

/-- The path that a reference tag asks for. -/
def wantedPath? (as : List Attribute) : Option String :=
  (Attribute.find? as "prompt").bind (·.value.staticText?)

/-- The documents that are not on the way. -/
def remaining (documents : Documents) (lineage : List String) : List String :=
  (Dictionary.keys documents).filter (!lineage.contains ·)

theorem mem_keys_of_get? {α : Type} {d : Dictionary α} {key : String} {a : α}
    (h : Dictionary.get? d key = some a) : key ∈ Dictionary.keys d := by
  induction d with
  | nil => simp [Dictionary.get?] at h
  | cons e rest ih =>
    obtain ⟨k, b⟩ := e
    by_cases hk : k = key
    · simp [Dictionary.keys, hk]
    · simp only [Dictionary.get?, hk, if_false] at h
      exact List.mem_cons_of_mem _ (ih h)

theorem length_remaining_lt {documents : Documents} {lineage : List String} {path content : String}
    (fresh : lineage.contains path = false) (known : Dictionary.get? documents path = some content) :
    (remaining documents (lineage ++ [path])).length < (remaining documents lineage).length := by
  have mem : path ∈ remaining documents lineage := by
    simp only [remaining, List.mem_filter]
    exact ⟨mem_keys_of_get? known, by rw [fresh]; rfl⟩
  have sub : remaining documents (lineage ++ [path])
      = (remaining documents lineage).filter (· ≠ path) := by
    simp only [remaining, List.filter_filter]
    congr 1
    funext key
    by_cases hk : key = path <;> simp [hk]
  rw [sub]
  refine Nat.lt_of_le_of_ne (List.length_filter_le _ _) fun heq => ?_
  have := List.length_filter_eq_length_iff.1 heq path mem
  simp at this

mutual

/-- Scans a document; the lineage has its own path last and before it the paths of the
documents on the way to it. -/
def scan (documents : Documents) (lineage : List String) (path content : String)
    (found : Findings) : Scanned × Findings :=
  match Fragment.ofText content with
  | .error e => (⟨content.toList, [], none⟩, found.report e)
  | .ok f =>
    let ((splices, included), found) :=
      scanReferences documents lineage path content.toList f.references found
    (⟨Reference.splice content.toList splices, f.parameters included, f.config?⟩, found)
termination_by ((remaining documents lineage).length, 1, 0)

/-- Scans the documents behind reference tags, and returns what is put in their places
and the parameters that they have. -/
def scanReferences (documents : Documents) (lineage : List String) (path : String)
    (content : List Char) (tags : List (List Attribute × Span)) (found : Findings) :
    (List Reference.Splice × Analysis.Included) × Findings :=
  match tags with
  | [] => (([], []), found)
  | (as, s) :: rest =>
    let skip (cause : Cause) := scanReferences documents lineage path content rest
      (found.report ((cause.on s).locate content))
    match wantedPath? as with
    | none => skip .dynamicReference
    | some wanted =>
      let target := Reference.resolve wanted path
      match _fresh : lineage.contains target with
      | true => skip (.circularReference target)
      | false =>
        match _known : Dictionary.get? documents target with
        | none => skip (.referenceNotFound target)
        | some text =>
          let (child, found) := scan documents (lineage ++ [target]) target text found
          let ((splices, included), found) :=
            scanReferences documents lineage path content rest (found.cite target)
          ((⟨s.start, s.stop, child.body⟩ :: splices,
            (s.start, child.parameters) :: included), found)
termination_by ((remaining documents lineage).length, 0, tags.length)
decreasing_by
  all_goals first
    | (apply Prod.Lex.right; apply Prod.Lex.right; simp)
    | (apply Prod.Lex.left; exact length_remaining_lt _fresh _known)

end

end Metadata

/-- What there is to know about a template without executing it. -/
structure Metadata where
  /-- The digest of the resolved text. -/
  hash : String
  resolved : String
  config : Config
  errors : List Error
  parameters : List String
  references : List String

namespace Metadata

/-- Reads the metadata of a text at a path. With a list of names, only parameters in it
are told; with a schema, its violations are errors at the config block. -/
def read (prompt path : String) (documents : Documents) (allowed : Option (List String))
    (schema : Option Schema) : Metadata :=
  let (scanned, found) := scan documents [path] path prompt ⟨[], []⟩
  let config := (scanned.config.map (·.1)).getD []
  let span := (scanned.config.map (·.2)).getD Span.none
  let violations := (schema.map (·.violations config)).getD []
  let violationErrors := violations.map fun v =>
    ((Cause.invalidConfig v).on span).locate prompt.toList
  let parameters := match allowed with
    | some names => scanned.parameters.filter names.contains
    | none => scanned.parameters
  let resolved := String.ofList scanned.resolved
  ⟨Digest.sha256 resolved, resolved, config, found.errors ++ violationErrors, parameters,
    found.references⟩

end Metadata

end PromptTemplate
