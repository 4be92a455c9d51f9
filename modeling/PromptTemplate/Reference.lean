import PromptTemplate.Text.Position

/-!
# References

A reference names another document by a path, which is relative to the folder of the
document that it stands in unless it begins with a slash. Resolved paths have no empty
segments, and no dots if the path of the document has none, so one document has one path.
-/

namespace PromptTemplate.Reference

/-- The segments of a path; some may be empty. -/
def segments : List Char → List (List Char)
  | [] => [[]]
  | c :: cs =>
    if c = '/' then [] :: segments cs
    else
      match segments cs with
      | [] => [[c]]
      | s :: rest => (c :: s) :: rest

/-- Goes from a folder along one segment. -/
def follow (folder : List (List Char)) (s : List Char) : List (List Char) :=
  if s = [] ∨ s = ['.'] then folder
  else if s = ['.', '.'] then folder.dropLast
  else folder ++ [s]

/-- The folder of a document. -/
def folder (path : List Char) : List (List Char) :=
  ((segments path).filter (!·.isEmpty)).dropLast

/-- The path that a reference in a document leads to. -/
def resolve (path source : String) : String :=
  let start := if path.toList.head? = some '/' then [] else folder source.toList
  let reached := (segments path.toList).foldl follow start
  String.ofList (List.intercalate ['/'] reached)

/-- A piece of a text, by offsets, and what is put in its place. -/
structure Splice where
  start : Nat
  stop : Nat
  body : List Char

/-- The text from an offset on with the pieces replaced, which are given in order. -/
def spliceFrom (source : List Char) (offset : Nat) : List Splice → List Char
  | [] => ((Text.cut? source offset).map (·.2)).getD []
  | s :: rest =>
    (Text.slice? source offset s.start).getD [] ++ s.body ++ spliceFrom source s.stop rest

/-- A text with some pieces replaced. -/
def splice (source : List Char) (ss : List Splice) : List Char := spliceFrom source 0 ss

end PromptTemplate.Reference
