/-
Source trees: files that can be listed and read.

* `SourceTree` — what is needed of a tree of files;
* `SourceTree.keptBelow` — whether a file lies in directories that are visited;
* `SourceTree.ofFiles` — a tree of given files.
-/

import GoApiDoc.Error
import GoApiDoc.Path

set_option autoImplicit false

namespace GoApiDoc

open Path (Part)

/-- Files that can be listed and read. -/
structure SourceTree where
  /-- The files below a directory in the order of their paths, without those in a directory that
  the condition does not admit. -/
  list : String → (List Part → Bool) → Except DocError (List String)
  read : String → Except DocError String
  isFile : String → Bool

namespace SourceTree

/-- Every directory between `dir` and the file with the given parts below it is admitted. -/
def keptBelow (keep : List Part → Bool) (dir : List Part) : List Part → Bool
  | [] => true
  | [_] => true
  | p :: rest => keep (dir ++ [p]) && keptBelow keep (dir ++ [p]) rest

/-! ### Given files -/

/-- Puts a file in its place in the order of the paths.  A path that is there already keeps its
spelling and gets the new text. -/
def insertFile (path text : String) : List (String × String) → List (String × String)
  | [] => [(path, text)]
  | (p, t) :: files =>
    if Path.same path p then (p, text) :: files
    else if Path.le path p then (path, text) :: (p, t) :: files
    else (p, t) :: insertFile path text files

/-- The file lies below the directory, in directories that are admitted. -/
def isVisible (root : String) (keep : List Part → Bool) (path : String) : Bool :=
  match Path.below? (Path.parts root) (Path.parts path) with
  | some rest => keptBelow keep (Path.parts root) rest
  | none => false

/-- The tree of the given files, of which a later one replaces an earlier one. -/
def ofFiles (entries : List (String × String)) : SourceTree :=
  let files := entries.foldl (fun files e => insertFile e.1 e.2 files) []
  let find? := fun path => files.find? fun e => Path.same e.1 path
  { list := fun root keep => .ok ((files.map (·.1)).filter (isVisible root keep))
    read := fun path =>
      match find? path with
      | some e => .ok e.2
      | none => .error (.io path "no such file")
    isFile := fun path => (find? path).isSome }

end SourceTree

end GoApiDoc
