/-
File paths.

A path is kept as it was written, since error messages repeat it; what it denotes is the list of its
parts.  Two spellings of a path, such as `a//b` and `a/./b`, have the same parts.

* `Path.parts` — the parts of a path;
* `Path.same`, `Path.le`, `Path.isUnder` — comparison by parts;
* `Path.join` — a path relative to a directory;
* `Path.ofParts` — a text with given parts.
-/

import GoApiDoc.Text.Split

set_option autoImplicit false

namespace GoApiDoc.Path

/-- A part of a path. -/
inductive Part where
  | root
  | here
  | up
  | name (s : String)
deriving DecidableEq

namespace Part

def rank : Part → Nat
  | root => 0
  | here => 1
  | up => 2
  | name _ => 3

/-- The order of parts: by kind, then names by their characters. -/
def lt : Part → Part → Bool
  | name s, name t => s < t
  | p, q => p.rank < q.rank

/-- The name, if the part is one. -/
def name? : Part → Option String
  | name s => some s
  | _ => none

def text : Part → String
  | root => ""
  | here => "."
  | up => ".."
  | name s => s

/-- The part written between two slashes; nothing and a single point are none. -/
def ofText? : String → Option Part
  | "" => none
  | "." => none
  | ".." => some up
  | s => some (name s)

end Part

def parts (path : String) : List Part :=
  match Text.split '/' path with
  | "" :: rest@(_ :: _) => .root :: rest.filterMap Part.ofText?
  | "." :: rest => .here :: rest.filterMap Part.ofText?
  | pieces => pieces.filterMap Part.ofText?

/-! ### Comparison -/

def same (p q : String) : Bool := parts p == parts q

def partsLe : List Part → List Part → Bool
  | [], _ => true
  | _ :: _, [] => false
  | a :: as, b :: bs => if a = b then partsLe as bs else a.lt b

def le (p q : String) : Bool := partsLe (parts p) (parts q)

/-- The parts of a path below a directory, if it lies there. -/
def below? : List Part → List Part → Option (List Part)
  | [], ps => some ps
  | _ :: _, [] => none
  | d :: ds, p :: ps => if d = p then below? ds ps else none

def isUnder (path dir : String) : Bool := (below? (parts dir) (parts path)).isSome

/-! ### Directories and names -/

/-- The parts of the directory that holds a path; the root and the empty path have none. -/
def parent? (ps : List Part) : Option (List Part) :=
  match ps.reverse with
  | [] => none
  | .root :: _ => none
  | _ :: rest => some rest.reverse

/-- The last part, if it is a name. -/
def lastName? (ps : List Part) : Option String := ps.getLast?.bind Part.name?

/-- The path seen from a directory; an absolute path is not changed. -/
def join (dir path : String) : String :=
  if Text.hasPrefix "/" path then path
  else if dir.isEmpty || Text.hasSuffix "/" dir then dir ++ path
  else dir ++ "/" ++ path

def ofParts : List Part → String
  | [.root] => "/"
  | ps => Text.joinWith "/" (ps.map Part.text)

/-- The pieces of a path, from the last to the first, without empty ones and single points before
the first. -/
def dropEmptyPieces : List String → List String
  | [p] => [p]
  | "" :: ps => dropEmptyPieces ps
  | "." :: ps => dropEmptyPieces ps
  | ps => ps

/-- The directory of the file with a path, as the path writes it. -/
def dirText (path : String) : String :=
  match (dropEmptyPieces ((Text.split '/' path).reverse.drop 1)).reverse with
  | [""] => "/"
  | pieces => Text.joinWith "/" pieces

/-- The path can only be that of a directory. -/
def namesDirectory (path : String) : Bool := Text.hasSuffix "/" path || Text.hasSuffix "/." path

end GoApiDoc.Path
