/-
Scanning a directory for Go files.

* `modulePath` — the import path of a directory, from the nearest `go.mod`;
* `Scan` — which directories are visited;
* `Scan.files` — the Go files of a directory with their packages.
-/

import GoApiDoc.Registry.Basic
import GoApiDoc.Settings
import GoApiDoc.SourceTree

set_option autoImplicit false

namespace GoApiDoc

open Path (Part)

/-! ### Import paths -/

/-- The module named by a line of a `go.mod` file. -/
def moduleOfLine? (line : String) : Option String :=
  match Text.stripPrefix "module" (Text.trim line) with
  | none => none
  | some rest =>
    if (rest.toList.head?.map Text.isBlank).getD false then
      Text.nonEmpty (Text.trimMatching (· == '"') (Text.trim rest))
    else none

/-- The module named by the `go.mod` file of a directory. -/
def moduleAt? (t : SourceTree) (dir : List Part) : Option String :=
  let path := Path.ofParts (dir ++ [.name "go.mod"])
  if t.isFile path then
    match t.read path with
    | .ok text => (Text.lines text).findSome? moduleOfLine?
    | .error _ => none
  else none

/-- The import path of a directory, whose parts are given from the last to the first; `below` are
the names from it down to where the search began. -/
def modulePathFrom? (t : SourceTree) : List Part → List String → Option String
  | [], below => (moduleAt? t []).map fun m => Text.joinWith "/" (m :: below)
  | p :: above, below =>
    match moduleAt? t (p :: above).reverse with
    | some m => some (Text.joinWith "/" (m :: below))
    | none => if p = .root then none else modulePathFrom? t above (p.name?.toList ++ below)

/-- The import path of a directory: the module of the nearest directory above that has one and the
names down from there, or else the name of the directory. -/
def modulePath (t : SourceTree) (dir : List Part) : String :=
  match modulePathFrom? t dir.reverse [] with
  | some path => path
  | none => (Path.lastName? dir).getD "main"

/-! ### Scanning -/

/-- A Go file that a scan has found. -/
structure SourceFile where
  path : String
  packagePath : String
  role : Role
deriving DecidableEq

/-- What a scan visits. -/
structure Scan where
  root : String
  vendor : Bool := false
  excludes : List String := []

namespace Scan

def isHidden (name : String) : Bool := name.utf8ByteSize > 1 && Text.hasPrefix "." name

def keeps (s : Scan) (dir : List Part) : Bool :=
  let name := (Path.lastName? dir).getD ""
  !isHidden name && name != "testdata" && (name != "vendor" || s.vendor) &&
    !s.excludes.any fun e => dir == Path.parts e || dir == Path.parts (Path.join s.root e)

def isSourceName (name : String) : Bool :=
  Text.hasSuffix ".go" name && !Text.hasSuffix "_test.go" name

/-- The names after the first `vendor`, if there is one. -/
def belowVendor? : List String → Option (List String)
  | [] => none
  | name :: names => if name = "vendor" then some names else belowVendor? names

/-- The package of a file in a module, from the names of its directories. -/
def packageOf (module : String) (dirs : List String) : String × Role :=
  match belowVendor? dirs with
  | some names => (Text.joinWith "/" names, .models)
  | none => (Text.joinWith "/" (module :: dirs), .all)

/-- The file with its package, if it is a Go file. -/
def sourceFile? (s : Scan) (module path : String) : Option SourceFile :=
  let parts := Path.parts path
  match Path.lastName? parts with
  | none => none
  | some name =>
    if isSourceName name then
      let below := (Path.below? (Path.parts s.root) parts).getD []
      let (package, role) := packageOf module (below.dropLast.filterMap Part.name?)
      some ⟨path, package, role⟩
    else none

def files (s : Scan) (t : SourceTree) : Except DocError (List SourceFile) :=
  (t.list s.root s.keeps).map fun paths =>
    paths.filterMap (s.sourceFile? (modulePath t (Path.parts s.root)))

end Scan

end GoApiDoc
