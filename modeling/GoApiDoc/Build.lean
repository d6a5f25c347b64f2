/-
Building a document from a tree of Go sources.

The sources are indexed, the comments of the main file give the overview, and the comment above
every function that has a route gives an operation, which is bound to its routes.

* `Project` — what a document is built from;
* `Project.registry` — the indexed sources;
* `Project.overview` — what the main file says;
* `commentTags` — the tags that a comment names;
* `Assembly` — the operations that have been bound;
* `Project.assemble`, `Project.build` — all of them, and the document.
-/

import GoApiDoc.Dependency
import GoApiDoc.Operation.Basic
import GoApiDoc.Overview
import GoApiDoc.Registry.Collect
import GoApiDoc.Scan

set_option autoImplicit false

namespace GoApiDoc

/-- What a document is built from. -/
structure Project where
  tree : SourceTree
  assets : Assets
  settings : Settings
  dirs : List String
  /-- The path of the main file, seen from the first directory. -/
  main : String
  /-- The packages that the module depends on, if they can be listed. -/
  dependencies : Option (Except DocError (List DependencyPackage)) := none

namespace Project

/-! ### Sources -/

def readUnit (p : Project) (f : SourceFile) : Except DocError SourceUnit := do
  SourceUnit.ofText f.path f.packagePath f.role (← p.tree.read f.path)

def addDirectory (p : Project) (r : Registry) (dir : String) : Except DocError Registry := do
  let scan : Scan :=
    { root := dir, vendor := p.settings.parseVendor, excludes := p.settings.excludes }
  let units ← (← scan.files p.tree).mapM p.readUnit
  return units.foldl (fun r u => (r.index u).2) r

def isInternal (importPath : String) : Bool := (Text.split '/' importPath).contains "internal"

/-- The package contributes models: it is not part of the toolchain, none of the scanned ones, and
not internal unless internal packages are wanted. -/
def wants (p : Project) (r : Registry) (d : DependencyPackage) : Bool :=
  !d.standard && !r.packages.contains d.importPath &&
    (p.settings.parseInternal || !isInternal d.importPath)

def addPackage (p : Project) (r : Registry) (d : DependencyPackage) : Except DocError Registry :=
  if p.wants r d then
    d.goFiles.foldlM (fun r path => do
      let text ← p.tree.read path
      return (← r.addFile d.importPath path .models text).2) r
  else .ok r

/-- Adds the packages that the module depends on, if they are wanted and can be listed. -/
def addDependencies (p : Project) (r : Registry) : Except DocError Registry :=
  if p.settings.parseDependency then
    match p.dependencies with
    | some listed => do (← listed).foldlM p.addPackage r
    | none => .ok r
  else .ok r

/-- Finds the main file, and adds it if it is not among the scanned ones. -/
def addMain (p : Project) (path : String) (r : Registry) : Except DocError (FileId × Registry) :=
  match r.fileId? path with
  | some id => .ok (id, r)
  | none => do
    let package := match Path.parent? (Path.parts path) with
      | some dir => modulePath p.tree dir
      | none => ""
    return r.index (← p.readUnit ⟨path, package, .models⟩)

def registry (p : Project) : Except DocError (FileId × Registry) :=
  match p.dirs with
  | [] => .error (.malformed .noSearchDirectory)
  | first :: _ => do
    let r ← p.dirs.foldlM p.addDirectory { goroot := p.settings.goroot }
    p.addMain (Path.join first p.main) (← p.addDependencies r)

/-! ### The overview -/

def addComment (p : Project) (v : Overview) (g : Go.CommentGroup) : Except DocError Overview :=
  if isOverview g.lines then
    match Overview.addLines p.assets v g.lines with
    | (v, none) => .ok v
    | (_, some e) => .error e
  else .ok v

/-- What the comments of the main file say about the interface as a whole. -/
def overview (p : Project) (r : Registry) (main : FileId) : Except DocError Overview :=
  ((r.files[main]?.map (·.tree.comments)).getD []).foldlM p.addComment {}

end Project

/-! ### Operations -/

/-- A comment above a function, with its file. -/
structure OperationComment where
  file : FileId
  lines : List String

def funcComment? : Go.Decl → Option (List String)
  | .func f => f.doc.map (·.lines)
  | _ => none

/-- The comments above functions: the files in the order of their paths, the functions of a file in
the order of the text. -/
def functionComments (r : Registry) : List OperationComment :=
  r.operationFiles.flatMap fun file =>
    (((r.files[file]?.map (·.tree.decls)).getD []).filterMap funcComment?).map fun lines =>
      ⟨file, lines⟩

/-- The comments above functions that are not about the interface as a whole. -/
def operationComments (r : Registry) : List OperationComment :=
  (functionComments r).filter fun c => !isOverview c.lines

def commentTags (lines : List String) : List String :=
  lines.flatMap fun line =>
    let (word, rest) := Text.splitAttribute (Text.trim line)
    if Text.eqIgnoreCase word "@tags" then Text.commaList rest else []

def TagFilter.keeps (f : TagFilter) (lines : List String) : Bool :=
  f.isEmpty || f.allows (commentTags lines)

def readEndpoint (ctx : AnnotationContext) (lines : List String) (g : Resolver) :
    Except DocError (Endpoint × Resolver) :=
  match (lines.forM (Annotating.addLine ctx)).run.run { resolver := g } with
  | (.ok _, st) => .ok (st.endpoint, st.resolver)
  | (.error e, _) => .error e

/-- The operations that have been bound. -/
structure Assembly where
  resolver : Resolver
  ids : List String := []
  paths : Table PathItem := []

namespace Assembly

/-- Enters an operation id; if `strict`, an id must not be given twice. -/
def enterId (strict : Bool) (ids : List String) : Option String → Except DocError (List String)
  | none => .ok ids
  | some id =>
    if ids.contains id then
      if strict then .error (.duplicateOperationId id) else .ok ids
    else .ok (id :: ids)

/-- Binds an operation to a route; if `strict`, the route must not be bound already. -/
def bindRoute (strict : Bool) (o : Operation) (paths : Table PathItem) (r : Route) :
    Except DocError (Table PathItem) :=
  let item := (paths.get? r.path).getD {}
  if strict && (item.operation? r.method).isSome then
    .error (.duplicateRoute r.method.name r.path)
  else
    let bound := { o with deprecated := o.deprecated || r.deprecated }
    .ok (paths.insert r.path (item.bind r.method bound))

/-- Binds an operation to its routes; one without routes is left out. -/
def addEndpoint (strict : Bool) (a : Assembly) (e : Endpoint) : Except DocError Assembly :=
  if e.routes.isEmpty then .ok a
  else do
    let ids ← enterId strict a.ids e.operation.operationId
    let paths ← e.routes.foldlM (bindRoute strict e.operation) a.paths
    return { a with ids := ids, paths := paths }

/-- Reads a comment and binds its operation, unless the filter keeps it out. -/
def addComment (assets : Assets) (settings : Settings) (format : String) (a : Assembly)
    (c : OperationComment) : Except DocError Assembly :=
  if settings.tags.keeps c.lines then do
    let (e, g) ← readEndpoint ⟨assets, c.file, format⟩ c.lines a.resolver
    addEndpoint settings.strict { a with resolver := g } e
  else .ok a

end Assembly

/-! ### The document -/

namespace Project

def assemble (p : Project) : Except DocError (Overview × Assembly) := do
  let (main, r) ← p.registry
  let v ← p.overview r main
  let r := r.parseTypes
  let format := v.collectionFormat.getD p.settings.collectionFormat
  let a ← (operationComments r).foldlM (Assembly.addComment p.assets p.settings format)
    { resolver := { registry := r, settings := p.settings } }
  return (v, a)

def build (p : Project) : Except DocError Document := do
  let (v, a) ← p.assemble
  return { v.document with paths := a.paths, definitions := a.resolver.definitions }

end Project

end GoApiDoc
