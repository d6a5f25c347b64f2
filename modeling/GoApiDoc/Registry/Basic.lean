/-
The registry: the symbol table of all indexed files.

Files, types and constants are numbered in the order of their arrival; the tables of packages,
unique names and instances hold these numbers.

* `SourceUnit` — a file with its package;
* `TypeDecl`, `TypeDecl.typeName`, `TypeDecl.fullPath` — a declared type and its names;
* `ConstDecl` — a declared constant;
* `Registry` — the symbol table, with `Registry.index` and `Registry.addFile`.
-/

import GoApiDoc.Path
import GoApiDoc.Error
import GoApiDoc.Text.Letter
import GoApiDoc.Constant.Value
import GoApiDoc.Go.Parser.Files

set_option autoImplicit false

namespace GoApiDoc

open Go (TypeId TypeExpr)

abbrev FileId := Nat

abbrev ConstId := Nat

/-! ### Files -/

/-- What a file contributes to the document. -/
inductive Role where
  | models
  | operations
  | all
deriving DecidableEq

def Role.hasOperations : Role → Bool
  | models => false
  | operations | all => true

/-- A file with the package it belongs to. -/
structure SourceUnit where
  path : String
  packagePath : String
  role : Role
  tree : Go.File

namespace SourceUnit

def packageName (u : SourceUnit) : String := u.tree.packageName

def ofText (path packagePath : String) (role : Role) (text : String) :
    Except DocError SourceUnit :=
  match Go.fileOfText text with
  | .ok tree => .ok ⟨path, packagePath, role, tree⟩
  | .error e => .error (.source path e)

end SourceUnit

/-! ### Types -/

/-- A member of an enumeration, made from a constant of the type. -/
structure EnumMember where
  key : String
  value : Json
  comment : String

/-- A type: declared in a file, or made from a generic declaration. -/
structure TypeDecl where
  file : FileId
  packagePath : String
  packageName : String
  name : String
  func : Option String
  params : List Go.TypeParam
  isAlias : Bool
  type : TypeExpr
  doc : Option Go.CommentGroup
  comment : Option Go.CommentGroup
  notUnique : Bool := false
  enums : List EnumMember := []
  instanceName : Option String := none
  origin : Option TypeId := none

namespace TypeDecl

/-- The declared name, after the name of the function whose body declares it. -/
def scopedName (d : TypeDecl) : String :=
  match d.func with
  | some f => f ++ "." ++ d.name
  | none => d.name

/-- The name given by a line `@name Other` of the comment. -/
def renamed? (d : TypeDecl) : Option String :=
  match d.comment with
  | none => none
  | some c => c.lines.findSome? fun line =>
    match Text.words line with
    | word :: name :: _ => if Text.eqIgnoreCase word "@name" then some name else none
    | _ => none

/-- The name with its package; a package whose name is ambiguous is given by its path. -/
def shortName (d : TypeDecl) : String :=
  (if d.notUnique then Text.pathAsName d.packagePath else d.packageName) ++ "." ++ d.scopedName

def typeName (d : TypeDecl) : String :=
  match d.instanceName with
  | some name => name
  | none => d.renamed?.getD d.shortName

/-- The name with the import path of the package, by which types are overridden. -/
def fullPath (d : TypeDecl) : String :=
  match d.instanceName with
  | some name =>
    d.packagePath ++ "." ++ (match Text.splitLast '.' name with
      | some (_, last) => last
      | none => name)
  | none => d.packagePath ++ "." ++ d.scopedName

def isGeneric (d : TypeDecl) : Bool := !d.params.isEmpty

end TypeDecl

/-! ### Constants -/

/-- A declared constant, with the type and the expression that a line without its own repeats. -/
structure ConstDecl where
  file : FileId
  packagePath : String
  name : String
  expr : Option Go.Expr
  type : Option TypeExpr
  iota : Nat
  /-- The comment, if it is not empty. -/
  comment : Option String
  folded : Option Folded := none

/-! ### Packages and the table -/

/-- A package, as seen through its indexed files. -/
structure Package where
  path : String
  /-- The name in the package clause of the first file. -/
  name : String
  types : Table TypeId := []
  consts : Table ConstId := []
  constOrder : List ConstId := []
  files : List FileId := []

/-- The symbol table. -/
structure Registry where
  files : Array SourceUnit := #[]
  collected : Nat := 0
  packages : Table Package := []
  types : Array TypeDecl := #[]
  consts : Array ConstDecl := #[]
  /-- The types by short name; a name that several packages declare has none. -/
  unique : Table (Option TypeId) := []
  instances : Table TypeId := []
  goroot : Option String := none

namespace Registry

def fileId? (r : Registry) (path : String) : Option FileId :=
  r.files.findIdx? fun u => Path.same u.path path

/-- Adds a file; a path that is indexed already keeps its first file. -/
def index (r : Registry) (u : SourceUnit) : FileId × Registry :=
  match r.fileId? u.path with
  | some id => (id, r)
  | none =>
    let id := r.files.size
    let packages := r.packages.modify u.packagePath ⟨u.packagePath, u.packageName, [], [], [], []⟩
      fun p => { p with files := p.files ++ [id] }
    (id, { r with files := r.files.push u, packages := packages })

/-- Reads a file and adds it, unless its path is indexed already. -/
def addFile (r : Registry) (packagePath path : String) (role : Role) (text : String) :
    Except DocError (FileId × Registry) :=
  match r.fileId? path with
  | some id => .ok (id, r)
  | none =>
    match SourceUnit.ofText path packagePath role text with
    | .ok u => .ok (r.index u)
    | .error e => .error e

def pathOf (r : Registry) (id : FileId) : String := (r.files[id]?.map (·.path)).getD ""

def inPathOrder (r : Registry) (ids : List FileId) : List FileId :=
  ids.mergeSort fun a b => Path.le (r.pathOf a) (r.pathOf b)

def isOwn (r : Registry) (u : SourceUnit) : Bool :=
  !Text.hasPrefix "vendor" u.packagePath &&
    !(match r.goroot with
      | some root => Path.isUnder u.path root
      | none => false)

/-- The files that are neither vendored nor part of the toolchain, in the order of the paths. -/
def ownFiles (r : Registry) : List FileId :=
  r.inPathOrder <| (List.range r.files.size).filter fun id => (r.files[id]?.map r.isOwn).getD false

/-- The files of `ownFiles` that contribute operations. -/
def operationFiles (r : Registry) : List FileId :=
  r.ownFiles.filter fun id => (r.files[id]?.map (·.role.hasOperations)).getD false

def findConst? (r : Registry) (packagePath name : String) : Option ConstId :=
  match r.packages.get? packagePath with
  | some p => p.consts.get? name
  | none => none

def typeIn? (r : Registry) (packagePath name : String) : Option TypeId :=
  match r.packages.get? packagePath with
  | some p => p.types.get? name
  | none => none

end Registry

end GoApiDoc
