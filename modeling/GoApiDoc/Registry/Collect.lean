/-
Collecting the declarations of the indexed files.

* `Registry.collectFile` — the types and constants of one file;
* `Registry.markUnique` — which short names need their package path;
* `Registry.foldConstants` — the values of the constants and the members of the enumerations;
* `Registry.parseTypes` — all of this for the files that are new.
-/

import GoApiDoc.Constant.Fold

set_option autoImplicit false

namespace GoApiDoc.Registry

open Go (TypeId)

/-! ### Declarations of a file -/

/-- The types that declarations introduce, each with the function whose body holds it. -/
def typeSpecs (decls : List Go.Decl) : List (Option String × Go.TypeSpec) :=
  decls.flatMap fun
    | .type spec => [(none, spec)]
    | .func d => d.localTypes.map fun spec => (some d.name, spec)
    | .const _ => []

/-- The comment of a constant: the group behind it, or else the one above it, if it has text. -/
def constComment (spec : Go.ValueSpec) : Option String :=
  match spec.comment <|> spec.doc with
  | some g => Text.nonEmpty g.text
  | none => none

/-- The constants of a declaration; a line without values repeats the values and the type of the
line before it. -/
def constDecls (file : FileId) (packagePath : String) (values : List Go.Expr)
    (type : Option Go.TypeExpr) : List Go.ValueSpec → List ConstDecl
  | [] => []
  | spec :: specs =>
    let (values, type) := if spec.values.isEmpty then (values, type) else (spec.values, spec.type)
    (spec.names.mapIdx fun i name =>
      { file := file, packagePath := packagePath, name := name, expr := values[i]?, type := type,
        iota := spec.iota, comment := constComment spec }) ++
      constDecls file packagePath values type specs

def constsOf (file : FileId) (packagePath : String) (decls : List Go.Decl) : List ConstDecl :=
  decls.flatMap fun
    | .const specs => constDecls file packagePath [] none specs
    | _ => []

def typeDecl (file : FileId) (u : SourceUnit) (entry : Option String × Go.TypeSpec) : TypeDecl :=
  { file := file, packagePath := u.packagePath, packageName := u.packageName,
    name := entry.2.name, func := entry.1, params := entry.2.params, isAlias := entry.2.isAlias,
    type := entry.2.type, doc := entry.2.doc, comment := entry.2.comment }

def modifyPackage (r : Registry) (path : String) (f : Package → Package) : Registry :=
  { r with packages := r.packages.modify path ⟨"", "", [], [], [], []⟩ f }

/-- Adds a type to its package; of two types with one name the first is kept. -/
def addType (r : Registry) (d : TypeDecl) : Registry :=
  if (r.typeIn? d.packagePath d.scopedName).isSome then r
  else
    let id := r.types.size
    let r := r.modifyPackage d.packagePath fun p =>
      { p with types := p.types.insert d.scopedName id }
    { r with types := r.types.push d }

/-- Adds a constant to its package; its name stands for the first constant with that name, and the
blank name for none. -/
def addConst (r : Registry) (c : ConstDecl) : Registry :=
  if c.name = "_" then r
  else
    let id := r.consts.size
    let r := r.modifyPackage c.packagePath fun p =>
      { p with
        consts := if p.consts.contains c.name then p.consts else p.consts.insert c.name id
        constOrder := p.constOrder ++ [id] }
    { r with consts := r.consts.push c }

def collectFile (r : Registry) (file : FileId) : Registry :=
  match r.files[file]? with
  | none => r
  | some u =>
    let r := ((typeSpecs u.tree.decls).map (typeDecl file u)).foldl addType r
    (constsOf file u.packagePath u.tree.decls).foldl addConst r

/-! ### Unique names -/

def byShortName (types : Array TypeDecl) : Table (List TypeId) :=
  (types.toList.zipIdx.filter fun (d, _) => d.instanceName.isNone).foldl
    (fun t (d, id) => t.modify d.shortName [] (· ++ [id])) []

def collide (types : Array TypeDecl) (ids : List TypeId) : Bool :=
  let paths := ids.filterMap fun id => types[id]?.map (·.packagePath)
  paths.any fun path => some path != paths.head?

/-- Marks a type whose short name is ambiguous and enters it under its longer name, unless that name
is taken. -/
def qualify (r : Registry) (id : TypeId) : Registry :=
  match r.types[id]? with
  | none => r
  | some d =>
    let d := { d with notUnique := true }
    { r with
      types := r.types.setIfInBounds id d
      unique := if r.unique.contains d.shortName then r.unique
        else r.unique.insert d.shortName (some id) }

def enterName (r : Registry) (entry : String × List TypeId) : Registry :=
  if collide r.types entry.2 then
    entry.2.foldl qualify { r with unique := r.unique.insert entry.1 none }
  else { r with unique := r.unique.insert entry.1 entry.2.head? }

/-- The types with the mark of ambiguous names removed, except on instances. -/
def unmarked (types : Array TypeDecl) : Array TypeDecl :=
  types.map fun d => if d.instanceName.isSome then d else { d with notUnique := false }

/-- Finds the short names that several packages declare, and fills the table of unique names. -/
def markUnique (r : Registry) : Registry :=
  let types := unmarked r.types
  let r := (byShortName types).foldl enterName { r with types := types, unique := [] }
  { r with unique := r.unique.extend (r.instances.mapValues some) }

/-! ### Constants and enumerations -/

def storeFolded (r : Registry) (result : ConstId × Option Folded) : Registry :=
  { r with consts := r.consts.modify result.1 fun c => { c with folded := result.2 } }

/-- The member that a constant contributes to the enumeration of a type. -/
def enumMember? (r : Registry) (type : TypeId) (id : ConstId) : Option EnumMember :=
  match r.consts[id]? with
  | none => none
  | some c =>
    match c.folded with
    | some ⟨value, .named t⟩ =>
      if t = type then value.toJson?.map fun json => ⟨c.name, json, c.comment.getD ""⟩ else none
    | _ => none

/-- The members of the enumeration of a type, packages in the order of their paths. -/
def enumMembers (r : Registry) (type : TypeId) : List EnumMember :=
  (r.packages.values.flatMap (·.constOrder)).filterMap (r.enumMember? type)

/-- Folds the constants that have no value and lists the members of the enumerations. -/
def foldConstants (r : Registry) : Registry :=
  let r := r.foldPending.foldl storeFolded r
  { r with types := r.types.mapIdx fun id d => { d with enums := r.enumMembers id } }

/-! ### All together -/

/-- Collects the files that are new, in the order of their paths, and brings names, constants and
enumerations up to date. -/
def parseTypes (r : Registry) : Registry :=
  let pending := r.inPathOrder ((List.range r.files.size).drop r.collected)
  let r := { pending.foldl collectFile r with collected := r.files.size }
  r.markUnique.foldConstants

end GoApiDoc.Registry
