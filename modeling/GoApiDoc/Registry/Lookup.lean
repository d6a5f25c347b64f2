/-
Looking up types by name in the context of a file.

* `isBuiltinType` — the predeclared types;
* `splitTypeArgs` — a name with type arguments as the name and the text of the arguments;
* `Registry.packageOf?` — the package that a qualifier stands for in a file;
* `Registry.lookupType?` — the type that a name stands for in a file.
-/

import GoApiDoc.Registry.Basic

set_option autoImplicit false

namespace GoApiDoc

open Go (TypeId)

/-! ### Names -/

def builtinTypes : List String :=
  ["bool", "byte", "complex64", "complex128", "error", "float32", "float64", "int", "int8", "int16",
    "int32", "int64", "rune", "string", "uint", "uint8", "uint16", "uint32", "uint64", "uintptr",
    "any"]

def isBuiltinType (name : String) : Bool := builtinTypes.contains name

/-- The name before the first square bracket and, if the text ends with a closing one, what stands
between the two. -/
def splitTypeArgs (name : String) : String × Option String :=
  match Text.splitOnce '[' name with
  | some (base, rest) =>
    match Text.stripSuffix "]" rest with
    | some args => (base, some args)
    | none => (name, none)
  | none => (name, none)

/-- The last segment of an import path, or the one before it when the last is a major version. -/
def lastSegment (importPath : String) : String :=
  match (Text.split '/' importPath).reverse with
  | [] => importPath
  | last :: rest =>
    match last.toList with
    | 'v' :: digit :: digits =>
      if (digit :: digits).all Char.isDigit then rest.headD last else last
    | _ => last

/-- The name without a version such as `.v2` at its end. -/
def dropVersion (name : String) : String :=
  match (Text.splitAtText ".v" name).reverse with
  | version :: before@(_ :: _) =>
    if version.toList.all Char.isDigit then Text.joinWith ".v" before.reverse else name
  | _ => name

def impliedPackageName (importPath : String) : String :=
  String.ofList <|
    (dropVersion (lastSegment importPath)).toList.map fun c => if c = '-' then '_' else c

namespace Registry

/-! ### Qualifiers -/

/-- The name under which a file sees an imported package; blank and point imports give none. -/
def importName? (r : Registry) (i : Go.ImportSpec) : Option String :=
  match i.name with
  | some "_" => none
  | some "." => none
  | some name => some name
  | none =>
    match r.packages.get? i.path with
    | some p => some (if p.name.isEmpty then impliedPackageName i.path else p.name)
    | none => some (impliedPackageName i.path)

def packageOf? (r : Registry) (qualifier : String) (file : FileId) : Option String :=
  match r.files[file]? with
  | none => none
  | some u =>
    (u.tree.imports.find? fun i => r.importName? i == some qualifier).map (·.path)

/-! ### Types -/

def lookupFullPath? (r : Registry) (dir last : String) : Option TypeId :=
  match Text.splitOnce '.' last with
  | some (package, name) => r.typeIn? (dir ++ "/" ++ package) name
  | none => none

/-- The type that a qualified name stands for in a file: one of the imported package, of the file's
own package, of a function of that package, or the only type with this short name, or else one of
any package with the qualifier as its name. -/
def lookupQualified? (r : Registry) (u : SourceUnit) (file : FileId)
    (qualifier rest name : String) : Option TypeId :=
  ((r.packageOf? qualifier file).bind fun path => r.typeIn? path rest)
    <|> (if qualifier = u.packageName then r.typeIn? u.packagePath rest else none)
    <|> r.typeIn? u.packagePath name
    <|> (r.unique.get? name).join
    <|> (r.packages.values.filter fun p => p.name == qualifier).findSome? fun p =>
      p.types.get? rest

/-- The type that a name without type arguments stands for in a file. -/
def lookupBase? (r : Registry) (base : String) (file : FileId) : Option TypeId :=
  match r.files[file]? with
  | none => none
  | some u =>
    match Text.splitLast '/' base with
    | some (dir, last) => r.lookupFullPath? dir last
    | none =>
      match Text.splitOnce '.' base with
      | some (qualifier, rest) => r.lookupQualified? u file qualifier rest base
      | none =>
        r.typeIn? u.packagePath base
          <|> (u.tree.imports.filter fun i => i.name == some ".").findSome? fun i =>
            r.typeIn? i.path base

/-- The type that a name stands for in a file, and the text of its type arguments; predeclared
names stand for no declared type. -/
def lookupType? (r : Registry) (name : String) (file : FileId) :
    Option (TypeId × Option String) :=
  let name := Text.trim name
  if isBuiltinType name then none
  else
    let (base, args) := splitTypeArgs name
    (r.lookupBase? base file).map fun id => (id, args)

end Registry

end GoApiDoc
