/-
Instances of generic types.

An instance is a type of its own, with the type parameters replaced by the arguments.  An argument
that stands for a declared type is bound to that type, so that it keeps the meaning it has in the
file where it was written; any other argument is bound as written.  Instances with the same
definition name are one.

* `Go.TypeExpr.substitute` — replacing type parameters;
* `TypeArg` — an argument with the number of its slice layers;
* `Registry.findType` — looking up a name, with its type arguments;
* `Registry.instantiate`, `Registry.instantiateText` — an instance for given arguments.
-/

import GoApiDoc.Registry.Lookup

set_option autoImplicit false

namespace GoApiDoc

open Go (TypeId TypeExpr)

/-! ### Substitution -/

namespace Go.TypeExpr

mutual

/-- Replaces names by types; the base of a generic type and the inside of an interface are kept. -/
def substitute (bindings : Table TypeExpr) : TypeExpr → TypeExpr
  | ident name => (bindings.get? name).getD (ident name)
  | qualified package name => qualified package name
  | generic base args => generic base (substituteAll bindings args)
  | pointer elem => pointer (substitute bindings elem)
  | slice elem => slice (substitute bindings elem)
  | array elem => array (substitute bindings elem)
  | map key value => map (substitute bindings key) (substitute bindings value)
  | chan dir elem => chan dir (substitute bindings elem)
  | func => func
  | interface methods embeds => interface methods embeds
  | struct fields => struct (substituteFields bindings fields)
  | tilde elem => tilde (substitute bindings elem)
  | union terms => union (substituteAll bindings terms)
  | resolved id => resolved id

def substituteAll (bindings : Table TypeExpr) : List TypeExpr → List TypeExpr
  | [] => []
  | t :: ts => substitute bindings t :: substituteAll bindings ts

def substituteFields (bindings : Table TypeExpr) :
    List (FieldOf TypeExpr) → List (FieldOf TypeExpr)
  | [] => []
  | ⟨names, type, tag, doc, comment⟩ :: fs =>
    ⟨names, substitute bindings type, tag, doc, comment⟩ :: substituteFields bindings fs

end

/-- The number of slice and array layers around a type, pointers disregarded, and the type inside. -/
def peel : TypeExpr → Nat × TypeExpr
  | slice elem => let (n, t) := peel elem; (n + 1, t)
  | array elem => let (n, t) := peel elem; (n + 1, t)
  | pointer elem => peel elem
  | t => (0, t)

def sliced : Nat → TypeExpr → TypeExpr
  | 0, t => t
  | n + 1, t => slice (sliced n t)

end Go.TypeExpr

/-! ### Arguments -/

/-- A type argument. -/
structure TypeArg where
  depth : Nat
  element : TypeExpr
  target : Option TypeId

namespace TypeArg

def binding (a : TypeArg) : TypeExpr :=
  TypeExpr.sliced a.depth (match a.target with
    | some id => .resolved id
    | none => a.element)

/-- The part of the definition name that stands for the argument. -/
def namePart (r : Registry) (a : TypeArg) : String :=
  let base := match a.target with
    | some id => (r.types[id]?.map TypeDecl.typeName).getD ""
    | none => a.element.text
  let layers := match a.depth with
    | 0 => ""
    | 1 => "array_"
    | n => s!"array{n}_"
  String.ofList ((layers ++ base).toList.map fun c => if c = '.' then '_' else c)

end TypeArg

namespace Registry

/-! ### Instances -/

/-- Adds an instance; the first one with a definition name is kept. -/
def addInstance (r : Registry) (d : TypeDecl) : TypeId × Registry :=
  match r.instances.get? d.typeName with
  | some id => (id, r)
  | none =>
    let id := r.types.size
    (id, { r with
      types := r.types.push d
      instances := r.instances.insert d.typeName id
      unique := r.unique.insert d.typeName (some id) })

def instanceName (r : Registry) (d : TypeDecl) (args : List TypeArg) : String :=
  d.typeName ++ "-" ++ Text.joinWith "-" (args.map (TypeArg.namePart r))

/-- The instance of a generic declaration for arguments that have been looked up. -/
def bindArgs (r : Registry) (generic : TypeId) (d : TypeDecl) (args : List TypeArg) :
    TypeId × Registry :=
  let name := r.instanceName d args
  let bindings := Table.ofEntries ((d.params.map (·.name)).zip (args.map TypeArg.binding))
  r.addInstance { d with
    type := d.type.substitute bindings
    params := []
    instanceName := some name
    origin := some generic
    enums := [] }

/-- The types written in a list of type arguments; what does not read as a type is a name. -/
def argsOfText (text : String) : List TypeExpr :=
  (((Text.splitUnlessNested ',' text).map Text.trim).filter fun a => !a.isEmpty).map fun a =>
    match Go.typeOfText a with
    | .ok t => t
    | .error _ => .ident a

mutual

/-- The type that a name stands for in a file, with its type arguments. -/
def findTypeWith (fuel : Nat) (r : Registry) (name : String) (file : FileId) :
    Option TypeId × Registry :=
  match fuel with
  | 0 => (none, r)
  | fuel + 1 =>
    match r.lookupType? name file with
    | none => (none, r)
    | some (id, none) => (some id, r)
    | some (id, some args) =>
      if (r.types[id]?.map TypeDecl.isGeneric).getD false then
        instantiateWith fuel r id (argsOfText args) file
      else (some id, r)

/-- The instance of a generic declaration for types written in a file; the number of arguments has
to be right. -/
def instantiateWith (fuel : Nat) (r : Registry) (generic : TypeId) (args : List TypeExpr)
    (file : FileId) : Option TypeId × Registry :=
  match fuel with
  | 0 => (none, r)
  | fuel + 1 =>
    match r.types[generic]? with
    | none => (none, r)
    | some d =>
      if d.params.isEmpty || d.params.length != args.length then (none, r)
      else
        let (args, r) := args.foldl
          (fun (found, r) arg =>
            let (a, r) := resolveArgWith fuel r arg file
            (found ++ [a], r)) (([] : List TypeArg), r)
        let (id, r) := r.bindArgs generic d args
        (some id, r)

def resolveArgWith (fuel : Nat) (r : Registry) (arg : TypeExpr) (file : FileId) :
    TypeArg × Registry :=
  let (depth, element) := arg.peel
  match fuel with
  | 0 => (⟨depth, element, none⟩, r)
  | fuel + 1 =>
    let (target, r) := match element with
      | .resolved id => (some id, r)
      | .ident _ | .qualified _ _ => findTypeWith fuel r element.text file
      | .generic base args =>
        match r.lookupType? base.text file with
        | some (id, _) => instantiateWith fuel r id args file
        | none => (none, r)
      | _ => (none, r)
    (⟨depth, element, target⟩, r)

end

/-- Steps that suffice for names of a given length: every third step enters a pair of brackets. -/
def instanceFuel (length : Nat) : Nat := 4 * length + 4

/-- The type that a name stands for in a file, with its type arguments. -/
def findType (r : Registry) (name : String) (file : FileId) : Option TypeId × Registry :=
  findTypeWith (instanceFuel name.length) r name file

/-- The instance of a generic declaration for types written in a file. -/
def instantiate (r : Registry) (generic : TypeId) (args : List TypeExpr) (file : FileId) :
    Option TypeId × Registry :=
  let length := (args.map fun a => a.text.length).foldl (· + ·) 0
  instantiateWith (instanceFuel length) r generic args file

/-- The instance of a generic declaration for a list of type arguments. -/
def instantiateText (r : Registry) (generic : TypeId) (args : String) (file : FileId) :
    Option TypeId × Registry :=
  instantiateWith (instanceFuel args.length) r generic (argsOfText args) file

end Registry

end GoApiDoc
