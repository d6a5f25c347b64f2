/-
Resolving types to schemas.

* `Resolver.resolve` — the schema of a type written in a file;
* `Resolver.resolveSymbol` — the schema of a declared type;
* `Resolver.resolveText` — the schema of a type given as text.

The functions with a number of steps as their first argument call each other; the public ones start
them with a number that suffices.
-/

import GoApiDoc.Resolve.Basic

set_option autoImplicit false

namespace GoApiDoc.Resolver

open Go (TypeId TypeExpr)
open Resolving (ofResult outcome onRegistry whileBuilding leaveOpen)

/-! ### Leaves -/

def builtinSchema (name : String) : Resolving Schema :=
  match Schema.ofBuiltin? name with
  | some s => pure s
  | none => throw (.unsupportedField name)

/-- The type that stands for a point in time, which has a schema of its own. -/
def isTime (r : Registry) (t : TypeExpr) (file : FileId) : Bool :=
  match t with
  | .qualified package name =>
    name == "Time" && (r.packageOf? package file).getD package == "time"
  | _ => false

/-- The declared type that a type without pointers stands for, instances included. -/
def declaredType (t : TypeExpr) (file : FileId) : Resolving (Option TypeId) :=
  match t with
  | .resolved id => pure (some id)
  | .generic base args =>
    onRegistry fun r =>
      match r.lookupType? base.text file with
      | some (id, _) => r.instantiate id args file
      | none => (none, r)
  | .ident _ | .qualified _ _ => onRegistry fun r => r.findType t.text file
  | _ => pure none

/-- Claims the definition name of a type, unless another type has it. -/
def claimName (id : TypeId) (d : TypeDecl) : Resolving Unit := do
  let g ← get
  match g.names.get? d.typeName with
  | some other =>
    if other = id then pure ()
    else throw (.malformed (.claimedName d.typeName (g.fullPathOf other) d.fullPath))
  | none => modify fun g => { g with names := g.names.insert d.typeName id }

def releaseName (id : TypeId) (name : String) : Resolving Unit := do
  modify fun g => { g with names := g.names.erase name }
  leaveOpen id

def define (id : TypeId) (name : String) (s : Schema) : Resolving Unit :=
  modify fun g => { g with
    definitions := g.definitions.insert name s
    parsed := (id, name) :: g.parsed }

/-- Builds the definition of a type from the schema of its right-hand side; a name whose definition
cannot be built is free again. -/
def buildDefinition (id : TypeId) (d : TypeDecl) (body : Resolving Schema) : Resolving Schema := do
  claimName id d
  match ← outcome (whileBuilding id body) with
  | .ok s =>
    define id d.typeName (Schema.ofDecl d s)
    return Schema.ref d.typeName
  | .error e =>
    releaseName id d.typeName
    throw e

/-- Goes through the fields of a struct for one that embeds it, without building its definition. -/
def passThrough (id : TypeId) (fields : Resolving StructParts) : Resolving StructParts := do
  leaveOpen id
  whileBuilding id fields

/-- Adds a property whose schema has been resolved.  A type that is left out adds none, and a type
without a schema is an error in strict mode only. -/
def addResolved (parts : StructParts) (f : Go.Field) (property : String)
    (resolved : Except DocError Schema) : Resolving StructParts := do
  let g ← get
  match resolved with
  | .ok s => do
    let s ← ofResult (g.complement f s)
    return parts.addProperty property s (Field.isRequired g.settings.requiredByDefault f)
  | .error (.skippedField _) => return parts
  | .error (.unsupportedField type) =>
    if g.settings.strict then throw (.unsupportedField type) else return parts
  | .error e => throw e

/-! ### The recursion -/

mutual

def resolveWith (fuel : Nat) (t : TypeExpr) (file : FileId) : Resolving Schema :=
  match fuel with
  | 0 => throw .endless
  | fuel + 1 =>
    match t with
    | .ident name => if isBuiltinType name then builtinSchema name else namedWith fuel t file
    | .qualified _ _ => namedWith fuel t file
    | .generic _ _ => do
      match ← overrideWith fuel t.text file with
      | some s => return s
      | none =>
        match ← declaredType t file with
        | some id => symbolWith fuel id
        | none => throw (.unresolvedType t.text)
    | .pointer elem => resolveWith fuel elem file
    | .slice elem => return Schema.array (← resolveWith fuel elem file)
    | .array elem => return Schema.array (← resolveWith fuel elem file)
    | .map _ value => return Schema.map (← resolveWith fuel value file)
    | .interface _ _ => return Schema.any
    | .struct fields => return (← structWith fuel fields file).toSchema
    | .resolved id => symbolWith fuel id
    | .func | .chan _ _ | .tilde _ | .union _ => throw (.unsupportedField t.text)

def textWith (fuel : Nat) (text : String) (file : FileId) : Resolving Schema :=
  match fuel with
  | 0 => throw .endless
  | fuel + 1 =>
    match Go.typeOfText (Text.trim text) with
    | .ok t => resolveWith fuel t file
    | .error _ => throw (.unresolvedType (Text.trim text))

def overrideWith (fuel : Nat) (key : String) (file : FileId) : Resolving (Option Schema) :=
  match fuel with
  | 0 => throw .endless
  | fuel + 1 => do
    match (← get).settings.overrides.get? key with
    | none => return none
    | some replacement =>
      if replacement.isEmpty then throw (.skippedField key)
      else return some (← textWith fuel replacement file)

def namedWith (fuel : Nat) (t : TypeExpr) (file : FileId) : Resolving Schema :=
  match fuel with
  | 0 => throw .endless
  | fuel + 1 => do
    match ← overrideWith fuel t.text file with
    | some s => return s
    | none =>
      if isTime (← get).registry t file then
        return (Schema.ofType "string").withFormat "date-time"
      else
        match ← declaredType t file with
        | some id => symbolWith fuel id
        | none => throw (.unresolvedType t.text)

/-- The schema of a declared type: a reference to its definition, which is built if it is new.  An
alias stands for the type it names, and a type with a predeclared right-hand side and no constants
for that type. -/
def symbolWith (fuel : Nat) (id : TypeId) : Resolving Schema :=
  match fuel with
  | 0 => throw .endless
  | fuel + 1 => do
    match (← get).registry.types[id]? with
    | none => throw (.unresolvedType s!"#{id}")
    | some d =>
      match ← overrideWith fuel d.fullPath d.file with
      | some s => return s
      | none =>
        match d.type with
        | .ident name =>
          if isBuiltinType name && d.enums.isEmpty then builtinSchema name
          else definitionWith fuel id d
        | _ => definitionWith fuel id d

/-- The schema of a declared type that is neither replaced nor predeclared. -/
def definitionWith (fuel : Nat) (id : TypeId) (d : TypeDecl) : Resolving Schema :=
  match fuel with
  | 0 => throw .endless
  | fuel + 1 =>
    if d.isAlias then resolveWith fuel d.type d.file
    else do
      let g ← get
      match g.parsed.lookup id with
      | some name => return Schema.ref name
      | none =>
        if g.building.contains id then return Schema.ref d.typeName
        else buildDefinition id d (resolveWith fuel d.type d.file)

def structWith (fuel : Nat) (fields : List Go.Field) (file : FileId) : Resolving StructParts :=
  match fuel with
  | 0 => throw .endless
  | fuel + 1 => do
    let parts ← fields.foldlM (fun parts f => fieldWith fuel parts f file) {}
    return parts.normalized

/-- Adds what a field of a struct contributes, for each of its exported names. -/
def fieldWith (fuel : Nat) (parts : StructParts) (f : Go.Field) (file : FileId) :
    Resolving StructParts :=
  match fuel with
  | 0 => throw .endless
  | fuel + 1 =>
    if f.names.isEmpty then embeddedWith fuel parts f file
    else
      (f.names.filter Text.isExported).foldlM
        (fun parts name => namedFieldWith fuel parts { f with names := [name] } file) parts

def namedFieldWith (fuel : Nat) (parts : StructParts) (f : Go.Field) (file : FileId) :
    Resolving StructParts :=
  match fuel with
  | 0 => throw .endless
  | fuel + 1 =>
    if Field.isHidden f then pure parts
    else do
      match Field.propertyName? (← get).settings.naming f with
      | none => return parts
      | some property =>
        match ← ofResult (Field.customSchema? f) with
        | some s => addResolved parts f property (.ok s)
        | none => addResolved parts f property (← outcome (resolveWith fuel f.type file))

/-- Adds what an embedded field contributes: the properties of an embedded struct, or a property
named after any other type. -/
def embeddedWith (fuel : Nat) (parts : StructParts) (f : Go.Field) (file : FileId) :
    Resolving StructParts :=
  match fuel with
  | 0 => throw .endless
  | fuel + 1 =>
    if Field.isHidden f then pure parts
    else do
      if (Field.propertyName? (← get).settings.naming f).isSome then
        namedFieldWith fuel parts f file
      else
        match ← declaredType f.type.target file with
        | none => throw (.unresolvedType f.type.target.text)
        | some id =>
          match (← get).registry.types[id]? with
          | none => throw (.unresolvedType f.type.target.text)
          | some d =>
            match d.type with
            | .struct fields => embeddedStructWith fuel parts id d fields (Field.isReadOnly f)
            | _ => namedFieldWith fuel parts { f with names := [d.name] } file

/-- Adds the properties of an embedded struct.  Those of a read-only one are marked, and the struct
is kept by reference. -/
def embeddedStructWith (fuel : Nat) (parts : StructParts) (id : TypeId) (d : TypeDecl)
    (fields : List Go.Field) (readOnly : Bool) : Resolving StructParts :=
  match fuel with
  | 0 => throw .endless
  | fuel + 1 => do
    let parts ← if readOnly then do
        let s ← symbolWith fuel id
        pure { parts with composed := parts.composed ++ [s] }
      else pure parts
    let g ← get
    if g.building.contains id then throw (.recursiveStruct (g.embeddingChain id))
    else
      let inner ← passThrough id (structWith fuel fields d.file)
      return if readOnly then parts.embedReadOnly inner else parts.embed inner

end

/-! ### The public functions -/

def resolve (t : TypeExpr) (file : FileId) : Resolving Schema := do
  resolveWith ((← get).fuelFor t.weight) t file

def resolveSymbol (id : TypeId) : Resolving Schema := do
  symbolWith ((← get).fuelFor 0) id

def resolveText (text : String) (file : FileId) : Resolving Schema := do
  textWith ((← get).fuelFor text.length) text file

end GoApiDoc.Resolver
