/-
The state of resolving types to schemas.

Every declared type that is resolved becomes a definition, and its schema is a reference to that
definition.  A definition that is being built can already be referred to.

* `Resolver` — the registry, the settings and the definitions so far;
* `Resolving` — computations that change this state, also when they fail;
* `Resolver.typePath` — the type path of a schema, through the definitions;
* `Resolver.complement` — a schema with what a field adds to it, as its type path asks for;
* `StructParts`, `StructParts.toSchema` — what the fields of a struct contribute.
-/

import GoApiDoc.Field.Basic
import GoApiDoc.Registry.Generic
import GoApiDoc.Schema.TypePath

set_option autoImplicit false

namespace GoApiDoc

open Go (TypeId TypeExpr)

/-! ### The state -/

/-- The state of resolving types. -/
structure Resolver where
  /-- The declared types; instances of generic types are added to it. -/
  registry : Registry
  settings : Settings
  parsed : List (TypeId × String) := []
  names : Table TypeId := []
  definitions : Table Schema := []
  /-- The types whose definition is being built, the innermost last. -/
  building : List TypeId := []
  /-- The types that were entered and left without a definition: structs whose fields went into one
  that embeds them, and types that could not be built.  It only grows and nothing is decided by it;
  it tells which references may lead nowhere. -/
  leftOpen : List TypeId := []

/-- A computation with the state that leaves its changes also when it fails. -/
abbrev Resolving := ExceptT DocError (StateM Resolver)

namespace Resolving

def ofResult {α : Type} : Except DocError α → Resolving α
  | .ok a => pure a
  | .error e => throw e

/-- The result of a computation, also if it is an error. -/
def outcome {α : Type} (x : Resolving α) : Resolving (Except DocError α) :=
  ExceptT.mk do
    let r ← x.run
    return .ok r

def onRegistry {α : Type} (f : Registry → α × Registry) : Resolving α :=
  modifyGet fun g => ((f g.registry).1, { g with registry := (f g.registry).2 })

def whileBuilding {α : Type} (id : TypeId) (x : Resolving α) : Resolving α := do
  modify fun g => { g with building := g.building ++ [id] }
  let r ← outcome x
  modify fun g => { g with building := g.building.dropLast }
  ofResult r

def leaveOpen (id : TypeId) : Resolving Unit :=
  modify fun g => { g with leftOpen := id :: g.leftOpen }

end Resolving

namespace Resolver

/-! ### Names and types -/

def nameOf (g : Resolver) (id : TypeId) : String :=
  (g.registry.types[id]?.map TypeDecl.typeName).getD ""

def fullPathOf (g : Resolver) (id : TypeId) : String :=
  (g.registry.types[id]?.map TypeDecl.fullPath).getD ""

def isBeingBuilt (g : Resolver) (name : String) : Bool :=
  g.building.any fun id => g.nameOf id == name

/-- The type path of a schema, through the definitions, if there is an end to it. -/
def typePath? (g : Resolver) (depth : Nat) (s : Schema) : Option (List String) :=
  s.typePathIn g.definitions g.isBeingBuilt depth

def typePath (g : Resolver) (depth : Nat) (s : Schema) : List String :=
  (g.typePath? depth s).getD []

def complement (g : Resolver) (f : Go.Field) (s : Schema) : Except DocError Schema :=
  match g.typePath? 2 s with
  | some types => Field.complement f s types
  | none => .error .endless

/-- The definition that a schema refers to, or else the schema. -/
def dereference (g : Resolver) (s : Schema) : Schema :=
  (s.refName?.bind fun name => g.definitions.get? name).getD s

def embeddingChain (g : Resolver) (id : TypeId) : List String :=
  ((g.building.dropWhile (· != id)) ++ [id]).map g.nameOf

/-- Steps that suffice to resolve a type of a given size: between the types that are being built,
none of which is entered twice, every other name is met at most once. -/
def fuelFor (g : Resolver) (size : Nat) : Nat :=
  let declared := (g.registry.types.toList.map fun d => d.type.weight).foldl (· + ·) 0
  let replaced := (g.settings.overrides.map fun (_, text) => text.length).foldl (· + ·) 0
  16 * (g.registry.types.size + 2) * (declared + replaced + size + 8)

end Resolver

/-! ### Structs -/

/-- What the fields of a struct contribute to its schema. -/
structure StructParts where
  properties : Table Schema := []
  required : List String := []
  composed : List Schema := []

namespace StructParts

def addProperty (p : StructParts) (name : String) (s : Schema) (required : Bool) : StructParts :=
  { p with
    properties := p.properties.insert name s
    required := if required then p.required ++ [name] else p.required }

/-- Adds a property unless there is one with the same name. -/
def offerProperty (properties : Table Schema) (entry : String × Schema) : Table Schema :=
  if properties.contains entry.1 then properties else properties.insert entry.1 entry.2

def embed (p inner : StructParts) : StructParts :=
  { properties := inner.properties.foldl offerProperty p.properties
    required := p.required ++ inner.required
    composed := p.composed ++ inner.composed }

/-- Adds the properties of an embedded struct as read-only ones. -/
def embedReadOnly (p inner : StructParts) : StructParts :=
  { p with
    properties := inner.properties.foldl
      (fun t (name, s) => t.insert name { s with readOnly := true }) p.properties }

def normalized (p : StructParts) : StructParts :=
  { p with required := (p.required.mergeSort fun a b => decide (a ≤ b)).eraseReps }

/-- The schema of the struct: an object, combined with the embedded types kept by reference. -/
def toSchema (p : StructParts) : Schema :=
  let object : Schema :=
    { type := some "object", properties := p.properties, required := p.required }
  match p.composed with
  | [] => object
  | composed =>
    Schema.combined (if p.properties.isEmpty then composed else composed ++ [object])

end StructParts

/-! ### Enumerations -/

/-- Adds the members of an enumeration to the schema of its type. -/
def Schema.addEnums (s : Schema) (enums : List EnumMember) : Schema :=
  if enums.isEmpty then s
  else
    let extensions := s.extensions.insert "x-enum-varnames" (Json.strs (enums.map (·.key)))
    let commented := enums.filter fun e => !e.comment.isEmpty
    let extensions := if commented.isEmpty then extensions
      else
        (extensions.insert "x-enum-comments"
          (.obj (Table.ofEntries (commented.map fun e => (e.key, .str e.comment))))).insert
          "x-enum-descriptions" (Json.strs (enums.map (·.comment)))
    { s with enumValues := enums.map (·.value), extensions := extensions }

/-- The schema of a type's definition: the schema of the right-hand side with the enumeration and,
unless it is a reference, the description. -/
def Schema.ofDecl (d : TypeDecl) (s : Schema) : Schema :=
  let s := s.addEnums d.enums
  match Field.commentText? d.doc with
  | some text => if s.reference.isNone then { s with description := some text } else s
  | none => s

end GoApiDoc
