/-
Relations that all functions respect.

Several laws compare two runs of the functions that resolve types: with one more step, in the other
mode, with other fields of a type.  They all go through the functions in the same way, and differ
in how the parts of a function are compared.  What they need of the parts is listed here, and the
way through the functions is gone once.

* `Resolver.Relates.next` — **such a relation goes from all functions with some steps to all
  functions with one more**.
-/

import GoApiDoc.Resolve.Type

set_option autoImplicit false

namespace GoApiDoc

open Go (TypeId TypeExpr)

/-! ### The parts of the functions -/

namespace Resolver

open Resolving

/-- The schema of the declared type that was found for a type. -/
def symbolOf (n : Nat) (t : TypeExpr) : Option TypeId → Resolving Schema
  | some id => symbolWith n id
  | none => throw (.unresolvedType t.text)

/-- What a field with one name contributes, where `x` resolves its type. -/
def fieldPart (parts : StructParts) (f : Go.Field) (x : Resolving Schema) :
    Resolving StructParts :=
  if Field.isHidden f then pure parts
  else do
    match Field.propertyName? (← get).settings.naming f with
    | none => return parts
    | some property =>
      match ← ofResult (Field.customSchema? f) with
      | some s => addResolved parts f property (.ok s)
      | none => addResolved parts f property (← outcome x)

theorem namedFieldWith_succ (n : Nat) (parts : StructParts) (f : Go.Field) (file : FileId) :
    namedFieldWith (n + 1) parts f file = fieldPart parts f (resolveWith n f.type file) := by
  rw [namedFieldWith]
  rfl

/-- What an embedded field contributes, by the declared type that was found for it. -/
def embeddedOf (n : Nat) (parts : StructParts) (f : Go.Field) (file : FileId) :
    Option TypeId → Resolving StructParts
  | none => throw (.unresolvedType f.type.target.text)
  | some id => do
    match (← get).registry.types[id]? with
    | none => throw (.unresolvedType f.type.target.text)
    | some d =>
      match d.type with
      | .struct fields => embeddedStructWith n parts id d fields (Field.isReadOnly f)
      | _ => namedFieldWith n parts { f with names := [d.name] } file

/-- Adds the fields of an embedded struct, which must not be one that is being built. -/
def embedFields (parts : StructParts) (id : TypeId) (readOnly : Bool)
    (fields : Resolving StructParts) : Resolving StructParts := do
  let g ← get
  if g.building.contains id then throw (.recursiveStruct (g.embeddingChain id))
  else
    let inner ← passThrough id fields
    return if readOnly then parts.embedReadOnly inner else parts.embed inner

theorem embeddedWith_succ (n : Nat) (parts : StructParts) (f : Go.Field) (file : FileId) :
    embeddedWith (n + 1) parts f file =
      if Field.isHidden f then pure parts
      else (do
        if (Field.propertyName? (← get).settings.naming f).isSome then namedFieldWith n parts f file
        else declaredType f.type.target file >>= embeddedOf n parts f file) := by
  rw [embeddedWith]
  rfl

theorem embeddedStructWith_succ (n : Nat) (parts : StructParts) (id : TypeId) (d : TypeDecl)
    (fields : List Go.Field) (readOnly : Bool) :
    embeddedStructWith (n + 1) parts id d fields readOnly = (do
      let parts ← if readOnly then do
          let s ← symbolWith n id
          pure { parts with composed := parts.composed ++ [s] }
        else pure parts
      embedFields parts id readOnly (structWith n fields d.file)) := by
  rw [embeddedStructWith]
  rfl

/-- What the functions read of the two states is the same, the declarations aside. -/
structure SameView (g h : Resolver) : Prop where
  overrides : h.settings.overrides = g.settings.overrides
  naming : h.settings.naming = g.settings.naming
  time : ∀ t file, isTime h.registry t file = isTime g.registry t file
  parsed : h.parsed = g.parsed
  building : h.building = g.building
  chain : ∀ id, h.embeddingChain id = g.embeddingChain id

theorem SameView.refl (g : Resolver) : SameView g g :=
  ⟨rfl, rfl, fun _ _ => rfl, rfl, rfl, fun _ => rfl⟩

end Resolver

open Resolver (SameView)

/-- A relation between computations that is respected by the steps of which the functions that
resolve types consist.  States that `V` relates cannot be told apart. -/
structure Resolving.Congruence (R : ∀ ⦃α : Type⦄, Resolving α → Resolving α → Prop)
    (V : Resolver → Resolver → Prop) : Prop where
  leaf : ∀ {α : Type} (a : α), R (pure a) (pure a)
  fail : ∀ {α : Type} (e : DocError), R (α := α) (throw e) (throw e)
  bind : ∀ {α β : Type} {x x' : Resolving α} {f f' : α → Resolving β},
    R x x' → (∀ a, R (f a) (f' a)) → R (x >>= f) (x' >>= f')
  read : ∀ {β : Type} {f f' : Resolver → Resolving β}, (∀ {g h}, V g h → f h = f g ∧ f' h = f' g) →
    (∀ g, R (f g) (f' g)) → R (get >>= f) (get >>= f')
  view : ∀ {g h}, V g h → SameView g h
  declared : ∀ t file, R (Resolver.declaredType t file) (Resolver.declaredType t file)
  build : ∀ id d {body body' : Resolving Schema}, R body body' →
    R (Resolver.buildDefinition id d body) (Resolver.buildDefinition id d body')
  pass : ∀ id {fields fields' : Resolving StructParts}, R fields fields' →
    R (Resolver.passThrough id fields) (Resolver.passThrough id fields')
  field : ∀ parts f {x x' : Resolving Schema}, R x x' →
    R (Resolver.fieldPart parts f x) (Resolver.fieldPart parts f x')

namespace Resolver

open Resolving

/-- The relation between the functions that resolve types, with two numbers of steps. -/
structure Relates (R : ∀ ⦃α : Type⦄, Resolving α → Resolving α → Prop) (n m : Nat) : Prop where
  resolve : ∀ t file, R (resolveWith n t file) (resolveWith m t file)
  text : ∀ text file, R (textWith n text file) (textWith m text file)
  override : ∀ key file, R (overrideWith n key file) (overrideWith m key file)
  named : ∀ t file, R (namedWith n t file) (namedWith m t file)
  symbol : ∀ id, R (symbolWith n id) (symbolWith m id)
  definition : ∀ id d, R (definitionWith n id d) (definitionWith m id d)
  struct : ∀ fields file, R (structWith n fields file) (structWith m fields file)
  field : ∀ parts f file, R (fieldWith n parts f file) (fieldWith m parts f file)
  namedField : ∀ parts f file, R (namedFieldWith n parts f file) (namedFieldWith m parts f file)
  embedded : ∀ parts f file, R (embeddedWith n parts f file) (embeddedWith m parts f file)
  embeddedStruct : ∀ parts id d fields readOnly,
    R (embeddedStructWith n parts id d fields readOnly)
      (embeddedStructWith m parts id d fields readOnly)

/-! ### The way through the functions -/

section Step

variable {R : ∀ ⦃α : Type⦄, Resolving α → Resolving α → Prop} {V : Resolver → Resolver → Prop}
variable (hR : Congruence R V)

include hR

theorem relates_foldlM {α γ : Type} {f f' : α → γ → Resolving α} (fs : List γ)
    (hf : ∀ a c, R (f a c) (f' a c)) (a : α) : R (fs.foldlM f a) (fs.foldlM f' a) := by
  induction fs generalizing a with
  | nil => exact hR.leaf a
  | cons c fs ih =>
    rw [List.foldlM_cons, List.foldlM_cons]
    exact hR.bind (hf a c) ih

theorem relates_builtinSchema (name : String) : R (builtinSchema name) (builtinSchema name) := by
  unfold builtinSchema
  split
  · exact hR.leaf _
  · exact hR.fail _

theorem relates_embedFields (parts : StructParts) (id : TypeId) (readOnly : Bool)
    {fields fields' : Resolving StructParts}
    (hfields : R (passThrough id fields) (passThrough id fields')) :
    R (embedFields parts id readOnly fields) (embedFields parts id readOnly fields') := by
  refine hR.read (fun hV => ?_) fun g => ?_
  · simp only [(hR.view hV).building, (hR.view hV).chain, and_self]
  split
  · exact hR.fail _
  · exact hR.bind hfields fun _ => hR.leaf _

variable {n m : Nat} (ih : Relates R n m)

include ih

theorem relates_symbolOf (t : TypeExpr) (o : Option TypeId) : R (symbolOf n t o) (symbolOf m t o) := by
  cases o with
  | none => exact hR.fail _
  | some id => exact ih.symbol id

theorem relates_resolveWith (t : TypeExpr) (file : FileId) :
    R (resolveWith (n + 1) t file) (resolveWith (m + 1) t file) := by
  cases t <;> rw [resolveWith, resolveWith]
  case ident name =>
    split
    · exact relates_builtinSchema hR name
    · exact ih.named _ file
  case qualified => exact ih.named _ file
  case generic base args =>
    refine hR.bind (ih.override _ file) fun o => ?_
    cases o with
    | some s => exact hR.leaf s
    | none => exact hR.bind (hR.declared _ file) (relates_symbolOf hR ih _)
  case pointer elem => exact ih.resolve elem file
  case slice | array | map => exact hR.bind (ih.resolve _ file) fun _ => hR.leaf _
  case struct fields => exact hR.bind (ih.struct fields file) fun _ => hR.leaf _
  case resolved id => exact ih.symbol id
  case interface => exact hR.leaf _
  case func | chan | tilde | union => exact hR.fail _

theorem relates_textWith (text : String) (file : FileId) :
    R (textWith (n + 1) text file) (textWith (m + 1) text file) := by
  rw [textWith, textWith]
  split
  · exact ih.resolve _ file
  · exact hR.fail _

theorem relates_overrideWith (key : String) (file : FileId) :
    R (overrideWith (n + 1) key file) (overrideWith (m + 1) key file) := by
  rw [overrideWith, overrideWith]
  refine hR.read (fun hV => by simp only [(hR.view hV).overrides, and_self]) fun g => ?_
  split
  · exact hR.leaf _
  · split
    · exact hR.fail _
    · exact hR.bind (ih.text _ file) fun _ => hR.leaf _

theorem relates_namedWith (t : TypeExpr) (file : FileId) :
    R (namedWith (n + 1) t file) (namedWith (m + 1) t file) := by
  rw [namedWith, namedWith]
  refine hR.bind (ih.override _ file) fun o => ?_
  cases o with
  | some s => exact hR.leaf s
  | none =>
    refine hR.read (fun hV => by simp only [(hR.view hV).time, and_self]) fun g => ?_
    split
    · exact hR.leaf _
    · exact hR.bind (hR.declared t file) (relates_symbolOf hR ih t)

/-- What follows the settings' answer for a declared type. -/
theorem relates_unreplaced (id : TypeId) (d : TypeDecl) :
    R (match d.type with
        | .ident name =>
          if isBuiltinType name && d.enums.isEmpty then builtinSchema name
          else definitionWith n id d
        | _ => definitionWith n id d)
      (match d.type with
        | .ident name =>
          if isBuiltinType name && d.enums.isEmpty then builtinSchema name
          else definitionWith m id d
        | _ => definitionWith m id d) := by
  split
  · split
    · exact relates_builtinSchema hR _
    · exact ih.definition id d
  · exact ih.definition id d

theorem relates_definitionWith (id : TypeId) (d : TypeDecl) :
    R (definitionWith (n + 1) id d) (definitionWith (m + 1) id d) := by
  rw [definitionWith, definitionWith]
  split
  · exact ih.resolve _ _
  refine hR.read (fun hV => ?_) fun g => ?_
  · simp only [(hR.view hV).parsed, (hR.view hV).building, and_self]
  split
  · exact hR.leaf _
  · split
    · exact hR.leaf _
    · exact hR.build id d (ih.resolve _ _)

theorem relates_structWith (fields : List Go.Field) (file : FileId) :
    R (structWith (n + 1) fields file) (structWith (m + 1) fields file) := by
  rw [structWith, structWith]
  refine hR.bind (relates_foldlM hR fields (fun parts f => ih.field parts f file) _) ?_
  exact fun _ => hR.leaf _

theorem relates_fieldWith (parts : StructParts) (f : Go.Field) (file : FileId) :
    R (fieldWith (n + 1) parts f file) (fieldWith (m + 1) parts f file) := by
  rw [fieldWith, fieldWith]
  split
  · exact ih.embedded parts f file
  · exact relates_foldlM hR _ (fun parts name => ih.namedField parts _ file) parts

theorem relates_namedFieldWith (parts : StructParts) (f : Go.Field) (file : FileId) :
    R (namedFieldWith (n + 1) parts f file) (namedFieldWith (m + 1) parts f file) := by
  rw [namedFieldWith_succ, namedFieldWith_succ]
  exact hR.field parts f (ih.resolve f.type file)

theorem relates_embeddedWith (parts : StructParts) (f : Go.Field) (file : FileId)
    (hdeclared : ∀ o, R (embeddedOf n parts f file o) (embeddedOf m parts f file o)) :
    R (embeddedWith (n + 1) parts f file) (embeddedWith (m + 1) parts f file) := by
  rw [embeddedWith_succ, embeddedWith_succ]
  split
  · exact hR.leaf parts
  · refine hR.read (fun hV => by simp only [(hR.view hV).naming, and_self]) fun g => ?_
    split
    · exact ih.namedField parts f file
    · exact hR.bind (hR.declared _ file) hdeclared

/-- The fields of an embedded struct, which need not be the same ones. -/
theorem relates_embeddedStructWith (parts : StructParts) (id : TypeId) {d d' : TypeDecl}
    {fields fields' : List Go.Field} (readOnly : Bool)
    (hfields : R (passThrough id (structWith n fields d.file))
      (passThrough id (structWith m fields' d'.file))) :
    R (embeddedStructWith (n + 1) parts id d fields readOnly)
      (embeddedStructWith (m + 1) parts id d' fields' readOnly) := by
  rw [embeddedStructWith_succ, embeddedStructWith_succ]
  have hrest := fun parts => relates_embedFields hR parts id readOnly hfields
  cases readOnly with
  | true => exact hR.bind (ih.symbol id) fun _ => hR.bind (hR.leaf _) hrest
  | false => exact hR.bind (hR.leaf parts) hrest

theorem relates_embeddedOf (htypes : ∀ {g h}, V g h → h.registry.types = g.registry.types)
    (parts : StructParts) (f : Go.Field) (file : FileId) (o : Option TypeId) :
    R (embeddedOf n parts f file o) (embeddedOf m parts f file o) := by
  cases o with
  | none => exact hR.fail _
  | some id =>
    refine hR.read (fun hV => by simp only [htypes hV, and_self]) fun g => ?_
    split
    · exact hR.fail _
    · split
      · exact ih.embeddedStruct parts id _ _ _
      · exact ih.namedField parts _ file

/-- **All functions with one more step**, if the declarations are read alike. -/
theorem Relates.next (htypes : ∀ {g h}, V g h → h.registry.types = g.registry.types) :
    Relates R (n + 1) (m + 1) where
  resolve := relates_resolveWith hR ih
  text := relates_textWith hR ih
  override := relates_overrideWith hR ih
  named := relates_namedWith hR ih
  definition := relates_definitionWith hR ih
  struct := relates_structWith hR ih
  field := relates_fieldWith hR ih
  namedField := relates_namedFieldWith hR ih
  embeddedStruct _ id _ _ readOnly :=
    relates_embeddedStructWith hR ih _ id readOnly (hR.pass id (ih.struct _ _))
  symbol id := by
    rw [symbolWith, symbolWith]
    refine hR.read (fun hV => by simp only [htypes hV, and_self]) fun g => ?_
    split
    · exact hR.fail _
    · next d _ =>
      refine hR.bind (ih.override _ d.file) fun o => ?_
      cases o with
      | some s => exact hR.leaf s
      | none => exact relates_unreplaced hR ih id d
  embedded parts f file :=
    relates_embeddedWith hR ih parts f file (relates_embeddedOf hR ih htypes parts f file)

end Step

/-- **A relation that the parts respect holds of all functions**, with any number of steps. -/
theorem relates {R : ∀ ⦃α : Type⦄, Resolving α → Resolving α → Prop} {V : Resolver → Resolver → Prop}
    (hR : Congruence R V) (htypes : ∀ {g h}, V g h → h.registry.types = g.registry.types) {k : Nat}
    (hzero : ∀ {α : Type} {y : Resolving α}, (k = 0 → y = throw .endless) → R (throw .endless) y)
    (fuel : Nat) : Relates R fuel (fuel + k) := by
  induction fuel with
  | zero =>
    rw [Nat.zero_add]
    constructor <;> intros <;>
      simp only [resolveWith, textWith, overrideWith, namedWith, symbolWith, definitionWith,
        structWith, fieldWith, namedFieldWith, embeddedWith, embeddedStructWith] <;>
      refine hzero fun hk => ?_ <;> subst hk <;>
      simp only [resolveWith, textWith, overrideWith, namedWith, symbolWith, definitionWith,
        structWith, fieldWith, namedFieldWith, embeddedWith, embeddedStructWith]
  | succ fuel ih =>
    rw [Nat.add_right_comm]
    exact ih.next hR htypes

end Resolver

end GoApiDoc
