/-
Laws of schemas and of what they are made of.

Whatever is resolved, its schema is put together from a few pieces: predeclared types, references,
arrays, maps and structs, and the definitions are made from such schemas.  A law is a condition on
schemas, one on the parts of structs and one on definitions that pass through these steps, provided
that the tags and constants which come in satisfy a condition too.  Then they hold of everything
that is resolved and of all definitions, in every state whose types and replacements are made of
such ingredients.

* `SourceLaw.discipline` — **resolving types keeps the state under every law**, and so do the types
  that annotations write.
-/

import GoApiDoc.Proofs.Ingredient

set_option autoImplicit false

namespace GoApiDoc

open Go (TypeId TypeExpr)

/-! ### Laws -/

/-- Conditions on the schemas of types, on the parts of structs and on definitions that pass through
everything that is done when types are resolved, where the ingredients of the types satisfy a
condition. -/
structure SourceLaw where
  /-- The condition on the ingredients of types. -/
  AdmitsIngredient : Ingredient → Prop
  /-- The condition on the schema of a type. -/
  Admits : Schema → Prop
  /-- The condition on what the fields of a struct contribute. -/
  AdmitsParts : StructParts → Prop
  /-- The condition on the definitions. -/
  AdmitsDefinitions : Table Schema → Prop
  closed : Ingredient.Closed AdmitsIngredient
  any : Admits .any
  ofType : ∀ type, Admits (.ofType type)
  withFormat : ∀ type format, Admits ((Schema.ofType type).withFormat format)
  ref : ∀ name, Admits (.ref name)
  array : ∀ {s}, Admits s → Admits (.array s)
  map : ∀ {s}, Admits s → Admits (.map s)
  struct : ∀ {p}, AdmitsParts p → Admits p.toSchema
  combine : ∀ {s properties}, Admits s → Table.Sorted properties →
    (∀ e ∈ properties, Admits e.2) → Admits (Composite.combine s properties)
  empty : AdmitsParts {}
  normalized : ∀ {p}, AdmitsParts p → AdmitsParts p.normalized
  property : ∀ {p f s s' types}, AdmitsParts p →
    (∀ tag ∈ f.tag, AdmitsIngredient (.tag tag)) → Admits s →
    Field.complement f s types = .ok s' →
    ∀ name required, AdmitsParts (p.addProperty name s' required)
  compose : ∀ {p s}, AdmitsParts p → Admits s → AdmitsParts { p with composed := p.composed ++ [s] }
  embed : ∀ {p inner}, AdmitsParts p → AdmitsParts inner → AdmitsParts (p.embed inner)
  embedReadOnly : ∀ {p inner}, AdmitsParts p → AdmitsParts inner →
    AdmitsParts (p.embedReadOnly inner)
  define : ∀ {t s}, AdmitsDefinitions t → Admits s → ∀ d : TypeDecl,
    (∀ m ∈ d.enums, AdmitsIngredient (.value m.value)) →
    ∀ name, AdmitsDefinitions (t.insert name (.ofDecl d s))

namespace SourceLaw

variable (law : SourceLaw) {s : Schema}

/-- The law admits all ingredients of a type. -/
def AdmitsType (t : TypeExpr) : Prop := ∀ i ∈ t.ingredients, law.AdmitsIngredient i

/-- The law admits the tag and the type of a field. -/
def AdmitsField (f : Go.Field) : Prop := ∀ i ∈ f.ingredients, law.AdmitsIngredient i

/-- The law admits the type that a text stands for, if it is one. -/
def AdmitsText (text : String) : Prop :=
  ∀ t, Go.typeOfText (Text.trim text) = .ok t → law.AdmitsType t

/-- The law holds of the definitions of the state, and the types and replacements are made of what
it admits. -/
structure Governs (g : Resolver) : Prop where
  definitions : law.AdmitsDefinitions g.definitions
  types : g.registry.MadeOf law.AdmitsIngredient
  overrides : ∀ e ∈ g.settings.overrides, law.AdmitsText e.2

variable {law} {f : Go.Field}

theorem AdmitsField.tag (h : law.AdmitsField f) :
    ∀ tag ∈ f.tag, law.AdmitsIngredient (.tag tag) := by
  intro tag htag
  refine h _ (List.mem_append_left _ (List.mem_map.2 ⟨tag, ?_, rfl⟩))
  simpa using htag

theorem AdmitsField.type (h : law.AdmitsField f) : law.AdmitsType f.type :=
  fun i hi => h i (List.mem_append_right _ hi)

theorem AdmitsType.field {fields : List Go.Field} (h : law.AdmitsType (.struct fields)) (hf : f ∈ fields) : law.AdmitsField f := by
  intro i hi
  refine h i ?_
  rw [TypeExpr.ingredients, TypeExpr.ingredientsFields_eq_flatMap]
  exact List.mem_flatMap_of_mem hf hi

variable (law)

theorem builtin {name : String} (h : Schema.ofBuiltin? name = some s) : law.Admits s := by
  unfold Schema.ofBuiltin? at h
  split at h <;> cases h
  all_goals first | exact law.ofType _ | exact law.withFormat _ _ | exact law.any

theorem customSchema? (h : Field.customSchema? f = .ok (some s)) : law.Admits s :=
  Field.of_customSchema? law.ofType law.array law.map h

variable {law}

theorem AdmitsType.inside {t t' : TypeExpr} (h : law.AdmitsType t) (ht : t' ∈ t.inside) :
    law.AdmitsType t' := by
  cases t with
  | pointer elem | slice elem | array elem | map _ elem =>
    obtain rfl := List.mem_singleton.1 ht
    exact h
  | struct fields =>
    obtain ⟨f, hf, rfl⟩ := List.mem_map.1 ht
    exact (h.field hf).type
  | _ => cases ht

/-! ### Resolving under a law -/

/-- States under a law. -/
def frame (law : SourceLaw) : Resolving.Frame where
  Inv := law.Governs
  Later _ _ := True
  Admits _ := True
  refl _ := trivial
  trans _ _ := trivial

end SourceLaw

namespace Resolving

variable {α : Type} {law : SourceLaw} {g : Resolver} {x : Resolving α} {φ : Resolver → α → Prop}

/-- A step that leaves the definitions, the types and the settings. -/
theorem obeys_leaving {f : Resolver → Resolver} (h : ∀ g, (f g).definitions = g.definitions ∧
    (f g).registry = g.registry ∧ (f g).settings = g.settings) :
    Obeys law.frame (modify f) g fun _ _ => True := by
  refine obeys_modify fun hg => ⟨trivial, ?_⟩
  obtain ⟨hdefs, htypes, hset⟩ := h g
  refine ⟨?_, ?_, ?_⟩
  · exact hdefs.symm ▸ hg.definitions
  · exact htypes.symm ▸ hg.types
  · exact hset.symm ▸ hg.overrides

theorem obeys_whileBuilding {φ : α → Prop} (id : TypeId)
    (hx : ∀ g', Obeys law.frame x g' fun _ => φ) :
    Obeys law.frame (whileBuilding id x) g fun _ => φ := by
  unfold whileBuilding
  refine obeys_bind (obeys_leaving fun _ => ⟨rfl, rfl, rfl⟩) fun _ g' _ _ => ?_
  refine obeys_bind (obeys_outcome (hx g')) fun r g'' _ hr => ?_
  refine obeys_bind (obeys_leaving fun _ => ⟨rfl, rfl, rfl⟩) fun _ g₃ _ _ => ?_
  exact obeys_ofResult hr.1 hr.2

end Resolving

namespace Resolver

open Resolving

variable {law : SourceLaw} {g : Resolver}

theorem obeys_claimName (id : TypeId) (d : TypeDecl) :
    Obeys law.frame (claimName id d) g fun _ _ => True := by
  unfold claimName
  refine obeys_get_bind fun _ => ?_
  split
  · split
    · exact obeys_pure trivial
    · exact obeys_throw trivial
  · exact obeys_leaving fun _ => ⟨rfl, rfl, rfl⟩

theorem obeys_buildDefinition {body : Resolving Schema}
    (hbody : ∀ g', Obeys law.frame body g' fun _ => law.Admits) (id : TypeId) {d : TypeDecl}
    (hd : ∀ i ∈ d.ingredients, law.AdmitsIngredient i) :
    Obeys law.frame (buildDefinition id d body) g fun _ => law.Admits := by
  unfold buildDefinition
  refine obeys_bind (obeys_claimName id d) fun _ g' _ _ => ?_
  refine obeys_bind (obeys_outcome (obeys_whileBuilding id hbody)) fun r g'' _ hr => ?_
  cases r with
  | ok s =>
    have hvalues : ∀ m ∈ d.enums, law.AdmitsIngredient (.value m.value) :=
      fun m hm => hd _ (List.mem_append_right _ (List.mem_map.2 ⟨m, hm, rfl⟩))
    refine obeys_bind (obeys_modify fun hg => ⟨trivial, ?_, hg.types, hg.overrides⟩)
      fun _ g₃ _ _ => obeys_pure (law.ref _)
    exact law.define hg.definitions (hr.1 s rfl) d hvalues _
  | error e =>
    refine obeys_bind (φ := fun _ _ => True) ?_ fun _ g₃ _ _ => obeys_throw trivial
    unfold releaseName leaveOpen
    refine obeys_bind (obeys_leaving fun _ => ⟨rfl, rfl, rfl⟩) fun _ g₃ _ _ => ?_
    exact obeys_leaving fun _ => ⟨rfl, rfl, rfl⟩

end Resolver

namespace SourceLaw

open Resolving

/-- The types that are read are made of what the law admits, and it admits their schemas. -/
def discipline (law : SourceLaw) : Discipline where
  toFrame := law.frame
  IsSchema _ := law.Admits
  IsParts _ := law.AdmitsParts
  IsType _ t _ := law.AdmitsType t
  IsField _ f _ := law.AdmitsField f
  IsFile _ _ := True
  IsId _ _ := True
  IsDecl _ _ d := ∀ i ∈ d.ingredients, law.AdmitsIngredient i
  partsLater _ := id
  typeLater _ := id
  fieldLater _ := id
  declLater _ := id
  inside := AdmitsType.inside
  field h _ := h.field
  fieldType := AdmitsField.type
  renamed h _ := h
  declared hg _ hd := hg.types _ (Array.mem_of_getElem? hd)
  rightSide h i hi := h i (List.mem_append_left _ hi)
  lookUp {g t file} ht hg := by
    -- instances that are made for a type are made of what the law admits
    rw [Resolver.runOn_declaredType]
    exact ⟨trivial, ⟨hg.definitions, hg.types.declaredOf law.closed ht, hg.overrides⟩,
      fun _ _ => ⟨fun _ _ => trivial, fun _ => trivial⟩, fun _ _ => trivial⟩
  replacement {_ _ key text} hg _ hkey :=
    ⟨hg.overrides (key, text) (Table.mem_of_get? hkey), fun _ _ => trivial⟩
  builtin := law.builtin
  any := law.any
  time := law.withFormat _ _
  array := law.array
  map := law.map
  toSchema := law.struct
  known _ _ := law.ref _
  entered _ _ := law.ref _
  empty := law.empty
  normalized := law.normalized
  property hp hf hs h := law.property hp hf.tag (hs.elim id law.customSchema?) h
  compose := law.compose
  embed := law.embed
  embedReadOnly := law.embedReadOnly
  build hd _ _ hbody := Resolver.obeys_buildDefinition
    (fun g' => hbody g' fun i hi => hd i (List.mem_append_left _ hi)) _ hd
  pass _ _ hfields hx := by
    unfold Resolver.passThrough leaveOpen
    refine obeys_bind (obeys_leaving fun _ => ⟨rfl, rfl, rfl⟩) fun _ _ _ _ => ?_
    exact obeys_whileBuilding _ fun g' => hx g' hfields

theorem composes_discipline (law : SourceLaw) : law.discipline.Composes where
  schemaLater _ := id
  ofType := law.ofType
  combine := law.combine

theorem AdmitsText.reads {law : SourceLaw} {text : String} (h : law.AdmitsText text) (g : Resolver) (file : FileId) :
    law.discipline.Reads g text file :=
  ⟨h, fun _ _ => trivial⟩

end SourceLaw

end GoApiDoc
