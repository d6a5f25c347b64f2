/-
Types that the settings replace.

A struct that the settings replace by another type, or leave out, is looked at by its name only: its
fields could be any other ones.  There is one exception.  A struct that embeds it, without a name
for the field, goes through its fields and never asks the settings.  So two registries that differ
in the fields of such a type give the same answers and the same definitions, as long as the type is
not gone through.

* `Resolver.ignoresWith` — **every function that resolves types ignores the fields**;
* `Resolver.replaced_fields_ignored` — **calls are answered as with any other fields**.
-/

import Mathlib
import GoApiDoc.Proofs.Growth

set_option autoImplicit false

namespace GoApiDoc

open Go (TypeId TypeExpr)

variable {id : TypeId} {fuel : Nat} {g' : Resolver} {d : TypeDecl} {fields : Resolving StructParts}
  {text : String} {file : FileId}

/-! ### Other fields -/

/-- The type with other fields. -/
def TypeDecl.withFields (fs : List Go.Field) (d : TypeDecl) : TypeDecl :=
  { d with type := .struct fs }

namespace Registry

/-- The registry with other fields of one type. -/
def withFields (r : Registry) (T : TypeId) (fs : List Go.Field) : Registry :=
  { r with types := r.types.modify T (TypeDecl.withFields fs) }

/-- The type is declared, and it has no type parameters. -/
def Concrete (T : TypeId) (r : Registry) : Prop := ∃ d, r.types[T]? = some d ∧ d.params = []

variable {T : TypeId} {fs : List Go.Field} {r : Registry}

theorem Concrete.gains {r' : Registry} (hT : Concrete T r) (h : Gains r r') : Concrete T r' := by
  obtain ⟨d, hd, hparams⟩ := hT
  exact ⟨d, h.grows hd, hparams⟩

theorem getElem?_withFields_of_ne (h : id ≠ T) : (r.withFields T fs).types[id]? = r.types[id]? := by
  rw [withFields, Array.getElem?_modify, if_neg (Ne.symm h)]

theorem getElem?_withFields_self (r : Registry) (T : TypeId) (fs : List Go.Field) :
    (r.withFields T fs).types[T]? = r.types[T]?.map (TypeDecl.withFields fs) := by
  rw [withFields, Array.getElem?_modify, if_pos rfl]

/-- What is read of a type other than its fields. -/
theorem read_withFields {β : Type} (f : TypeDecl → β) (hf : ∀ d, f (d.withFields fs) = f d)
    (id : TypeId) : (r.withFields T fs).types[id]?.map f = r.types[id]?.map f := by
  by_cases h : id = T
  · subst h
    rw [getElem?_withFields_self, Option.map_map]
    congr 1
    exact funext hf
  · rw [getElem?_withFields_of_ne h]

/-! ### Looking up -/

theorem lookupType?_withFields (r : Registry) (T : TypeId) (fs : List Go.Field) (name : String)
    (file : FileId) : (r.withFields T fs).lookupType? name file = r.lookupType? name file := by
  simp only [lookupType?, lookupBase?, lookupQualified?, lookupFullPath?, typeIn?, packageOf?,
    importName?, withFields]

theorem namePart_withFields (r : Registry) (T : TypeId) (fs : List Go.Field) :
    TypeArg.namePart (r.withFields T fs) = TypeArg.namePart r := by
  funext a
  unfold TypeArg.namePart
  cases a.target with
  | none => rfl
  | some id => simp only [read_withFields TypeDecl.typeName fun _ => rfl]

theorem withFields_pushInstance (hT : Concrete T r) (name : String) (d : TypeDecl) :
    (r.withFields T fs).pushInstance name d = (r.pushInstance name d).withFields T fs := by
  obtain ⟨dT, hdT, -⟩ := hT
  have hlt : T < r.types.size := (Array.getElem?_eq_some_iff.1 hdT).1
  have hsize : (r.types.modify T (TypeDecl.withFields fs)).size = r.types.size := Array.size_modify
  have htypes : (r.types.modify T (TypeDecl.withFields fs)).push d =
      (r.types.push d).modify T (TypeDecl.withFields fs) := by
    apply Array.ext_getElem?
    intro id
    rw [Array.getElem?_push, Array.getElem?_modify, Array.getElem?_modify, Array.getElem?_push,
      hsize]
    by_cases hid : id = r.types.size
    · rw [if_pos hid, if_pos hid, if_neg (hid ▸ Nat.ne_of_lt hlt)]
    · rw [if_neg hid, if_neg hid]
  unfold pushInstance withFields
  rw [hsize, htypes]

theorem bindArgs_withFields (hT : Concrete T r) (generic : TypeId) (d : TypeDecl)
    (args : List TypeArg) : (r.withFields T fs).bindArgs generic d args =
      ((r.bindArgs generic d args).1, (r.bindArgs generic d args).2.withFields T fs) := by
  have hname : (r.withFields T fs).instanceName d args = r.instanceName d args := by
    rw [instanceName, instanceName, namePart_withFields]
  cases hknown : r.instances.get? (r.instanceName d args) with
  | some id =>
    rw [bindArgs_known hknown]
    rw [← hname] at hknown
    exact bindArgs_known hknown
  | none =>
    rw [bindArgs_new hknown, ← withFields_pushInstance hT]
    have hbound : (r.withFields T fs).boundDecl generic d args = r.boundDecl generic d args := by
      rw [boundDecl, boundDecl, hname]
    have hsize : (r.withFields T fs).types.size = r.types.size := Array.size_modify
    rw [← hname] at hknown
    rw [bindArgs_new hknown, hname, hbound, hsize]

/-- What a look-up finds, in the registry with other fields. -/
def foundWithFields {α : Type} (T : TypeId) (fs : List Go.Field) (found : α × Registry) :
    α × Registry :=
  (found.1, found.2.withFields T fs)

/-- The three look-ups do not read fields. -/
structure BlindWith (T : TypeId) (fs : List Go.Field) (fuel : Nat) : Prop where
  find : ∀ {r : Registry}, Concrete T r → ∀ name file,
    findTypeWith fuel (r.withFields T fs) name file =
      foundWithFields T fs (findTypeWith fuel r name file)
  instantiate : ∀ {r : Registry}, Concrete T r → ∀ generic args file,
    instantiateWith fuel (r.withFields T fs) generic args file =
      foundWithFields T fs (instantiateWith fuel r generic args file)
  arg : ∀ {r : Registry}, Concrete T r → ∀ arg file,
    resolveArgWith fuel (r.withFields T fs) arg file =
      foundWithFields T fs (resolveArgWith fuel r arg file)

theorem findTypeWith_withFields (ih : BlindWith T fs fuel) (hT : Concrete T r) (name : String)
    (file : FileId) : findTypeWith (fuel + 1) (r.withFields T fs) name file =
      foundWithFields T fs (findTypeWith (fuel + 1) r name file) := by
  rw [findTypeWith, findTypeWith, lookupType?_withFields]
  cases r.lookupType? name file with
  | none => rfl
  | some found =>
    obtain ⟨id, args⟩ := found
    cases args with
    | none => rfl
    | some args =>
      dsimp only
      rw [read_withFields TypeDecl.isGeneric fun _ => rfl]
      split
      · exact ih.instantiate hT _ _ file
      · rfl

theorem lookUpWith_withFields (ih : BlindWith T fs fuel) (hT : Concrete T r) (file : FileId)
    (args : List TypeExpr) : lookUpWith fuel file args (r.withFields T fs) =
      foundWithFields T fs (lookUpWith fuel file args r) := by
  induction args generalizing r with
  | nil => rfl
  | cons arg args ihargs =>
    rw [lookUpWith, ih.arg hT]
    dsimp only [foundWithFields]
    rw [ihargs (hT.gains ((gainsWith fuel).arg r arg file trivial))]
    rfl

theorem instantiateWith_withFields (ih : BlindWith T fs fuel) (hT : Concrete T r) (generic : TypeId)
    (args : List TypeExpr) (file : FileId) :
    instantiateWith (fuel + 1) (r.withFields T fs) generic args file =
      foundWithFields T fs (instantiateWith (fuel + 1) r generic args file) := by
  rw [instantiateWith_succ, instantiateWith_succ]
  by_cases hgeneric : generic = T
  · -- the type has no parameters
    subst hgeneric
    obtain ⟨d, hd, hparams⟩ := hT
    have hparams' : (d.withFields fs).params = [] := hparams
    rw [getElem?_withFields_self, hd]
    simp [hparams, hparams', foundWithFields]
  · rw [getElem?_withFields_of_ne hgeneric]
    cases r.types[generic]? with
    | none => rfl
    | some d =>
      dsimp only
      split
      · rfl
      · rw [lookUpWith_withFields ih hT]
        dsimp only [foundWithFields]
        rw [bindArgs_withFields (hT.gains (gains_lookUpWith fuel file args r))]

theorem resolveArgWith_withFields (ih : BlindWith T fs fuel) (hT : Concrete T r) (arg : TypeExpr)
    (file : FileId) : resolveArgWith (fuel + 1) (r.withFields T fs) arg file =
      foundWithFields T fs (resolveArgWith (fuel + 1) r arg file) := by
  rw [resolveArgWith, resolveArgWith]
  dsimp only
  split
  · rfl
  · rw [ih.find hT]
    rfl
  · rw [ih.find hT]
    rfl
  · rw [lookupType?_withFields]
    split
    · rw [ih.instantiate hT]
      rfl
    · rfl
  · rfl

theorem blindWith (T : TypeId) (fs : List Go.Field) (fuel : Nat) : BlindWith T fs fuel := by
  induction fuel with
  | zero =>
    refine ⟨fun _ name file => ?_, fun _ generic args file => ?_, fun _ arg file => ?_⟩
    · rw [findTypeWith, findTypeWith]
      rfl
    · rw [instantiateWith, instantiateWith]
      rfl
    · rw [resolveArgWith, resolveArgWith]
      rfl
  | succ fuel ih =>
    exact ⟨findTypeWith_withFields ih, instantiateWith_withFields ih, resolveArgWith_withFields ih⟩

/-- **Look-ups do not read fields.** -/
theorem declaredOf_withFields (hT : Concrete T r) (file : FileId) (t : TypeExpr) :
    declaredOf file t (r.withFields T fs) = foundWithFields T fs (declaredOf file t r) := by
  cases t with
  | generic base args =>
    simp only [declaredOf, lookupType?_withFields]
    cases r.lookupType? base.text file with
    | none => rfl
    | some found => exact (blindWith T fs _).instantiate hT _ args file
  | ident name | qualified package name => exact (blindWith T fs _).find hT _ file
  | _ => rfl

end Registry

/-! ### The judgement -/

namespace Resolver

/-- The state with other fields of one type. -/
def withFields (g : Resolver) (T : TypeId) (fs : List Go.Field) : Resolver :=
  { g with registry := g.registry.withFields T fs }

/-- The type is a struct without type parameters, and the settings have an entry for it. -/
def Replaced (T : TypeId) (g : Resolver) : Prop :=
  ∃ d fields text, g.registry.types[T]? = some d ∧ d.type = .struct fields ∧ d.params = [] ∧
    g.settings.overrides.get? d.fullPath = some text

variable {T : TypeId} {fs : List Go.Field} {g : Resolver}

theorem Replaced.concrete (h : Replaced T g) : g.registry.Concrete T := by
  obtain ⟨d, _, _, hd, -, hparams, -⟩ := h
  exact ⟨d, hd, hparams⟩

/-- The type stays replaced when instances are added. -/
theorem Replaced.gains (h : Replaced T g) (hr : g.registry.Gains g'.registry)
    (hs : g'.settings = g.settings) : Replaced T g' := by
  obtain ⟨d, fields, text, hd, hrest⟩ := h
  exact ⟨d, fields, text, hr.grows hd, hs ▸ hrest⟩

theorem getElem?_withFields_self (hd : g.registry.types[T]? = some d) :
    (g.withFields T fs).registry.types[T]? = some (d.withFields fs) := by
  have hread := Registry.getElem?_withFields_self g.registry T fs
  rw [hd] at hread
  exact hread

theorem getElem?_withFields_of_ne (h : id ≠ T) :
    (g.withFields T fs).registry.types[id]? = g.registry.types[id]? :=
  Registry.getElem?_withFields_of_ne h

theorem settings_withFields : (g.withFields T fs).settings = g.settings := rfl

theorem names_withFields : (g.withFields T fs).names = g.names := rfl

theorem nameOf_withFields (g : Resolver) (T : TypeId) (fs : List Go.Field) :
    (g.withFields T fs).nameOf = g.nameOf := by
  funext id
  exact congrArg (·.getD "") (Registry.read_withFields TypeDecl.typeName (fun _ => rfl) id)

theorem fullPathOf_withFields (g : Resolver) (T : TypeId) (fs : List Go.Field) (id : TypeId) :
    (g.withFields T fs).fullPathOf id = g.fullPathOf id :=
  congrArg (·.getD "") (Registry.read_withFields TypeDecl.fullPath (fun _ => rfl) id)

theorem complement_withFields (g : Resolver) (T : TypeId) (fs : List Go.Field) :
    (g.withFields T fs).complement = g.complement := by
  have hbuilt : (g.withFields T fs).isBeingBuilt = g.isBeingBuilt := by
    funext name
    rw [isBeingBuilt, nameOf_withFields, isBeingBuilt]
    rfl
  funext f s
  refine complement_eq_of_typePath? ?_ f
  rw [typePath?, hbuilt, typePath?]
  rfl

/-- The ends of two runs from states that differ in the fields of the type: if it was not gone
through, they differ in nothing else. -/
structure Alike {α : Type} (T : TypeId) (fs : List Go.Field) (g : Resolver)
    (o o' : Except DocError α × Resolver) : Prop where
  replaced : Replaced T o.2
  opened : T ∈ g.leftOpen → T ∈ o.2.leftOpen
  same : T ∉ o.2.leftOpen → o' = (o.1, o.2.withFields T fs)

end Resolver

open Resolver (Replaced Alike)

namespace Resolving

variable {α β : Type} {T : TypeId} {fs : List Go.Field} {g : Resolver} {x x' : Resolving α}

/-- The second computation, from the state with other fields of the type, does what the first does,
unless that goes through the fields. -/
def Follows (T : TypeId) (fs : List Go.Field) (x x' : Resolving α) (g : Resolver) : Prop :=
  Replaced T g → Alike T fs g (x.runOn g) (x'.runOn (g.withFields T fs))

/-- From the state the computation does the same with other fields of the type, unless it goes
through the fields. -/
abbrev Ignores (T : TypeId) (fs : List Go.Field) (x : Resolving α) (g : Resolver) : Prop :=
  Follows T fs x x g

theorem ignores_pure (a : α) : Ignores T fs (pure a) g :=
  fun h => ⟨h, id, fun _ => rfl⟩

theorem ignores_throw (e : DocError) : Ignores T fs (throw e : Resolving α) g :=
  fun h => ⟨h, id, fun _ => rfl⟩

theorem ignores_ofResult (r : Except DocError α) : Ignores T fs (ofResult r) g := by
  cases r with
  | ok a => exact ignores_pure a
  | error e => exact ignores_throw e

/-- What follows the second computation is compared only where the first has been alike. -/
theorem follows_bind {f f' : α → Resolving β} (hx : Follows T fs x x' g)
    (hf : ∀ a g', x.runOn g = (.ok a, g') → Follows T fs (f a) (f' a) g') :
    Follows T fs (x >>= f) (x' >>= f') g := by
  intro hg
  have hfirst := hx hg
  rcases hrun : x.runOn g with ⟨e | a, g₁⟩
  all_goals rw [hrun] at hfirst
  · rw [runOn_bind_error f hrun]
    exact ⟨hfirst.replaced, hfirst.opened, fun hT => runOn_bind_error f' (hfirst.same hT)⟩
  · have hrest := hf a g₁ hrun hfirst.replaced
    rw [runOn_bind_ok f hrun]
    refine ⟨hrest.replaced, fun hT => hrest.opened (hfirst.opened hT), fun hT => ?_⟩
    -- what is not open at the end was not open in between
    rw [runOn_bind_ok f' (hfirst.same fun hT₁ => hT (hrest.opened hT₁))]
    exact hrest.same hT

/-- What follows may be chosen by the state. -/
theorem follows_get_bind {f f' : Resolver → Resolving β}
    (hf : Follows T fs (f g) (f' (g.withFields T fs)) g) :
    Follows T fs (get >>= f) (get >>= f') g := hf

/-- A change of the state that concerns neither the registry nor the settings. -/
theorem ignores_modify {f : Resolver → Resolver}
    (hf : f (g.withFields T fs) = (f g).withFields T fs) (hregistry : (f g).registry = g.registry)
    (hsettings : (f g).settings = g.settings) (hopen : T ∈ g.leftOpen → T ∈ (f g).leftOpen) :
    Ignores T fs (modify f) g := by
  intro h
  refine ⟨h.gains ?_ hsettings, hopen, fun _ => congrArg (Prod.mk (Except.ok PUnit.unit)) hf⟩
  change g.registry.Gains (f g).registry
  rw [hregistry]
  exact Registry.Gains.refl _

theorem follows_outcome (hx : Follows T fs x x' g) : Follows T fs (outcome x) (outcome x') g := by
  intro hg
  have hrun := hx hg
  refine ⟨hrun.replaced, hrun.opened, fun hT => ?_⟩
  rw [runOn_outcome, hrun.same hT]
  rfl

theorem follows_whileBuilding (hx : Follows T fs x x' (g.enter id)) :
    Follows T fs (whileBuilding id x) (whileBuilding id x') g := by
  intro hg
  have hrun := hx hg
  rw [runOn_whileBuilding, runOn_whileBuilding]
  refine ⟨hrun.replaced, hrun.opened, fun hT => ?_⟩
  have hsame : x'.runOn ((g.withFields T fs).enter id) = _ := hrun.same hT
  rw [hsame]
  rfl

end Resolving

/-! ### The parts of the functions -/

namespace Resolver

open Resolving

variable {T : TypeId} {fs : List Go.Field} {g : Resolver}

theorem ignores_declaredType (t : TypeExpr) (file : FileId) :
    Ignores T fs (declaredType t file) g := by
  intro hg
  have hfound : Registry.declaredOf file t (g.withFields T fs).registry = _ :=
    Registry.declaredOf_withFields hg.concrete file t
  rw [runOn_declaredType, runOn_declaredType, hfound]
  exact ⟨hg.gains (Registry.gains_declaredOf file t g.registry) rfl, id, fun _ => rfl⟩

theorem ignores_claimName (id : TypeId) (d : TypeDecl) : Ignores T fs (claimName id d) g := by
  unfold claimName
  refine follows_get_bind ?_
  rw [names_withFields]
  split
  · rw [fullPathOf_withFields]
    split
    · exact ignores_pure _
    · exact ignores_throw _
  · exact ignores_modify rfl rfl rfl fun hT => hT

theorem ignores_releaseName (id : TypeId) (name : String) :
    Ignores T fs (releaseName id name) g := by
  refine follows_bind (ignores_modify rfl rfl rfl fun hT => hT) fun _ _ _ => ?_
  exact ignores_modify rfl rfl rfl fun hT => .tail id hT

theorem follows_buildDefinition {body body' : Resolving Schema}
    (hbody : ∀ g, Follows T fs body body' g) :
    Follows T fs (buildDefinition id d body) (buildDefinition id d body') g := by
  unfold buildDefinition
  refine follows_bind (ignores_claimName id d) fun _ g₁ _ => ?_
  refine follows_bind (follows_outcome (follows_whileBuilding (hbody _))) fun o _ _ => ?_
  cases o with
  | ok s => exact follows_bind (ignores_modify rfl rfl rfl fun h => h) fun _ _ _ => ignores_pure _
  | error e => exact follows_bind (ignores_releaseName id _) fun _ _ _ => ignores_throw e

theorem follows_passThrough {fields' : Resolving StructParts}
    (hfields : ∀ g, Follows T fs fields fields' g) :
    Follows T fs (passThrough id fields) (passThrough id fields') g := by
  refine follows_bind ?_ fun _ _ _ => follows_whileBuilding (hfields _)
  exact ignores_modify rfl rfl rfl fun hT => .tail id hT

/-- The type itself may be gone through with any fields, for then it is left open. -/
theorem follows_passThrough_self (hfields : ∀ g, Ignores T fs fields g)
    (fields' : Resolving StructParts) :
    Follows T fs (passThrough T fields) (passThrough T fields') g := by
  intro hg
  have hpass : Ignores T fs (passThrough T fields) g := follows_passThrough hfields
  have hself := hpass hg
  refine ⟨hself.replaced, hself.opened, fun hopen => absurd ?_ hopen⟩
  have hrun : Ignores T fs (whileBuilding T fields) (g.noteOpen T) :=
    follows_whileBuilding (hfields _)
  exact (hrun hg).opened (.head _)

theorem ignores_addResolved (parts : StructParts) (f : Go.Field) (property : String)
    (resolved : Except DocError Schema) :
    Ignores T fs (addResolved parts f property resolved) g := by
  unfold addResolved
  refine follows_get_bind ?_
  rw [complement_withFields, settings_withFields]
  split
  · exact follows_bind (ignores_ofResult _) fun _ _ _ => ignores_pure _
  · exact ignores_pure _
  · split
    · exact ignores_throw _
    · exact ignores_pure _
  · exact ignores_throw _

theorem follows_fieldPart {x x' : Resolving Schema} (parts : StructParts) (f : Go.Field)
    (hx : ∀ g, Follows T fs x x' g) : Follows T fs (fieldPart parts f x) (fieldPart parts f x') g := by
  unfold fieldPart
  split
  · exact ignores_pure _
  refine follows_get_bind ?_
  rw [settings_withFields]
  split
  · exact ignores_pure _
  refine follows_bind (ignores_ofResult _) fun o _ _ => ?_
  cases o with
  | some s => exact ignores_addResolved parts f _ _
  | none =>
    exact follows_bind (follows_outcome (hx _)) fun _ _ _ => ignores_addResolved parts f _ _

/-! ### The recursion -/

theorem overrideWith_ne_none {key : String} (h : g.settings.overrides.get? key = some text) :
    (overrideWith fuel key file).runOn g ≠ (.ok none, g') := by
  cases fuel with
  | zero =>
    rw [overrideWith]
    intro hrun
    cases hrun
  | succ fuel =>
    rw [overrideWith, runOn_get_bind, h]
    dsimp only
    split
    · intro hrun
      cases hrun
    · intro hrun
      obtain ⟨s, g₁, -, hsome⟩ := runOn_bind_eq_ok hrun
      cases hsome

/-- The laws of the functions that resolve types, for a given number of steps. -/
structure IgnoresWith (T : TypeId) (fs : List Go.Field) (fuel : Nat) : Prop where
  resolve : ∀ t file g, Ignores T fs (resolveWith fuel t file) g
  text : ∀ text file g, Ignores T fs (textWith fuel text file) g
  override : ∀ key file g, Ignores T fs (overrideWith fuel key file) g
  named : ∀ t file g, Ignores T fs (namedWith fuel t file) g
  symbol : ∀ id g, Ignores T fs (symbolWith fuel id) g
  definition : ∀ id d g, Ignores T fs (definitionWith fuel id d) g
  struct : ∀ fields file g, Ignores T fs (structWith fuel fields file) g
  field : ∀ parts f file g, Ignores T fs (fieldWith fuel parts f file) g
  namedField : ∀ parts f file g, Ignores T fs (namedFieldWith fuel parts f file) g
  embedded : ∀ parts f file g, Ignores T fs (embeddedWith fuel parts f file) g
  embeddedStruct : ∀ parts id d d' fields fields' readOnly g, (id ≠ T → d' = d ∧ fields' = fields) →
    Follows T fs (embeddedStructWith fuel parts id d fields readOnly)
      (embeddedStructWith fuel parts id d' fields' readOnly) g

theorem congruence_follows (T : TypeId) (fs : List Go.Field) :
    Congruence (fun _ x x' => ∀ g, Follows T fs x x' g) (fun g h => h = g.withFields T fs) where
  leaf a _ := ignores_pure a
  fail e _ := ignores_throw e
  bind hx hf g := follows_bind (hx g) fun a g' _ => hf a g'
  read hread hf g := follows_get_bind (by rw [(hread rfl).2]; exact hf g g)
  view h := h ▸ ⟨rfl, rfl, fun _ _ => rfl, rfl, rfl, fun id => by
    rw [embeddingChain, nameOf_withFields, embeddingChain]
    rfl⟩
  declared t file _ := ignores_declaredType t file
  build _ _ _ _ h _ := follows_buildDefinition h
  pass _ _ _ h _ := follows_passThrough h
  field parts f _ _ h _ := follows_fieldPart parts f h

theorem IgnoresWith.relates (h : IgnoresWith T fs fuel) :
    Relates (fun _ x x' => ∀ g, Follows T fs x x' g) fuel fuel :=
  ⟨h.resolve, h.text, h.override, h.named, h.symbol, h.definition, h.struct, h.field, h.namedField,
    h.embedded, fun p id d fields ro g => h.embeddedStruct p id d d fields fields ro g fun _ =>
      ⟨rfl, rfl⟩⟩

section Step

variable {fuel : Nat} (ih : IgnoresWith T fs fuel)

include ih

theorem ignores_symbolWith (id : TypeId) (g : Resolver) :
    Ignores T fs (symbolWith (fuel + 1) id) g := by
  rw [symbolWith]
  refine follows_get_bind ?_
  by_cases hid : id = T
  · -- the settings have an answer, and they are asked before the fields are read
    subst hid
    intro hg
    have hreplaced := hg
    obtain ⟨d, fields, text, hd, -, -, htext⟩ := hreplaced
    rw [hd, getElem?_withFields_self hd]
    refine follows_bind (ih.override d.fullPath d.file g) (fun o g₁ hrun => ?_) hg
    cases o with
    | some s => exact ignores_pure s
    | none => exact absurd hrun (overrideWith_ne_none htext)
  · rw [getElem?_withFields_of_ne hid]
    split
    · exact ignores_throw _
    · next d _ =>
      refine follows_bind (ih.override _ d.file g) fun o g₁ _ => ?_
      cases o with
      | some s => exact ignores_pure s
      | none => exact relates_unreplaced (congruence_follows T fs) ih.relates id d g₁

theorem ignores_embeddedOf (parts : StructParts) (f : Go.Field) (file : FileId)
    (o : Option TypeId) (g : Resolver) : Ignores T fs (embeddedOf fuel parts f file o) g := by
  cases o with
  | none => exact ignores_throw _
  | some id =>
    refine follows_get_bind ?_
    by_cases hid : id = T
    · -- the type is a struct, with these fields or with those
      subst hid
      intro hg
      have hreplaced := hg
      obtain ⟨d, fields, text, hd, hstruct, -⟩ := hreplaced
      have hstruct' : (d.withFields fs).type = .struct fs := rfl
      rw [hd, getElem?_withFields_self hd]
      dsimp only
      rw [hstruct, hstruct']
      exact ih.embeddedStruct parts id d _ fields fs _ g (fun h => absurd rfl h) hg
    · rw [getElem?_withFields_of_ne hid]
      split
      · exact ignores_throw _
      · split
        · exact ih.embeddedStruct parts id _ _ _ _ _ g fun _ => ⟨rfl, rfl⟩
        · exact ih.namedField parts _ file g

theorem follows_embeddedStructWith (parts : StructParts) (id : TypeId) (d d' : TypeDecl)
    (fields fields' : List Go.Field) (readOnly : Bool) (g : Resolver)
    (hid : id ≠ T → d' = d ∧ fields' = fields) :
    Follows T fs (embeddedStructWith (fuel + 1) parts id d fields readOnly)
      (embeddedStructWith (fuel + 1) parts id d' fields' readOnly) g := by
  refine relates_embeddedStructWith (congruence_follows T fs) ih.relates parts id readOnly ?_ g
  intro g'
  by_cases hT : id = T
  · subst hT
    exact follows_passThrough_self (ih.struct fields d.file) _
  · rw [(hid hT).1, (hid hT).2]
    exact follows_passThrough (ih.struct fields d.file)

end Step

/-- **Every function that resolves types ignores the fields** of a type that the settings replace,
unless it goes through them. -/
theorem ignoresWith (T : TypeId) (fs : List Go.Field) (fuel : Nat) : IgnoresWith T fs fuel := by
  have hR := congruence_follows T fs
  induction fuel with
  | zero =>
    constructor <;> intros <;>
      simp only [resolveWith, textWith, overrideWith, namedWith, symbolWith, definitionWith,
        structWith, fieldWith, namedFieldWith, embeddedWith, embeddedStructWith] <;>
      exact ignores_throw _
  | succ fuel ih =>
    have hih := ih.relates
    exact ⟨relates_resolveWith hR hih, relates_textWith hR hih, relates_overrideWith hR hih,
      relates_namedWith hR hih, ignores_symbolWith ih, relates_definitionWith hR hih,
      relates_structWith hR hih, relates_fieldWith hR hih, relates_namedFieldWith hR hih,
      fun parts f file => relates_embeddedWith hR hih parts f file
        (ignores_embeddedOf ih parts f file), follows_embeddedStructWith ih⟩

/-! ### Calls -/

/-- The answers to calls for the schemas of types given as texts, each in a file, and the state that
is left.  A call that fails does not stop the others. -/
def replies (g : Resolver) : List (String × FileId) → List (Except DocError Schema) × Resolver
  | [] => ([], g)
  | (text, file) :: calls =>
    let first := (resolveText text file).runOn g
    (first.1 :: (first.2.replies calls).1, (first.2.replies calls).2)

/-- The call was given up because the steps ran out. -/
def ranOut : Except DocError Schema → Bool
  | .error .endless => true
  | _ => false

theorem finished_of_ranOut {o : Except DocError Schema × Resolver} (h : ranOut o.1 = false) :
    Finished o := by
  intro hend
  rw [hend] at h
  cases h

theorem replaced_resolveText (hg : Replaced T g) (text : String) (file : FileId) :
    Replaced T ((resolveText text file).runOn g).2 ∧
      (T ∈ g.leftOpen → T ∈ ((resolveText text file).runOn g).2.leftOpen) := by
  have hrun := (ignoresWith T [] (g.fuelFor text.length)).text text file g hg
  exact ⟨hrun.replaced, hrun.opened⟩

/-- One call.  Both runs are given as many steps as the one with more fields needs. -/
theorem alike_resolveText (hg : Replaced T g) (hends : Finished ((resolveText text file).runOn g))
    (hends' : Finished ((resolveText text file).runOn (g.withFields T fs))) :
    Alike T fs g ((resolveText text file).runOn g)
      ((resolveText text file).runOn (g.withFields T fs)) := by
  let n := g.fuelFor text.length
  let n' := (g.withFields T fs).fuelFor text.length
  have hmore : ∀ {k : Nat}, k ≤ max n n' → ∀ g,
      Refines (textWith k text file) (textWith (max n n') text file) g := fun hk g =>
    refines_le (fun k g => (refinesWith k).text text file g) hk g
  have hrun := (ignoresWith T fs (max n n')).text text file g hg
  rw [hmore (le_max_left n n') g hends, hmore (le_max_right n n') _ hends'] at hrun
  exact hrun

theorem opened_replies (hg : Replaced T g) (hT : T ∈ g.leftOpen) (calls : List (String × FileId)) :
    T ∈ (g.replies calls).2.leftOpen := by
  induction calls generalizing g with
  | nil => exact hT
  | cons call calls ih =>
    obtain ⟨hg₁, hopened⟩ := replaced_resolveText hg call.1 call.2
    exact ih hg₁ (hopened hT)

theorem replies_withFields (hg : Replaced T g) (calls : List (String × FileId))
    (hends : ∀ o ∈ (g.replies calls).1, ranOut o = false)
    (hends' : ∀ o ∈ ((g.withFields T fs).replies calls).1, ranOut o = false)
    (hT : T ∉ (g.replies calls).2.leftOpen) : (g.withFields T fs).replies calls =
      ((g.replies calls).1, (g.replies calls).2.withFields T fs) := by
  induction calls generalizing g with
  | nil => rfl
  | cons call calls ih =>
    obtain ⟨text, file⟩ := call
    obtain ⟨hg₁, -⟩ := replaced_resolveText hg text file
    have hfirst : ((resolveText text file).runOn (g.withFields T fs)) = _ :=
      (alike_resolveText hg (finished_of_ranOut (hends _ (.head _)))
        (finished_of_ranOut (hends' _ (.head _)))).same
        fun hopen => hT (opened_replies hg₁ hopen calls)
    rw [replies, replies]
    rw [replies, hfirst] at hends'
    rw [replies] at hends hT
    dsimp only at hends hends' hT ⊢
    rw [hfirst]
    dsimp only
    rw [ih hg₁ (fun o ho => hends o (List.mem_cons_of_mem _ ho))
      (fun o ho => hends' o (List.mem_cons_of_mem _ ho)) hT]

/-- **The fields of a type that the settings replace are ignored.**  The type is a struct without
type parameters, and the settings replace it or leave it out.  Then any sequence of calls has the
same answers, the same errors and the same definitions as with other fields of the type, provided
that the type is not left open and that no call runs out of steps.  No definition is built for a
type that is replaced, so it is left open only if its fields are gone through for a struct that
embeds it. -/
theorem replaced_fields_ignored {r : Registry} {settings : Settings} {T : TypeId} {d : TypeDecl}
    {fields : List Go.Field} {text : String} (hd : r.types[T]? = some d)
    (hstruct : d.type = .struct fields) (hparams : d.params = [])
    (htext : settings.overrides.get? d.fullPath = some text) (fs : List Go.Field)
    (calls : List (String × FileId))
    (hends : ∀ o ∈ ((fresh r settings).replies calls).1, ranOut o = false)
    (hends' : ∀ o ∈ ((fresh (r.withFields T fs) settings).replies calls).1, ranOut o = false)
    (hT : T ∉ ((fresh r settings).replies calls).2.leftOpen) :
    ((fresh (r.withFields T fs) settings).replies calls).1 = ((fresh r settings).replies calls).1 ∧
      ((fresh (r.withFields T fs) settings).replies calls).2.definitions =
        ((fresh r settings).replies calls).2.definitions := by
  have hg : Replaced T (fresh r settings) := ⟨d, fields, text, hd, hstruct, hparams, htext⟩
  have hrun : (fresh (r.withFields T fs) settings).replies calls = _ :=
    replies_withFields hg calls hends hends' hT
  rw [hrun]
  exact ⟨rfl, rfl⟩

end Resolver

/-- The type is a struct. -/
def Go.TypeExpr.isStruct : TypeExpr → Bool
  | .struct _ => true
  | _ => false

theorem Go.TypeExpr.exists_of_isStruct {t : TypeExpr} (h : t.isStruct = true) :
    ∃ fields, t = .struct fields := by
  cases t with
  | struct fields => exact ⟨fields, rfl⟩
  | _ => cases h

namespace Resolver

/-- A field with a name and without a tag. -/
def plainField (name : String) (type : TypeExpr) : Go.Field := ⟨[name], type, none, none, none⟩

/-- A struct `Secret`, a struct `User` with fields of that type, and one that embeds it. -/
def vault : Registry :=
  let secret : Go.Decl :=
    .type ⟨"Secret", [], false, .struct [plainField "Token" (.ident "string")], none, none, 0⟩
  let user : Go.Decl := .type ⟨"User", [], false, .struct [plainField "Name" (.ident "string"),
    plainField "Key" (.pointer (.ident "Secret")), plainField "Old" (.slice (.ident "Secret"))],
    none, none, 0⟩
  let admin : Go.Decl := .type ⟨"Admin", [], false,
    .struct [⟨[], .ident "Secret", none, none, none⟩], none, none, 0⟩
  (({} : Registry).index ⟨"app.go", "example.com/app", .all,
    ⟨"app", [], [secret, user, admin], []⟩⟩).2.parseTypes

/-- Settings that leave `Secret` out. -/
def discreet : Settings := { overrides := [("example.com/app.Secret", "")] }

theorem vault_secret : ∃ d fields, vault.types[0]? = some d ∧ d.type = .struct fields ∧
    d.params = [] ∧ d.fullPath = "example.com/app.Secret" := by
  have hsecret : vault.types[0]?.map (fun d => (d.type.isStruct, d.params.isEmpty, d.fullPath)) =
      some (true, true, "example.com/app.Secret") := by decide +kernel
  obtain ⟨d, hd, hread⟩ := Option.map_eq_some_iff.1 hsecret
  obtain ⟨hstruct, hread⟩ := Prod.mk.inj hread
  obtain ⟨fields, hfields⟩ := Go.TypeExpr.exists_of_isStruct hstruct
  obtain ⟨hparams, hpath⟩ := Prod.mk.inj hread
  exact ⟨d, fields, hd, hfields, List.isEmpty_iff.1 hparams, hpath⟩

set_option maxRecDepth 100000 in
/-- `User` has its other field only, and `Secret` itself is refused. -/
theorem replaced_fields_ignored_vault :
    let calls := [("User", 0), ("Secret", 0), ("map[string]Secret", 0)]
    let before := (fresh vault discreet).replies calls
    let after := (fresh (vault.withFields 0 []) discreet).replies calls
    before.1.map Except.isOk = [true, false, false] ∧ before.2.definitions.keys = ["app.User"] ∧
      after.1 = before.1 ∧ after.2.definitions = before.2.definitions := by
  intro calls before after
  obtain ⟨d, fields, hd, hstruct, hparams, hpath⟩ := vault_secret
  have htext : discreet.overrides.get? d.fullPath = some "" := by rw [hpath]; rfl
  have hends : ∀ o ∈ before.1, ranOut o = false := by decide +kernel
  have hends' : ∀ o ∈ after.1, ranOut o = false := by decide +kernel
  have hopen : 0 ∉ before.2.leftOpen := by decide +kernel
  exact ⟨by decide +kernel, by decide +kernel,
    replaced_fields_ignored hd hstruct hparams htext [] calls hends hends' hopen⟩

set_option maxRecDepth 100000 in
/-- A struct that embeds `Secret` has its fields, although the settings leave `Secret` out. -/
example :
    let properties (r : Registry) : Option (List String) :=
      (((fresh r discreet).replies [("Admin", 0)]).2.definitions.get? "app.Admin").map
        fun s => s.properties.map Prod.fst
    properties vault = some ["token"] ∧ properties (vault.withFields 0 []) = some [] := by
  decide +kernel

end Resolver

end GoApiDoc
