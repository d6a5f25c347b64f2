/-
What the schema of a type looks like.

The schema of a type says what kind of values the type has, and nothing else: a simple type with its
format, a reference, an array, a map, a struct, or all values.  So before the tag of a field is read
there are no constraints, a reference stands alone, and an array says what its items are.

* `Resolver.resolved_of_resolve` — **whatever is resolved has such a schema**.
-/

import GoApiDoc.Proofs.Reading

set_option autoImplicit false

namespace GoApiDoc

open Go (TypeId TypeExpr)

variable {name : String} {s : Schema} {t : TypeExpr} {file : FileId} {g : Resolver} {α : Type}

/-! ### The schemas of types -/

namespace Schema

/-- The types of values that have no parts. -/
def simpleTypes : List String := ["string", "integer", "number", "boolean"]

/-- The schema of a type. -/
inductive Resolved : Schema → Prop
  | any : Resolved .any
  | simple {type : String} (h : type ∈ simpleTypes) (format : Option String) :
      Resolved { type := some type, format := format }
  | ref (name : String) : Resolved (.ref name)
  | array {s : Schema} (h : Resolved s) : Resolved (.array s)
  | map {s : Schema} (h : Resolved s) : Resolved (.map s)
  | struct (p : StructParts) : Resolved p.toSchema

theorem resolved_of_builtin (h : ofBuiltin? name = some s) : s.Resolved := by
  unfold ofBuiltin? at h
  split at h <;> cases h
  all_goals first | exact .any | exact .simple (by decide) _

variable {s : Schema}

/-- A reference that a type has stands alone. -/
theorem Resolved.eq_ref (h : s.Resolved) (hr : s.reference.isSome) : ∃ name, s = .ref name := by
  cases h with
  | ref name => exact ⟨name, rfl⟩
  | struct p =>
    unfold StructParts.toSchema at hr
    split at hr <;> cases hr
  | any | simple | array | map => cases hr

/-- An array has its items, and only an array has. -/
theorem Resolved.items_iff (h : s.Resolved) : s.items.isSome ↔ s.type = some "array" := by
  cases h with
  | struct p =>
    unfold StructParts.toSchema
    split <;> simp [combined]
  | simple htype format =>
    have hne : ∀ type ∈ simpleTypes, type ≠ "array" := by decide
    simpa using hne _ htype
  | any => simp [Schema.any]
  | ref name => simp [Schema.ref]
  | array h => simp [Schema.array]
  | map h => simp [Schema.map]

theorem typePathFrom_head {definitions : Table Schema} {isBeingMade : String → Bool}
    {fuel depth : Nat} {type : String} {types : List String} (hr : s.reference = none)
    (ht : s.type = some type)
    (h : typePathFrom definitions isBeingMade fuel (depth + 1) s = some types) :
    types.head? = some type := by
  have hnone : s.refName? = none := by
    rw [Schema.refName?, hr]
    rfl
  cases fuel with
  | zero => cases h
  | succ fuel =>
    rw [typePathFrom, hnone, ht] at h
    dsimp only at h
    split at h
    · obtain ⟨inner, -, rfl⟩ := Option.map_eq_some_iff.mp h
      rfl
    · cases h
      rfl

end Schema

/-! ### Types -/

namespace Resolver

open Resolving

/-- Any states and any errors. -/
def anyway : Frame where
  Inv _ := True
  Later _ _ := True
  Admits _ := True
  refl _ := trivial
  trans _ _ := trivial

theorem obeys_anyway (x : Resolving α) (g : Resolver) : Obeys anyway x g fun _ _ => True :=
  fun _ => ⟨trivial, trivial, fun _ _ => trivial, fun _ _ => trivial⟩

/-- Schemas have the shape of a type. -/
def shapes : Discipline where
  toFrame := anyway
  IsSchema _ := Schema.Resolved
  IsParts _ _ := True
  IsType _ _ _ := True
  IsField _ _ _ := True
  IsFile _ _ := True
  IsId _ _ := True
  IsDecl _ _ _ := True
  declLater _ := id
  declared _ _ _ := trivial
  lookUp _ _ :=
    ⟨trivial, trivial, fun _ _ => ⟨fun _ _ => trivial, fun _ => trivial⟩, fun _ _ => trivial⟩
  builtin := Schema.resolved_of_builtin
  any := .any
  time := .simple (by decide) _
  array := .array
  map := .map
  toSchema _ := .struct _
  known _ _ := .ref _
  entered _ _ := .ref _
  build {g id d body} _ _ _ _ := by
    -- a definition that is built is referred to
    unfold buildDefinition
    refine obeys_bind (obeys_anyway _ g) fun _ g₁ _ _ => ?_
    refine obeys_bind (obeys_anyway _ g₁) fun r g₂ _ _ => ?_
    cases r with
    | ok s => exact obeys_bind (obeys_anyway _ g₂) fun _ _ _ _ => obeys_pure (.ref _)
    | error e => exact obeys_bind (obeys_anyway _ g₂) fun _ _ _ _ => obeys_throw trivial
  pass {g _ _ _ _} _ _ _ _ := obeys_anyway _ g

/-- **Whatever is resolved has the schema of a type.** -/
theorem resolved_of_resolve {g' : Resolver} (h : (resolve t file).runOn g = (.ok s, g')) :
    s.Resolved := by
  have hobeys : shapes.Holds (resolveWith (g.fuelFor t.weight) t file) g shapes.IsSchema :=
    (obeysWith shapes _).resolve trivial
  exact (hobeys trivial).2.2.1 s (congrArg Prod.fst h)

end Resolver

theorem eq_ok_of_toOption {ε : Type} {x : Except ε α} {a : α} (h : x.toOption = some a) :
    x = .ok a := by
  cases x with
  | error e => cases h
  | ok b =>
    cases h
    rfl

theorem Resolver.resolve_eq_ref
    (h : ((resolve t file).runOn g).1.toOption.bind (·.refName?) = some name) :
    (resolve t file).runOn g = (.ok (.ref name), ((resolve t file).runOn g).2) := by
  obtain ⟨s, hs, hname⟩ := Option.bind_eq_some_iff.1 h
  have hrun : (resolve t file).runOn g = (.ok s, ((resolve t file).runOn g).2) :=
    Prod.ext (eq_ok_of_toOption hs) rfl
  obtain ⟨other, rfl⟩ := (resolved_of_resolve hrun).eq_ref (by
    cases hr : s.reference with
    | none => simp [Schema.refName?, hr] at hname
    | some _ => rfl)
  have hother : (Schema.ref other).refName? = some other := Schema.refName?_of_reference rfl
  rw [← Option.some.inj (hother.symm.trans hname)]
  exact hrun

end GoApiDoc
