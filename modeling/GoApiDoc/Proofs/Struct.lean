/-
Structs and their definitions.

A struct type that is declared and new becomes a definition, whose properties come from the fields
one after the other.  A field with one exported name and nothing else contributes the schema of its
type as it is, or is left out; a field with names of its own leaves all other properties alone.

* `Resolver.runOn_buildDefinition_eq_ok` — **a definition that is built is stored under its name**;
* `Field.IsBare.of_fieldWith` — **the property of a bare field is the schema of its type**.
-/

import GoApiDoc.Proofs.Reading

set_option autoImplicit false

namespace GoApiDoc

open Go (TypeId TypeExpr)
open Resolving

variable {id : TypeId} {d : TypeDecl} {body : Resolving Schema} {s : Schema}
  {parts parts' : StructParts}

namespace Resolver

variable {g g' : Resolver}

/-! ### Structs -/

/-- The schema of a struct whose fields are read in different files. -/
def structOf (n : Nat) (fields : List (Go.Field × FileId)) : Resolving Schema := do
  let parts ← fields.foldlM (fun parts f => fieldWith n parts f.1 f.2) {}
  return parts.normalized.toSchema

theorem refines_structOf_le {n m : Nat} (hle : n ≤ m) (fields : List (Go.Field × FileId)) :
    Refines (structOf n fields) (structOf m fields) g := by
  refine refines_bind ?_ fun parts g₁ _ => refines_refl _ g₁
  exact refines_foldlM (I := fun _ _ => True) fields (fun _ _ _ _ _ _ _ => trivial)
    (fun parts f g₁ _ => refines_fieldWith_le hle parts f.1 f.2 g₁) trivial

theorem resolveWith_struct (n : Nat) (fields : List Go.Field) (file : FileId) :
    resolveWith (n + 2) (.struct fields) file = structOf n (fields.map fun f => (f, file)) := by
  rw [resolveWith, structWith, structOf, List.foldlM_map]
  simp only [bind_assoc, pure_bind]

/-! ### Definitions -/

theorem runOn_symbolWith_struct (g : Resolver) (hover : g.settings.overrides = [])
    {fields : List Go.Field} (hd : g.registry.types[id]? = some d) (htype : d.type = .struct fields)
    (halias : d.isAlias = false) (hfresh : g.parsed.lookup id = none) (hout : id ∉ g.building)
    (n : Nat) :
    (symbolWith (n + 4) id).runOn g =
      (buildDefinition id d (structOf n (fields.map fun f => (f, d.file)))).runOn g := by
  rw [symbolWith, runOn_get_bind, hd]
  dsimp only
  rw [runOn_bind_ok _ (runOn_overrideWith hover (n + 2) _ _)]
  dsimp only
  rw [htype]
  dsimp only
  rw [definitionWith, halias, if_neg Bool.false_ne_true, runOn_get_bind, hfresh]
  dsimp only
  rw [if_neg (by simpa using hout), htype, resolveWith_struct]

/-- A definition that is built is stored under the name that was claimed for it. -/
theorem runOn_buildDefinition_eq_ok (hg : g.Sound) (hfresh : g.parsed.lookup id = none)
    (hout : id ∉ g.building) (h : (buildDefinition id d body).runOn g = (.ok s, g')) :
    g.names.get? d.typeName = none ∧
      ∃ b g₁, body.runOn ((g.claim id d.typeName).enter id) = (.ok b, g₁) ∧
        s = Schema.ref d.typeName ∧ g' = g₁.leave.store id d.typeName (Schema.ofDecl d b) := by
  rcases runOn_buildDefinition hg hfresh hout body with ⟨e, hrun⟩ | ⟨hn, hrun⟩
  · cases hrun.symm.trans h
  rw [hrun] at h
  rcases hend : body.runOn ((g.claim id d.typeName).enter id) with ⟨e | b, g₁⟩
  all_goals rw [hend] at h
  · cases h
  · cases h
    exact ⟨hn, b, g₁, rfl, rfl, rfl⟩

end Resolver

/-! ### Bare fields -/

/-- An error that leaves a field out of its struct. -/
def DocError.LeavesOut (e : DocError) : Prop :=
  ∃ type, e = .skippedField type ∨ e = .unsupportedField type

namespace Field

/-- A field with one exported name and nothing else. -/
structure IsBare (f : Go.Field) (name : String) : Prop where
  names : f.names = [name]
  exported : Text.isExported name = true
  tag : f.tag = none
  description : Field.description? f = none

theorem lookup?_empty (key : String) : Tag.lookup? "" key = none := by
  simp [Tag.lookup?, Tag.entries, Tag.nextPair?, Text.dropLeading, Text.breakAt]

namespace IsBare

variable {f : Go.Field} {name : String} {g g' : Resolver} {n : Nat} {file : FileId}

/-- A bare field adds nothing to the schema of its type. -/
theorem complement (h : IsBare f name) (s : Schema) {types : List String} (htypes : types ≠ []) :
    Field.complement f s types = .ok s := by
  have hplain : ∀ s : Schema, ∀ type rest, Field.complementPlain f s type rest = .ok s := by
    intro s type rest
    cases s
    rw [Field.complementPlain, h.tag, h.description]
    rfl
  cases types with
  | nil => exact absurd rfl htypes
  | cons type rest =>
    rw [Field.complement, hplain, hplain]
    split
    · rfl
    · rfl

theorem notHidden (h : IsBare f name) : Field.isHidden f = false := by
  simp [Field.isHidden, Field.jsonName?, Field.tagOf, h.tag, Tag.get, lookup?_empty,
    Text.eqIgnoreCase]
  decide

theorem propertyName? (h : IsBare f name) (naming : Naming) :
    Field.propertyName? naming f = some (naming.apply name) := by
  simp [Field.propertyName?, Field.jsonName?, Field.tagOf, h.tag, h.names, lookup?_empty]

theorem customSchema? (h : IsBare f name) : Field.customSchema? f = .ok none := by
  simp [Field.customSchema?, Field.tagOf, h.tag, Tag.get, lookup?_empty]

theorem withType (h : IsBare f name) (t : TypeExpr) : IsBare { f with type := t } name :=
  ⟨h.names, h.exported, h.tag, h.description⟩

/-- A bare field adds the outcome of resolving its type. -/
theorem runOn_fieldWith (h : IsBare f name) (n : Nat) (parts : StructParts) (file : FileId) :
    (Resolver.fieldWith (n + 2) parts f file).runOn g =
      (Resolver.addResolved parts f (g.settings.naming.apply name)
        ((Resolver.resolveWith n f.type file).runOn g).1).runOn
        ((Resolver.resolveWith n f.type file).runOn g).2 := by
  have hnames : f.names.filter Text.isExported = [name] := by
    rw [h.names]
    simp [h.exported]
  have hself : { f with names := [name] } = f := by rw [← h.names]
  rw [Resolver.fieldWith, h.names, if_neg (by simp), ← h.names, hnames, List.foldlM_cons, hself,
    Resolver.namedFieldWith_succ]
  simp only [List.foldlM_nil, bind_pure]
  rw [Resolver.fieldPart, h.notHidden, if_neg Bool.false_ne_true, runOn_get_bind, h.propertyName?]
  dsimp only
  rw [h.customSchema?, runOn_bind_ok _ (runOn_ofResult _ g)]
  dsimp only
  rw [runOn_bind_ok _ (runOn_outcome _ g)]

/-- A bare field contributes the schema of its type as it is, or is left out. -/
theorem of_fieldWith (h : IsBare f name)
    (hrun : (Resolver.fieldWith (n + 2) parts f file).runOn g = (.ok parts', g')) :
    (∃ s, ((Resolver.resolveWith n f.type file).runOn g).1 = .ok s ∧
      parts'.properties = parts.properties.insert (g.settings.naming.apply name) s) ∨
    ∃ e, ((Resolver.resolveWith n f.type file).runOn g).1 = .error e ∧ e.LeavesOut := by
  rw [h.runOn_fieldWith, Resolver.addResolved, runOn_get_bind] at hrun
  split at hrun
  · next s hs =>
    obtain ⟨t, g₁, ht, hpure⟩ := runOn_bind_eq_ok hrun
    have hok : Field.complement f s _ = .ok t :=
      Resolver.complement_eq_ok (congrArg Prod.fst ((runOn_ofResult _ _).symm.trans ht))
    rw [h.complement s fun hnil => by rw [hnil] at hok; cases hok] at hok
    cases hok
    cases hpure
    exact .inl ⟨s, hs, rfl⟩
  · next type hs => exact .inr ⟨_, hs, type, .inl rfl⟩
  · next type hs => exact .inr ⟨_, hs, type, .inr rfl⟩
  · cases hrun

/-- A bare field whose type has a schema, and that schema a type, can be added. -/
theorem fieldWith_ok (h : IsBare f name) (parts : StructParts)
    (hs : (Resolver.resolveWith n f.type file).runOn g = (.ok s, g'))
    (hpath : g'.typePath 2 s ≠ []) :
    ∃ parts', (Resolver.fieldWith (n + 2) parts f file).runOn g = (.ok parts', g') := by
  rw [h.runOn_fieldWith, hs, Resolver.addResolved, runOn_get_bind]
  dsimp only
  rw [Resolver.complement_of_typePath hpath, h.complement s hpath]
  exact ⟨_, rfl⟩

end IsBare

/-! ### Other fields -/

/-- The field has names, and none of them is that of the property. -/
structure Avoids (naming : Naming) (property : String) (f : Go.Field) : Prop where
  named : f.names ≠ []
  other : ∀ name ∈ f.names, Field.propertyName? naming { f with names := [name] } ≠ some property

end Field

namespace Resolver

variable {g g' : Resolver} {property : String} {f : Go.Field}

theorem get?_of_addResolved {name : String} (hne : name ≠ property)
    {resolved : Except DocError Schema}
    (hrun : (addResolved parts f name resolved).runOn g = (.ok parts', g')) :
    parts'.properties.get? property = parts.properties.get? property := by
  rw [addResolved, runOn_get_bind] at hrun
  split at hrun
  · obtain ⟨t, g₁, ht, hpure⟩ := runOn_bind_eq_ok hrun
    cases hpure
    rw [StructParts.addProperty, Table.get?_insert, if_neg (Ne.symm hne)]
  · cases hrun
    rfl
  · split at hrun
    · cases hrun
    · cases hrun
      rfl
  · cases hrun

theorem get?_of_fieldPart {x : Resolving Schema}
    (hother : Field.propertyName? g.settings.naming f ≠ some property)
    (hrun : (fieldPart parts f x).runOn g = (.ok parts', g')) :
    parts'.properties.get? property = parts.properties.get? property := by
  rw [fieldPart] at hrun
  split at hrun
  · cases hrun
    rfl
  rw [runOn_get_bind] at hrun
  split at hrun
  · cases hrun
    rfl
  · next name hname =>
    have hne : name ≠ property := fun h => hother (h ▸ hname)
    obtain ⟨o, g₁, ho, hmore⟩ := runOn_bind_eq_ok hrun
    cases o with
    | some s => exact get?_of_addResolved hne hmore
    | none =>
      obtain ⟨r, g₂, hr, hlast⟩ := runOn_bind_eq_ok hmore
      exact get?_of_addResolved hne hlast

end Resolver

end GoApiDoc
