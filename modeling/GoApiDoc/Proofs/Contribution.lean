/-
What the members of a struct contribute to it.

The fields of a struct are gone through one after the other, and each adds to what there is.  What a
member adds does not depend on what there is, so a struct can be read in two stages: first the
contributions of all its members, then their sum.

* `Resolver.structWith_eq` — **a struct is the sum of the contributions of its members**.
-/

import GoApiDoc.Proofs.Struct

set_option autoImplicit false

namespace GoApiDoc

open Go (TypeId TypeExpr)
open Resolving

/-! ### Members -/

/-- The members of a struct: its embedded fields and, one by one, the exported names of the others. -/
def Go.members (fields : List Go.Field) : List Go.Field :=
  fields.flatMap fun f =>
    if f.names.isEmpty then [f]
    else (f.names.filter Text.isExported).map fun name => { f with names := [name] }

/-- What a member of a struct adds to it. -/
inductive Contribution where
  | nothing
  /-- A property, which may have to be present. -/
  | property (name : String) (s : Schema) (required : Bool)
  /-- The properties of an embedded struct. -/
  | promoted (inner : StructParts)
  /-- The properties of an embedded struct that is read-only, and a reference to it. -/
  | marked (kept : Schema) (inner : StructParts)

namespace Contribution

/-- Adds a contribution. -/
def addTo (p : StructParts) : Contribution → StructParts
  | nothing => p
  | property name s required => p.addProperty name s required
  | promoted inner => p.embed inner
  | marked kept inner => ({ p with composed := p.composed ++ [kept] }).embedReadOnly inner

end Contribution

namespace Resolver

/-! ### Named fields -/

/-- The property of a field whose schema has been resolved. -/
def contributed (f : Go.Field) (property : String) (resolved : Except DocError Schema) :
    Resolving Contribution := do
  let g ← get
  match resolved with
  | .ok s => do
    let s ← ofResult (g.complement f s)
    return .property property s (Field.isRequired g.settings.requiredByDefault f)
  | .error (.skippedField _) => return .nothing
  | .error (.unsupportedField type) =>
    if g.settings.strict then throw (.unsupportedField type) else return .nothing
  | .error e => throw e

variable (fuel : Nat)

/-- The contribution of a field with one name. -/
def propertyWith (f : Go.Field) (file : FileId) : Resolving Contribution :=
  if Field.isHidden f then pure .nothing
  else do
    match Field.propertyName? (← get).settings.naming f with
    | none => return .nothing
    | some property =>
      match ← ofResult (Field.customSchema? f) with
      | some s => contributed f property (.ok s)
      | none => contributed f property (← outcome (resolveWith fuel f.type file))

/-- The schema that the tag of a field gives, or else that of its type. -/
def baseSchemaWith (f : Go.Field) (file : FileId) : Resolving Schema := do
  match ← ofResult (Field.customSchema? f) with
  | some s => return s
  | none => resolveWith fuel f.type file

/-- The schema computed from a field: the one that its tag gives or else that of its type, with what
the tag adds. -/
def fieldSchemaWith (f : Go.Field) (file : FileId) : Resolving Schema := do
  let s ← baseSchemaWith fuel f file
  ofResult ((← get).complement f s)

variable (parts : StructParts)

theorem addResolved_eq (f : Go.Field) (property : String) (resolved : Except DocError Schema) :
    addResolved parts f property resolved =
      Contribution.addTo parts <$> contributed f property resolved := by
  unfold addResolved contributed
  rw [map_bind]
  congr 1
  funext g
  cases resolved with
  | ok s =>
    rw [map_bind]
    rfl
  | error e =>
    cases e with
    | unsupportedField type =>
      dsimp only
      split
      · rfl
      · rfl
    | _ => rfl

variable (n : Nat)

theorem namedFieldWith_eq (parts : StructParts) (f : Go.Field) (file : FileId) :
    namedFieldWith (n + 1) parts f file = Contribution.addTo parts <$> propertyWith n f file := by
  rw [namedFieldWith, propertyWith]
  split
  · rfl
  rw [map_bind]
  congr 1
  funext g
  cases Field.propertyName? g.settings.naming f with
  | none => rfl
  | some property =>
    dsimp only
    rw [map_bind]
    congr 1
    funext o
    cases o with
    | some s => exact addResolved_eq parts f property _
    | none =>
      dsimp only
      rw [map_bind]
      congr 1
      funext r
      exact addResolved_eq parts f property r

variable {g g' : Resolver} {f : Go.Field} {property : String} {c : Contribution} {file : FileId}

theorem contributed_cases {r : Except DocError Schema}
    (h : (contributed f property r).runOn g = (.ok c, g')) :
    g' = g ∧ ((∃ e, r = .error e ∧ e.LeavesOut ∧ c = .nothing) ∨
      ∃ s t, r = .ok s ∧ g.complement f s = .ok t ∧
        c = .property property t (Field.isRequired g.settings.requiredByDefault f)) := by
  rw [contributed, runOn_get_bind] at h
  split at h
  · next s =>
    obtain ⟨t, g₁, ht, h⟩ := runOn_bind_eq_ok h
    rw [runOn_ofResult] at ht
    obtain ⟨hcomplement, rfl⟩ := Prod.mk.inj ht
    cases h
    exact ⟨rfl, .inr ⟨s, t, rfl, hcomplement, rfl⟩⟩
  · next type =>
    cases h
    exact ⟨rfl, .inl ⟨_, rfl, ⟨type, .inl rfl⟩, rfl⟩⟩
  · next type =>
    split at h
    · cases h
    · cases h
      exact ⟨rfl, .inl ⟨_, rfl, ⟨type, .inr rfl⟩, rfl⟩⟩
  · cases h

theorem runOn_propertyWith {n : Nat} (hhidden : Field.isHidden f = false)
    (hname : Field.propertyName? g.settings.naming f = some property) :
    (∃ e, Field.customSchema? f = .error e ∧ (propertyWith n f file).runOn g = (.error e, g)) ∨
      ∃ r g₁, (baseSchemaWith n f file).runOn g = (r, g₁) ∧
        (propertyWith n f file).runOn g = (contributed f property r).runOn g₁ := by
  rw [propertyWith, if_neg (by simp [hhidden]), runOn_get_bind, hname]
  unfold baseSchemaWith
  cases hcustom : Field.customSchema? f with
  | error e => exact .inl ⟨e, rfl, rfl⟩
  | ok o =>
    refine .inr ?_
    cases o with
    | some s => exact ⟨.ok s, g, rfl, rfl⟩
    | none => exact ⟨_, _, rfl, rfl⟩

/-- A field with a name contributes the schema computed from it, or its type is left out. -/
theorem propertyWith_cases {n : Nat} (hhidden : Field.isHidden f = false)
    (hname : Field.propertyName? g.settings.naming f = some property)
    (h : (propertyWith n f file).runOn g = (.ok c, g')) :
    (∃ e, e.LeavesOut ∧ (fieldSchemaWith n f file).runOn g = (.error e, g') ∧ c = .nothing) ∨
      ∃ s, (fieldSchemaWith n f file).runOn g = (.ok s, g') ∧
        c = .property property s (Field.isRequired g'.settings.requiredByDefault f) := by
  rcases runOn_propertyWith hhidden hname with ⟨e, -, herror⟩ | ⟨r, g₁, hbase, hrun⟩
  · cases herror.symm.trans h
  obtain ⟨rfl, ⟨e, rfl, hout, hc⟩ | ⟨s, t, rfl, ht, hc⟩⟩ := contributed_cases (hrun.symm.trans h)
  · refine .inl ⟨e, hout, ?_, hc⟩
    rw [fieldSchemaWith, runOn_bind_error _ hbase]
  · refine .inr ⟨t, ?_, hc⟩
    rw [fieldSchemaWith, runOn_bind_ok _ hbase, runOn_get_bind, runOn_ofResult, ht]

/-! ### Embedded fields -/

/-- The fields of an embedded struct, which must not be one that is being built. -/
def innerWith (id : TypeId) (d : TypeDecl) (fields : List Go.Field) : Resolving StructParts := do
  let g ← get
  if g.building.contains id then throw (.recursiveStruct (g.embeddingChain id))
  else passThrough id (structWith fuel fields d.file)

/-- The contribution of an embedded struct. -/
def embeddingWith (id : TypeId) (d : TypeDecl) (fields : List Go.Field)
    (readOnly : Bool) : Resolving Contribution :=
  if readOnly then do
    let kept ← symbolWith fuel id
    return .marked kept (← innerWith fuel id d fields)
  else do
    return .promoted (← innerWith fuel id d fields)

/-- The contribution of an embedded field. -/
def embeddedPartWith (f : Go.Field) (file : FileId) : Resolving Contribution :=
  if Field.isHidden f then pure .nothing
  else do
    if (Field.propertyName? (← get).settings.naming f).isSome then propertyWith fuel f file
    else
      match ← declaredType f.type.target file with
      | none => throw (.unresolvedType f.type.target.text)
      | some id =>
        match (← get).registry.types[id]? with
        | none => throw (.unresolvedType f.type.target.text)
        | some d =>
          match d.type with
          | .struct fields => embeddingWith fuel id d fields (Field.isReadOnly f)
          | _ => propertyWith fuel { f with names := [d.name] } file

theorem embeddedStructWith_eq (parts : StructParts) (id : TypeId) (d : TypeDecl)
    (fields : List Go.Field) (readOnly : Bool) :
    embeddedStructWith (n + 1) parts id d fields readOnly =
      Contribution.addTo parts <$> embeddingWith n id d fields readOnly := by
  rw [embeddedStructWith, embeddingWith]
  cases readOnly with
  | true =>
    simp only [if_true, pure_bind, map_bind]
    congr 1
    funext kept
    rw [innerWith, bind_assoc]
    congr 1
    funext g
    split
    · rfl
    · rfl
  | false =>
    simp only [Bool.false_eq_true, if_false, pure_bind, map_bind]
    rw [innerWith, bind_assoc]
    congr 1
    funext g
    split
    · rfl
    · rfl

theorem embeddedWith_eq (parts : StructParts) (f : Go.Field) (file : FileId) :
    embeddedWith (n + 2) parts f file = Contribution.addTo parts <$> embeddedPartWith n f file := by
  rw [embeddedWith, embeddedPartWith]
  split
  · rfl
  rw [map_bind]
  congr 1
  funext g
  split
  · exact namedFieldWith_eq n parts f file
  rw [map_bind]
  congr 1
  funext o
  cases o with
  | none => rfl
  | some id =>
    dsimp only
    rw [map_bind]
    congr 1
    funext g'
    cases g'.registry.types[id]? with
    | none => rfl
    | some d =>
      dsimp only
      cases htype : d.type with
      | struct fields => exact embeddedStructWith_eq n parts id d fields _
      | _ => exact namedFieldWith_eq n parts _ file

/-! ### Structs -/

/-- The contribution of a member. -/
def memberWith (m : Go.Field) (file : FileId) : Resolving Contribution :=
  if m.names.isEmpty then embeddedPartWith fuel m file else propertyWith (fuel + 1) m file

/-- The members of a list with their contributions. -/
def gatherWith (members : List Go.Field) (file : FileId) :
    Resolving (List (Go.Field × Contribution)) :=
  members.mapM fun m => do return (m, ← memberWith fuel m file)

/-- The sum of contributions, from what there is. -/
def sumFrom (cs : List (Go.Field × Contribution)) : StructParts :=
  cs.foldl (fun p c => c.2.addTo p) parts

theorem fieldWith_eq (parts : StructParts) (f : Go.Field) (file : FileId) :
    fieldWith (n + 3) parts f file =
      (Go.members [f]).foldlM (fun parts m => Contribution.addTo parts <$> memberWith n m file)
        parts := by
  rw [fieldWith, Go.members, List.flatMap_singleton]
  cases hnames : f.names with
  | nil =>
    simp [memberWith, hnames, embeddedWith_eq]
  | cons name names =>
    simp [memberWith, List.foldlM_map, namedFieldWith_eq]

/-- Adding contributions as they come is adding them in the end. -/
theorem foldlM_addTo (members : List Go.Field) (file : FileId) (parts : StructParts) :
    members.foldlM (fun parts m => Contribution.addTo parts <$> memberWith n m file) parts =
      sumFrom parts <$> gatherWith n members file := by
  induction members generalizing parts with
  | nil => rfl
  | cons m members ih =>
    simp only [List.foldlM_cons, ih, gatherWith, List.mapM_cons, map_bind, bind_assoc, pure_bind,
      map_pure, bind_map_left]
    rfl

/-- **A struct is the sum of the contributions of its members.** -/
theorem structWith_eq (fields : List Go.Field) (file : FileId) : structWith (n + 4) fields file =
      (fun cs => (sumFrom {} cs).normalized) <$> gatherWith n (Go.members fields) file := by
  have hfields : ∀ parts : StructParts,
      fields.foldlM (fun parts f => fieldWith (n + 3) parts f file) parts =
        (Go.members fields).foldlM
          (fun parts m => Contribution.addTo parts <$> memberWith n m file) parts := by
    induction fields with
    | nil => exact fun _ => rfl
    | cons f fields ih =>
      intro parts
      have hcons : Go.members (f :: fields) = Go.members [f] ++ Go.members fields := by
        simp [Go.members]
      rw [List.foldlM_cons, fieldWith_eq, hcons, List.foldlM_append]
      exact congrArg _ (funext ih)
  rw [structWith, hfields, foldlM_addTo]
  simp only [map_eq_pure_bind, bind_assoc, pure_bind]

end Resolver

end GoApiDoc
