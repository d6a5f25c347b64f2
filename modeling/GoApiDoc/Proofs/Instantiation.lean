/-
Generic structs applied to an argument.

An instance of a generic struct is resolved in the file that declares the struct, while its argument
was written in the file that uses it.  An argument that names a declared type is bound to that type,
and so keeps its meaning.  An argument that is a type literal is bound as it is written, so the
names inside it are read again, in the file of the declaration.

* `Application.instance_reads_argument` — **what an instance makes of its argument**: the property
  is the argument's schema if that names a declared type or has no names at all, and otherwise that
  of the same text in the other file.
-/

import GoApiDoc.Proofs.Struct

set_option autoImplicit false

namespace GoApiDoc

open Go (TypeId TypeExpr)

variable {g₂ : Resolver} {f : Go.Field} {file : FileId} {n : Nat} {property name : String}
  {s : Schema} {parts parts' : StructParts} {c m : Nat}

/-! ### Substitution -/

theorem Go.TypeExpr.substituteFields_eq_map (bindings : Table TypeExpr)
    (fields : List Go.Field) : TypeExpr.substituteFields bindings fields =
      fields.map fun f => { f with type := f.type.substitute bindings } := by
  induction fields with
  | nil => rfl
  | cons f fields ih => rw [TypeExpr.substituteFields, ih, List.map_cons]

/-- The type is the parameter. -/
def Go.TypeExpr.isParam (param : String) : TypeExpr → Bool
  | ident name => name == param
  | _ => false

/-! ### Applications -/

/-- A generic struct with one type parameter, applied to an argument in a file. -/
structure Application (r : Registry) where
  /-- The file that uses the struct. -/
  file : FileId
  /-- The name of the struct in that file. -/
  base : TypeExpr
  arg : TypeExpr
  generic : TypeId
  decl : TypeDecl
  param : Go.TypeParam
  fields : List Go.Field
  found : (r.lookupType? base.text file).map (·.1) = some generic
  declared : r.types[generic]? = some decl
  params : decl.params = [param]
  struct : decl.type = .struct fields
  notAlias : decl.isAlias = false
  plain : arg.peel.2.Plain

namespace Application

variable {r : Registry} (app : Application r)

/-- The type as it is written. -/
def type : TypeExpr := .generic app.base [app.arg]

/-- The argument with the declared type that it stands for. -/
def argument : TypeArg := (Registry.readArg app.file app.arg r).1

/-- The registry with the instances that the argument needs. -/
def readRegistry : Registry := (Registry.readArg app.file app.arg r).2

/-- The instance. -/
def id : TypeId := (app.readRegistry.bindArgs app.generic app.decl [app.argument]).1

/-- The registry with the instance. -/
def registry : Registry := (app.readRegistry.bindArgs app.generic app.decl [app.argument]).2

/-- The declaration of the instance, if its name is new. -/
def inst : TypeDecl := app.readRegistry.boundDecl app.generic app.decl [app.argument]

/-- What the parameter is replaced by. -/
def bindings : Table TypeExpr := [(app.param.name, app.argument.binding)]

/-- The file in which the argument is read: the one that uses the struct for the name of a declared
type, and the one that declares it for anything else. -/
def readIn : FileId := if app.argument.target.isSome then app.file else app.decl.file

/-- A field of the instance with the file in which it is read. -/
def readField (f : Go.Field) : Go.Field × FileId :=
  if !f.names.isEmpty && f.type.isParam app.param.name then ({ f with type := app.arg }, app.readIn)
  else ({ f with type := f.type.substitute app.bindings }, app.decl.file)

/-- The fields of the instance, each with the file in which it is read. -/
def readFields : List (Go.Field × FileId) := app.fields.map app.readField

theorem declaredOf_type :
    Registry.declaredOf app.file app.type r = (some app.id, app.registry) := by
  obtain ⟨⟨generic, x⟩, hlookup, hgeneric⟩ := Option.map_eq_some_iff.1 app.found
  obtain rfl : generic = app.generic := hgeneric
  have hargs : ∀ a ∈ [app.arg], a.peel.2.Plain := by
    intro a ha
    obtain rfl := List.mem_singleton.1 ha
    exact app.plain
  rw [type, Registry.declaredOf, hlookup]
  dsimp only
  rw [Registry.instantiate_eq hargs, Registry.instanceOf, app.declared]
  dsimp only
  rw [app.params, if_neg (by simp)]
  rfl

theorem inst_type : app.inst.type =
    .struct (app.fields.map fun f => { f with type := f.type.substitute app.bindings }) := by
  have hbindings : Table.ofEntries ((app.decl.params.map (·.name)).zip
      ([app.argument].map TypeArg.binding)) = app.bindings := by
    rw [app.params]
    rfl
  rw [inst, Registry.boundDecl]
  dsimp only
  rw [hbindings, app.struct, TypeExpr.substitute, TypeExpr.substituteFields_eq_map]

theorem gains_registry : Registry.Gains r app.registry := by
  have h := Registry.gains_declaredOf app.file app.type r
  rwa [declaredOf_type] at h

theorem gains_bind : Registry.Gains app.readRegistry app.registry := by
  have hgain := Registry.gains_declaredOf app.file app.arg.peel.2 r
  exact (Registry.Gains.refl _).bind [app.argument] (hgain.grows app.declared)

end Application

open Resolving Resolver

namespace Application

/-! ### The argument in later states -/

variable {g g₁ : Resolver} (app : Application g.registry)

/-- A sound state with the settings of the first one and the registry that has the instance. -/
structure Later (g₁ : Resolver) : Prop where
  sound : g₁.Sound
  settings : g₁.settings = g.settings
  registry : Registry.Gains app.registry g₁.registry

variable {app} {id : TypeId}

theorem Later.extends (h : app.Later g₁) (hext : g₁.Extends g₂) (hg₂ : g₂.Sound) : app.Later g₂ :=
  ⟨hg₂, hext.settings.trans h.settings, h.registry.trans hext.registry⟩

/-- The argument stands for the same type as at first. -/
theorem Later.declaredOf (h : app.Later g₁) (hr : g.registry.WellIndexed) :
    Registry.declaredOf app.file app.arg.peel.2 g₁.registry = (app.argument.target, g₁.registry) :=
  Registry.declaredOf_again app.plain hr (app.gains_bind.trans h.registry)

theorem Later.isTime (h : app.Later g₁) (t : TypeExpr) (file : FileId) :
    Resolver.isTime g₁.registry t file = Resolver.isTime g.registry t file := by
  cases t with
  | qualified package name =>
    simp only [Resolver.isTime, (app.gains_registry.trans h.registry).packageOf?]
  | _ => rfl

/-- The argument does not name the type of points in time while that type is declared. -/
def NotTime (app : Application g.registry) : Prop :=
  app.argument.target.isSome = true → Resolver.isTime g.registry app.arg.peel.2 app.file = false

/-- What is asked of the state in which an application is resolved. -/
structure Ready (app : Application g.registry) : Prop where
  sound : g.Sound
  indexed : g.registry.WellIndexed
  overrides : g.settings.overrides = []
  notTime : app.NotTime

theorem of_target_none (h : app.argument.target = none) : app.readIn = app.decl.file ∧
      app.argument.binding = TypeExpr.sliced app.arg.peel.1 app.arg.peel.2 := by
  rw [readIn, TypeArg.binding, h]
  exact ⟨rfl, rfl⟩

theorem of_target_some (h : app.argument.target = some id) : app.readIn = app.file ∧
      app.argument.binding = TypeExpr.sliced app.arg.peel.1 (.resolved id) := by
  rw [readIn, TypeArg.binding, h]
  exact ⟨rfl, rfl⟩

/-- The name inside the argument resolves like the declared type that it stands for. -/
theorem Later.runOn_element (h : app.Later g₁) (hready : app.Ready)
    (htarget : app.argument.target = some id) (n : Nat) : ∃ m, n < m ∧ m ≤ n + 2 ∧
      (resolveWith (n + 3) app.arg.peel.2 app.file).runOn g₁ = (symbolWith m id).runOn g₁ := by
  have hdeclared := h.declaredOf hready.indexed
  rw [htarget] at hdeclared
  have hnotTime : Resolver.isTime g₁.registry app.arg.peel.2 app.file = false := by
    rw [h.isTime]
    exact hready.notTime (by rw [htarget]; rfl)
  have helement := runOn_resolveWith_element app.plain (congrArg Prod.fst hdeclared) hnotTime
    (h.settings ▸ hready.overrides) n
  rwa [hdeclared] at helement

/-- The bound argument, in the file that declares the struct, resolves like the written one, in the
file where that is read. -/
theorem refines_argument (hready : app.Ready) : ∃ c, ∀ g₁, app.Later g₁ → ∀ n,
      Refines (resolveWith n app.argument.binding app.decl.file)
        (resolveWith (n + c) app.arg app.readIn) g₁ := by
  cases htarget : app.argument.target with
  | none =>
    -- the argument is bound as it is written, and only its pointers are lost
    obtain ⟨hread, hbinding⟩ := of_target_none htarget
    rw [hread, hbinding]
    exact refines_layers (I := app.Later) (c := 0) (fun g₁ _ n => refines_refl _ g₁) app.arg rfl
  | some id =>
    obtain ⟨hread, hbinding⟩ := of_target_some htarget
    rw [hread, hbinding]
    -- the written name is looked up first, which takes three steps more
    refine refines_layers (I := app.Later) (c := 3) (fun g₁ hlater n => ?_) app.arg rfl
    cases n with
    | zero =>
      rw [resolveWith]
      exact refines_endless _ g₁
    | succ n =>
      obtain ⟨m, hm, -, helement⟩ := hlater.runOn_element hready htarget (n + 1)
      intro hfinished
      rw [resolveWith] at hfinished ⊢
      rw [helement]
      exact refines_symbolWith_le (by omega) id g₁ hfinished

theorem refines_binding (hready : app.Ready) (hlater : app.Later g₁) (n : Nat) :
    Refines (resolveWith n app.arg app.readIn)
      (resolveWith (n + 3) app.argument.binding app.decl.file) g₁ := by
  cases htarget : app.argument.target with
  | none =>
    obtain ⟨hread, hbinding⟩ := of_target_none htarget
    rw [hread, hbinding]
    exact refines_sliced (fun n => refines_resolveWith_le (by omega) _ _ g₁) app.arg rfl n
  | some id =>
    obtain ⟨hread, hbinding⟩ := of_target_some htarget
    rw [hread, hbinding]
    refine refines_sliced (fun n => ?_) app.arg rfl n
    obtain ⟨m, -, hm, helement⟩ := hlater.runOn_element hready htarget n
    refine refines_trans (refines_resolveWith_le (Nat.le_add_right n 3) _ _ g₁) ?_
    intro hfinished
    rw [helement] at hfinished ⊢
    rw [resolveWith]
    exact refines_symbolWith_le hm id g₁ hfinished

/-! ### The fields -/

/-- What is needed of the state and of the parts while fields are gone through. -/
def Going (app : Application g.registry) (g₁ : Resolver) (parts : StructParts) : Prop :=
  app.Later g₁ ∧ g₁.BacksParts parts

theorem Going.field (h : Going app g₁ parts)
    (hrun : (fieldWith n parts f file).runOn g₁ = (.ok parts', g₂)) : Going app g₂ parts' := by
  obtain ⟨hext, hsound, hval⟩ := (keepsWith n).field parts f file g₁ h.2 h.1.sound
  rw [hrun] at hext hsound hval
  exact ⟨h.1.extends hext hsound, hval parts' rfl⟩

theorem Going.namedField (h : Going app g₁ parts)
    (hrun : (namedFieldWith n parts f file).runOn g₁ = (.ok parts', g₂)) : Going app g₂ parts' := by
  obtain ⟨hext, hsound, hval⟩ := (keepsWith n).namedField parts f file g₁ h.2 h.1.sound
  rw [hrun] at hext hsound hval
  exact ⟨h.1.extends hext hsound, hval parts' rfl⟩

theorem substitute_of_isParam {t : TypeExpr} (h : t.isParam app.param.name = true) :
    t.substitute app.bindings = app.argument.binding := by
  cases t with
  | ident name =>
    obtain rfl : name = app.param.name := by simpa [TypeExpr.isParam] using h
    simp [TypeExpr.substitute, bindings, Table.get?]
  | _ => simp [TypeExpr.isParam] at h

/-- A field of the instance, in the file that declares the struct, contributes what it does as it is
read. -/
theorem refines_readField
    (harg : ∀ g₁, app.Later g₁ → ∀ n, Refines (resolveWith n app.argument.binding app.decl.file)
      (resolveWith (n + c) app.arg app.readIn) g₁)
    (f : Go.Field) (n : Nat) (h : Going app g₁ parts) :
    Refines
      (fieldWith n parts { f with type := f.type.substitute app.bindings } app.decl.file)
      (fieldWith (n + c) parts (app.readField f).1 (app.readField f).2) g₁ := by
  unfold readField
  split
  · next hparam =>
    obtain ⟨hnames, htype⟩ := Bool.and_eq_true_iff.1 hparam
    have hnonempty : f.names.isEmpty = false := by simpa using hnames
    rw [substitute_of_isParam htype]
    cases n with
    | zero =>
      rw [fieldWith]
      exact refines_endless _ g₁
    | succ n =>
      rw [Nat.succ_add, fieldWith, fieldWith, hnonempty, if_neg Bool.false_ne_true,
        if_neg Bool.false_ne_true]
      refine refines_foldlM _ (fun _ _ _ _ _ => Going.namedField) ?_ h
      intro parts name g₂ hgoing
      cases n with
      | zero =>
        rw [namedFieldWith]
        exact refines_endless _ g₂
      | succ n =>
        rw [Nat.succ_add, namedFieldWith_succ, namedFieldWith_succ]
        exact refines_fieldPart (harg g₂ hgoing.1 n) parts { f with names := [name] }
  · exact refines_fieldWith_le (Nat.le_add_right n c) parts _ _ g₁

/-- The fields of the instance in the file that declares the struct. -/
def boundFields (app : Application g.registry) : List (Go.Field × FileId) :=
  app.fields.map fun f => ({ f with type := f.type.substitute app.bindings }, app.decl.file)

theorem refines_readFields
    (harg : ∀ g₁, app.Later g₁ → ∀ n, Refines (resolveWith n app.argument.binding app.decl.file)
      (resolveWith (n + c) app.arg app.readIn) g₁) (n : Nat) (h : app.Later g₁) :
    Refines (structOf n app.boundFields) (structOf (n + c) app.readFields) g₁ := by
  refine refines_bind ?_ fun parts g₂ _ => refines_refl _ g₂
  rw [boundFields, readFields, List.foldlM_map, List.foldlM_map]
  exact refines_foldlM app.fields (fun _ _ _ _ _ => Going.field)
    (fun parts f g₂ hgoing => refines_readField harg f n hgoing) ⟨h, StructParts.allRefs_empty⟩

/-! ### The definition -/

/-- The instance has been declared for these arguments, and its definition is not yet begun. -/
structure IsNew (app : Application g.registry) : Prop where
  declared : app.registry.types[app.id]? = some app.inst
  fresh : g.parsed.lookup app.id = none
  out : app.id ∉ g.building

/-- Resolving the application builds the definition of the instance. -/
theorem runOn_resolveWith_type (hover : g.settings.overrides = []) (hnew : app.IsNew) (n : Nat) :
    (resolveWith (n + 5) app.type app.file).runOn g =
      (buildDefinition app.id app.inst (structOf n app.boundFields)).runOn
        { g with registry := app.registry } := by
  have hsymbol : (resolveWith (n + 5) app.type app.file).runOn g =
      (symbolWith (n + 4) app.id).runOn { g with registry := app.registry } := by
    rw [type, resolveWith, runOn_bind_ok _ (runOn_overrideWith hover (n + 3) _ app.file)]
    dsimp only
    rw [runOn_bind_ok _ (runOn_declaredType _ app.file g)]
    have hdeclared := app.declaredOf_type
    rw [type] at hdeclared
    rw [hdeclared]
  have hbuild := runOn_symbolWith_struct { g with registry := app.registry } hover hnew.declared
    app.inst_type app.notAlias hnew.fresh hnew.out n
  rw [hsymbol, hbuild, List.map_map]
  rfl

/-- An application is given more steps than its argument. -/
theorem fuelFor_type (app : Application g.registry) :
    g.fuelFor app.arg.weight + 10 ≤ g.fuelFor app.type.weight := by
  have hweight : app.arg.weight + 1 ≤ app.type.weight := by
    rw [type, TypeExpr.weight, TypeExpr.weights, TypeExpr.weights]
    omega
  have hmore : ∀ a b x y : Nat, x + 1 ≤ y →
      16 * (a + 2) * (b + x + 8) + 10 ≤ 16 * (a + 2) * (b + y + 8) := by
    intro a b x y hxy
    calc 16 * (a + 2) * (b + x + 8) + 10 ≤ 16 * (a + 2) * (b + x + 8) + 16 * (a + 2) := by omega
      _ = 16 * (a + 2) * (b + (x + 1) + 8) := by
        rw [← Nat.mul_succ]
        congr 1
      _ ≤ 16 * (a + 2) * (b + y + 8) := Nat.mul_le_mul_left _ (by omega)
  exact hmore _ _ _ _ hweight

/-! ### Properties -/

theorem get?_of_fieldWith (havoids : Field.Avoids g.settings.naming property f)
    (h : Going app g₁ parts) (hrun : (fieldWith n parts f file).runOn g₁ = (.ok parts', g₂)) :
    parts'.properties.get? property = parts.properties.get? property := by
  cases n with
  | zero =>
    rw [fieldWith] at hrun
    cases hrun
  | succ n =>
    rw [fieldWith, if_neg (by simpa using havoids.named)] at hrun
    -- one exported name after the other
    refine (runOn_foldlM_invariant (I := fun g₁ parts₁ => Going app g₁ parts₁ ∧
      parts₁.properties.get? property = parts.properties.get? property) ?_ ⟨h, rfl⟩ hrun).2
    rintro name hname parts₁ g₁ parts₂ g₂ ⟨hgoing, hkept⟩ hstep
    refine ⟨hgoing.namedField hstep, ?_⟩
    cases n with
    | zero =>
      rw [namedFieldWith] at hstep
      cases hstep
    | succ n =>
      rw [namedFieldWith_succ] at hstep
      have hother := havoids.other name (List.mem_filter.1 hname).1
      rw [← hgoing.1.settings] at hother
      exact (get?_of_fieldPart hother hstep).trans hkept

theorem get?_of_fields {fields : List (Go.Field × FileId)}
    (havoids : ∀ f ∈ fields, Field.Avoids g.settings.naming property f.1) (h : Going app g₁ parts)
    (hrun : (fields.foldlM (fun parts f => fieldWith n parts f.1 f.2) parts).runOn g₁ =
      (.ok parts', g₂)) :
    parts'.properties.get? property = parts.properties.get? property := by
  refine (runOn_foldlM_invariant (I := fun g₁ parts₁ => Going app g₁ parts₁ ∧
    parts₁.properties.get? property = parts.properties.get? property) ?_ ⟨h, rfl⟩ hrun).2
  rintro f hf parts₁ g₁ parts₂ g₂ ⟨hgoing, hkept⟩ hstep
  exact ⟨hgoing.field hstep, (get?_of_fieldWith (havoids f hf) hgoing hstep).trans hkept⟩

theorem avoids_readField (h : Field.Avoids g.settings.naming property f) :
    Field.Avoids g.settings.naming property (app.readField f).1 := by
  unfold readField
  split
  · exact ⟨h.named, h.other⟩
  · exact ⟨h.named, h.other⟩

theorem readField_of_isParam (hbare : Field.IsBare f name)
    (hparam : f.type.isParam app.param.name = true) :
    app.readField f = ({ f with type := app.arg }, app.readIn) := by
  rw [readField, hparam, hbare.names]
  rfl

/-- **The property of a field of the parameter's type** is the schema of the argument, in the state
in which the field is reached. -/
theorem property_of_fields (hlater : app.Later g₁)
    (hrun : (app.readFields.foldlM (fun parts f => fieldWith (n + 2) parts f.1 f.2) {}).runOn g₁ =
      (.ok parts, g₂))
    {before after : List Go.Field}
    (hfields : app.fields = before ++ f :: after) (hbare : Field.IsBare f name)
    (hparam : f.type.isParam app.param.name = true)
    (hlast : ∀ f' ∈ after, Field.Avoids g.settings.naming (g.settings.naming.apply name) f') :
    ∃ g', app.Later g' ∧
      ((∃ s, ((resolveWith n app.arg app.readIn).runOn g').1 = .ok s ∧
        parts.properties.get? (g.settings.naming.apply name) = some s) ∨
      ∃ e, ((resolveWith n app.arg app.readIn).runOn g').1 = .error e ∧ e.LeavesOut) := by
  rw [readFields, hfields, List.map_append, List.map_cons, readField_of_isParam hbare hparam,
    List.foldlM_append] at hrun
  -- the fields before it, the field, and the fields behind it, which leave its property alone
  obtain ⟨parts₁, g₃, hbefore, hrun⟩ := runOn_bind_eq_ok hrun
  rw [List.foldlM_cons] at hrun
  obtain ⟨parts₂, g₄, hfield, hafter⟩ := runOn_bind_eq_ok hrun
  have hgoing : Going app g₃ parts₁ := runOn_foldlM_invariant (fun _ _ _ _ _ _ => Going.field)
    ⟨hlater, StructParts.allRefs_empty⟩ hbefore
  have hkept := get?_of_fields (fun f' hf' => by
    obtain ⟨f'', hf'', rfl⟩ := List.mem_map.1 hf'
    exact avoids_readField (hlast f'' hf'')) (hgoing.field hfield) hafter
  refine ⟨g₃, hgoing.1, ?_⟩
  rcases (hbare.withType app.arg).of_fieldWith hfield with ⟨s, hs, hproperties⟩ | hleft
  · refine .inl ⟨s, hs, ?_⟩
    rw [hkept, hproperties, hgoing.1.settings, Table.get?_insert, if_pos rfl]
  · exact .inr hleft

/-! ### The instance -/

/-- The state in which the fields of the instance are gone through. -/
def entered (app : Application g.registry) : Resolver :=
  (Resolver.claim { g with registry := app.registry } app.id app.inst.typeName).enter app.id

theorem later_entered (hg : g.Sound) (hnew : app.IsNew)
    (hfree : g.names.get? app.inst.typeName = none) : app.Later app.entered :=
  ⟨(hg.ofGains app.gains_registry).claim_enter ⟨app.inst, hnew.declared, rfl⟩ hfree, rfl,
    Registry.Gains.refl _⟩

/-- **The application is the struct with the argument in place of the parameter.** -/
theorem runOn_resolve_type (hready : app.Ready) (hnew : app.IsNew)
    (hfinished : Finished ((resolve app.type app.file).runOn g)) :
    ∃ n₀, ∀ n ≥ n₀, (buildDefinition app.id app.inst (structOf n app.readFields)).runOn
      { g with registry := app.registry } = (resolve app.type app.file).runOn g := by
  obtain ⟨c, harg⟩ := refines_argument hready
  obtain ⟨k, hk⟩ : ∃ k, g.fuelFor app.type.weight = k + 5 :=
    Nat.exists_eq_add_of_le' (by have := fuelFor_type app; omega)
  have hrun : (resolve app.type app.file).runOn g =
      (buildDefinition app.id app.inst (structOf k app.boundFields)).runOn
        { g with registry := app.registry } := by
    rw [resolve, runOn_get_bind, hk]
    exact runOn_resolveWith_type hready.overrides hnew k
  have hsound := hready.sound.ofGains app.gains_registry
  refine ⟨k + c, fun n hn => ?_⟩
  rw [hrun] at hfinished ⊢
  refine refines_buildDefinition (fun hfree => ?_) (fun hkept => ?_) hfinished
  · exact refines_trans (refines_readFields harg k (later_entered hready.sound hnew hfree))
      (refines_structOf_le hn app.readFields)
  · -- a type that may be entered has no claim on its name yet
    exact absurd rfl (hsound.ne_of_fresh hnew.fresh hnew.out hkept)

/-- The argument names a declared type that is not an alias, or has no names. -/
def HasFixedSchema (app : Application g.registry) : Prop :=
  (∃ id d, app.argument.target = some id ∧ app.readRegistry.types[id]? = some d ∧
    d.isAlias = false) ∨ app.arg.FileFree

theorem HasFixedSchema.schema_eq (h : app.HasFixedSchema) (hready : app.Ready)
    (hlater : app.Later g₁) {s₁ : Schema}
    (hs : ((resolveWith n app.arg app.file).runOn g).1 = .ok s)
    (hs₁ : ((resolveWith m app.arg app.readIn).runOn g₁).1 = .ok s₁) : s₁ = s := by
  rcases h with ⟨id, d, htarget, hd, halias⟩ | hfree
  · have hnotTime := hready.notTime (by rw [htarget]; rfl)
    have hfirst := schema_of_declared app.plain hready.sound hready.overrides htarget hd hnotTime
      halias (Prod.ext hs rfl)
    -- in the later state the name stands for the same type, which has the same declaration
    have hdeclared := hlater.declaredOf hready.indexed
    have hid : (Registry.declaredOf app.file app.arg.peel.2 g₁.registry).1 = some id := by
      rw [hdeclared, htarget]
    have hd₁ : (Registry.declaredOf app.file app.arg.peel.2 g₁.registry).2.types[id]? = some d := by
      rw [hdeclared]
      exact (app.gains_bind.trans hlater.registry).grows hd
    rw [(of_target_some htarget).1] at hs₁
    have hlast := schema_of_declared app.plain hlater.sound (hlater.settings ▸ hready.overrides)
      hid hd₁ ((hlater.isTime _ _).trans hnotTime) halias (Prod.ext hs₁ rfl)
    exact Option.some.inj (hlast.symm.trans hfirst)
  · have hsame := outcome_of_fileFree hlater.settings hfree (finished_of_ok hs₁) (finished_of_ok hs)
    rw [hs, hs₁] at hsame
    exact Except.ok.inj hsame

/-- An argument without names is left out only if it has no schema in the file that uses the struct
either. -/
theorem ne_ok_of_leavesOut (hfree : app.arg.FileFree) (hlater : app.Later g₁) {e : DocError}
    (he : ((resolveWith m app.arg app.readIn).runOn g₁).1 = .error e) (hleft : e.LeavesOut)
    (s : Schema) : ((resolveWith n app.arg app.file).runOn g).1 ≠ .ok s := by
  intro hs
  have hfinished : Finished ((resolveWith m app.arg app.readIn).runOn g₁) := by
    rw [Finished, he]
    rintro ⟨⟩
    obtain ⟨type, h | h⟩ := hleft
    · cases h
    · cases h
  have hsame := outcome_of_fileFree hlater.settings hfree hfinished (finished_of_ok hs)
  rw [he, hs] at hsame
  cases hsame

/-- An application that resolves is a reference to the definition of the instance, whose properties
are those of the fields as they are read. -/
theorem definition_of_type (hready : app.Ready) (hnew : app.IsNew)
    (hrun : (resolve app.type app.file).runOn g = (.ok s, g₁)) :
    s = Schema.ref app.inst.typeName ∧ ∃ n parts g₂,
      g₁.definitions.get? app.inst.typeName =
        some (Schema.ofDecl app.inst parts.normalized.toSchema) ∧ app.Later app.entered ∧
      (app.readFields.foldlM (fun parts f => fieldWith (n + 2) parts f.1 f.2) {}).runOn
        app.entered = (.ok parts, g₂) := by
  obtain ⟨n₀, hn₀⟩ := runOn_resolve_type hready hnew (finished_of_ok (congrArg Prod.fst hrun))
  have hbuild := (hn₀ (n₀ + 2) (Nat.le_add_right n₀ 2)).trans hrun
  obtain ⟨hfree, b, g', hbody, href, rfl⟩ := runOn_buildDefinition_eq_ok
    (hready.sound.ofGains app.gains_registry) hnew.fresh hnew.out hbuild
  obtain ⟨parts, g₂, hparts, hpure⟩ := runOn_bind_eq_ok hbody
  cases hpure
  refine ⟨href, n₀, parts, _, ?_, later_entered hready.sound hnew hfree, hparts⟩
  rw [store, Table.get?_insert, if_pos rfl]

/-- A struct with nothing but a field of the parameter's type has an instance for every argument
that has a schema with a type. -/
theorem resolve_type_ok (hready : app.Ready) (hnew : app.IsNew)
    (hfields : app.fields = [f]) (hbare : Field.IsBare f name)
    (hparam : f.type.isParam app.param.name = true) (hfree : g.names.get? app.inst.typeName = none)
    (hs : (resolveWith (g.fuelFor app.arg.weight) app.arg app.readIn).runOn app.entered =
      (.ok s, g₁)) (hpath : g₁.typePath 2 s ≠ []) :
    ((resolve app.type app.file).runOn g).1 = .ok (Schema.ref app.inst.typeName) := by
  obtain ⟨k, hk⟩ := Nat.exists_eq_add_of_le' (fuelFor_type app)
  -- two steps go to the field, and five to the definition
  have hfuel : g.fuelFor app.type.weight = k + (g.fuelFor app.arg.weight + 3) + 2 + 5 := by omega
  have hlater := later_entered hready.sound hnew hfree
  have hbound : (resolveWith (k + (g.fuelFor app.arg.weight + 3)) app.argument.binding
      app.decl.file).runOn app.entered = (.ok s, g₁) :=
    (refines_trans (refines_binding hready hlater _)
      (refines_resolveWith_le (Nat.le_add_left _ k) _ _ _)).ok hs
  obtain ⟨parts, hfield⟩ := (hbare.withType app.argument.binding).fieldWith_ok {} hbound hpath
  have hbody : (structOf (k + (g.fuelFor app.arg.weight + 3) + 2) app.boundFields).runOn
      app.entered = (.ok parts.normalized.toSchema, g₁) := by
    rw [structOf, boundFields, hfields, List.map_cons, substitute_of_isParam hparam,
      List.foldlM_cons]
    rw [runOn_bind_ok _ ((runOn_bind_ok _ hfield).trans rfl)]
    rfl
  rw [resolve, runOn_get_bind, hfuel, runOn_resolveWith_type hready.overrides hnew,
    runOn_buildDefinition_free (g := { g with registry := app.registry }) hfree]
  exact congrArg (fun out => (afterBuild app.id app.inst out).1) hbody

/-- An argument without names that has a schema has it also where the fields are gone through. -/
theorem runOn_entered_of_fileFree (hfree : app.arg.FileFree)
    (hs : ((resolve app.arg app.file).runOn g).1 = .ok s) :
    (resolveWith (g.fuelFor app.arg.weight) app.arg app.readIn).runOn app.entered =
      (.ok s, app.entered) ∧ app.entered.typePath 2 s ≠ [] := by
  have hset : g.settings = app.entered.settings := rfl
  obtain ⟨r, hrun, hrun', hrefs⟩ := agree_resolveWith hset app.file app.readIn hfree
    (g.fuelFor app.arg.weight)
  obtain rfl : r = .ok s := (congrArg Prod.fst hrun).symm.trans hs
  exact ⟨hrun', (hrefs s rfl).typePath_ne_nil app.entered 1⟩

/-- **What an instance makes of its argument.**  The application does what building the struct does
whose fields of the parameter's type have the argument's type, read in the file that uses the struct
if it names a declared type and in the file that declares the struct if not.  So a bare field of the
parameter's type has the schema of the argument there as its property, unless that schema is missing
and the field is left out; and it is the schema that the argument has where it is written if it
names a declared type that is no alias, or has no names.  A struct with nothing but such a field has
an instance whenever the argument has a schema there. -/
theorem instance_reads_argument (app : Application g.registry) (hg : g.Sound)
    (hr : g.registry.Reachable) (hover : g.settings.overrides = []) (hnew : app.IsNew)
    (htime : app.NotTime) :
    (Finished ((resolve app.type app.file).runOn g) → ∃ n₀, ∀ n ≥ n₀,
      (buildDefinition app.id app.inst (structOf n app.readFields)).runOn
        { g with registry := app.registry } = (resolve app.type app.file).runOn g) ∧
    (∀ s g', (resolve app.type app.file).runOn g = (.ok s, g') →
      s = Schema.ref app.inst.typeName ∧ ∃ parts : StructParts,
      g'.definitions.get? app.inst.typeName = some (Schema.ofDecl app.inst parts.toSchema) ∧
      ∀ before f after name, app.fields = before ++ f :: after → Field.IsBare f name →
        f.type.isParam app.param.name = true →
        (∀ f' ∈ after, Field.Avoids g.settings.naming (g.settings.naming.apply name) f') →
        ∃ g₁ n, app.Later g₁ ∧
          ((∃ a, ((resolveWith n app.arg app.readIn).runOn g₁).1 = .ok a ∧
            parts.properties.get? (g.settings.naming.apply name) = some a ∧
            (app.HasFixedSchema → ∀ a', ((resolve app.arg app.file).runOn g).1 = .ok a' → a = a')) ∨
          ∃ e, ((resolveWith n app.arg app.readIn).runOn g₁).1 = .error e ∧ e.LeavesOut ∧
            (app.arg.FileFree → ∀ a', ((resolve app.arg app.file).runOn g).1 ≠ .ok a'))) ∧
    (∀ f name, app.fields = [f] → Field.IsBare f name → f.type.isParam app.param.name = true →
      g.names.get? app.inst.typeName = none →
      ((app.arg.FileFree ∧ ∃ a, ((resolve app.arg app.file).runOn g).1 = .ok a) ∨
        ∃ a g₁, (resolveWith (g.fuelFor app.arg.weight) app.arg app.readIn).runOn app.entered =
          (.ok a, g₁) ∧ g₁.typePath 2 a ≠ []) →
      ((resolve app.type app.file).runOn g).1 = .ok (Schema.ref app.inst.typeName)) := by
  have hready : app.Ready := ⟨hg, hr.wellIndexed, hover, htime⟩
  refine ⟨runOn_resolve_type hready hnew, fun s g' hrun => ?_, ?_⟩
  · obtain ⟨href, n, parts, g₂, hdefined, hentered, hparts⟩ := definition_of_type hready hnew hrun
    refine ⟨href, parts.normalized, hdefined, ?_⟩
    intro before f after name hfields hbare hparam hlast
    obtain ⟨g₁, hlater, hread⟩ := property_of_fields hentered hparts hfields hbare hparam hlast
    refine ⟨g₁, n, hlater, hread.imp ?_ ?_⟩
    · rintro ⟨a, ha, hproperty⟩
      exact ⟨a, ha, hproperty, fun hfixed a' ha' => hfixed.schema_eq hready hlater ha' ha⟩
    · rintro ⟨e, he, hleft⟩
      exact ⟨e, he, hleft, fun hfree a' => ne_ok_of_leavesOut hfree hlater he hleft a'⟩
  · intro f name hfields hbare hparam hfree harg
    obtain ⟨a, g₁, ha, hpath⟩ : ∃ a g₁, (resolveWith (g.fuelFor app.arg.weight) app.arg
        app.readIn).runOn app.entered = (.ok a, g₁) ∧ g₁.typePath 2 a ≠ [] := by
      rcases harg with ⟨hfileFree, a, ha⟩ | hentered
      · exact ⟨a, app.entered, runOn_entered_of_fileFree hfileFree ha⟩
      · exact hentered
    exact resolve_type_ok hready hnew hfields hbare hparam hfree ha hpath

/-- The field `Data T` of `Box[T any]`. -/
def dataField : Go.Field := ⟨["Data"], .ident "T", none, none, none⟩

/-- A package `web` with a type `Pet` and the type `Box`, and a package `pets` with another `Pet`,
which imports it. -/
def petBoxes : Registry :=
  let id : Go.Field := ⟨["ID"], .ident "int", none, none, none⟩
  let name : Go.Field := ⟨["Name"], .ident "string", none, none, none⟩
  let webPet : Go.Decl := .type ⟨"Pet", [], false, .struct [id], none, none, 0⟩
  let box : Go.Decl :=
    .type ⟨"Box", [⟨"T", .ident "any"⟩], false, .struct [dataField], none, none, 0⟩
  let pet : Go.Decl := .type ⟨"Pet", [], false, .struct [name], none, none, 0⟩
  let web : SourceUnit := ⟨"box.go", "app/web", .all, ⟨"web", [], [webPet, box], []⟩⟩
  let pets : SourceUnit := ⟨"pet.go", "app/pets", .all, ⟨"pets", [⟨none, "app/web"⟩], [pet], []⟩⟩
  ((({} : Registry).index web).2.parseTypes.index pets).2.parseTypes

/-- The state before anything is resolved. -/
def petsFresh : Resolver := Resolver.fresh petBoxes {}

/-- The type `web.Box[map[string]Pet]` in the file of the package `pets`. -/
def petBox : Application petsFresh.registry where
  file := 1
  base := .qualified "web" "Box"
  arg := .map (.ident "string") (.ident "Pet")
  generic := 1
  decl := { file := 0, packagePath := "app/web", packageName := "web", name := "Box", func := none,
            params := [⟨"T", .ident "any"⟩], isAlias := false, type := .struct [dataField],
            doc := none, comment := none }
  param := ⟨"T", .ident "any"⟩
  fields := [dataField]
  found := by decide +kernel
  declared := by with_unfolding_all rfl
  params := rfl
  struct := rfl
  notAlias := rfl
  plain := .literal rfl

theorem isNew_petBox : petBox.IsNew where
  declared := by with_unfolding_all rfl
  fresh := rfl
  out := List.not_mem_nil

theorem isBare_dataField : Field.IsBare dataField "Data" := ⟨rfl, by decide, rfl, rfl⟩

theorem argument_petBox : ∃ a g₁,
    (resolveWith (petsFresh.fuelFor petBox.arg.weight) petBox.arg petBox.readIn).runOn
      petBox.entered = (.ok a, g₁) ∧ g₁.typePath 2 a ≠ [] := by
  have hcheck : (fun out : Except DocError Schema × Resolver =>
      out.1.toOption.any fun a => !(out.2.typePath 2 a).isEmpty)
        ((resolveWith (petsFresh.fuelFor petBox.arg.weight) petBox.arg petBox.readIn).runOn
          petBox.entered) = true := by decide +kernel
  cases hrun : (resolveWith (petsFresh.fuelFor petBox.arg.weight) petBox.arg petBox.readIn).runOn
      petBox.entered with
  | mk out g₁ =>
    rw [hrun] at hcheck
    cases out with
    | ok a => exact ⟨a, g₁, rfl, by simpa [Except.toOption] using hcheck⟩
    | error e => cases hcheck

/-- The argument means `pets.Pet` where it is written, and the definition refers to `web.Pet`. -/
theorem instance_reads_argument_map :
    petBox.file ≠ petBox.readIn ∧
    ((resolve petBox.arg petBox.file).runOn petsFresh).1.toOption.map Schema.references =
      some ["#/definitions/pets.Pet"] ∧
    ∃ g' parts, (resolve petBox.type petBox.file).runOn petsFresh =
        (.ok (Schema.ref "web.Box-map[string]Pet"), g') ∧
      g'.definitions.get? "web.Box-map[string]Pet" =
        some (Schema.ofDecl petBox.inst (StructParts.toSchema parts)) ∧
      (Schema.ofDecl petBox.inst parts.toSchema).references = ["#/definitions/web.Pet"] := by
  have hreach : petBoxes.Reachable :=
    (((Registry.Reachable.empty none).index _).collect.index _).collect
  have hname : petBox.inst.typeName = "web.Box-map[string]Pet" := by decide +kernel
  have hrefs : (((resolve petBox.type petBox.file).runOn petsFresh).2.definitions.get?
      "web.Box-map[string]Pet").map Schema.references = some ["#/definitions/web.Pet"] := by
    decide +kernel
  obtain ⟨-, hdefinition, hok⟩ := instance_reads_argument petBox (sound_fresh petBoxes {}) hreach
    rfl isNew_petBox fun _ => rfl
  have hrun := hok dataField "Data" rfl isBare_dataField rfl rfl (Or.inr argument_petBox)
  obtain ⟨-, parts, hdefined, -⟩ := hdefinition _ _ (Prod.ext hrun rfl)
  rw [hname] at hrun hdefined
  rw [hdefined] at hrefs
  exact ⟨by decide +kernel, by decide +kernel, _, parts, Prod.ext hrun rfl, hdefined,
    Option.some.inj hrefs⟩

end Application

end GoApiDoc
