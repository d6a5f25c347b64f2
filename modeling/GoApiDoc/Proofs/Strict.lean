/-
Strict mode while types are resolved.

A field whose type has no schema is left out, or is an error in strict mode.  That error comes up
through every type on the way, for each of them looks at errors and hands this one on.  So a strict
run either ends with it, or goes through the same states as the other one, up to the mode itself.

* `Resolving.Gated` — **the two runs of a computation agree, unless the strict one is refused**.
-/

import GoApiDoc.Operation.Composite
import GoApiDoc.Proofs.Congruence
import GoApiDoc.Proofs.Definition

set_option autoImplicit false

namespace GoApiDoc

open Go (TypeId TypeExpr)

/-! ### Modes -/

/-- The settings with strict mode switched on or off. -/
def Settings.mode (s : Settings) (strict : Bool) : Settings := { s with strict := strict }

/-- The state with strict mode switched on or off. -/
def Resolver.mode (g : Resolver) (strict : Bool) : Resolver :=
  { g with settings := g.settings.mode strict }

namespace Resolving

variable {α β : Type} {x : Resolving α}

/-- The outcome in strict mode is the refusal of a type without a schema. -/
def Refused (r : Except DocError α) : Prop := ∃ type, r = .error (.unsupportedField type)

/-- From states that differ in the mode only, the two runs have the same outcome and leave states
that differ in the mode only, unless the strict one is refused. -/
def Gated (x : Resolving α) : Prop :=
  ∀ g : Resolver, ∃ (r : Except DocError α) (g' : Resolver),
    x.runOn (g.mode true) = (r, g'.mode true) ∧
    (x.runOn (g.mode false) = (r, g'.mode false) ∨ Refused r)

theorem gated_pure (a : α) : Gated (pure a) := fun g => ⟨.ok a, g, rfl, .inl rfl⟩

theorem gated_throw (e : DocError) : Gated (throw e : Resolving α) :=
  fun g => ⟨.error e, g, rfl, .inl rfl⟩

theorem gated_bind {f : α → Resolving β} (hx : Gated x)
    (hf : ∀ a, Gated (f a)) : Gated (x >>= f) := by
  intro g
  obtain ⟨r, g', hstrict, hlenient⟩ := hx g
  cases r with
  | error e =>
    refine ⟨.error e, g', runOn_bind_error f hstrict, ?_⟩
    rcases hlenient with h | ⟨type, h⟩
    · exact .inl (runOn_bind_error f h)
    · exact .inr ⟨type, congrArg Except.error (Except.error.inj h)⟩
  | ok a =>
    rcases hlenient with h | ⟨type, h⟩
    · obtain ⟨r, g'', hstrict', hlenient'⟩ := hf a g'
      refine ⟨r, g'', (runOn_bind_ok f hstrict).trans hstrict', ?_⟩
      exact hlenient'.imp_left fun h' => (runOn_bind_ok f h).trans h'
    · cases h

/-- A state is read for something that does not depend on the mode. -/
theorem gated_get_bind {f : Resolver → Resolving β}
    (hmode : ∀ g : Resolver, f (g.mode true) = f (g.mode false))
    (hf : ∀ g : Resolver, Gated (f (g.mode true))) : Gated (get >>= f) := by
  intro g
  obtain ⟨r, g', hstrict, hlenient⟩ := hf g g
  refine ⟨r, g', hstrict, hlenient.imp_left fun h => ?_⟩
  rw [hmode g] at h
  exact h

theorem gated_modify {f : Resolver → Resolver}
    (hmode : ∀ (g : Resolver) (b : Bool), f (g.mode b) = (f g).mode b) : Gated (modify f) :=
  fun g => ⟨.ok (), f g, congrArg (Prod.mk _) (hmode g true),
    Or.inl (congrArg (Prod.mk _) (hmode g false))⟩

theorem gated_ofResult (r : Except DocError α) : Gated (ofResult r) := by
  cases r with
  | ok a => exact gated_pure a
  | error e => exact gated_throw e

theorem gated_onRegistry (f : Registry → α × Registry) : Gated (onRegistry f) :=
  fun g => ⟨_, { g with registry := (f g.registry).2 }, rfl, .inl rfl⟩

theorem gated_whileBuilding (hx : Gated x) (id : TypeId) : Gated (whileBuilding id x) := by
  intro g
  obtain ⟨r, g', hstrict, hlenient⟩ := hx (g.enter id)
  refine ⟨r, g'.leave, ?_, hlenient.imp_left fun h => ?_⟩
  · rw [runOn_whileBuilding]
    change ((runOn x ((g.enter id).mode true)).1, (runOn x ((g.enter id).mode true)).2.leave) = _
    rw [hstrict]
    rfl
  · rw [runOn_whileBuilding]
    change ((runOn x ((g.enter id).mode false)).1, (runOn x ((g.enter id).mode false)).2.leave) = _
    rw [h]
    rfl

/-- **Looking at errors.**  What follows must agree for all outcomes but refusals, and must hand on a
refusal in strict mode. -/
theorem gated_outcome_bind {f : Except DocError α → Resolving β} (hx : Gated x)
    (hf : ∀ r, ¬ Refused r → Gated (f r)) (hrefuse : ∀ type (g : Resolver), ∃ g' : Resolver,
      (f (.error (.unsupportedField type))).runOn (g.mode true) =
        (.error (.unsupportedField type), g'.mode true)) : Gated (outcome x >>= f) := by
  intro g
  obtain ⟨r, g', hstrict, hlenient⟩ := hx g
  have houtcome : runOn (outcome x >>= f) (g.mode true) = runOn (f r) (g'.mode true) := by
    rw [runOn_bind_ok f (runOn_outcome x _), hstrict]
  rw [houtcome]
  by_cases hr : Refused r
  · -- the lenient run may have gone on, so nothing is said about it
    obtain ⟨type, rfl⟩ := hr
    obtain ⟨g'', hrun⟩ := hrefuse type g'
    exact ⟨_, g'', hrun, .inr ⟨type, rfl⟩⟩
  · obtain ⟨r', g'', hstrict', hlenient'⟩ := hf r hr g'
    refine ⟨r', g'', hstrict', hlenient'.imp_left fun h' => ?_⟩
    rw [runOn_bind_ok f (runOn_outcome x _), hlenient.resolve_right hr]
    exact h'

end Resolving

/-! ### Leaves -/

namespace Resolver

open Resolving

theorem gated_declaredType (t : TypeExpr) (file : FileId) : Gated (declaredType t file) := by
  unfold declaredType
  split
  · exact gated_pure _
  iterate 3
    · exact gated_onRegistry _
  · exact gated_pure _

theorem gated_claimName (id : TypeId) (d : TypeDecl) : Gated (claimName id d) := by
  unfold claimName
  refine gated_get_bind (fun _ => rfl) fun g => ?_
  split
  · split
    · exact gated_pure _
    · exact gated_throw _
  · exact gated_modify fun _ _ => rfl

/-- A build that is refused gives its name back and is refused. -/
theorem gated_buildDefinition {body : Resolving Schema} (hbody : Gated body) (id : TypeId)
    (d : TypeDecl) : Gated (buildDefinition id d body) := by
  unfold buildDefinition
  refine gated_bind (gated_claimName id d) fun _ => ?_
  refine gated_outcome_bind (gated_whileBuilding hbody id) ?_ ?_
  · intro r _
    cases r with
    | ok s => exact gated_bind (gated_modify fun _ _ => rfl) fun _ => gated_pure _
    | error e =>
      refine gated_bind (gated_bind (gated_modify fun _ _ => rfl) fun _ => ?_) fun _ =>
        gated_throw e
      exact gated_modify fun _ _ => rfl
  · exact fun type g => ⟨g.release id d.typeName, rfl⟩

theorem gated_addResolved (parts : StructParts) (f : Go.Field) (property : String)
    {resolved : Except DocError Schema} (h : ¬ Refused resolved) :
    Gated (addResolved parts f property resolved) := by
  unfold addResolved
  cases resolved with
  | ok s =>
    refine gated_get_bind (fun _ => rfl) fun g => ?_
    exact gated_bind (gated_ofResult _) fun _ => gated_pure _
  | error e =>
    cases e
    case unsupportedField type => exact absurd ⟨type, rfl⟩ h
    case skippedField type => exact gated_get_bind (fun _ => rfl) fun _ => gated_pure _
    all_goals exact gated_get_bind (fun _ => rfl) fun _ => gated_throw _

theorem gated_fieldPart (parts : StructParts) (f : Go.Field) {x : Resolving Schema} (hx : Gated x) :
    Gated (fieldPart parts f x) := by
  unfold fieldPart
  split
  · exact gated_pure parts
  refine gated_get_bind (fun _ => rfl) fun g => ?_
  split
  · exact gated_pure parts
  · next property _ =>
    refine gated_bind (gated_ofResult _) fun o => ?_
    cases o with
    | some s =>
      refine gated_addResolved parts f property ?_
      rintro ⟨type, htype⟩
      cases htype
    | none =>
      exact gated_outcome_bind hx (fun _ h => gated_addResolved parts f property h) fun _ g =>
        ⟨g, rfl⟩

/-! ### The recursion -/

/-- Only the computation itself is related to itself, and states that differ in the mode look the
same. -/
theorem congruence_gated : Congruence (fun _ x y => x = y ∧ Gated x)
    (fun g h => ∃ k : Resolver, g = k.mode true ∧ h = k.mode false) where
  leaf a := ⟨rfl, gated_pure a⟩
  fail e := ⟨rfl, gated_throw e⟩
  bind := by
    rintro _ _ x _ f f' ⟨rfl, hx⟩ hf
    obtain rfl : f = f' := funext fun a => (hf a).1
    exact ⟨rfl, gated_bind hx fun a => (hf a).2⟩
  read := by
    rintro _ f f' hread hf
    obtain rfl : f = f' := funext fun g => (hf g).1
    exact ⟨rfl, gated_get_bind (fun k => ((hread ⟨k, rfl, rfl⟩).1).symm) fun g => (hf _).2⟩
  view := by
    rintro _ _ ⟨k, rfl, rfl⟩
    exact ⟨rfl, rfl, fun _ _ => rfl, rfl, rfl, fun _ => rfl⟩
  declared t file := ⟨rfl, gated_declaredType t file⟩
  build id d := by
    rintro body _ ⟨rfl, hbody⟩
    exact ⟨rfl, gated_buildDefinition hbody id d⟩
  pass id := by
    rintro fields _ ⟨rfl, hfields⟩
    exact ⟨rfl, gated_bind (gated_modify fun _ _ => rfl) fun _ => gated_whileBuilding hfields id⟩
  field parts f := by
    rintro x _ ⟨rfl, hx⟩
    exact ⟨rfl, gated_fieldPart parts f hx⟩

/-- **Every function that resolves types is gated**, whatever the number of steps. -/
theorem gatedWith (fuel : Nat) : Relates (fun _ x y => x = y ∧ Gated x) fuel fuel :=
  relates congruence_gated (by rintro _ _ ⟨k, rfl, rfl⟩; rfl)
    (fun hy => ⟨(hy rfl).symm, gated_throw _⟩) fuel

theorem gated_resolveText (text : String) (file : FileId) : Gated (resolveText text file) :=
  gated_get_bind (fun _ => rfl) fun _ => ((gatedWith _).text text file).2

end Resolver

/-! ### Types that annotations write -/

namespace Composite

open Resolving

mutual

theorem gated_schema (file : FileId) : ∀ c : Composite, Gated (c.schema file)
  | nothing | anyObject | anything | simple _ => by
    rw [schema]
    exact gated_pure _
  | array elem => by
    rw [schema]
    exact gated_bind (gated_schema file elem) fun _ => gated_pure _
  | map value => by
    rw [schema]
    exact gated_bind (gated_schema file value) fun _ => gated_pure _
  | combined base fields => by
    rw [schema]
    refine gated_bind (gated_schema file base) fun _ => ?_
    exact gated_bind (gated_fieldSchemas file fields []) fun _ => gated_pure _
  | named text => by
    rw [schema]
    exact gated_bind (Resolver.gated_resolveText text file) fun _ => gated_pure _
  | unreadable text => by
    rw [schema]
    exact gated_throw _

theorem gated_fieldSchemas (file : FileId) : ∀ (fields : List (String × Composite))
    (t : Table Schema), Gated (fieldSchemas file t fields)
  | [], t => by
    rw [fieldSchemas]
    exact gated_pure t
  | (key, value) :: fields, t => by
    rw [fieldSchemas]
    refine gated_bind (gated_schema file value) fun _ => ?_
    exact gated_fieldSchemas file fields _

end

end Composite

theorem gated_annotatedSchema? (file : FileId) (text : String) :
    Resolving.Gated (annotatedSchema? file text) :=
  Composite.gated_schema file _

theorem gated_annotatedSchema (file : FileId) (text : String) :
    Resolving.Gated (annotatedSchema file text) :=
  Resolving.gated_bind (gated_annotatedSchema? file text) fun _ => Resolving.gated_pure _

end GoApiDoc
