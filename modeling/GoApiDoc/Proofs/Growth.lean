/-
The registry while types are resolved.

Whatever a computation does, and however it ends, the registry that it leaves has all types of the
one it started with, and otherwise instances only.  Nothing has to be known of the state for that,
so what is found in the registry in the middle of a run can be looked up again in the one that is
left at the end.

* `Resolver.enlargesWith` — **every function that resolves types enlarges the registry**.
-/

import GoApiDoc.Proofs.Reading

set_option autoImplicit false

namespace GoApiDoc

open Go (TypeId TypeExpr)

/-! ### The judgement -/

namespace Resolving

variable {α β : Type} {x : Resolving α}

/-- From every state the computation leaves a registry that has gained instances at most. -/
def Enlarges (x : Resolving α) : Prop :=
  ∀ g : Resolver, g.registry.Gains (x.runOn g).2.registry

theorem enlarges_pure (a : α) : Enlarges (pure a) := fun _ => Registry.Gains.refl _

theorem enlarges_throw (e : DocError) : Enlarges (throw e : Resolving α) :=
  fun _ => Registry.Gains.refl _

theorem enlarges_ofResult (r : Except DocError α) : Enlarges (ofResult r) := by
  intro g
  rw [runOn_ofResult]
  exact .refl _

theorem enlarges_bind {f : α → Resolving β} (hx : Enlarges x) (hf : ∀ a, Enlarges (f a)) :
    Enlarges (x >>= f) := by
  intro g
  have hfirst := hx g
  rcases hrun : x.runOn g with ⟨e | a, g₁⟩
  all_goals rw [hrun] at hfirst
  · rw [runOn_bind_error f hrun]
    exact hfirst
  · rw [runOn_bind_ok f hrun]
    exact hfirst.trans (hf a g₁)

/-- What follows may be chosen by the state. -/
theorem enlarges_get_bind {f : Resolver → Resolving β} (hf : ∀ g, Enlarges (f g)) :
    Enlarges (get >>= f) :=
  fun g => hf g g

theorem enlarges_outcome (hx : Enlarges x) : Enlarges (outcome x) := hx

theorem enlarges_whileBuilding (id : TypeId) (hx : Enlarges x) : Enlarges (whileBuilding id x) := by
  intro g
  rw [runOn_whileBuilding]
  exact hx (g.enter id)

theorem enlarges_foldlM {γ : Type} {f : α → γ → Resolving α} (l : List γ)
    (hf : ∀ a c, Enlarges (f a c)) (a : α) : Enlarges (l.foldlM f a) := by
  induction l generalizing a with
  | nil => exact enlarges_pure a
  | cons c l ih =>
    rw [List.foldlM_cons]
    exact enlarges_bind (hf a c) ih

end Resolving

/-! ### The parts of the functions -/

namespace Resolver

open Resolving

theorem enlarges_builtinSchema (name : String) : Enlarges (builtinSchema name) := by
  unfold builtinSchema
  split
  · exact enlarges_pure _
  · exact enlarges_throw _

theorem enlarges_declaredType (t : TypeExpr) (file : FileId) : Enlarges (declaredType t file) := by
  intro g
  rw [runOn_declaredType]
  exact Registry.gains_declaredOf file t g.registry

theorem enlarges_claimName (id : TypeId) (d : TypeDecl) : Enlarges (claimName id d) := by
  unfold claimName
  refine enlarges_get_bind fun g => ?_
  split
  · split
    · exact enlarges_pure _
    · exact enlarges_throw _
  · exact fun _ => Registry.Gains.refl _

variable {id : TypeId}

theorem enlarges_buildDefinition {d : TypeDecl} {body : Resolving Schema}
    (hbody : Enlarges body) : Enlarges (buildDefinition id d body) := by
  unfold buildDefinition
  refine enlarges_bind (enlarges_claimName id d) fun _ => ?_
  refine enlarges_bind (enlarges_outcome (enlarges_whileBuilding id hbody)) fun o => ?_
  cases o with
  | ok s | error e => exact fun _ => Registry.Gains.refl _

theorem enlarges_passThrough {fields : Resolving StructParts}
    (hfields : Enlarges fields) : Enlarges (passThrough id fields) :=
  enlarges_bind (fun _ => Registry.Gains.refl _) fun _ => enlarges_whileBuilding id hfields

theorem enlarges_addResolved (parts : StructParts) (f : Go.Field) (property : String)
    (resolved : Except DocError Schema) : Enlarges (addResolved parts f property resolved) := by
  unfold addResolved
  refine enlarges_get_bind fun g => ?_
  split
  · exact enlarges_bind (enlarges_ofResult _) enlarges_pure
  · exact enlarges_pure _
  · split
    · exact enlarges_throw _
    · exact enlarges_pure _
  · exact enlarges_throw _

theorem enlarges_fieldPart {x : Resolving Schema} (parts : StructParts) (f : Go.Field)
    (hx : Enlarges x) : Enlarges (fieldPart parts f x) := by
  unfold fieldPart
  split
  · exact enlarges_pure _
  refine enlarges_get_bind fun g => ?_
  split
  · exact enlarges_pure _
  refine enlarges_bind (enlarges_ofResult _) fun o => ?_
  cases o with
  | some s => exact enlarges_addResolved parts f _ _
  | none =>
    exact enlarges_bind (enlarges_outcome hx) fun _ => enlarges_addResolved parts f _ _

/-! ### The recursion -/

theorem congruence_enlarges : Congruence (fun _ x _ => Enlarges x) Eq where
  leaf := enlarges_pure
  fail := enlarges_throw
  bind := enlarges_bind
  read _ := enlarges_get_bind
  view h := h ▸ SameView.refl _
  declared := enlarges_declaredType
  build _ _ := enlarges_buildDefinition
  pass _ := enlarges_passThrough
  field parts f _ _ := enlarges_fieldPart parts f

/-- **Every function that resolves types enlarges the registry**, whatever the number of steps. -/
theorem enlargesWith (fuel : Nat) : Relates (fun _ x _ => Enlarges x) fuel fuel :=
  relates (k := 0) congruence_enlarges (fun h => h ▸ rfl) (fun _ => enlarges_throw _) fuel

theorem enlarges_symbolOf (fuel : Nat) (t : TypeExpr) (o : Option TypeId) :
    Enlarges (symbolOf fuel t o) :=
  relates_symbolOf congruence_enlarges (enlargesWith fuel) t o

theorem enlarges_embeddedOf (fuel : Nat) (parts : StructParts) (f : Go.Field) (file : FileId)
    (o : Option TypeId) : Enlarges (embeddedOf fuel parts f file o) :=
  relates_embeddedOf congruence_enlarges (enlargesWith fuel) (fun h => h ▸ rfl) parts f file o

theorem enlarges_embedFields (fuel : Nat) (parts : StructParts) (id : TypeId) (d : TypeDecl)
    (fields : List Go.Field) (readOnly : Bool) :
    Enlarges (embedFields parts id readOnly (structWith fuel fields d.file)) := by
  refine enlarges_get_bind fun g => ?_
  split
  · exact enlarges_throw _
  · exact enlarges_bind (enlarges_passThrough ((enlargesWith fuel).struct fields d.file)) fun _ =>
      enlarges_pure _

end Resolver

end GoApiDoc
