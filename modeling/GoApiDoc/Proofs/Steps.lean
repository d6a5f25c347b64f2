/-
More steps keep a finished answer.

The functions that resolve types are given a number of steps, and running out of them is an error of
its own.  That error is never looked away: a field hands it on, and so does every type on the way.
So a run that ends in any other way never ran out of steps inside, and more steps change nothing in
it: neither the outcome nor the state that is left.

* `Resolver.refinesWith` — **one more step refines every function that resolves types**.
-/

import GoApiDoc.Proofs.Resolve

set_option autoImplicit false

namespace GoApiDoc

open Go (TypeId TypeExpr)

variable {id : TypeId} {n m : Nat}

/-! ### The judgement -/

namespace Resolving

variable {α β γ : Type} {g : Resolver} {x y z : Resolving α} {a : α}

/-- The run did not end for want of steps. -/
def Finished (r : Except DocError α × Resolver) : Prop := r.1 ≠ .error .endless

theorem finished_of_ok {r : Except DocError α × Resolver} (h : r.1 = .ok a) : Finished r := by
  simp [Finished, h]

/-- From the state the second computation does what the first does, unless that runs out of steps. -/
def Refines (x y : Resolving α) (g : Resolver) : Prop :=
  Finished (x.runOn g) → y.runOn g = x.runOn g

theorem refines_refl (x : Resolving α) (g : Resolver) : Refines x x g := fun _ => rfl

/-- A value is kept. -/
theorem Refines.ok (h : Refines x y g) {g' : Resolver} (hx : x.runOn g = (.ok a, g')) :
    y.runOn g = (.ok a, g') := by
  rw [h (finished_of_ok (congrArg Prod.fst hx)), hx]

theorem refines_trans (hxy : Refines x y g) (hyz : Refines y z g) : Refines x z g := by
  intro hx
  have hy := hxy hx
  rw [← hy] at hx
  exact (hyz hx).trans hy

theorem refines_endless (y : Resolving α) (g : Resolver) : Refines (throw .endless) y g :=
  fun h => absurd rfl h

theorem refines_bind {f f' : α → Resolving β} (hx : Refines x y g)
    (hf : ∀ a g', x.runOn g = (.ok a, g') → Refines (f a) (f' a) g') :
    Refines (x >>= f) (y >>= f') g := by
  intro h
  rcases hrun : x.runOn g with ⟨e | a, g'⟩
  · rw [runOn_bind_error f hrun] at h ⊢
    have hy : y.runOn g = (.error e, g') := by
      rw [hx (by simpa [Finished, hrun] using h), hrun]
    rw [runOn_bind_error f' hy]
  · rw [runOn_bind_ok f hrun] at h ⊢
    rw [runOn_bind_ok f' (hx.ok hrun)]
    exact hf a g' hrun h

theorem refines_get_bind {f f' : Resolver → Resolving β} (hf : Refines (f g) (f' g) g) :
    Refines (get >>= f) (get >>= f') g := hf

theorem refines_whileBuilding (hx : Refines x y (g.enter id)) :
    Refines (whileBuilding id x) (whileBuilding id y) g := by
  intro h
  rw [runOn_whileBuilding] at h ⊢
  rw [runOn_whileBuilding, hx h]

/-- A run over a list, where the steps of the first computation keep what is needed of the state. -/
theorem refines_foldlM {f f' : α → γ → Resolving α} {I : Resolver → α → Prop} (l : List γ)
    (hI : ∀ a c g b g', I g a → (f a c).runOn g = (.ok b, g') → I g' b)
    (hf : ∀ a c g, I g a → Refines (f a c) (f' a c) g) (ha : I g a) :
    Refines (l.foldlM f a) (l.foldlM f' a) g := by
  induction l generalizing g a with
  | nil => exact refines_refl _ g
  | cons c l ih =>
    rw [List.foldlM_cons, List.foldlM_cons]
    exact refines_bind (hf a c g ha) fun b g' hrun => ih (hI a c g b g' ha hrun)

/-- **Looking at errors.**  What follows must hand on the want of steps. -/
theorem refines_outcome_bind {f f' : Except DocError α → Resolving β} (hx : Refines x y g)
    (hf : ∀ r g', x.runOn g = (r, g') → Refines (f r) (f' r) g')
    (hendless : ∀ g', ¬Finished ((f (.error .endless)).runOn g')) :
    Refines (outcome x >>= f) (outcome y >>= f') g := by
  intro h
  rw [runOn_bind_ok f (runOn_outcome x g)] at h ⊢
  have hfinished : Finished (x.runOn g) := by
    intro hend
    rw [hend] at h
    exact hendless _ h
  rw [runOn_bind_ok f' (runOn_outcome y g), hx hfinished]
  exact hf _ _ rfl h

end Resolving

namespace Resolver

open Resolving

variable {g : Resolver}

theorem refines_buildDefinition {d : TypeDecl} {body body' : Resolving Schema}
    (hbody : g.names.get? d.typeName = none → Refines body body' ((g.claim id d.typeName).enter id))
    (hkept : g.names.get? d.typeName = some id → Refines body body' (g.enter id)) :
    Refines (buildDefinition id d body) (buildDefinition id d body') g := by
  refine refines_bind (refines_refl _ g) fun a g' hclaim => ?_
  -- the body is run under the claim, which is new or was the type's already
  have hwhile : Refines (whileBuilding id body) (whileBuilding id body') g' := by
    apply refines_whileBuilding
    cases hn : g.names.get? d.typeName with
    | none =>
      rw [runOn_claimName_free hn] at hclaim
      cases hclaim
      exact hbody hn
    | some other =>
      by_cases hother : other = id
      · subst hother
        have hsame : (claimName other d).runOn g = (.ok (), g) := by
          unfold claimName
          simp [hn]
        rw [hsame] at hclaim
        cases hclaim
        exact hkept hn
      · rw [runOn_claimName_taken hn hother] at hclaim
        cases hclaim
  refine refines_outcome_bind hwhile (fun _ g'' _ => refines_refl _ g'') fun g'' h => ?_
  exact h rfl

theorem refines_passThrough {fields fields' : Resolving StructParts}
    (hfields : Refines fields fields' ((g.noteOpen id).enter id)) :
    Refines (passThrough id fields) (passThrough id fields') g := by
  refine refines_bind (refines_refl _ g) fun a g' hopen => ?_
  rw [runOn_leaveOpen] at hopen
  cases hopen
  exact refines_whileBuilding hfields

/-- A field hands on the want of steps. -/
theorem refines_fieldPart {x y : Resolving Schema} (hx : Refines x y g) (parts : StructParts)
    (f : Go.Field) : Refines (fieldPart parts f x) (fieldPart parts f y) g := by
  unfold fieldPart
  split
  · exact refines_refl _ g
  refine refines_get_bind ?_
  split
  · exact refines_refl _ g
  refine refines_bind (refines_refl _ g) fun o g' ho => ?_
  rw [runOn_ofResult] at ho
  obtain rfl : g = g' := congrArg Prod.snd ho
  cases o with
  | some s => exact refines_refl _ g
  | none => exact refines_outcome_bind hx (fun _ g' _ => refines_refl _ g') fun _ h => h rfl

/-! ### The recursion -/

theorem congruence_refines : Congruence (fun _ x y => ∀ g, Refines x y g) Eq where
  leaf _ := refines_refl _
  fail _ := refines_refl _
  bind hx hf g := refines_bind (hx g) fun a g' _ => hf a g'
  read _ hf g := refines_get_bind (hf g g)
  view h := h ▸ SameView.refl _
  declared _ _ := refines_refl _
  build _ _ _ _ h _ := refines_buildDefinition (fun _ => h _) fun _ => h _
  pass _ _ _ h _ := refines_passThrough (h _)
  field parts f _ _ h g := refines_fieldPart (h g) parts f

/-- **One more step changes nothing in a run that does not end for want of steps.** -/
theorem refinesWith (fuel : Nat) :
    Relates (fun _ x y => ∀ g, Refines x y g) fuel (fuel + 1) :=
  relates congruence_refines (fun h => h ▸ rfl) (fun _ => refines_endless _) fuel

/-! ### Many steps -/

/-- What one more step refines, many do. -/
theorem refines_le {α : Type} {x : Nat → Resolving α} (h : ∀ n g, Refines (x n) (x (n + 1)) g)
    (hle : n ≤ m) (g : Resolver) : Refines (x n) (x m) g := by
  induction hle with
  | refl => exact refines_refl _ g
  | step _ ih => exact refines_trans ih (h _ g)

theorem refines_resolveWith_le (h : n ≤ m) (t : TypeExpr) (file : FileId) (g : Resolver) :
    Refines (resolveWith n t file) (resolveWith m t file) g :=
  refines_le (fun n g => (refinesWith n).resolve t file g) h g

theorem refines_symbolWith_le (h : n ≤ m) (id : TypeId) (g : Resolver) :
    Refines (symbolWith n id) (symbolWith m id) g :=
  refines_le (fun n g => (refinesWith n).symbol id g) h g

theorem refines_fieldWith_le (h : n ≤ m) (parts : StructParts) (f : Go.Field) (file : FileId)
    (g : Resolver) : Refines (fieldWith n parts f file) (fieldWith m parts f file) g :=
  refines_le (fun n g => (refinesWith n).field parts f file g) h g

end Resolver

end GoApiDoc
