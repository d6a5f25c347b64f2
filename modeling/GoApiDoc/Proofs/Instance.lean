/-
Looking up types only adds instances.

A look-up may make instances of generic declarations.  They are put behind the types that are there,
so that every type keeps its number and its declaration.

* `Registry.LookUpLaw.obeyedWith` — **what look-ups keep**, by what a new instance keeps;
* `Registry.gains_findType`, `Registry.gains_instantiate` — **look-ups and instances only add
  instances**.
-/

import GoApiDoc.Registry.Generic

set_option autoImplicit false

namespace GoApiDoc.Registry

open Go (TypeId TypeExpr)

/-! ### Arguments -/

/-- The declared type that a type without layers stands for, with a number of steps. -/
def elementWith (file : FileId) (k : Nat) (e : TypeExpr) (r : Registry) :
    Option TypeId × Registry :=
  match e with
  | .resolved id => (some id, r)
  | .ident _ | .qualified _ _ => findTypeWith k r e.text file
  | .generic base args =>
    match r.lookupType? base.text file with
    | some (id, _) => instantiateWith k r id args file
    | none => (none, r)
  | _ => (none, r)

theorem resolveArgWith_succ (k : Nat) (r : Registry) (a : TypeExpr) (file : FileId) :
    resolveArgWith (k + 1) r a file = (⟨a.peel.1, a.peel.2, (elementWith file k a.peel.2 r).1⟩,
        (elementWith file k a.peel.2 r).2) := by
  rw [resolveArgWith]
  generalize a.peel = p
  obtain ⟨depth, element⟩ := p
  cases element <;> rfl

/-- Arguments from the first to the last, with a number of steps for each. -/
def lookUpWith (k : Nat) (file : FileId) : List TypeExpr → Registry → List TypeArg × Registry
  | [], r => ([], r)
  | a :: as, r =>
    ((resolveArgWith k r a file).1 :: (lookUpWith k file as (resolveArgWith k r a file).2).1,
      (lookUpWith k file as (resolveArgWith k r a file).2).2)

theorem foldl_lookUpWith (k : Nat) (file : FileId) (args : List TypeExpr) (found : List TypeArg)
    (r : Registry) :
    args.foldl (fun (acc : List TypeArg × Registry) arg =>
        (acc.1 ++ [(resolveArgWith k acc.2 arg file).1], (resolveArgWith k acc.2 arg file).2))
        (found, r) =
      (found ++ (lookUpWith k file args r).1, (lookUpWith k file args r).2) := by
  induction args generalizing found r with
  | nil => simp [lookUpWith]
  | cons a args ih =>
    rw [List.foldl_cons, ih]
    simp [lookUpWith]

/-- With the right number of arguments there is an instance, made for them as they are looked up. -/
theorem instantiateWith_succ (k : Nat) (r : Registry) (generic : TypeId) (args : List TypeExpr)
    (file : FileId) : instantiateWith (k + 1) r generic args file =
      match r.types[generic]? with
      | none => (none, r)
      | some d =>
        if d.params.isEmpty || d.params.length != args.length then (none, r)
        else
          let found := lookUpWith k file args r
          let bound := found.2.bindArgs generic d found.1
          (some bound.1, bound.2) := by
  have hfold := foldl_lookUpWith k file args [] r
  rw [List.nil_append] at hfold
  rw [instantiateWith]
  cases r.types[generic]? with
  | none => rfl
  | some d => simp only [hfold]

/-! ### Look-ups -/

/-- A relation between registries that holds across look-ups, by admitted names and for admitted
types, if it holds across a new instance. -/
structure LookUpLaw (J : Registry → Registry → Prop) (N : String → Prop) (T : TypeExpr → Prop) :
    Prop where
  refl : ∀ r, J r r
  trans : ∀ {r r' r''}, J r r' → J r' r'' → J r r''
  text : ∀ {r : Registry} {name file id args}, N name →
    r.lookupType? name file = some (id, some args) → ∀ a ∈ argsOfText args, T a
  ident : ∀ {name}, T (.ident name) → N name
  qualified : ∀ {package name}, T (.qualified package name) →
    N (TypeExpr.qualified package name).text
  args : ∀ {base args}, T (.generic base args) → ∀ a ∈ args, T a
  peel : ∀ {a : TypeExpr}, T a → T a.peel.2
  bind : ∀ {r : Registry} {generic d k file args}, r.types[generic]? = some d → d.params ≠ [] →
    (∀ a ∈ args, T a) → J r (lookUpWith k file args r).2 →
    J r ((lookUpWith k file args r).2.bindArgs generic d (lookUpWith k file args r).1).2

/-- The three look-ups with the given number of steps obey the law. -/
structure ObeyedWith (J : Registry → Registry → Prop) (N : String → Prop) (T : TypeExpr → Prop)
    (fuel : Nat) : Prop where
  find : ∀ r {name} file, N name → J r (findTypeWith fuel r name file).2
  instantiate : ∀ r generic {args} file, (∀ a ∈ args, T a) →
    J r (instantiateWith fuel r generic args file).2
  arg : ∀ r a file, T a → J r (resolveArgWith fuel r a file).2

namespace LookUpLaw

variable {J : Registry → Registry → Prop} {N : String → Prop} {T : TypeExpr → Prop}
  (h : LookUpLaw J N T) {fuel : Nat} {args : List TypeExpr} (r : Registry) (file : FileId)

include h

theorem lookUpWith (ih : ObeyedWith J N T fuel) (hargs : ∀ a ∈ args, T a) :
    J r (lookUpWith fuel file args r).2 := by
  induction args generalizing r with
  | nil => exact h.refl r
  | cons a args ihargs =>
    obtain ⟨ha, hargs⟩ := List.forall_mem_cons.1 hargs
    exact h.trans (ih.arg r a file ha) (ihargs _ hargs)

theorem findTypeWith_succ (ih : ObeyedWith J N T fuel) {name : String} (hname : N name) :
    J r (findTypeWith (fuel + 1) r name file).2 := by
  rw [findTypeWith]
  split
  · exact h.refl r
  · exact h.refl r
  · next hlookup =>
    split
    · exact ih.instantiate r _ file (h.text hname hlookup)
    · exact h.refl r

theorem instantiateWith_succ (ih : ObeyedWith J N T fuel) (generic : TypeId)
    (hargs : ∀ a ∈ args, T a) : J r (instantiateWith (fuel + 1) r generic args file).2 := by
  rw [Registry.instantiateWith_succ]
  split
  · exact h.refl r
  · next d hd =>
    split
    · exact h.refl r
    · next hlength =>
      exact h.bind hd (fun hnil => hlength (by simp [hnil])) hargs (h.lookUpWith r file ih hargs)

theorem resolveArgWith_succ (ih : ObeyedWith J N T fuel) {a : TypeExpr} (ha : T a) :
    J r (resolveArgWith (fuel + 1) r a file).2 := by
  rw [Registry.resolveArgWith_succ]
  have hpeel := h.peel ha
  generalize a.peel.2 = e at hpeel
  dsimp only
  unfold elementWith
  split
  · exact h.refl r
  · exact ih.find r file (h.ident hpeel)
  · exact ih.find r file (h.qualified hpeel)
  · split
    · exact ih.instantiate r _ file (h.args hpeel)
    · exact h.refl r
  · exact h.refl r

/-- **What look-ups keep.** -/
theorem obeyedWith (fuel : Nat) : ObeyedWith J N T fuel := by
  induction fuel with
  | zero =>
    refine ⟨fun r name file _ => ?_, fun r generic args file _ => ?_, fun r a file _ => ?_⟩
    · rw [findTypeWith]
      exact h.refl r
    · rw [instantiateWith]
      exact h.refl r
    · rw [resolveArgWith]
      exact h.refl r
  | succ fuel ih =>
    exact ⟨fun r _ file => h.findTypeWith_succ r file ih,
      fun r generic _ file => h.instantiateWith_succ r file ih generic,
      fun r _ file => h.resolveArgWith_succ r file ih⟩

end LookUpLaw

/-- Every type keeps its number and its declaration. -/
def Grows (r r' : Registry) : Prop :=
  ∀ ⦃id : TypeId⦄ ⦃d : TypeDecl⦄, r.types[id]? = some d → r'.types[id]? = some d

theorem Grows.refl (r : Registry) : Grows r r := fun _ _ h => h

/-! ### One instance -/

theorem grows_addInstance (r : Registry) (d : TypeDecl) : Grows r (r.addInstance d).2 := by
  unfold addInstance
  split
  · exact Grows.refl r
  · intro id d' hd'
    have hlt : id < r.types.size := (Array.getElem?_eq_some_iff.1 hd').1
    rw [Array.getElem?_push_lt hlt]
    exact (Array.getElem?_eq_getElem hlt).symm.trans hd'

/-! ### Many instances -/

/-- The second registry is the first with instances of its declarations added, one by one. -/
inductive Gains : Registry → Registry → Prop
  | refl (r : Registry) : Gains r r
  | bind {r r' : Registry} {generic : TypeId} {d : TypeDecl} (args : List TypeArg)
      (h : Gains r r') (hd : r'.types[generic]? = some d) : Gains r (r'.bindArgs generic d args).2

namespace Gains

variable {r r' r'' : Registry}

theorem trans (h : Gains r r') (h' : Gains r' r'') : Gains r r'' := by
  induction h' with
  | refl => exact h
  | bind args _ hd ih => exact ih.bind args hd

theorem grows (h : Gains r r') : Grows r r' := by
  induction h with
  | refl => exact Grows.refl _
  | bind args _ _ ih => exact fun _ _ hd => grows_addInstance _ _ (ih hd)

end Gains

/-! ### Look-ups add instances -/

theorem lookUpLaw_gains : LookUpLaw Gains (fun _ => True) fun _ => True where
  refl := .refl
  trans := .trans
  text _ _ _ _ := trivial
  ident := id
  qualified := id
  args _ _ _ := trivial
  peel := id
  bind hd _ _ h := h.bind _ (h.grows hd)

theorem gainsWith (fuel : Nat) : ObeyedWith Gains (fun _ => True) (fun _ => True) fuel :=
  lookUpLaw_gains.obeyedWith fuel

theorem gains_findType (r : Registry) (name : String) (file : FileId) :
    Gains r (r.findType name file).2 :=
  (gainsWith _).find r file trivial

theorem gains_instantiate (r : Registry) (generic : TypeId) (args : List TypeExpr)
    (file : FileId) : Gains r (r.instantiate generic args file).2 :=
  (gainsWith _).instantiate r generic file fun _ _ => trivial

theorem gains_lookUpWith (k : Nat) (file : FileId) (args : List TypeExpr) (r : Registry) :
    Gains r (lookUpWith k file args r).2 :=
  lookUpLaw_gains.lookUpWith r file (gainsWith k) fun _ _ => trivial

end GoApiDoc.Registry
