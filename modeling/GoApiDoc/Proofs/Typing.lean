/-
The types of a schema, as a relation.

The type path of a schema is computed with a number of steps.  The relation says what it is without
them: the type of a schema is its own, or that of the definition it refers to, or else that of the
first of the schemas it combines, and behind it stand the types of its items or values.

* `Resolver.TypesOf` — the types of a schema;
* `Resolver.typesOf_of_typePathFrom` — a type path that is found lists them;
* `Resolver.TypesOf.unique` — there is one list of types at most;
* `Resolver.TypesOf.of_alike` — they do not depend on keywords that tell nothing about types.
-/

import GoApiDoc.Resolve.Basic

set_option autoImplicit false

namespace GoApiDoc

/-! ### The types of a schema -/

namespace Resolver

/-- The types from a schema inward, at most a given number of them: its own type, or that of the
definition it refers to, or else that of the first of the schemas it combines. -/
inductive TypesOf (g : Resolver) : Nat → Schema → List String → Prop
  | stop (s : Schema) : TypesOf g 0 s []
  | reference {depth : Nat} {s target : Schema} {name : String} {types : List String}
      (hname : s.refName? = some name) (htarget : g.definitions.get? name = some target)
      (h : TypesOf g (depth + 1) target types) : TypesOf g (depth + 1) s types
  | missing {depth : Nat} {s : Schema} {name : String}
      (hname : s.refName? = some name) (htarget : g.definitions.get? name = none) :
      TypesOf g (depth + 1) s (if g.isBeingBuilt name then ["object"] else [])
  | first {depth : Nat} {s part : Schema} {more : List Schema} {types : List String}
      (hname : s.refName? = none) (htype : s.type = none) (hall : s.allOf = part :: more)
      (h : TypesOf g (depth + 1) part types) : TypesOf g (depth + 1) s types
  | any {depth : Nat} {s : Schema}
      (hname : s.refName? = none) (htype : s.type = none) (hall : s.allOf = []) :
      TypesOf g (depth + 1) s ["any"]
  | inner {depth : Nat} {s i : Schema} {type : String} {types : List String}
      (hname : s.refName? = none) (htype : s.type = some type)
      (hinner : (s.items <|> s.additional) = some i) (h : TypesOf g depth i types) :
      TypesOf g (depth + 1) s (type :: types)
  | leaf {depth : Nat} {s : Schema} {type : String}
      (hname : s.refName? = none) (htype : s.type = some type)
      (hinner : (s.items <|> s.additional) = none) : TypesOf g (depth + 1) s [type]

variable {g : Resolver} {depth : Nat} {s s' : Schema} {types types' : List String}

/-- A type path that is found lists the types. -/
theorem typesOf_of_typePathFrom {fuel : Nat}
    (h : s.typePathFrom g.definitions g.isBeingBuilt fuel depth = some types) :
    g.TypesOf depth s types := by
  induction fuel generalizing depth s types with
  | zero => cases h
  | succ fuel ih =>
    cases depth with
    | zero =>
      cases h
      exact .stop s
    | succ depth =>
      rw [Schema.typePathFrom] at h
      split at h
      · next name hname =>
        split at h
        · next target htarget => exact .reference hname htarget (ih h)
        · next htarget =>
          cases h
          exact .missing hname htarget
      · next hname =>
        split at h
        · next htype =>
          split at h
          · next part more hall => exact .first hname htype hall (ih h)
          · next hall =>
            cases h
            exact .any hname htype hall
        · next type htype =>
          split at h
          · next i hinner =>
            obtain ⟨rest, hrest, rfl⟩ := Option.map_eq_some_iff.1 h
            exact .inner hname htype hinner (ih hrest)
          · next hinner =>
            cases h
            exact .leaf hname htype hinner

theorem TypesOf.unique (h : g.TypesOf depth s types) (h' : g.TypesOf depth s types') :
    types' = types := by
  induction h generalizing types' with
  | stop s =>
    cases h'
    rfl
  | reference hname htarget _ ih =>
    cases h' with
    | reference hname' htarget' h' =>
      obtain rfl := Option.some.inj (hname.symm.trans hname')
      obtain rfl := Option.some.inj (htarget.symm.trans htarget')
      exact ih h'
    | missing hname' htarget' =>
      obtain rfl := Option.some.inj (hname.symm.trans hname')
      cases htarget.symm.trans htarget'
    | first hname' | any hname' | inner hname' | leaf hname' => cases hname.symm.trans hname'
  | missing hname htarget =>
    cases h' with
    | reference hname' htarget' h' =>
      obtain rfl := Option.some.inj (hname.symm.trans hname')
      cases htarget.symm.trans htarget'
    | missing hname' htarget' =>
      obtain rfl := Option.some.inj (hname.symm.trans hname')
      rfl
    | first hname' | any hname' | inner hname' | leaf hname' => cases hname.symm.trans hname'
  | first hname htype hall _ ih =>
    cases h' with
    | reference hname' | missing hname' => cases hname.symm.trans hname'
    | inner _ htype' | leaf _ htype' => cases htype.symm.trans htype'
    | first _ _ hall' h' =>
      cases hall.symm.trans hall'
      exact ih h'
    | any _ _ hall' => cases hall.symm.trans hall'
  | any hname htype hall =>
    cases h' with
    | reference hname' | missing hname' => cases hname.symm.trans hname'
    | inner _ htype' | leaf _ htype' => cases htype.symm.trans htype'
    | first _ _ hall' h' => cases hall.symm.trans hall'
    | any => rfl
  | inner hname htype hinner _ ih =>
    cases h' with
    | reference hname' | missing hname' => cases hname.symm.trans hname'
    | first _ htype' | any _ htype' => cases htype.symm.trans htype'
    | inner _ htype' hinner' h' =>
      cases htype.symm.trans htype'
      cases hinner.symm.trans hinner'
      rw [ih h']
    | leaf _ _ hinner' => cases hinner.symm.trans hinner'
  | leaf hname htype hinner =>
    cases h' with
    | reference hname' | missing hname' => cases hname.symm.trans hname'
    | first _ htype' | any _ htype' => cases htype.symm.trans htype'
    | inner _ _ hinner' => cases hinner.symm.trans hinner'
    | leaf _ htype' =>
      cases htype.symm.trans htype'
      rfl

end Resolver

namespace Schema

/-- The schemas differ at most in keywords without influence on their types. -/
structure Alike (s s' : Schema) : Prop where
  reference : s'.reference = s.reference
  type : s'.type = s.type
  allOf : s'.allOf = s.allOf
  items : s'.items = s.items
  additional : s'.additional = s.additional

theorem Alike.trans {s₁ s₂ s₃ : Schema} (h : s₁.Alike s₂) (h' : s₂.Alike s₃) : s₁.Alike s₃ :=
  ⟨h'.reference.trans h.reference, h'.type.trans h.type, h'.allOf.trans h.allOf,
    h'.items.trans h.items, h'.additional.trans h.additional⟩

end Schema

namespace Resolver

variable {g : Resolver} {depth : Nat} {s s' : Schema} {types : List String}

/-- The types of a schema are those of one that only has other, but equally typed, items. -/
theorem TypesOf.congr (h : g.TypesOf depth s types) (href : s'.reference = s.reference)
    (htype : s'.type = s.type) (hall : s'.allOf = s.allOf)
    (hinner : s.type.isSome → Option.Rel
      (fun i i' => ∀ depth types, g.TypesOf depth i types → g.TypesOf depth i' types)
      (s.items <|> s.additional) (s'.items <|> s'.additional)) :
    g.TypesOf depth s' types := by
  have hname : s'.refName? = s.refName? := by rw [Schema.refName?, Schema.refName?, href]
  cases h with
  | stop => exact .stop s'
  | reference hn htarget h => exact .reference (hname.trans hn) htarget h
  | missing hn htarget => exact .missing (hname.trans hn) htarget
  | first hn ht ha h => exact .first (hname.trans hn) (htype.trans ht) (hall.trans ha) h
  | any hn ht ha => exact .any (hname.trans hn) (htype.trans ht) (hall.trans ha)
  | inner hn ht hi h =>
    have hrel := hinner (by rw [ht]; rfl)
    rw [hi] at hrel
    generalize ho : (s'.items <|> s'.additional) = o at hrel
    cases hrel with
    | some hsome => exact .inner (hname.trans hn) (htype.trans ht) ho (hsome _ _ h)
  | leaf hn ht hi =>
    have hrel := hinner (by rw [ht]; rfl)
    rw [hi] at hrel
    generalize ho : (s'.items <|> s'.additional) = o at hrel
    cases hrel with
    | none => exact .leaf (hname.trans hn) (htype.trans ht) ho

/-- The types of a schema that has one are this type and those of its items or values. -/
theorem TypesOf.of_typed {type : String} (h : g.TypesOf (depth + 1) s types)
    (href : s.reference = none) (htype : s.type = some type) :
    (∃ i rest, (s.items <|> s.additional) = some i ∧ g.TypesOf depth i rest ∧
        types = type :: rest) ∨ ((s.items <|> s.additional) = none ∧ types = [type]) := by
  have hnone : s.refName? = none := by rw [Schema.refName?, href]; rfl
  cases h with
  | reference hname | missing hname => cases hnone.symm.trans hname
  | first _ ht | any _ ht => cases htype.symm.trans ht
  | inner _ ht hi h =>
    cases htype.symm.trans ht
    exact .inl ⟨_, _, hi, h, rfl⟩
  | leaf _ ht hi =>
    cases htype.symm.trans ht
    exact .inr ⟨hi, rfl⟩

theorem TypesOf.of_alike (h : g.TypesOf depth s types) (halike : s.Alike s') :
    g.TypesOf depth s' types := by
  refine h.congr halike.reference halike.type halike.allOf fun _ => ?_
  rw [halike.items, halike.additional]
  cases s.items <|> s.additional with
  | none => exact .none
  | some i => exact .some fun _ _ h => h

end Resolver

end GoApiDoc
