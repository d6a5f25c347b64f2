/-
What the schemas of types are made of.

A schema depends on the names in a type, which are looked up, on the tags of the fields, and on the
constants of declared types.  These are the ingredients of the type.  An instance of a generic
declaration is made of the ingredients of the declaration and of the arguments, and nothing else; an
argument may be written inside a name, with brackets around it.

* `Registry.MadeOf.declaredOf` — **look-ups keep what a registry is made of**.
-/

import GoApiDoc.Proofs.WellFormed

set_option autoImplicit false

namespace GoApiDoc

open Go (TypeId TypeExpr)

variable {id : TypeId} {d : TypeDecl} {name : String} {args : List TypeExpr}

/-! ### Types -/

/-- Something that the schema of a type depends on. -/
inductive Ingredient where
  /-- A name that is looked up. -/
  | name (text : String)
  | tag (text : String)
  /-- The value of a constant of the type. -/
  | value (v : Json)

namespace Go

namespace TypeExpr

mutual

/-- The names and tags that are read when a type is resolved; functions, channels, interfaces and
constraints are not looked into. -/
def ingredients : TypeExpr → List Ingredient
  | ident name => [.name name]
  | qualified package name => [.name (package ++ "." ++ name)]
  | generic _ args => ingredientsAll args
  | pointer elem | slice elem | array elem => ingredients elem
  | map _ value => ingredients value
  | struct fields => ingredientsFields fields
  | chan _ _ | func | interface _ _ | tilde _ | union _ | resolved _ => []

/-- The ingredients of the types of a list. -/
def ingredientsAll : List TypeExpr → List Ingredient
  | [] => []
  | t :: ts => ingredients t ++ ingredientsAll ts

/-- The ingredients of fields: their tags, and those of their types. -/
def ingredientsFields : List (FieldOf TypeExpr) → List Ingredient
  | [] => []
  | ⟨_, type, tag, _, _⟩ :: fs =>
    tag.toList.map .tag ++ ingredients type ++ ingredientsFields fs

end

end TypeExpr

/-- The ingredients of a field. -/
def FieldOf.ingredients (f : Field) : List Ingredient :=
  f.tag.toList.map .tag ++ f.type.ingredients

namespace TypeExpr

theorem ingredientsAll_eq_flatMap (ts : List TypeExpr) :
    ingredientsAll ts = ts.flatMap ingredients := by
  induction ts with
  | nil => rfl
  | cons t ts ih => rw [ingredientsAll, ih, List.flatMap_cons]

theorem ingredientsFields_eq_flatMap (fs : List Field) :
    ingredientsFields fs = fs.flatMap FieldOf.ingredients := by
  induction fs with
  | nil => rfl
  | cons f fs ih =>
    rw [ingredientsFields, ih, List.flatMap_cons]
    rfl

theorem ingredients_peel (t : TypeExpr) : t.peel.2.ingredients = t.ingredients := by
  fun_induction peel t with
  | case1 elem n t hpeel ih | case2 elem n t hpeel ih => rwa [hpeel, ← ingredients] at ih
  | case3 elem ih => rw [ih, ingredients]
  | case4 t => rfl

theorem ingredients_sliced (n : Nat) (t : TypeExpr) : (sliced n t).ingredients = t.ingredients := by
  induction n with
  | zero => rfl
  | succ n ih => rw [sliced, ingredients, ih]

mutual

/-- The constants are no part of a type. -/
theorem value_notMem_ingredients (v : Json) : ∀ t : TypeExpr, .value v ∉ t.ingredients
  | ident _ | qualified _ _ => by simp [ingredients]
  | generic _ args => by
    rw [ingredients]
    exact value_notMem_ingredientsAll v args
  | pointer elem | slice elem | array elem => by
    rw [ingredients]
    exact value_notMem_ingredients v elem
  | map _ value => by
    rw [ingredients]
    exact value_notMem_ingredients v value
  | struct fields => by
    rw [ingredients]
    exact value_notMem_ingredientsFields v fields
  | chan _ _ | func | interface _ _ | tilde _ | union _ | resolved _ => by simp [ingredients]

theorem value_notMem_ingredientsAll (v : Json) : ∀ ts : List TypeExpr, .value v ∉ ingredientsAll ts
  | [] => by simp [ingredientsAll]
  | t :: ts => by
    rw [ingredientsAll, List.mem_append, not_or]
    exact ⟨value_notMem_ingredients v t, value_notMem_ingredientsAll v ts⟩

theorem value_notMem_ingredientsFields (v : Json) :
    ∀ fs : List (FieldOf TypeExpr), .value v ∉ ingredientsFields fs
  | [] => by simp [ingredientsFields]
  | ⟨_, type, tag, _, _⟩ :: fs => by
    rw [ingredientsFields, List.mem_append, List.mem_append, not_or, not_or]
    exact ⟨⟨by simp, value_notMem_ingredients v type⟩, value_notMem_ingredientsFields v fs⟩

end

/-! ### Substitution -/

variable {bindings : Table TypeExpr} {i : Ingredient}

mutual

/-- An ingredient after a substitution was there before or comes with a substituted type. -/
theorem mem_ingredients_substitute : ∀ t : TypeExpr,
    i ∈ (t.substitute bindings).ingredients →
      i ∈ t.ingredients ∨ ∃ e ∈ bindings, i ∈ e.2.ingredients
  | ident name => by
    intro h
    rw [substitute] at h
    cases hb : bindings.get? name with
    | none =>
      rw [hb] at h
      exact .inl h
    | some t =>
      rw [hb] at h
      exact .inr ⟨(name, t), Table.mem_of_get? hb, h⟩
  | qualified _ _ | resolved _ => Or.inl
  | generic _ args => by
    rw [substitute, ingredients, ingredients]
    exact mem_ingredientsAll_substitute args
  | pointer elem | slice elem | array elem => by
    rw [substitute, ingredients, ingredients]
    exact mem_ingredients_substitute elem
  | map _ value => by
    rw [substitute, ingredients, ingredients]
    exact mem_ingredients_substitute value
  | struct fields => by
    rw [substitute, ingredients, ingredients]
    exact mem_ingredientsFields_substitute fields
  | func | interface _ _ => Or.inl
  | chan _ _ | tilde _ | union _ => by
    rw [substitute, ingredients]
    exact fun h => by cases h

theorem mem_ingredientsAll_substitute : ∀ ts : List TypeExpr,
    i ∈ ingredientsAll (substituteAll bindings ts) →
      i ∈ ingredientsAll ts ∨ ∃ e ∈ bindings, i ∈ e.2.ingredients
  | [] => Or.inl
  | t :: ts => by
    intro h
    rw [substituteAll, ingredientsAll] at h
    rcases List.mem_append.1 h with h | h
    · exact (mem_ingredients_substitute t h).imp_left (List.mem_append_left _)
    · exact (mem_ingredientsAll_substitute ts h).imp_left (List.mem_append_right _)

theorem mem_ingredientsFields_substitute : ∀ fs : List (FieldOf TypeExpr),
    i ∈ ingredientsFields (substituteFields bindings fs) →
      i ∈ ingredientsFields fs ∨ ∃ e ∈ bindings, i ∈ e.2.ingredients
  | [] => Or.inl
  | ⟨names, type, tag, doc, comment⟩ :: fs => by
    intro h
    rw [substituteFields, ingredientsFields, List.mem_append, List.mem_append] at h
    rw [ingredientsFields, List.mem_append, List.mem_append]
    rcases h with (h | h) | h
    · exact .inl (.inl (.inl h))
    · exact (mem_ingredients_substitute type h).imp_left fun h => .inl (.inr h)
    · exact (mem_ingredientsFields_substitute fs h).imp_left .inr

end

end TypeExpr

end Go

/-- The ingredients of a declared type: those of its right-hand side, and its constants. -/
def TypeDecl.ingredients (d : TypeDecl) : List Ingredient :=
  d.type.ingredients ++ d.enums.map fun m => .value m.value

/-- A condition on ingredients that passes from names to the arguments written in them. -/
def Ingredient.Closed (P : Ingredient → Prop) : Prop :=
  ∀ name args, P (.name name) → (splitTypeArgs (Text.trim name)).2 = some args →
    ∀ a ∈ Registry.argsOfText args, ∀ i ∈ a.ingredients, P i

/-! ### Registries -/

namespace Registry

variable {P : Ingredient → Prop} {r : Registry} {file : FileId}

/-- All types are made of ingredients that satisfy the condition. -/
def MadeOf (P : Ingredient → Prop) (r : Registry) : Prop :=
  ∀ d ∈ r.types, ∀ i ∈ d.ingredients, P i

theorem MadeOf.type (h : r.MadeOf P) (hd : r.types[id]? = some d) : ∀ i ∈ d.type.ingredients, P i :=
  fun i hi => h d (Array.mem_of_getElem? hd) i (List.mem_append_left _ hi)

theorem lookupType?_args {args : Option String} (h : r.lookupType? name file = some (id, args)) :
    (splitTypeArgs (Text.trim name)).2 = args := by
  unfold lookupType? at h
  dsimp only at h
  split at h
  · cases h
  · obtain ⟨_, -, heq⟩ := Option.map_eq_some_iff.1 h
    exact congrArg Prod.snd heq

theorem MadeOf.bindArgs (h : r.MadeOf P) {generic : TypeId} {args : List TypeArg}
    (hd : ∀ i ∈ d.type.ingredients, P i) (hargs : ∀ a ∈ args, ∀ i ∈ a.element.ingredients, P i) :
    (r.bindArgs generic d args).2.MadeOf P := by
  cases hname : r.instances.get? (r.instanceName d args) with
  | some id =>
    rw [bindArgs_known hname]
    exact h
  | none =>
    rw [bindArgs_new hname]
    intro d' hd' i hi
    rcases Array.mem_push.1 hd' with hd' | rfl
    · exact h d' hd' i hi
    · -- an instance has no constants of its own
      have hi : i ∈ (r.boundDecl generic d args).type.ingredients ++ [] := hi
      rw [List.append_nil] at hi
      rcases TypeExpr.mem_ingredients_substitute d.type hi with hi | ⟨e, he, hi⟩
      · exact hd i hi
      rcases Table.mem_extend he with he | he
      · cases he
      obtain ⟨a, ha, heq⟩ := List.mem_map.1 (List.of_mem_zip he).2
      rw [← heq, TypeArg.binding, TypeExpr.ingredients_sliced] at hi
      cases htarget : a.target with
      | none =>
        rw [htarget] at hi
        exact hargs a ha i hi
      | some id =>
        rw [htarget] at hi
        cases hi

/-! ### Look-ups -/

theorem lookUpLaw_madeOf (hP : Ingredient.Closed P) :
    LookUpLaw (fun r s => r.MadeOf P → s.MadeOf P) (fun name => P (.name name))
      (fun t => ∀ i ∈ t.ingredients, P i) where
  refl _ h := h
  trans h h' hr := h' (h hr)
  text hname hlookup := hP _ _ hname (lookupType?_args hlookup)
  ident h := h _ (List.mem_singleton_self _)
  qualified h := h _ (List.mem_singleton_self _)
  args h b hb i hi := by
    refine h i ?_
    rw [TypeExpr.ingredients, TypeExpr.ingredientsAll_eq_flatMap]
    exact List.mem_flatMap_of_mem hb hi
  peel h := by rwa [TypeExpr.ingredients_peel]
  bind hd _ hargs h hr := by
    refine (h hr).bindArgs (hr.type hd) fun x hx => ?_
    obtain ⟨a, ha, helement⟩ := element_of_lookUpWith hx
    rw [helement, TypeExpr.ingredients_peel]
    exact hargs a ha

/-- **Look-ups keep what a registry is made of**: the instances that are made for a type have no
ingredients but those of the declarations and of the type. -/
theorem MadeOf.declaredOf (h : r.MadeOf P) (hP : Ingredient.Closed P) {t : TypeExpr}
    (ht : ∀ i ∈ t.ingredients, P i) : (declaredOf file t r).2.MadeOf P :=
  (lookUpLaw_madeOf hP).declaredOf ht r h

end Registry

end GoApiDoc
