/-
The tables of a registry list its types.

A registry is filled by indexing files, by collecting their declarations and by making instances of
generic declarations, in any order.  Collecting also changes types that are there: it sets anew
which short names are ambiguous and which constants belong to a type.  What a type is called in its
package, and whether it is an instance, never changes.

* `Registry.Reachable.wellIndexed` — **every registry that arises is well indexed**.
-/

import GoApiDoc.Registry.Collect
import GoApiDoc.Proofs.Instance
import GoApiDoc.Proofs.Table

set_option autoImplicit false

namespace GoApiDoc

open Go (TypeId)

variable {path name : String} {fresh : Package} {r : Registry} {d : TypeDecl} {id : TypeId}
  {r' : Registry}

/-- The type without its marks and members, which depend on the other types and on constants. -/
def TypeDecl.core (d : TypeDecl) : TypeDecl := { d with notUnique := false, enums := [] }

/-- The names of a type in all files: the definition name of an instance, and for a declared type
its name with that of its package or with the path of its package. -/
def TypeDecl.GoesBy (d : TypeDecl) (name : String) : Prop :=
  match d.instanceName with
  | some n => name = n
  | none => name = d.packageName ++ "." ++ d.scopedName ∨
      name = Text.pathAsName d.packagePath ++ "." ++ d.scopedName

namespace Registry

/-! ### Registries that arise -/

/-- The registries that arise from one without files. -/
inductive Reachable : Registry → Prop
  | empty (goroot : Option String) : Reachable { goroot := goroot }
  | index {r : Registry} (u : SourceUnit) (h : Reachable r) : Reachable (r.index u).2
  | collect {r : Registry} (h : Reachable r) : Reachable r.parseTypes
  | gain {r r' : Registry} (h : Reachable r) (hg : Gains r r') : Reachable r'

/-- The type with a number, without what later files may change. -/
def core? (r : Registry) (id : TypeId) : Option TypeDecl := r.types[id]?.map TypeDecl.core

/-- The type with this number is declared in the package, under this name. -/
def Declares (r : Registry) (path name : String) (id : TypeId) : Prop :=
  ∃ d, r.core? id = some d ∧ d.instanceName = none ∧ d.packagePath = path ∧ d.scopedName = name

/-- The tables list the types under their names. -/
structure WellIndexed (r : Registry) : Prop where
  sorted : r.packages.Sorted
  declared : ∀ path name id, r.typeIn? path name = some id ↔ r.Declares path name id
  instances : ∀ name id, (name, id) ∈ r.instances →
    ∃ d, r.core? id = some d ∧ d.instanceName = some name
  short : ∀ name id, (name, some id) ∈ r.unique → ∃ d, r.core? id = some d ∧ d.GoesBy name

theorem wellIndexed_empty (goroot : Option String) : WellIndexed { goroot := goroot } where
  sorted := List.Pairwise.nil
  declared path name id := by
    constructor
    · exact (nomatch ·)
    · rintro ⟨d, hd, -⟩
      simp [core?] at hd
  instances := fun _ _ h => nomatch h
  short := fun _ _ h => nomatch h

/-! ### Steps without a new type -/

/-- The second registry has the types of the first, up to marks and members, and a table of short
names that fits them. -/
structure SameTypes (r r' : Registry) : Prop where
  sorted : r'.packages.Sorted
  listed : ∀ path name, r'.typeIn? path name = r.typeIn? path name
  core : ∀ id, r'.core? id = r.core? id
  instances : r'.instances = r.instances
  short : ∀ name id, (name, some id) ∈ r'.unique → ∃ d, r.core? id = some d ∧ d.GoesBy name

theorem SameTypes.wellIndexed (h : SameTypes r r') (hr : WellIndexed r) : WellIndexed r' where
  sorted := h.sorted
  declared path name id := by
    simp only [h.listed, Declares, h.core]
    exact hr.declared path name id
  instances name id hmem := by
    rw [h.core]
    exact hr.instances name id (h.instances ▸ hmem)
  short name id hmem := by
    rw [h.core]
    exact h.short name id hmem

variable {f : Package → Package}

/-- What a package lists after a change of one package. -/
theorem typeIn?_modify (h : r'.packages = r.packages.modify path fresh f) (path' name : String) :
    r'.typeIn? path' name =
      if path' = path then (f ((r.packages.get? path).getD fresh)).types.get? name
      else r.typeIn? path' name := by
  unfold typeIn?
  rw [h, Table.modify, Table.get?_insert]
  by_cases hpath : path' = path <;> simp [hpath]

/-- A package that is not there lists what a package without types lists. -/
theorem get?_types_getD (hfresh : fresh.types = []) (name : String) :
    ((r.packages.get? path).getD fresh).types.get? name = r.typeIn? path name := by
  unfold typeIn?
  cases r.packages.get? path with
  | none => simp [hfresh, Table.get?]
  | some p => rfl

/-- A change of one package that leaves its types alone. -/
theorem WellIndexed.modify (h : WellIndexed r)
    (hp : r'.packages = r.packages.modify path fresh f) (hfresh : fresh.types = [])
    (hf : ∀ p, (f p).types = p.types) (ht : r'.types = r.types) (hi : r'.instances = r.instances)
    (hu : r'.unique = r.unique) : WellIndexed r' := by
  have hsame : SameTypes r r' := by
    refine ⟨hp ▸ Table.sorted_insert h.sorted, fun path' name => ?_,
      fun id => by rw [core?, ht, core?], hi, hu ▸ h.short⟩
    rw [typeIn?_modify hp]
    split
    · next heq => rw [hf, heq, get?_types_getD hfresh]
    · rfl
  exact hsame.wellIndexed h

theorem WellIndexed.index (h : WellIndexed r) (u : SourceUnit) : WellIndexed (r.index u).2 := by
  unfold Registry.index
  split
  · exact h
  · exact h.modify (f := fun p => { p with files := p.files ++ [r.files.size] }) rfl (by rfl)
      (fun _ => rfl) rfl rfl rfl

theorem WellIndexed.addConst (h : WellIndexed r) (c : ConstDecl) : WellIndexed (r.addConst c) := by
  unfold Registry.addConst
  split
  · exact h
  · refine h.modify (f := fun p => { p with
      consts := if p.consts.contains c.name then p.consts else p.consts.insert c.name r.consts.size
      constOrder := p.constOrder ++ [r.consts.size] }) rfl (by rfl) (fun _ => rfl) rfl rfl rfl

/-! ### A new type -/

theorem core?_push (h : r'.types = r.types.push d) (id : TypeId) :
    r'.core? id = if id = r.types.size then some d.core else r.core? id := by
  unfold core?
  rw [h, Array.getElem?_push]
  split <;> rfl

/-- What is known of a type stays known when another one is added. -/
theorem core?_push_of_some {d' : TypeDecl} (h : r'.types = r.types.push d)
    (hd : r.core? id = some d') : r'.core? id = some d' := by
  have hne : id ≠ r.types.size := by
    rintro rfl
    simp [core?] at hd
  rw [core?_push h, if_neg hne, hd]

theorem declares_push (h : r'.types = r.types.push d) (path name : String) (id : TypeId) :
    r'.Declares path name id ↔ r.Declares path name id ∨
      id = r.types.size ∧ d.instanceName = none ∧ d.packagePath = path ∧ d.scopedName = name := by
  unfold Declares
  rw [core?_push h]
  by_cases hid : id = r.types.size
  · subst hid
    have hnone : r.core? r.types.size = none := by simp [core?]
    simp only [if_pos, hnone, Option.some.injEq, exists_eq_left', reduceCtorEq, false_and,
      exists_false, false_or, true_and]
    exact Iff.rfl
  · simp [hid]

theorem typeIn?_modify_types
    (h : r'.packages = r.packages.modify path fresh fun p =>
      { p with types := p.types.insert name id })
    (hfresh : fresh.types = []) (path' name' : String) :
    r'.typeIn? path' name' =
      if path' = path ∧ name' = name then some id else r.typeIn? path' name' := by
  rw [typeIn?_modify h]
  by_cases hpath : path' = path
  · simp [hpath, Table.get?_insert, get?_types_getD hfresh]
  · simp [hpath]

theorem WellIndexed.declare (h : WellIndexed r)
    (hd : d.instanceName = none) (hfree : r.typeIn? d.packagePath d.scopedName = none)
    (hp : r'.packages = r.packages.modify d.packagePath fresh fun p =>
      { p with types := p.types.insert d.scopedName r.types.size })
    (hfresh : fresh.types = []) (ht : r'.types = r.types.push d)
    (hi : r'.instances = r.instances) (hu : r'.unique = r.unique) : WellIndexed r' where
  sorted := hp ▸ Table.sorted_insert h.sorted
  declared path name id := by
    rw [declares_push ht, ← h.declared, typeIn?_modify_types hp hfresh]
    by_cases hname : path = d.packagePath ∧ name = d.scopedName
    · obtain ⟨rfl, rfl⟩ := hname
      simp [hfree, hd, eq_comm]
    · have hother : ¬(d.packagePath = path ∧ d.scopedName = name) :=
        fun h => hname ⟨h.1.symm, h.2.symm⟩
      simp [hname, hother]
  instances name id hmem := by
    obtain ⟨d', hd', hname⟩ := h.instances name id (hi ▸ hmem)
    exact ⟨d', core?_push_of_some ht hd', hname⟩
  short name id hmem := by
    obtain ⟨d', hd', hname⟩ := h.short name id (hu ▸ hmem)
    exact ⟨d', core?_push_of_some ht hd', hname⟩

theorem WellIndexed.addType (h : WellIndexed r)
    (hd : d.instanceName = none) : WellIndexed (r.addType d) := by
  unfold Registry.addType
  split
  · exact h
  · next hfree =>
    rw [Option.not_isSome_iff_eq_none] at hfree
    exact h.declare hd hfree rfl rfl rfl rfl rfl

theorem WellIndexed.collectFile (h : WellIndexed r) (file : FileId) :
    WellIndexed (r.collectFile file) := by
  unfold Registry.collectFile
  split
  · exact h
  · refine List.foldlRecOn _ _ ?_ fun r hr c _ => hr.addConst c
    refine List.foldlRecOn _ _ h fun r hr d hd => hr.addType ?_
    obtain ⟨spec, -, rfl⟩ := List.mem_map.1 hd
    rfl

/-! ### Short names -/

theorem core?_unmarked (r : Registry) (id : TypeId) :
    core? { r with types := unmarked r.types, unique := [] } id = r.core? id := by
  simp only [core?, unmarked, Array.getElem?_map, Option.map_map]
  congr 1
  funext d
  by_cases hd : d.instanceName.isSome <;> simp [hd, TypeDecl.core]

/-- A change of marks and short names, where each new short name fits its type. -/
theorem SameTypes.relabel {r'' : Registry} (h : SameTypes r r')
    (hp : r''.packages = r'.packages) (hc : ∀ id, r''.core? id = r'.core? id)
    (hi : r''.instances = r'.instances)
    (hu : ∀ name id, (name, some id) ∈ r''.unique → (name, some id) ∈ r'.unique ∨
      ∃ d, r.core? id = some d ∧ d.GoesBy name) : SameTypes r r'' where
  sorted := hp ▸ h.sorted
  listed path name := by
    rw [typeIn?, hp]
    exact h.listed path name
  core id := (hc id).trans (h.core id)
  instances := hi.trans h.instances
  short name id hmem := (hu name id hmem).elim (h.short name id) fun h => h

theorem SameTypes.qualify (h : SameTypes r r')
    (hid : ∃ d, r.core? id = some d ∧ d.instanceName = none) : SameTypes r (r'.qualify id) := by
  unfold Registry.qualify
  split
  · exact h
  · next d hd =>
    refine h.relabel rfl (fun id' => ?_) rfl (fun name id' hmem => ?_)
    · -- the mark is not part of the core
      simp only [core?, Array.getElem?_setIfInBounds]
      split
      · next heq =>
        subst heq
        split <;> simp_all [TypeDecl.core]
      · rfl
    · dsimp only at hmem
      split at hmem
      · exact .inl hmem
      rcases Table.mem_insert_imp hmem with heq | hmem
      · right
        obtain ⟨rfl, hid'⟩ := Prod.mk.inj heq
        obtain rfl := Option.some.inj hid'
        obtain ⟨d', hd', hinst⟩ := hid
        have hcore : d.core = d' := by
          rw [← h.core, core?, hd] at hd'
          exact Option.some.inj hd'
        subst hcore
        refine ⟨d.core, hd', ?_⟩
        rw [TypeDecl.GoesBy, hinst]
        exact .inr rfl
      · exact .inl hmem

/-- The declared type has this as its name with that of its package. -/
def ShortFor (r : Registry) (name : String) (id : TypeId) : Prop :=
  ∃ d, r.core? id = some d ∧ d.instanceName = none ∧ d.packageName ++ "." ++ d.scopedName = name

theorem ShortFor.goesBy (h : r.ShortFor name id) : ∃ d, r.core? id = some d ∧ d.GoesBy name := by
  obtain ⟨d, hd, hinst, hname⟩ := h
  refine ⟨d, hd, ?_⟩
  rw [TypeDecl.GoesBy, hinst]
  exact .inl hname.symm

variable {entry : String × List TypeId}

theorem SameTypes.enterName (h : SameTypes r r') (hentry : ∀ id ∈ entry.2, r.ShortFor entry.1 id) :
    SameTypes r (r'.enterName entry) := by
  unfold Registry.enterName
  split
  · have hnone : SameTypes r { r' with unique := r'.unique.insert entry.1 none } := by
      refine h.relabel rfl (fun _ => rfl) rfl fun name id hmem => ?_
      rcases Table.mem_insert_imp hmem with heq | hmem
      · cases (Prod.mk.inj heq).2
      · exact .inl hmem
    refine List.foldlRecOn _ _ hnone fun r₁ h₁ id hid => h₁.qualify ?_
    obtain ⟨d, hd, hinst, -⟩ := hentry id hid
    exact ⟨d, hd, hinst⟩
  · refine h.relabel rfl (fun _ => rfl) rfl fun name id hmem => ?_
    rcases Table.mem_insert_imp hmem with heq | hmem
    · obtain ⟨rfl, hhead⟩ := Prod.mk.inj heq
      exact .inr (hentry id (List.mem_of_mem_head? hhead.symm)).goesBy
    · exact .inl hmem

/-- Each type stands under its short name. -/
theorem mem_byShortName (types : Array TypeDecl) : ∀ entry ∈ byShortName types, ∀ id ∈ entry.2,
      ∃ d, types[id]? = some d ∧ d.instanceName = none ∧ d.shortName = entry.1 := by
  refine List.foldlRecOn
    (motive := fun t : Table (List TypeId) => ∀ entry ∈ t, ∀ id ∈ entry.2,
      ∃ d, types[id]? = some d ∧ d.instanceName = none ∧ d.shortName = entry.1)
    _ _ (fun _ h => nomatch h) fun t ht a ha entry hentry id hid => ?_
  rw [List.mem_filter, Option.isNone_iff_eq_none] at ha
  have hget : types[a.2]? = some a.1 := by
    simpa using List.mem_zipIdx_iff_getElem?.1 ha.1
  rcases Table.mem_insert_imp hentry with rfl | hentry
  · rcases List.mem_append.1 hid with hid | hid
    · cases hold : Table.get? a.1.shortName t with
      | none =>
        rw [hold] at hid
        cases hid
      | some old =>
        rw [hold] at hid
        exact ht _ (Table.mem_of_get? hold) id hid
    · obtain rfl := List.mem_singleton.1 hid
      exact ⟨a.1, hget, ha.2, rfl⟩
  · exact ht entry hentry id hid

theorem shortFor_of_mem
    (h : entry ∈ byShortName (unmarked r.types)) (hid : id ∈ entry.2) : r.ShortFor entry.1 id := by
  obtain ⟨d, hd, hinst, hname⟩ := mem_byShortName _ entry h id hid
  refine ⟨d.core, ?_, hinst, ?_⟩
  · rw [← core?_unmarked, core?, hd]
    rfl
  · -- the marks of declared types have been removed
    have hmark : d.notUnique = false := by
      rw [unmarked, Array.getElem?_map, Option.map_eq_some_iff] at hd
      obtain ⟨d', -, rfl⟩ := hd
      split at hinst
      · next hsome => simp [hinst] at hsome
      · next hnone => simp [hnone]
    rw [← hname, TypeDecl.shortName, hmark]
    rfl

theorem WellIndexed.markUnique (h : WellIndexed r) : SameTypes r r.markUnique := by
  have hstart : SameTypes r { r with types := unmarked r.types, unique := [] } :=
    ⟨h.sorted, fun _ _ => rfl, core?_unmarked r, rfl, fun _ _ hmem => nomatch hmem⟩
  have hentered := List.foldlRecOn (byShortName (unmarked r.types)) Registry.enterName hstart
    fun r' hr' entry hentry => hr'.enterName fun id hid => shortFor_of_mem hentry hid
  refine hentered.relabel rfl (fun _ => rfl) rfl fun name id hmem => ?_
  rcases Table.mem_extend hmem with hmem | hmem
  · exact .inl hmem
  right
  obtain ⟨e, he, heq⟩ := List.mem_map.1 hmem
  obtain ⟨rfl, hid⟩ := Prod.mk.inj heq
  obtain rfl := Option.some.inj hid
  rw [hentered.instances] at he
  obtain ⟨d, hd, hinst⟩ := h.instances e.1 e.2 he
  refine ⟨d, hd, ?_⟩
  rw [TypeDecl.GoesBy, hinst]

/-! ### Constants -/

theorem SameTypes.foldConstants (h : SameTypes r r') : SameTypes r r'.foldConstants := by
  have hstored : SameTypes r (r'.foldPending.foldl storeFolded r') :=
    List.foldlRecOn _ _ h fun r₁ h₁ _ _ =>
      h₁.relabel rfl (fun _ => rfl) rfl fun _ _ hmem => .inl hmem
  refine hstored.relabel rfl (fun id => ?_) rfl fun _ _ hmem => .inl hmem
  rw [core?, Registry.foldConstants, Array.getElem?_mapIdx, Option.map_map]
  rfl

theorem WellIndexed.parseTypes (h : WellIndexed r) : WellIndexed r.parseTypes := by
  have hcollected : WellIndexed
      { (r.inPathOrder ((List.range r.files.size).drop r.collected)).foldl Registry.collectFile r with
        collected := r.files.size } := by
    have hfiles := List.foldlRecOn (r.inPathOrder ((List.range r.files.size).drop r.collected))
      Registry.collectFile h fun r₁ h₁ file _ => h₁.collectFile file
    exact ⟨hfiles.sorted, hfiles.declared, hfiles.instances, hfiles.short⟩
  exact hcollected.markUnique.foldConstants.wellIndexed hcollected

/-! ### Instances -/

theorem WellIndexed.instantiate (h : WellIndexed r) (hd : d.instanceName = some name)
    (hp : r'.packages = r.packages) (ht : r'.types = r.types.push d)
    (hi : r'.instances = r.instances.insert name r.types.size)
    (hu : r'.unique = r.unique.insert name (some r.types.size)) : WellIndexed r' := by
  have hnew : r'.core? r.types.size = some d.core := (core?_push ht _).trans (if_pos rfl)
  refine ⟨hp ▸ h.sorted, fun path name' id => ?_, fun name' id hmem => ?_, fun name' id hmem => ?_⟩
  · -- an instance is not declared anywhere
    have hlisted : r'.typeIn? path name' = r.typeIn? path name' := by rw [typeIn?, hp, typeIn?]
    rw [hlisted, declares_push ht, h.declared]
    simp [hd]
  · rw [hi] at hmem
    rcases Table.mem_insert_imp hmem with heq | hmem
    · obtain ⟨rfl, rfl⟩ := Prod.mk.inj heq
      exact ⟨d.core, hnew, hd⟩
    · obtain ⟨d', hd', hinst⟩ := h.instances name' id hmem
      exact ⟨d', core?_push_of_some ht hd', hinst⟩
  · rw [hu] at hmem
    rcases Table.mem_insert_imp hmem with heq | hmem
    · obtain ⟨rfl, hid⟩ := Prod.mk.inj heq
      obtain rfl := Option.some.inj hid
      refine ⟨d.core, hnew, ?_⟩
      simp [TypeDecl.GoesBy, TypeDecl.core, hd]
    · obtain ⟨d', hd', hgoes⟩ := h.short name' id hmem
      exact ⟨d', core?_push_of_some ht hd', hgoes⟩

theorem WellIndexed.addInstance (h : WellIndexed r)
    (hd : d.instanceName = some name) : WellIndexed (r.addInstance d).2 := by
  have hname : d.typeName = name := by rw [TypeDecl.typeName, hd]
  unfold Registry.addInstance
  rw [hname]
  split
  · exact h
  · exact h.instantiate hd rfl rfl rfl rfl

theorem Gains.wellIndexed (hg : Gains r r') (h : WellIndexed r) : WellIndexed r' := by
  induction hg with
  | refl => exact h
  | bind args _ _ ih => exact ih.addInstance rfl

/-- Every registry that arises is well indexed. -/
theorem Reachable.wellIndexed (h : Reachable r) : WellIndexed r := by
  induction h with
  | empty goroot => exact wellIndexed_empty goroot
  | index u _ ih => exact ih.index u
  | collect _ ih => exact ih.parseTypes
  | gain _ hg ih => exact hg.wellIndexed ih

/-! ### Look-ups -/

theorem types_of_core? (h : r.core? id = some d) : ∃ d', r.types[id]? = some d' := by
  obtain ⟨d', hd', -⟩ := Option.map_eq_some_iff.1 h
  exact ⟨d', hd'⟩

/-- A type found by the name of its package belongs to a package with that name. -/
theorem WellIndexed.declares_of_scan (h : WellIndexed r) {qualifier : String}
    (hfound : ((r.packages.values.filter fun p => p.name == qualifier).findSome? fun p =>
      p.types.get? name) = some id) :
    ∃ path p, r.packages.get? path = some p ∧ p.name = qualifier ∧ r.Declares path name id := by
  obtain ⟨p, hp, hid⟩ := List.exists_of_findSome?_eq_some hfound
  obtain ⟨hvalue, hname⟩ := List.mem_filter.1 hp
  obtain ⟨⟨path, p'⟩, hentry, rfl⟩ := List.mem_map.1 hvalue
  have hget : r.packages.get? path = some p' := Table.get?_of_mem h.sorted hentry
  refine ⟨path, p', hget, beq_iff_eq.1 hname, (h.declared path name id).1 ?_⟩
  rw [typeIn?, hget]
  exact hid

end Registry

end GoApiDoc
