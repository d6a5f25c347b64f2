/-
Definitions and the declarations they come from.

The type path of a definition goes on to the definition of another type, and the declarations tell
which: the type that the right-hand side names, or a struct that is embedded.  So a circle of
definitions comes from a circle of declarations, which is either one of right-hand sides that are
names or one of embedded structs; and a struct on a circle of embedded structs gets no definition.

There is one way out of this.  A reference to a type that was entered and left without a definition
is answered by any other type that takes its name later.

* `Resolver.Anchored.shared_of_loops` — **only a shared name makes definitions a circle**.
-/

import GoApiDoc.Proofs.PathEnd

set_option autoImplicit false

namespace GoApiDoc

open Go (TypeId TypeExpr)
open Relation (ReflTransGen TransGen)

/-! ### Declarations -/

namespace Registry

/-- No declaration is an alias, and none has type parameters. -/
structure Plain (r : Registry) : Prop where
  aliases : ∀ ⦃id : TypeId⦄ ⦃d : TypeDecl⦄, r.types[id]? = some d → d.isAlias = false
  params : ∀ ⦃id : TypeId⦄ ⦃d : TypeDecl⦄, r.types[id]? = some d → d.params = []

/-- The declared type that a type without pointers stands for. -/
def declared? (r : Registry) (file : FileId) (t : TypeExpr) : Option TypeId :=
  (declaredOf file t r).1

/-- The right-hand side of the one type is the name of the other, up to pointers. -/
def Renames (r : Registry) (id other : TypeId) : Prop :=
  ∃ d, r.types[id]? = some d ∧ r.declared? d.file d.type.target = some other

/-- The type is a struct. -/
def IsStruct (r : Registry) (id : TypeId) : Prop :=
  ∃ d fields, r.types[id]? = some d ∧ d.type = .struct fields

end Registry

/-- The field embeds a struct and takes over its properties. -/
structure Field.Promotes (r : Registry) (naming : Naming) (f : Go.Field) (file : FileId)
    (id : TypeId) : Prop where
  unnamed : f.names = []
  shown : Field.isHidden f = false
  untagged : Field.propertyName? naming f = none
  found : r.declared? file f.type.target = some id
  struct : r.IsStruct id

namespace Registry

variable {r : Registry} {naming : Naming} {file : FileId} {t : TypeExpr} {id other : TypeId}
  {fields : List Go.Field} {d : TypeDecl}

/-- The one struct embeds the other. -/
def Embeds (r : Registry) (naming : Naming) (id other : TypeId) : Prop :=
  ∃ d fields f, r.types[id]? = some d ∧ d.type = .struct fields ∧ f ∈ fields ∧
    Field.Promotes r naming f d.file other

/-- The struct is embedded by the field, or by a struct that is. -/
def Takes (r : Registry) (naming : Naming) (f : Go.Field) (file : FileId) (other : TypeId) : Prop :=
  ∃ first, Field.Promotes r naming f file first ∧ ReflTransGen (r.Embeds naming) first other

/-- The struct is embedded by one of the fields, or by a struct that is. -/
def Reaches (r : Registry) (naming : Naming) (fields : List Go.Field) (file : FileId)
    (other : TypeId) : Prop :=
  ∃ f ∈ fields, r.Takes naming f file other

/-- The type path of a type can go on to the definition of a declared type: the one that it names,
or a struct that it embeds. -/
inductive Heads (r : Registry) (naming : Naming) (t : TypeExpr) (file : FileId) (other : TypeId) :
    Prop
  | name (h : r.declared? file t.target = some other)
  | embedded {fields : List Go.Field} (ht : t.target = .struct fields)
      (h : r.Reaches naming fields file other)

/-- The type path of a declared type can go on to the definition of the other. -/
def Precedes (r : Registry) (naming : Naming) (id other : TypeId) : Prop :=
  ∃ d, r.types[id]? = some d ∧ r.Heads naming d.type d.file other

theorem Embeds.isStruct (h : r.Embeds naming id other) : r.IsStruct other := by
  obtain ⟨_, _, _, -, -, -, hf⟩ := h
  exact hf.struct

theorem Reaches.isStruct (h : r.Reaches naming fields file other) : r.IsStruct other := by
  obtain ⟨f, -, first, hf, hpath⟩ := h
  rcases ReflTransGen.cases_tail hpath with rfl | ⟨_, -, hlast⟩
  · exact hf.struct
  · exact hlast.isStruct

/-- What the fields of a struct embed, the struct embeds. -/
theorem transGen_embeds_of_reaches (hd : r.types[id]? = some d)
    (ht : d.type = .struct fields) (h : r.Reaches naming fields d.file other) :
    TransGen (r.Embeds naming) id other := by
  obtain ⟨f, hf, first, hfirst, hpath⟩ := h
  exact .head' ⟨d, fields, f, hd, ht, hf, hfirst⟩ hpath

theorem reaches_of_transGen_embeds (hd : r.types[id]? = some d)
    (ht : d.type = .struct fields) (h : TransGen (r.Embeds naming) id other) :
    r.Reaches naming fields d.file other := by
  obtain ⟨first, ⟨d', fields', f, hd', ht', hf, hfirst⟩, hpath⟩ := TransGen.head'_iff.1 h
  cases hd.symm.trans hd'
  obtain rfl : fields = fields' := TypeExpr.struct.inj (ht.symm.trans ht')
  exact ⟨f, hf, first, hfirst, hpath⟩

/-! ### Circles of declarations -/

theorem Precedes.renames_or_isStruct (h : r.Precedes naming id other) :
    r.Renames id other ∨ r.IsStruct other := by
  obtain ⟨d, hd, hhead⟩ := h
  cases hhead with
  | name hname => exact .inl ⟨d, hd, hname⟩
  | embedded _ hreach => exact .inr hreach.isStruct

/-- From a struct on only embedded structs follow. -/
theorem Precedes.embeds (h : r.Precedes naming id other) (hs : r.IsStruct id) :
    TransGen (r.Embeds naming) id other := by
  obtain ⟨d, hd, hhead⟩ := h
  obtain ⟨d', fields, hd', ht⟩ := hs
  cases hd.symm.trans hd'
  have htarget : d.type.target = .struct fields := by
    rw [ht]
    rfl
  cases hhead with
  | name hname =>
    rw [htarget] at hname
    cases hname
  | embedded ht' hreach =>
    obtain rfl : fields = _ := TypeExpr.struct.inj (htarget.symm.trans ht')
    exact transGen_embeds_of_reaches hd ht hreach

theorem embeds_of_precedes (h : TransGen (r.Precedes naming) id other) (hs : r.IsStruct id) :
    TransGen (r.Embeds naming) id other := by
  induction h with
  | single h => exact h.embeds hs
  | tail _ hlast ih =>
    obtain ⟨_, -, hstep⟩ := TransGen.tail'_iff.1 ih
    exact ih.trans (hlast.embeds hstep.isStruct)

theorem renames_or_isStruct_of_precedes (h : TransGen (r.Precedes naming) id other) :
    TransGen r.Renames id other ∨ r.IsStruct other := by
  induction h with
  | single h => exact h.renames_or_isStruct.imp_left .single
  | tail _ hlast ih =>
    rcases ih with hpath | hstruct
    · exact hlast.renames_or_isStruct.imp_left hpath.tail
    · obtain ⟨_, -, hstep⟩ := TransGen.tail'_iff.1 (hlast.embeds hstruct)
      exact .inr hstep.isStruct

/-! ### Plain declarations -/

theorem Plain.instantiate (h : r.Plain) (generic : TypeId) (args : List TypeExpr) :
    r.instantiate generic args file = (none, r) := by
  rw [Registry.instantiate, instanceFuel, instantiateWith]
  cases hd : r.types[generic]? with
  | none => rfl
  | some d =>
    dsimp only
    rw [h.params hd]
    rfl

theorem Plain.findType (h : r.Plain) (name : String) : (r.findType name file).2 = r := by
  rw [Registry.findType, instanceFuel, findTypeWith]
  split
  · rfl
  · rfl
  · next id _ _ =>
    cases hd : r.types[id]? with
    | none => rfl
    | some d =>
      have hgeneric : d.isGeneric = false := by rw [TypeDecl.isGeneric, h.params hd]; rfl
      simp [hgeneric]

theorem Plain.declaredOf (h : r.Plain) (file : FileId) (t : TypeExpr) :
    Registry.declaredOf file t r = (r.declared? file t, r) := by
  refine Prod.ext rfl ?_
  cases t with
  | generic base args =>
    rw [Registry.declaredOf]
    split
    · rw [h.instantiate]
    · rfl
  | ident name | qualified package name => exact h.findType _
  | _ => rfl

end Registry

/-! ### Definitions -/

namespace Resolver

variable {r : Registry} {settings : Settings} {g g' : Resolver} {id other : TypeId}
  {n n' : String} {s : Schema}

/-- The name is that of a type which has a definition, is being built or was left open. -/
def Tracks (g : Resolver) (id : TypeId) (n : String) : Prop :=
  g.HasName id n ∧ (g.parsed.lookup id = some n ∨ id ∈ g.building ∨ id ∈ g.leftOpen)

/-- The name of a type that was entered and left without a definition belongs to another type. -/
def Shared (g : Resolver) : Prop :=
  ∃ id other n, id ∈ g.leftOpen ∧ g.HasName id n ∧ other ≠ id ∧ g.parsed.lookup other = some n

/-- A name is shared only by two types that the tables tell. -/
theorem Shared.exists_mem (h : g.Shared) :
    ∃ id ∈ g.leftOpen, ∃ e ∈ g.parsed, e.1 ≠ id ∧ e.2 = g.nameOf id := by
  obtain ⟨id, other, n, hopen, ⟨d, hd, rfl⟩, hne, hp⟩ := h
  obtain ⟨before, after, hparsed, -⟩ := List.lookup_eq_some_iff.1 hp
  refine ⟨id, hopen, (other, d.typeName), ?_, hne, ?_⟩
  · rw [hparsed]
    exact List.mem_append_right _ (.head _)
  · simp [nameOf, hd]

/-- A type path can go from a definition back to it. -/
def Loops (g : Resolver) : Prop := ∃ n, TransGen (Schema.Follows g.definitions) n n

theorem Extends.tracks (h : g.Extends g') (ht : g.Tracks id n) : g'.Tracks id n := by
  obtain ⟨hname, hp | hb | ho⟩ := ht
  · exact ⟨h.hasName hname, .inl (h.parsed hp)⟩
  · exact ⟨h.hasName hname, .inr (.inl (h.building ▸ hb))⟩
  · exact ⟨h.hasName hname, .inr (.inr (h.leftOpen ho))⟩

theorem Tracks.enter (h : g.Tracks other n) (id : TypeId) : (g.enter id).Tracks other n := by
  obtain ⟨hname, hp | hb | ho⟩ := h
  · exact ⟨hname, .inl hp⟩
  · exact ⟨hname, .inr (.inl (List.mem_append_left _ hb))⟩
  · exact ⟨hname, .inr (.inr ho)⟩

/-- Every definition goes on to a type that its declaration tells.  A struct with a definition does
not embed itself, and a type that is being built has claimed its name or is left open. -/
structure Anchored (r : Registry) (settings : Settings) (g : Resolver) : Prop where
  sound : g.Sound
  registry_eq : g.registry = r
  settings_eq : g.settings = settings
  straight : ∀ ⦃n s⦄, g.definitions.get? n = some s → s.Straight
  led : ∀ ⦃id n s n'⦄, g.parsed.lookup id = some n → g.definitions.get? n = some s →
    s.head? = some n' → ∃ other, r.Precedes settings.naming id other ∧ g.Tracks other n'
  apart : ∀ ⦃id n⦄, g.parsed.lookup id = some n → ¬TransGen (r.Embeds settings.naming) id id
  entered : ∀ ⦃id⦄, id ∈ g.building → id ∈ g.leftOpen ∨ ∃ n, g.names.get? n = some id

theorem anchored_fresh (r : Registry) (settings : Settings) :
    (fresh r settings).Anchored r settings where
  sound := sound_fresh r settings
  registry_eq := rfl
  settings_eq := rfl
  straight := fun _ _ h => by cases h
  led := fun _ _ _ _ h => by cases h
  apart := fun _ _ h => by cases h
  entered := fun _ h => by cases h

/-! ### Entering and leaving types -/

theorem Anchored.enter_open (hg : g.Anchored r settings) (id : TypeId) :
    ((g.noteOpen id).enter id).Anchored r settings where
  sound := (hg.sound.noteOpen id).enter id
  registry_eq := hg.registry_eq
  settings_eq := hg.settings_eq
  straight := hg.straight
  led := by
    intro id' n s n' hp hs hhead
    obtain ⟨other, hprecedes, htracks⟩ := hg.led hp hs hhead
    exact ⟨other, hprecedes, ((Extends.noteOpen g id).tracks htracks).enter id⟩
  apart := hg.apart
  entered := by
    intro id' hb
    rcases List.mem_append.1 hb with hb | hb
    · exact (hg.entered hb).imp_left (.tail _)
    · exact .inl (List.mem_singleton.1 hb ▸ (.head _))

theorem Anchored.claim_enter (hg : g.Anchored r settings) (hid : g.HasName id n)
    (hfree : g.names.get? n = none) : ((g.claim id n).enter id).Anchored r settings where
  sound := hg.sound.claim_enter hid hfree
  registry_eq := hg.registry_eq
  settings_eq := hg.settings_eq
  straight := hg.straight
  led := by
    intro id' n' s n'' hp hs hhead
    obtain ⟨other, hprecedes, htracks⟩ := hg.led hp hs hhead
    exact ⟨other, hprecedes, .enter (g := g.claim id n) htracks id⟩
  apart := hg.apart
  entered := by
    intro id' hb
    rcases List.mem_append.1 hb with hb | hb
    · refine (hg.entered hb).imp_right ?_
      rintro ⟨n', hn'⟩
      exact ⟨n', names_claim hfree hn'⟩
    · obtain rfl := List.mem_singleton.1 hb
      refine .inr ⟨n, ?_⟩
      change (g.names.insert n id').get? n = some id'
      rw [Table.get?_insert, if_pos rfl]

theorem Tracks.leave (h : (g.enter id).Extends g') (hopen : id ∈ g'.leftOpen)
    (ht : g'.Tracks other n) : g'.leave.Tracks other n := by
  obtain ⟨hname, hp | hb | ho⟩ := ht
  · exact ⟨hname, .inl hp⟩
  · rcases mem_building_of_enter h hb with hb | rfl
    · exact ⟨hname, .inr (.inl (building_leave h ▸ hb))⟩
    · exact ⟨hname, .inr (.inr hopen)⟩
  · exact ⟨hname, .inr (.inr ho)⟩

theorem mem_building_of_leave (h : id ∈ g.leave.building) : id ∈ g.building :=
  List.mem_of_mem_dropLast h

/-- **A struct that was gone through.** -/
theorem Anchored.leave (hg' : g'.Anchored r settings) (h : (g.enter id).Extends g')
    (hsound : g'.leave.Sound) (hopen : id ∈ g'.leftOpen) : g'.leave.Anchored r settings where
  sound := hsound
  registry_eq := hg'.registry_eq
  settings_eq := hg'.settings_eq
  straight := hg'.straight
  led := by
    intro id' n s n' hp hs hhead
    obtain ⟨other, hprecedes, htracks⟩ := hg'.led hp hs hhead
    exact ⟨other, hprecedes, htracks.leave h hopen⟩
  apart := hg'.apart
  entered := fun _ hb => hg'.entered (mem_building_of_leave hb)

theorem Tracks.store (hid : g.HasName id n) (h : ((g.claim id n).enter id).Extends g')
    (hnone : g'.parsed.lookup id = none) (s : Schema) (ht : g'.Tracks other n') :
    (g'.leave.store id n s).Tracks other n' := by
  obtain ⟨hname, hp | hb | ho⟩ := ht
  · exact ⟨hname, .inl (lookup_store (g := g'.leave) hnone s hp)⟩
  · rcases mem_building_of_enter h hb with hb | rfl
    · exact ⟨hname, .inr (.inl (building_leave h ▸ hb))⟩
    · obtain rfl := hname.unique (h.hasName hid)
      exact ⟨hname, .inl (lookup_store_self s)⟩
  · exact ⟨hname, .inr (.inr ho)⟩

/-- **A type whose definition has been built.**  It goes on to a type that its declaration tells,
and does not embed itself. -/
theorem Anchored.define (hg' : g'.Anchored r settings) (hid : g.HasName id n)
    (hfresh : g.parsed.lookup id = none) (h : ((g.claim id n).enter id).Extends g')
    (hsound : (g'.leave.store id n s).Sound) (hs : s.Straight) (hhead : ∀ n', s.head? = some n' →
      ∃ other, r.Precedes settings.naming id other ∧ g'.Tracks other n')
    (hapart : ¬TransGen (r.Embeds settings.naming) id id) :
    (g'.leave.store id n s).Anchored r settings := by
  obtain ⟨hname, hnone, hnew⟩ := claim_kept hfresh h hg'.sound
  refine ⟨hsound, hg'.registry_eq, hg'.settings_eq, ?_, ?_, ?_, ?_⟩
  · intro n' s' hs'
    change (g'.definitions.insert n s).get? n' = some s' at hs'
    rw [Table.get?_insert] at hs'
    split at hs'
    · cases hs'
      exact hs
    · exact hg'.straight hs'
  · intro id' n' s' n'' hp hs' hhead'
    change (g'.definitions.insert n s).get? n' = some s' at hs'
    rw [Table.get?_insert] at hs'
    rcases lookup_of_store hp with ⟨rfl, rfl⟩ | ⟨-, hold⟩
    · cases (if_pos rfl).symm.trans hs'
      obtain ⟨other, hprecedes, htracks⟩ := hhead n'' hhead'
      exact ⟨other, hprecedes, htracks.store hid h hnone s⟩
    · -- the definitions of other types are still there, as none had the new name
      have hne : n' ≠ n := by
        rintro rfl
        exact hnew (hg'.sound.parsed hold).2
      rw [if_neg hne] at hs'
      obtain ⟨other, hprecedes, htracks⟩ := hg'.led hold hs' hhead'
      exact ⟨other, hprecedes, htracks.store hid h hnone s⟩
  · intro id' n' hp
    rcases lookup_of_store hp with ⟨rfl, -⟩ | ⟨-, hp⟩
    · exact hapart
    · exact hg'.apart hp
  · exact fun _ hb => hg'.entered (mem_building_of_leave hb)

theorem Tracks.release (h : ((g.claim id n).enter id).Extends g') (ht : g'.Tracks other n') :
    (g'.leave.release id n).Tracks other n' := by
  obtain ⟨hname, hp | hb | ho⟩ := ht
  · exact ⟨hname, .inl hp⟩
  · rcases mem_building_of_enter h hb with hb | rfl
    · exact ⟨hname, .inr (.inl (building_leave h ▸ hb))⟩
    · exact ⟨hname, .inr (.inr (.head _))⟩
  · exact ⟨hname, .inr (.inr (.tail _ ho))⟩

/-- **A type that could not be built.** -/
theorem Anchored.release (hg' : g'.Anchored r settings) (hfresh : g.parsed.lookup id = none)
    (h : ((g.claim id n).enter id).Extends g') (hsound : (g'.leave.release id n).Sound) :
    (g'.leave.release id n).Anchored r settings := by
  obtain ⟨hname, -, -⟩ := claim_kept hfresh h hg'.sound
  refine ⟨hsound, hg'.registry_eq, hg'.settings_eq, hg'.straight, ?_, hg'.apart, ?_⟩
  · intro id' n' s n'' hp hs hhead
    obtain ⟨other, hprecedes, htracks⟩ := hg'.led hp hs hhead
    exact ⟨other, hprecedes, htracks.release h⟩
  · intro id' hb
    rcases hg'.entered (mem_building_of_leave hb) with ho | ⟨n', hn'⟩
    · exact .inl (.tail _ ho)
    by_cases hne : n' = n
    · -- the name that was given back was the type's own
      subst hne
      cases hname.symm.trans hn'
      exact .inl (.head _)
    · exact .inr ⟨n', (names_release (g := g'.leave) hg'.sound.sorted).2 ⟨hne, hn'⟩⟩

/-! ### Circles of definitions -/

/-- The name of a type that is not left open leads to that type only. -/
theorem Anchored.eq_of_tracks (hg : g.Anchored r settings) (hshared : ¬g.Shared)
    (ht : g.Tracks id n) (hp : g.parsed.lookup other = some n) : other = id := by
  have hopen : id ∈ g.leftOpen → other = id := by
    intro ho
    by_contra hne
    exact hshared ⟨id, other, n, ho, ht.1, hne, hp⟩
  have hclaim : g.names.get? n = some other := (hg.sound.parsed hp).1
  have hclaimed : g.names.get? n = some id → other = id := fun h =>
    Option.some.inj (hclaim.symm.trans h)
  obtain ⟨hname, hparsed | hb | ho⟩ := ht
  · exact hclaimed (hg.sound.parsed hparsed).1
  · rcases hg.entered hb with ho | ⟨n', hn'⟩
    · exact hopen ho
    · obtain rfl := hname.unique (hg.sound.named hn')
      exact hclaimed hn'
  · exact hopen ho

/-- From definition to definition is from declaration to declaration. -/
theorem Anchored.precedes (hg : g.Anchored r settings) (hshared : ¬g.Shared)
    (h : TransGen (Schema.Follows g.definitions) n n') (hp : g.parsed.lookup id = some n)
    (hp' : g.parsed.lookup other = some n') : TransGen (r.Precedes settings.naming) id other := by
  have hstep : ∀ {id other : TypeId} {n n' : String}, Schema.Follows g.definitions n n' →
      g.parsed.lookup id = some n → g.parsed.lookup other = some n' →
      r.Precedes settings.naming id other := by
    rintro id other n n' ⟨s, hs, hhead⟩ hp hp'
    obtain ⟨next, hnext, htracks⟩ := hg.led hp hs hhead
    rwa [hg.eq_of_tracks hshared htracks hp']
  induction h generalizing other with
  | single h => exact .single (hstep h hp hp')
  | tail _ hlast ih =>
    obtain ⟨s, hs, hhead⟩ := hlast
    obtain ⟨middle, hmiddle⟩ := hg.sound.defined (Table.mem_keys_iff.2 ⟨s, hs⟩)
    exact (ih hmiddle).tail (hstep ⟨s, hs, hhead⟩ hmiddle hp')

/-- **Only a shared name makes definitions a circle.**  All other circles are circles of the
declarations, and those have no definitions. -/
theorem Anchored.shared_of_loops (hg : g.Anchored r settings)
    (hrenames : ∀ id, ¬TransGen r.Renames id id) (h : g.Loops) : g.Shared := by
  by_contra hshared
  obtain ⟨n, hcircle⟩ := h
  obtain ⟨first, ⟨s, hs, -⟩, -⟩ := TransGen.head'_iff.1 hcircle
  obtain ⟨id, hp⟩ := hg.sound.defined (Table.mem_keys_iff.2 ⟨s, hs⟩)
  -- a circle is one of names or one of embedded structs
  have hprecedes := hg.precedes hshared hcircle hp hp
  rcases Registry.renames_or_isStruct_of_precedes hprecedes with h | h
  · exact hrenames id h
  · exact hg.apart hp (Registry.embeds_of_precedes hprecedes h)

theorem Anchored.typePath?_isSome (hg : g.Anchored r settings) (hloops : ¬g.Loops)
    (hs : s.Straight) (depth : Nat) : (g.typePath? depth s).isSome :=
  Schema.typePathIn_isSome (fun n hcircle => hloops ⟨n, hcircle⟩) (fun _ _ h => hg.straight h) hs
    depth

end Resolver

end GoApiDoc
