/-
States from which types are resolved in any order.

A definition is built from what the resolver knows at that time, and what it knows depends on the
types that were resolved before.  Where all circles of types are orderly the differences are small,
and they are told here: a reference leads to a definition or to a type on a circle that is being
built; definitions refer to earlier ones and to types on circles, which are objects; and for each
definition there has been a run that built it.

* `Resolver.Steady.onward_define`, `Resolver.Steady.onward_release`,
  `Resolver.Steady.onward_leave` — **the three ways in which a type that was entered is left**.
-/

import GoApiDoc.Proofs.Circular

set_option autoImplicit false

namespace GoApiDoc

open Go (TypeId TypeExpr)

variable {s : Schema} {ref n : String} {l : List (TypeId × String)} {id : TypeId} {d : TypeDecl}

/-! ### Objects -/

/-- The schema is that of an object and of nothing else. -/
structure Schema.IsObject (s : Schema) : Prop where
  reference : s.reference = none
  type : s.type = some "object"
  items : s.items = none
  additional : s.additional = none

theorem Schema.IsObject.ofDecl (h : s.IsObject) (d : TypeDecl) : (Schema.ofDecl d s).IsObject := by
  have haddEnums : (s.addEnums d.enums).IsObject := by
    rw [Schema.addEnums]
    split
    · exact h
    · exact ⟨h.reference, h.type, h.items, h.additional⟩
  rw [Schema.ofDecl]
  split
  · split
    · exact ⟨haddEnums.reference, haddEnums.type, haddEnums.items, haddEnums.additional⟩
    · exact haddEnums
  · exact haddEnums

theorem StructParts.isObject_toSchema {p : StructParts} (h : p.composed = []) :
    p.toSchema.IsObject := by
  rw [StructParts.toSchema, h]
  exact ⟨rfl, rfl, rfl, rfl⟩

namespace Resolver

variable {r : Filling} {settings : Settings} {g g' g'' : Resolver}

/-! ### What may be referred to -/

/-- The type has a definition, or it is being built and leads back to itself. -/
def Has (r : Filling) (settings : Settings) (g : Resolver) (id : TypeId) : Prop :=
  (∃ n, g.parsed.lookup id = some n) ∨ (id ∈ g.building ∧ Circular r settings id)

/-- The reference leads to a type that may be referred to. -/
def Holds (r : Filling) (settings : Settings) (g : Resolver) (ref : String) : Prop :=
  ∃ id d, r.types[id]? = some d ∧ ref = Schema.definitionsPath ++ d.typeName ∧ g.Has r settings id

/-- The reference leads to one of these definitions, or to a type on a circle. -/
def RestsOn (r : Filling) (settings : Settings) (g : Resolver)
    (earlier : List (TypeId × String)) (ref : String) : Prop :=
  ∃ id d, r.types[id]? = some d ∧ ref = Schema.definitionsPath ++ d.typeName ∧
    ((id, d.typeName) ∈ earlier ∨ (Circular r settings id ∧ g.Has r settings id))

/-- Each definition refers to those that come later in the list, which are earlier ones, and to
types on circles. -/
def Grounded (r : Filling) (settings : Settings) (g : Resolver) :
    List (TypeId × String) → Prop
  | [] => True
  | e :: earlier =>
    (∃ s, g.definitions.get? e.2 = some s ∧ s.AllRefs (g.RestsOn r settings earlier)) ∧
      Grounded r settings g earlier

/-! ### The invariant -/

/-- The invariant of states, for a registry that has all instances that will be made. -/
structure Steady (r : Filling) (settings : Settings) (g : Resolver) : Prop where
  sound : g.Sound
  configured : g.settings = settings
  started : r.start.Gains g.registry
  registry : g.registry.Gains r
  sorted : g.definitions.Sorted
  /-- No name is defined twice. -/
  distinct : (g.parsed.map Prod.snd).Nodup
  grounded : g.Grounded r settings g.parsed
  objects : ∀ ⦃id : TypeId⦄ ⦃n : String⦄ ⦃s : Schema⦄, Circular r settings id →
    g.parsed.lookup id = some n → g.definitions.get? n = some s → s.IsObject
  /-- A type on a circle that is being built has claimed its name. -/
  claims : ∀ ⦃id : TypeId⦄, id ∈ g.building → Circular r settings id →
    ∃ d, r.types[id]? = some d ∧ g.names.get? d.typeName = some id
  /-- A type with a definition is not one that is left out. -/
  sane : ∀ ⦃id : TypeId⦄ ⦃n : String⦄, g.parsed.lookup id = some n → ¬Fails r settings (.symbol id)

/-- The types that are being built have been entered one from another, and what may be entered next
is entered from the last of them. -/
structure Linked (r : Filling) (settings : Settings) (g : Resolver)
    (P : TypeId → Entry → Prop) : Prop where
  chain : g.building.IsChain (Refers r settings)
  next : ∀ ⦃last : TypeId⦄, g.building.getLast? = some last →
    ∀ ⦃id : TypeId⦄ ⦃v : Entry⦄, P id v → Refers r settings last id
  /-- No type on a circle is embedded. -/
  apart : ∀ ⦃id : TypeId⦄, P id .embedding → ¬Circular r settings id

/-- The definitions of one state are definitions of the other, and of the same types. -/
structure Within (g g' : Resolver) : Prop where
  definitions : ∀ ⦃n : String⦄ ⦃s : Schema⦄, g.definitions.get? n = some s →
    g'.definitions.get? n = some s
  parsed : ∀ ⦃id : TypeId⦄ ⦃n : String⦄, g.parsed.lookup id = some n → g'.parsed.lookup id = some n

theorem Within.refl (g : Resolver) : g.Within g := ⟨fun _ _ h => h, fun _ _ h => h⟩

theorem Within.trans (h : g.Within g') (h' : g'.Within g'') : g.Within g'' :=
  ⟨fun _ _ hs => h'.definitions (h.definitions hs), fun _ _ hn => h'.parsed (h.parsed hn)⟩

theorem Extends.within (h : g.Extends g') : g.Within g' := ⟨h.definitions, h.parsed⟩

/-- The definition of the type has been built by a run whose definitions are still there. -/
def Built (r : Filling) (settings : Settings) (g : Resolver) (id : TypeId) : Prop :=
  ∃ d m s h h', r.types[id]? = some d ∧ Steady r settings h ∧
    h.Linked r settings (Leads r settings id) ∧
    Resolving.runOn (resolveWith m d.type d.file) h = (.ok s, h') ∧ h'.registry.Gains r ∧
    g.definitions.get? d.typeName = some (Schema.ofDecl d s) ∧ h'.Within g ∧
    ∀ b ∈ h.building, Circular r settings b → g.Has r settings b

/-- Each definition has been built by a run. -/
def Recorded (r : Filling) (settings : Settings) (g : Resolver) : Prop :=
  ∀ ⦃id : TypeId⦄ ⦃n : String⦄, g.parsed.lookup id = some n → g.Built r settings id

/-! ### Later states -/

/-- What is there in one state is there in the other: definitions, and types that may be referred
to. -/
structure Passes (r : Filling) (settings : Settings) (g g' : Resolver) : Prop where
  within : g.Within g'
  has : ∀ ⦃id : TypeId⦄, g.Has r settings id → g'.Has r settings id

theorem Extends.passes (h : g.Extends g') : g.Passes r settings g' where
  within := h.within
  has := by
    rintro id (⟨n, hn⟩ | ⟨hin, hcircular⟩)
    · exact .inl ⟨n, h.parsed hn⟩
    · exact .inr ⟨h.building ▸ hin, hcircular⟩

namespace Passes

theorem holds (h : g.Passes r settings g') (href : g.Holds r settings ref) :
    g'.Holds r settings ref := by
  obtain ⟨id, d, hd, rfl, hhas⟩ := href
  exact ⟨id, d, hd, rfl, h.has hhas⟩

theorem restsOn (h : g.Passes r settings g') {earlier : List (TypeId × String)}
    (href : g.RestsOn r settings earlier ref) : g'.RestsOn r settings earlier ref := by
  obtain ⟨id, d, hd, rfl, hin⟩ := href
  exact ⟨id, d, hd, rfl, hin.imp_right fun ⟨hcircular, hhas⟩ => ⟨hcircular, h.has hhas⟩⟩

theorem grounded (h : g.Passes r settings g') (hl : g.Grounded r settings l) :
    g'.Grounded r settings l := by
  induction l with
  | nil => trivial
  | cons e earlier ih =>
    obtain ⟨⟨s, hs, hrefs⟩, hrest⟩ := hl
    exact ⟨⟨s, h.within.definitions hs, hrefs.imp fun _ href => h.restsOn href⟩, ih hrest⟩

theorem built (h : g.Passes r settings g') (hid : g.Built r settings id) :
    g'.Built r settings id := by
  obtain ⟨d, m, s, h₀, h₁, hd, hsteady, hlinked, hrun, hgain, hdef, hwithin, hcovers⟩ := hid
  exact ⟨d, m, s, h₀, h₁, hd, hsteady, hlinked, hrun, hgain, h.within.definitions hdef,
    hwithin.trans h.within, fun b hb hc => h.has (hcovers b hb hc)⟩

theorem recorded (h : g.Passes r settings g') (hparsed : g'.parsed = g.parsed)
    (hg : Recorded r settings g) : Recorded r settings g' :=
  fun _ _ hid => h.built (hg (hparsed ▸ hid))

end Passes

/-- A later state that is steady too, and in which each definition has been built by a run if that
was so before. -/
structure Onward (r : Filling) (settings : Settings) (g g' : Resolver) : Prop where
  ext : g.Extends g'
  steady : Steady r settings g'
  recorded : Recorded r settings g → Recorded r settings g'

theorem Steady.onward_refl (hg : Steady r settings g) : Onward r settings g g :=
  ⟨Extends.refl g, hg, id⟩

theorem Onward.trans (h : Onward r settings g g') (h' : Onward r settings g' g'') :
    Onward r settings g g'' :=
  ⟨h.ext.trans h'.ext, h'.steady, fun hg => h'.recorded (h.recorded hg)⟩

/-! ### Linked types -/

namespace Linked

variable {P P' : TypeId → Entry → Prop} {v : Entry}

theorem imp (h : g.Linked r settings P) (hP : ∀ id v, P' id v → P id v) : g.Linked r settings P' :=
  ⟨h.chain, fun _ hlast _ _ hid => h.next hlast (hP _ _ hid), fun _ hid => h.apart (hP _ _ hid)⟩

theorem of_building (h : g.Linked r settings P) (hb : g'.building = g.building) :
    g'.Linked r settings P :=
  ⟨hb ▸ h.chain, hb ▸ h.next, h.apart⟩

/-- **A type that is entered while it is being built leads back to itself.** -/
theorem circular (h : g.Linked r settings P) (hP : P id v) (hin : id ∈ g.building) :
    Circular r settings id := by
  obtain ⟨before, after, hsplit⟩ := List.append_of_mem hin
  have hchain : (id :: after).IsChain (Refers r settings) :=
    (hsplit ▸ h.chain).right_of_append
  have hlast := List.getLast?_eq_some_getLast (List.cons_ne_nil id after)
  have hto := List.relationReflTransGen_of_exists_isChain_cons after hchain rfl
  refine .tail' hto (h.next ?_ hP)
  rw [hsplit, List.getLast?_append, hlast]
  rfl

/-- What is entered next is entered from the type that has just been entered. -/
theorem enter (ho : Orderly r settings) (h : g.Linked r settings P)
    (hP : P id v) : (g.enter id).Linked r settings (Leads r settings id) where
  chain := by
    refine h.chain.append (.singleton id) fun last hlast first hfirst => ?_
    cases hfirst
    exact h.next hlast hP
  next := by
    intro last hlast id' v' hid'
    rw [show (g.enter id).building = g.building ++ [id] from rfl, List.getLast?_concat] at hlast
    cases hlast
    exact ⟨v', hid'⟩
  apart := fun _ hid' hcircular => ho.apart hcircular hid'

end Linked

/-! ### Steady states -/

namespace Steady

/-- The definition of a type has its name. -/
theorem name_of_lookup (hg : Steady r settings g) (hid : g.parsed.lookup id = some n)
    (hd : r.types[id]? = some d) : n = d.typeName := by
  obtain ⟨d', hd', rfl⟩ := hg.sound.named (hg.sound.parsed hid).1
  cases (hg.registry.grows hd').symm.trans hd
  rfl

/-- A type on a circle that is being built has no definition yet, and no other type has one under
its name. -/
theorem get?_of_building (hg : Steady r settings g)
    (hin : id ∈ g.building) (hid : Circular r settings id) (hd : r.types[id]? = some d)
    (hnone : g.parsed.lookup id = none) : g.definitions.get? d.typeName = none := by
  obtain ⟨d', hd', hname⟩ := hg.claims hin hid
  cases hd.symm.trans hd'
  refine Option.eq_none_iff_forall_ne_some.2 fun s hs => ?_
  obtain ⟨id', hid'⟩ := hg.sound.defined (Table.mem_keys_iff.2 ⟨s, hs⟩)
  cases hname.symm.trans (hg.sound.parsed hid').1
  rw [hnone] at hid'
  cases hid'

theorem hasName_of_building (hg : Steady r settings g) (hin : id ∈ g.building)
    (hid : Circular r settings id) (hd : r.types[id]? = some d) : g.HasName id d.typeName := by
  obtain ⟨d', hd', hname⟩ := hg.claims hin hid
  cases hd.symm.trans hd'
  exact hg.sound.named hname

theorem answers (hg : Steady r settings g) (href : g.Holds r settings ref) : g.Answers ref := by
  obtain ⟨id, d, hd, rfl, ⟨n, hn⟩ | ⟨hin, hcircular⟩⟩ := href
  · obtain rfl := hg.name_of_lookup hn hd
    exact ⟨_, rfl, .inl (hg.sound.parsed hn).2⟩
  · exact ⟨_, rfl, .inr ⟨id, hg.hasName_of_building hin hcircular hd, .inl hin⟩⟩

/-- The names that have been defined are those in the list. -/
theorem mem_keys_of_grounded (hl : g.Grounded r settings l) (hn : n ∈ l.map Prod.snd) :
    n ∈ g.definitions.keys := by
  induction l with
  | nil => cases hn
  | cons e earlier ih =>
    obtain ⟨⟨s, hs, -⟩, hrest⟩ := hl
    rcases List.mem_cons.1 hn with rfl | hn
    · exact Table.mem_keys_iff.2 ⟨s, hs⟩
    · exact ih hrest hn

/-! ### Entering types -/

/-- The registry may gain instances that it has at the end. -/
theorem onward_gains (hg : Steady r settings g) {r' : Registry} (h : g.registry.Gains r')
    (hr : r'.Gains r) : Onward r settings g { g with registry := r' } where
  ext := Extends.ofGains h
  steady :=
    { hg with
      sound := hg.sound.ofGains h
      started := hg.started.trans h
      registry := hr
      grounded := (Extends.ofGains h).passes.grounded hg.grounded }
  recorded := (Extends.ofGains h).passes.recorded rfl

end Steady

/-- Nothing is lost when more types are being built. -/
theorem passes_enter (hdefinitions : g'.definitions = g.definitions)
    (hparsed : g'.parsed = g.parsed) (hbuilding : g.building ⊆ g'.building) :
    g.Passes r settings g' where
  within := ⟨fun _ _ hs => hdefinitions ▸ hs, fun _ _ hn => hparsed ▸ hn⟩
  has := by
    rintro id (⟨n, hn⟩ | ⟨hin, hcircular⟩)
    · exact .inl ⟨n, hparsed ▸ hn⟩
    · exact .inr ⟨hbuilding hin, hcircular⟩

theorem passes_claim_enter : g.Passes r settings ((g.claim id n).enter id) :=
  passes_enter rfl rfl (List.subset_append_left _ _)

theorem passes_noteOpen_enter : g.Passes r settings ((g.noteOpen id).enter id) :=
  passes_enter rfl rfl (List.subset_append_left _ _)

namespace Steady

/-- **A type is entered for its definition**, under the name that it has claimed. -/
theorem claim_enter (hg : Steady r settings g) (hd : g.registry.types[id]? = some d)
    (hfree : g.names.get? d.typeName = none) :
    Steady r settings ((g.claim id d.typeName).enter id) where
  sound := hg.sound.claim_enter ⟨d, hd, rfl⟩ hfree
  configured := hg.configured
  started := hg.started
  registry := hg.registry
  sorted := hg.sorted
  distinct := hg.distinct
  grounded := passes_claim_enter.grounded hg.grounded
  objects := hg.objects
  sane := hg.sane
  claims := by
    intro id' hin hcircular
    rcases List.mem_append.1 hin with hin | hin
    · obtain ⟨d', hd', hname⟩ := hg.claims hin hcircular
      exact ⟨d', hd', names_claim hfree hname⟩
    · obtain rfl := List.mem_singleton.1 hin
      refine ⟨d, hg.registry.grows hd, ?_⟩
      change (g.names.insert d.typeName id').get? d.typeName = some id'
      rw [Table.get?_insert, if_pos rfl]

/-- **A type is entered for its fields**, which is done with no type on a circle. -/
theorem noteOpen_enter (hg : Steady r settings g)
    (hid : ¬Circular r settings id) : Steady r settings ((g.noteOpen id).enter id) where
  sound := (hg.sound.noteOpen id).enter id
  configured := hg.configured
  started := hg.started
  registry := hg.registry
  sorted := hg.sorted
  distinct := hg.distinct
  grounded := passes_noteOpen_enter.grounded hg.grounded
  objects := hg.objects
  sane := hg.sane
  claims := by
    intro id' hin hcircular
    rcases List.mem_append.1 hin with hin | hin
    · exact hg.claims hin hcircular
    · obtain rfl := List.mem_singleton.1 hin
      exact absurd hcircular hid

end Steady

/-! ### Leaving types -/

section Leaving

variable {id : TypeId} {n : String}

/-- Nothing is lost when a type is left that is on no circle, or has got its definition. -/
theorem passes_leave {g₁ : Resolver} (h : (g.enter id).Extends g')
    (hbuilding : g₁.building = g'.leave.building) (hwithin : g'.Within g₁)
    (hid : Circular r settings id → ∃ n, g₁.parsed.lookup id = some n) :
    g'.Passes r settings g₁ where
  within := hwithin
  has := by
    rintro id' (⟨n', hn'⟩ | ⟨hin, hcircular⟩)
    · exact .inl ⟨n', hwithin.parsed hn'⟩
    · rcases mem_building_of_enter h hin with hin | rfl
      · exact .inr ⟨by rwa [hbuilding, building_leave h], hcircular⟩
      · exact .inl (hid hcircular)

theorem mem_of_leave (h : (g.enter id).Extends g') {id' : TypeId} (hin : id' ∈ g'.leave.building) :
    id' ∈ g'.building := by
  rw [building_leave h] at hin
  rw [h.building]
  exact List.mem_append_left _ hin

theorem within_leave_store (hnone : g'.parsed.lookup id = none)
    (hnew : n ∉ g'.definitions.keys) (s : Schema) : g'.Within (g'.leave.store id n s) := by
  refine ⟨fun n' t ht => ?_, fun _ _ hn => lookup_store (g := g'.leave) hnone _ hn⟩
  have hother : n' ≠ n := by
    rintro rfl
    exact hnew (Table.mem_keys_iff.2 ⟨t, ht⟩)
  change (g'.definitions.insert n s).get? n' = some t
  rw [Table.get?_insert, if_neg hother]
  exact ht

namespace Steady

/-- **A type on no circle is left after its fields have been gone through.** -/
theorem onward_leave (hg : Steady r settings g) (hout : id ∉ g.building)
    (hid : ¬Circular r settings id) (h : Onward r settings ((g.noteOpen id).enter id) g') :
    Onward r settings g g'.leave := by
  have hext : ((g.noteOpen id).enter id).Extends g' := h.ext
  have hpasses : g'.Passes r settings g'.leave :=
    passes_leave hext rfl ⟨fun _ _ hs => hs, fun _ _ hn => hn⟩ fun hc => absurd hc hid
  have hsteady := h.steady
  refine ⟨(Extends.noteOpen g id).trans hext.leave, ?_, fun hrec id' n' hid' => ?_⟩
  · exact
      { hsteady with
        sound := (hg.sound.noteOpen id).leave hout hext hsteady.sound (hext.leftOpen (.head _))
        grounded := hpasses.grounded hsteady.grounded
        claims := fun id' hin hc => hsteady.claims (mem_of_leave hext hin) hc }
  · exact hpasses.built (h.recorded (passes_noteOpen_enter.recorded rfl hrec) hid')

/-- **A type that is left out has no definition and is on no circle.** -/
theorem onward_release (hd : g.registry.types[id]? = some d)
    (hfree : g.names.get? d.typeName = none) (hfresh : g.parsed.lookup id = none)
    (hid : ¬Circular r settings id) (h : Onward r settings ((g.claim id d.typeName).enter id) g') :
    Onward r settings g (g'.leave.release id d.typeName) := by
  have hext : ((g.claim id d.typeName).enter id).Extends g' := h.ext
  have hsteady := h.steady
  have hname : g.HasName id d.typeName := ⟨d, hd, rfl⟩
  have hpasses : g'.Passes r settings (g'.leave.release id d.typeName) :=
    passes_leave hext rfl ⟨fun _ _ hs => hs, fun _ _ hn => hn⟩ fun hc => absurd hc hid
  refine ⟨Extends.release hfree hext hsteady.sound, ?_, fun hrec id' n' hid' => ?_⟩
  · refine
      { hsteady with
        sound := hsteady.sound.release hname hfresh hext
        grounded := hpasses.grounded hsteady.grounded
        claims := fun id' hin hc => ?_ }
    obtain ⟨d', hd', hclaim⟩ := hsteady.claims (mem_of_leave hext hin) hc
    refine ⟨d', hd',
      (names_release (g := g'.leave) hsteady.sound.sorted).2 ⟨fun hsame => ?_, hclaim⟩⟩
    -- the name that is given back was claimed by the type itself
    obtain ⟨hown, -, -⟩ := claim_kept hfresh hext hsteady.sound
    rw [hsame, hown] at hclaim
    cases hclaim
    exact hid hc
  · exact hpasses.built (h.recorded (passes_claim_enter.recorded rfl hrec) hid')

/-- **A type whose definition has been built** by a run that is recorded. -/
theorem onward_define (hg : Steady r settings g)
    (hd : g.registry.types[id]? = some d) (hfree : g.names.get? d.typeName = none)
    (hfresh : g.parsed.lookup id = none) (hout : id ∉ g.building)
    (hlinked : ((g.claim id d.typeName).enter id).Linked r settings (Leads r settings id)) {m : Nat}
    (hrun : Resolving.runOn (resolveWith m d.type d.file) ((g.claim id d.typeName).enter id) =
      (.ok s, g')) (h : Onward r settings ((g.claim id d.typeName).enter id) g')
    (hsane : ¬Fails r settings (.symbol id)) (hs : s.AllRefs (g'.Holds r settings))
    (hobject : Circular r settings id → s.IsObject) :
    Onward r settings g (g'.leave.store id d.typeName (Schema.ofDecl d s)) := by
  have hext : ((g.claim id d.typeName).enter id).Extends g' := h.ext
  have hsteady := h.steady
  have hname : g.HasName id d.typeName := ⟨d, hd, rfl⟩
  have hd' := hg.registry.grows hd
  obtain ⟨-, hnone, hnew⟩ := claim_kept hfresh hext hsteady.sound
  have hrefs : (Schema.ofDecl d s).AllRefs (g'.Holds r settings) := Schema.allRefs_ofDecl hs d
  have hwithin : g'.Within (g'.leave.store id d.typeName (Schema.ofDecl d s)) :=
    within_leave_store hnone hnew _
  have hpasses : g'.Passes r settings (g'.leave.store id d.typeName (Schema.ofDecl d s)) :=
    passes_leave hext rfl hwithin fun _ => ⟨_, lookup_store_self _⟩
  have hself : (g'.leave.store id d.typeName (Schema.ofDecl d s)).definitions.get? d.typeName =
      some (Schema.ofDecl d s) := (Table.get?_insert ..).trans (if_pos rfl)
  refine ⟨Extends.define hfree hfresh hout hext hsteady.sound _, ?_, fun hrec id' n' hid' => ?_⟩
  · refine
      { sound := hsteady.sound.define hname hfresh hext (hrefs.imp fun _ => hsteady.answers)
        configured := hsteady.configured
        started := hsteady.started
        registry := hsteady.registry
        sorted := Table.sorted_insert hsteady.sorted
        distinct := List.nodup_cons.2
          ⟨fun hn => hnew (mem_keys_of_grounded hsteady.grounded hn), hsteady.distinct⟩
        grounded := ⟨⟨_, hself, hrefs.imp fun ref href => ?_⟩, hpasses.grounded hsteady.grounded⟩
        objects := fun id' n' t hc hid' ht => ?_
        claims := fun id' hin hc => hsteady.claims (mem_of_leave hext hin) hc
        sane := fun id' n' hid' => ?_ }
    · -- a type that is not on a circle is referred to after it got its definition
      obtain ⟨id', e, he, rfl, hhas⟩ := href
      refine ⟨id', e, he, rfl, ?_⟩
      rcases hhas with ⟨n', hn'⟩ | ⟨hin, hc⟩
      · obtain rfl := hsteady.name_of_lookup hn' he
        obtain ⟨_, _, hparsed, -⟩ := List.lookup_eq_some_iff.1 hn'
        exact .inl (hparsed ▸ List.mem_append_right _ (.head _))
      · exact .inr ⟨hc, hpasses.has (.inr ⟨hin, hc⟩)⟩
    · rcases lookup_of_store hid' with ⟨rfl, rfl⟩ | ⟨-, hid'⟩
      · cases hself.symm.trans ht
        exact (hobject hc).ofDecl d
      · obtain ⟨t', ht'⟩ := Table.mem_keys_iff.1 (hsteady.sound.parsed hid').2
        cases (hwithin.definitions ht').symm.trans ht
        exact hsteady.objects hc hid' ht'
    · rcases lookup_of_store hid' with ⟨rfl, -⟩ | ⟨-, hid'⟩
      · exact hsane
      · exact hsteady.sane hid'
  · rcases lookup_of_store hid' with ⟨rfl, -⟩ | ⟨-, hid'⟩
    · refine ⟨d, m, s, _, g', hd', hg.claim_enter hd hfree, hlinked, hrun, hsteady.registry, hself,
        hwithin, fun b hb hc => ?_⟩
      exact hpasses.has (hext.passes.has (.inr ⟨hb, hc⟩))
    · exact hpasses.built (h.recorded (passes_claim_enter.recorded rfl hrec) hid')

end Steady

end Leaving

end Resolver

end GoApiDoc
