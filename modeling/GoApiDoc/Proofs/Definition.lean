/-
The definition table while types are resolved.

A name is claimed before its definition is built and given back if that fails; the definition and
the note that the type has one are written at the end.  In between, other types are resolved, so the
invariant has to hold of states in the middle of nested builds: a claimed name belongs to a type that
has its definition or is being built.

References are handed out early, to types that are still being built.  A type that is entered and
left without a definition breaks that promise, so the invariant tells where each reference leads: to
a definition, to a type being built, or to a type that was left open.

* `Resolver.Sound.leave`, `Resolver.Sound.define`, `Resolver.Sound.release` — **the three ways in
  which a type that was entered is left**.
-/

import GoApiDoc.Proofs.Instance
import GoApiDoc.Proofs.Reference

set_option autoImplicit false

namespace GoApiDoc.Resolver

open Go (TypeId)

variable {n r n' : String} {id id' : TypeId} {g : Resolver} {s : Schema}

/-! ### Coherent states -/

/-- The name is the definition name of the type. -/
def HasName (g : Resolver) (id : TypeId) (n : String) : Prop :=
  ∃ d, g.registry.types[id]? = some d ∧ d.typeName = n

/-- The tables agree.  A name that is claimed by a type without a definition is one of a type that
is being built. -/
structure Coherent (g : Resolver) : Prop where
  /-- The claimed names are in order. -/
  sorted : g.names.Sorted
  /-- A claimed name is the definition name of its type. -/
  named : ∀ ⦃n : String⦄ ⦃id : TypeId⦄, g.names.get? n = some id → g.HasName id n
  /-- A type that claims a name has its definition or is being built. -/
  claimed : ∀ ⦃n : String⦄ ⦃id : TypeId⦄, g.names.get? n = some id →
    g.parsed.lookup id = some n ∨ id ∈ g.building
  /-- A type with a definition has claimed its name. -/
  parsed : ∀ ⦃id : TypeId⦄ ⦃n : String⦄, g.parsed.lookup id = some n →
    g.names.get? n = some id ∧ n ∈ g.definitions.keys
  /-- A definition is one of a type. -/
  defined : ∀ ⦃n : String⦄, n ∈ g.definitions.keys → ∃ id, g.parsed.lookup id = some n

/-- Where a reference leads: to a definition, or to a type that is being built or was left open. -/
def Answers (g : Resolver) (r : String) : Prop :=
  ∃ n, r = Schema.definitionsPath ++ n ∧
    (n ∈ g.definitions.keys ∨ ∃ id, g.HasName id n ∧ (id ∈ g.building ∨ id ∈ g.leftOpen))

/-- A coherent state whose definitions have no references but those it answers. -/
structure Sound (g : Resolver) : Prop extends Coherent g where
  settled : ∀ e ∈ g.definitions, e.2.AllRefs g.Answers

/-! ### Later states -/

/-- Nothing is lost from one state to a later one in which the same types are being built.  A type
that is being built does not get its definition, and a new claim comes with its definition. -/
structure Extends (g g' : Resolver) : Prop where
  building : g'.building = g.building
  settings : g'.settings = g.settings
  registry : g.registry.Gains g'.registry
  parsed : ∀ ⦃id : TypeId⦄ ⦃n : String⦄, g.parsed.lookup id = some n → g'.parsed.lookup id = some n
  names : ∀ ⦃n : String⦄ ⦃id : TypeId⦄, g.names.get? n = some id → g'.names.get? n = some id
  definitions : ∀ ⦃n : String⦄ ⦃s : Schema⦄, g.definitions.get? n = some s →
    g'.definitions.get? n = some s
  claims : ∀ ⦃n : String⦄ ⦃id : TypeId⦄, g'.names.get? n = some id →
    g.names.get? n = some id ∨ g'.parsed.lookup id = some n
  inner : ∀ ⦃id : TypeId⦄ ⦃n : String⦄, id ∈ g.building → g'.parsed.lookup id = some n →
    g.parsed.lookup id = some n
  leftOpen : ∀ ⦃id : TypeId⦄, id ∈ g.leftOpen → id ∈ g'.leftOpen

namespace Extends

variable {g g' g'' : Resolver}

theorem refl (g : Resolver) : g.Extends g where
  building := rfl
  settings := rfl
  registry := .refl _
  parsed := fun _ _ h => h
  names := fun _ _ h => h
  definitions := fun _ _ h => h
  claims := fun _ _ h => .inl h
  inner := fun _ _ _ h => h
  leftOpen := fun _ h => h

theorem trans (h : g.Extends g') (h' : g'.Extends g'') : g.Extends g'' where
  building := h'.building.trans h.building
  settings := h'.settings.trans h.settings
  registry := h.registry.trans h'.registry
  parsed := fun _ _ hp => h'.parsed (h.parsed hp)
  names := fun _ _ hn => h'.names (h.names hn)
  definitions := fun _ _ hd => h'.definitions (h.definitions hd)
  claims := fun _ _ hn => (h'.claims hn).elim
    (fun hn => (h.claims hn).imp_right fun hp => h'.parsed hp) .inr
  inner := fun _ _ hb hp => h.inner hb (h'.inner (h.building ▸ hb) hp)
  leftOpen := fun _ ho => h'.leftOpen (h.leftOpen ho)

theorem keys (h : g.Extends g') (hn : n ∈ g.definitions.keys) : n ∈ g'.definitions.keys := by
  obtain ⟨s, hs⟩ := Table.mem_keys_iff.1 hn
  exact Table.mem_keys_iff.2 ⟨s, h.definitions hs⟩

theorem hasName (h : g.Extends g') (hn : g.HasName id n) : g'.HasName id n := by
  obtain ⟨d, hd, rfl⟩ := hn
  exact ⟨d, h.registry.grows hd, rfl⟩

/-- What a reference leads to is still there later. -/
theorem answers (h : g.Extends g') (hr : g.Answers r) : g'.Answers r := by
  obtain ⟨n, rfl, hn | ⟨id, hid, hin⟩⟩ := hr
  · exact ⟨n, rfl, .inl (h.keys hn)⟩
  · refine ⟨n, rfl, .inr ⟨id, h.hasName hid, ?_⟩⟩
    rcases hin with hin | hin
    · exact .inl (h.building ▸ hin)
    · exact .inr (h.leftOpen hin)

end Extends

theorem HasName.unique (h : g.HasName id n) (h' : g.HasName id n') : n = n' := by
  obtain ⟨d, hd, rfl⟩ := h
  obtain ⟨d', hd', rfl⟩ := h'
  cases hd.symm.trans hd'
  rfl

/-- The registry may gain instances at any time. -/
theorem Extends.ofGains {r : Registry} (h : g.registry.Gains r) :
    g.Extends { g with registry := r } :=
  { Extends.refl g with registry := h }

theorem Sound.ofGains {r : Registry} (hg : g.Sound) (h : g.registry.Gains r) :
    Sound { g with registry := r } where
  sorted := hg.sorted
  named := fun _ _ hn => (Extends.ofGains h).hasName (hg.named hn)
  claimed := hg.claimed
  parsed := hg.parsed
  defined := hg.defined
  settled := fun e he => (hg.settled e he).imp fun _ hr => (Extends.ofGains h).answers hr

/-! ### Entering a type -/

/-- The state that notes a type as left open. -/
def noteOpen (g : Resolver) (id : TypeId) : Resolver := { g with leftOpen := id :: g.leftOpen }

theorem Extends.noteOpen (g : Resolver) (id : TypeId) : g.Extends (g.noteOpen id) :=
  { Extends.refl g with leftOpen := fun _ h => .tail _ h }

theorem Sound.noteOpen (hg : g.Sound) (id : TypeId) : (g.noteOpen id).Sound where
  sorted := hg.sorted
  named := hg.named
  claimed := hg.claimed
  parsed := hg.parsed
  defined := hg.defined
  settled := fun e he => (hg.settled e he).imp fun _ hr => (Extends.noteOpen g id).answers hr

theorem Answers.enter (h : g.Answers r) (id : TypeId) : (g.enter id).Answers r := by
  obtain ⟨n, rfl, hn | ⟨id', hid', hin⟩⟩ := h
  · exact ⟨n, rfl, .inl hn⟩
  · exact ⟨n, rfl, .inr ⟨id', hid', hin.imp_left (List.mem_append_left _)⟩⟩

theorem Sound.enter (hg : g.Sound) (id : TypeId) : (g.enter id).Sound where
  sorted := hg.sorted
  named := hg.named
  claimed := fun _ _ hn => (hg.claimed hn).imp_right (List.mem_append_left _)
  parsed := hg.parsed
  defined := hg.defined
  settled := fun e he => (hg.settled e he).imp fun _ hr => hr.enter id

/-- The state in which a type has claimed its name. -/
def claim (g : Resolver) (id : TypeId) (n : String) : Resolver :=
  { g with names := g.names.insert n id }

/-- Names that were claimed before are not the new one. -/
theorem ne_of_claimed (hfree : g.names.get? n = none) (hn : g.names.get? n' = some id') :
    n' ≠ n := by
  rintro rfl
  cases hfree.symm.trans hn

theorem names_claim (hfree : g.names.get? n = none) (hn : g.names.get? n' = some id') :
    (g.claim id n).names.get? n' = some id' := by
  change (g.names.insert n id).get? n' = some id'
  rw [Table.get?_insert, if_neg (ne_of_claimed hfree hn)]
  exact hn

theorem names_of_claim (hne : n' ≠ n) (hn : (g.claim id n).names.get? n' = some id') :
    g.names.get? n' = some id' := by
  change (g.names.insert n id).get? n' = some id' at hn
  rwa [Table.get?_insert, if_neg hne] at hn

/-- Claiming a free name and entering its type keeps the state sound; the claim alone does not. -/
theorem Sound.claim_enter (hg : g.Sound)
    (hid : g.HasName id n) (hfree : g.names.get? n = none) : ((g.claim id n).enter id).Sound where
  sorted := Table.sorted_insert hg.sorted
  named := by
    intro n' id' hn
    change (g.names.insert n id).get? n' = some id' at hn
    rw [Table.get?_insert] at hn
    split at hn
    · next heq =>
      cases hn
      exact heq ▸ hid
    · exact hg.named hn
  claimed := by
    intro n' id' hn
    change (g.names.insert n id).get? n' = some id' at hn
    rw [Table.get?_insert] at hn
    split at hn
    · cases hn
      exact .inr (List.mem_append_right _ (.head _))
    · exact (hg.claimed hn).imp_right (List.mem_append_left _)
  parsed := by
    intro id' n' hp
    obtain ⟨hn, hk⟩ := hg.parsed hp
    exact ⟨names_claim hfree hn, hk⟩
  defined := hg.defined
  settled := fun e he => (hg.settled e he).imp fun _ hr => hr.enter id

/-! ### Leaving a type -/

section Leaving

variable {g g' : Resolver} {id : TypeId} {n : String}

theorem mem_building_of_enter (h : (g.enter id).Extends g') (hid : id' ∈ g'.building) :
    id' ∈ g.building ∨ id' = id := by
  rw [h.building] at hid
  exact (List.mem_append.1 hid).imp_right List.mem_singleton.1

theorem building_leave (h : (g.enter id).Extends g') : g'.leave.building = g.building := by
  change g'.building.dropLast = g.building
  rw [h.building]
  exact List.dropLast_concat

/-- A type left open still answers the references to it. -/
theorem Answers.leave (h : (g.enter id).Extends g') (hopen : id ∈ g'.leftOpen) (hr : g'.Answers r) :
    g'.leave.Answers r := by
  obtain ⟨n, rfl, hn | ⟨id', hid', hin⟩⟩ := hr
  · exact ⟨n, rfl, .inl hn⟩
  refine ⟨n, rfl, .inr ⟨id', hid', ?_⟩⟩
  rcases hin with hin | hin
  · rcases mem_building_of_enter h hin with hin | rfl
    · exact .inl (building_leave h ▸ hin)
    · exact .inr hopen
  · exact .inr hin

theorem Extends.leave (h : (g.enter id).Extends g') : g.Extends g'.leave where
  building := building_leave h
  settings := h.settings
  registry := h.registry
  parsed := h.parsed
  names := h.names
  definitions := h.definitions
  claims := h.claims
  inner := fun _ _ hb hp => h.inner (List.mem_append_left _ hb) hp
  leftOpen := h.leftOpen

/-- **A type that was only gone through.**  Nothing inside claimed its name, as it was on the way. -/
theorem Sound.leave (hg : g.Sound) (hout : id ∉ g.building) (h : (g.enter id).Extends g')
    (hg' : g'.Sound) (hopen : id ∈ g'.leftOpen) : g'.leave.Sound where
  sorted := hg'.sorted
  named := hg'.named
  claimed := by
    intro n id' hn
    rcases hg'.claimed hn with hp | hb
    · exact .inl hp
    rcases mem_building_of_enter h hb with hb | rfl
    · exact .inr (building_leave h ▸ hb)
    · -- the type itself: its name was claimed before it was entered, or came with a definition
      left
      rcases h.claims hn with hold | hp
      · exact h.parsed ((hg.claimed hold).resolve_right hout)
      · exact hp
  parsed := hg'.parsed
  defined := hg'.defined
  settled := fun e he => (hg'.settled e he).imp fun _ hr => hr.leave h hopen

/-- What holds when the build of a type that has claimed its name ends: the name is still claimed
by the type, which has no definition yet, and neither has the name. -/
theorem claim_kept (hfresh : g.parsed.lookup id = none)
    (h : ((g.claim id n).enter id).Extends g') (hg' : g'.Sound) :
    g'.names.get? n = some id ∧ g'.parsed.lookup id = none ∧ n ∉ g'.definitions.keys := by
  have hname : g'.names.get? n = some id := by
    refine h.names ?_
    change (g.names.insert n id).get? n = some id
    rw [Table.get?_insert, if_pos rfl]
  have hnone : g'.parsed.lookup id = none := by
    cases hp : g'.parsed.lookup id with
    | none => rfl
    | some n' =>
      have hold := h.inner (List.mem_append_right _ (.head _)) hp
      change g.parsed.lookup id = some n' at hold
      cases hfresh.symm.trans hold
  refine ⟨hname, hnone, ?_⟩
  intro hk
  obtain ⟨id', hp⟩ := hg'.defined hk
  have hsame := (hg'.parsed hp).1
  cases hname.symm.trans hsame
  cases hnone.symm.trans hp

/-- The state in which a type has its definition. -/
def store (g : Resolver) (id : TypeId) (n : String) (s : Schema) : Resolver :=
  { g with definitions := g.definitions.insert n s, parsed := (id, n) :: g.parsed }

theorem lookup_store_self (s : Schema) : (g.store id n s).parsed.lookup id = some n := by
  simp [store]

theorem lookup_store (hnone : g.parsed.lookup id = none) (s : Schema)
    (hp : g.parsed.lookup id' = some n') : (g.store id n s).parsed.lookup id' = some n' := by
  have hne : id' ≠ id := by
    rintro rfl
    cases hnone.symm.trans hp
  have hbeq : (id' == id) = false := by simpa using hne
  change List.lookup id' ((id, n) :: g.parsed) = some n'
  rw [List.lookup_cons, hbeq]
  exact hp

theorem lookup_of_store (hp : (g.store id n s).parsed.lookup id' = some n') :
    (id' = id ∧ n' = n) ∨ (id' ≠ id ∧ g.parsed.lookup id' = some n') := by
  change List.lookup id' ((id, n) :: g.parsed) = some n' at hp
  rw [List.lookup_cons] at hp
  by_cases hid : id' = id
  · subst hid
    rw [beq_self_eq_true] at hp
    exact .inl ⟨rfl, (Option.some.inj hp).symm⟩
  · have hbeq : (id' == id) = false := by simpa using hid
    rw [hbeq] at hp
    exact .inr ⟨hid, hp⟩

theorem mem_keys_store :
    n' ∈ (g.store id n s).definitions.keys ↔ n' = n ∨ n' ∈ g.definitions.keys := by
  change n' ∈ (g.definitions.insert n s).keys ↔ _
  rw [Table.mem_keys_iff, Table.mem_keys_iff]
  constructor
  · rintro ⟨v, hv⟩
    rw [Table.get?_insert] at hv
    split at hv
    · next heq => exact .inl heq
    · exact .inr ⟨v, hv⟩
  · rintro (rfl | ⟨v, hv⟩)
    · exact ⟨s, by rw [Table.get?_insert, if_pos rfl]⟩
    · by_cases heq : n' = n
      · exact ⟨s, by rw [Table.get?_insert, if_pos heq]⟩
      · exact ⟨v, by rw [Table.get?_insert, if_neg heq]; exact hv⟩

theorem Answers.store (hid : g.HasName id n) (h : ((g.claim id n).enter id).Extends g') (s : Schema)
    (hr : g'.Answers r) : (g'.leave.store id n s).Answers r := by
  obtain ⟨n', rfl, hn | ⟨id', hid', hin⟩⟩ := hr
  · exact ⟨n', rfl, .inl (mem_keys_store.2 (.inr hn))⟩
  rcases hin with hin | hin
  · rcases mem_building_of_enter h hin with hb | rfl
    · exact ⟨n', rfl, .inr ⟨id', hid', .inl (building_leave h ▸ hb)⟩⟩
    · have hsame : n' = n := hid'.unique (h.hasName hid)
      exact ⟨n', rfl, .inl (mem_keys_store.2 (.inl hsame))⟩
  · exact ⟨n', rfl, .inr ⟨id', hid', .inr hin⟩⟩

theorem Extends.define (hfree : g.names.get? n = none) (hfresh : g.parsed.lookup id = none)
    (hout : id ∉ g.building) (h : ((g.claim id n).enter id).Extends g') (hg' : g'.Sound)
    (s : Schema) : g.Extends (g'.leave.store id n s) := by
  obtain ⟨hname, hnone, hnew⟩ := claim_kept hfresh h hg'
  have hbuilding := building_leave h
  refine ⟨hbuilding, h.settings, h.registry, ?_, ?_, ?_, ?_, ?_, h.leftOpen⟩
  · exact fun _ _ hp => lookup_store (g := g'.leave) hnone s (h.parsed hp)
  · exact fun _ _ hn => h.names (names_claim hfree hn)
  · intro n' t ht
    have ht' := h.definitions ht
    have hne : n' ≠ n := by
      rintro rfl
      exact hnew (Table.mem_keys_iff.2 ⟨t, ht'⟩)
    change (g'.definitions.insert n s).get? n' = some t
    rw [Table.get?_insert, if_neg hne]
    exact ht'
  · intro n' id' hn
    by_cases hne : n' = n
    · -- the new name is claimed by the type that now has its definition
      subst hne
      have hsame : some id' = some id := hn.symm.trans hname
      cases hsame
      exact .inr (lookup_store_self s)
    · rcases h.claims hn with hold | hp
      · exact .inl (names_of_claim hne hold)
      · exact .inr (lookup_store (g := g'.leave) hnone s hp)
  · intro id' n' hb hp
    rcases lookup_of_store hp with ⟨rfl, -⟩ | ⟨-, hp⟩
    · exact absurd hb hout
    · exact h.inner (List.mem_append_left _ hb) hp

/-- **A type whose definition has been built.**  The definition replaces no other. -/
theorem Sound.define (hid : g.HasName id n) (hfresh : g.parsed.lookup id = none)
    (h : ((g.claim id n).enter id).Extends g') (hg' : g'.Sound) (hs : s.AllRefs g'.Answers) :
    (g'.leave.store id n s).Sound := by
  obtain ⟨hname, hnone, hnew⟩ := claim_kept hfresh h hg'
  refine ⟨⟨hg'.sorted, hg'.named, ?_, ?_, ?_⟩, ?_⟩
  · intro n' id' hn
    rcases hg'.claimed hn with hp | hb
    · exact .inl (lookup_store (g := g'.leave) hnone s hp)
    · rcases mem_building_of_enter h hb with hb | rfl
      · exact .inr (building_leave h ▸ hb)
      · have hsame : n' = n := (hg'.named hn).unique (h.hasName hid)
        exact .inl (hsame ▸ lookup_store_self s)
  · intro id' n' hp
    rcases lookup_of_store hp with ⟨rfl, rfl⟩ | ⟨-, hp⟩
    · exact ⟨hname, mem_keys_store.2 (.inl rfl)⟩
    · obtain ⟨hn, hk⟩ := hg'.parsed hp
      exact ⟨hn, mem_keys_store.2 (.inr hk)⟩
  · intro n' hk
    rcases mem_keys_store.1 hk with rfl | hk
    · exact ⟨id, lookup_store_self s⟩
    · obtain ⟨id', hp⟩ := hg'.defined hk
      exact ⟨id', lookup_store (g := g'.leave) hnone s hp⟩
  · exact Table.forall_mem_insert (hs.imp fun _ hr => hr.store hid h _) fun e he =>
      (hg'.settled e he).imp fun _ hr => hr.store hid h _

/-- The state in which a type has given its name back. -/
def release (g : Resolver) (id : TypeId) (n : String) : Resolver :=
  { g with names := g.names.erase n, leftOpen := id :: g.leftOpen }

theorem names_release (hg : g.names.Sorted) :
    (g.release id n).names.get? n' = some id' ↔ n' ≠ n ∧ g.names.get? n' = some id' := by
  change (g.names.erase n).get? n' = some id' ↔ _
  rw [Table.get?_erase hg]
  by_cases hne : n' = n
  · simp [hne]
  · simp [hne]

theorem Extends.release (hfree : g.names.get? n = none)
    (h : ((g.claim id n).enter id).Extends g') (hg' : g'.Sound) :
    g.Extends (g'.leave.release id n) := by
  have hbuilding := building_leave h
  refine ⟨hbuilding, h.settings, h.registry, h.parsed, ?_, h.definitions, ?_, ?_, ?_⟩
  · exact fun n' id' hn => (names_release (g := g'.leave) hg'.sorted).2
      ⟨ne_of_claimed hfree hn, h.names (names_claim hfree hn)⟩
  · intro n' id' hn
    obtain ⟨hne, hn⟩ := (names_release (g := g'.leave) hg'.sorted).1 hn
    exact (h.claims hn).imp_left (names_of_claim hne)
  · exact fun _ _ hb hp => h.inner (List.mem_append_left _ hb) hp
  · exact fun _ ho => .tail _ (h.leftOpen ho)

theorem Answers.release (h : ((g.claim id n).enter id).Extends g') (hr : g'.Answers r) :
    (g'.leave.release id n).Answers r := by
  obtain ⟨n', rfl, hn | ⟨id', hid', hin⟩⟩ := hr
  · exact ⟨n', rfl, .inl hn⟩
  refine ⟨n', rfl, .inr ⟨id', hid', ?_⟩⟩
  rcases hin with hin | hin
  · rcases mem_building_of_enter h hin with hb | rfl
    · exact .inl (building_leave h ▸ hb)
    · exact .inr (.head _)
  · exact .inr (.tail _ hin)

/-- **A type that could not be built.**  Its name is free again, and the type is left open. -/
theorem Sound.release (hid : g.HasName id n) (hfresh : g.parsed.lookup id = none)
    (h : ((g.claim id n).enter id).Extends g') (hg' : g'.Sound) :
    (g'.leave.release id n).Sound := by
  obtain ⟨-, -, hnew⟩ := claim_kept hfresh h hg'
  have hnames : ∀ {n' : String} {id' : TypeId},
      (g'.leave.release id n).names.get? n' = some id' ↔ n' ≠ n ∧ g'.names.get? n' = some id' :=
    names_release (g := g'.leave) hg'.sorted
  refine ⟨⟨Table.sorted_erase hg'.sorted, ?_, ?_, ?_, hg'.defined⟩, ?_⟩
  · exact fun n' id' hn => hg'.named (hnames.1 hn).2
  · intro n' id' hn
    have hold := (hnames.1 hn).2
    rcases hg'.claimed hold with hp | hb
    · exact .inl hp
    rcases mem_building_of_enter h hb with hb | heq
    · exact .inr (building_leave h ▸ hb)
    · -- the only name the type could still claim is the one it gave back
      have hsame : n' = n := (hg'.named hold).unique (heq ▸ h.hasName hid)
      exact absurd hsame (hnames.1 hn).1
  · intro id' n' hp
    obtain ⟨hn, hk⟩ := hg'.parsed hp
    refine ⟨hnames.2 ⟨?_, hn⟩, hk⟩
    rintro rfl
    exact hnew hk
  · exact fun e he => (hg'.settled e he).imp fun _ hr => hr.release h

end Leaving

end GoApiDoc.Resolver
