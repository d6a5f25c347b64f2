/-
What resolving types does to the state.

`Resolving.Keeps x g φ` says that the computation `x`, started in a sound state `g`, leaves a sound
state that extends `g`, whether it fails or not, and that a value it yields satisfies `φ` there.
This is a discipline: entering a type breaks soundness for a while, and leaving it restores it.

* `Resolver.keepsWith` — **every function that resolves types keeps the state sound**;
* `Resolver.definitions_consistent` — **the definition table after any sequence of requests**.
-/

import GoApiDoc.Proofs.Definition
import GoApiDoc.Proofs.Discipline

set_option autoImplicit false

namespace GoApiDoc

open Go (TypeId TypeExpr)

variable {g' : Resolver} {s : Schema} {other : TypeId} {d : TypeDecl}

/-! ### The judgement -/

namespace Resolving

variable {α β : Type} {g : Resolver} {x : Resolving α} {φ : Resolver → α → Prop}
  {ψ : Resolver → β → Prop}

/-- From a sound state the computation leaves a sound one that extends it, also when it fails, and
its value satisfies the condition. -/
def Keeps (x : Resolving α) (g : Resolver) (φ : Resolver → α → Prop) : Prop :=
  g.Sound → g.Extends (x.runOn g).2 ∧ (x.runOn g).2.Sound ∧
    ∀ a, (x.runOn g).1 = .ok a → φ (x.runOn g).2 a

/-- Sound states, where each extends those before it, and any errors. -/
def sound : Frame where
  Inv := Resolver.Sound
  Later := Resolver.Extends
  Admits _ := True
  refl := Resolver.Extends.refl
  trans := Resolver.Extends.trans

theorem keeps_iff_obeys : Keeps x g φ ↔ Obeys sound x g φ := by
  constructor
  · intro h hg
    obtain ⟨hext, hsound, hval⟩ := h hg
    exact ⟨hext, hsound, hval, fun _ _ => trivial⟩
  · intro h hg
    obtain ⟨hext, hsound, hval, -⟩ := h hg
    exact ⟨hext, hsound, hval⟩

theorem keeps_pure {a : α} (h : φ g a) : Keeps (pure a) g φ := keeps_iff_obeys.2 (obeys_pure h)

theorem keeps_onRegistry {f : Registry → α × Registry} (h : ∀ r : Registry, r.Gains (f r).2) :
    Keeps (onRegistry f) g fun _ _ => True := by
  intro hg
  exact ⟨Resolver.Extends.ofGains (h _), hg.ofGains (h _), fun _ _ => trivial⟩

end Resolving

/-! ### Entering types -/

/-- The state answers all references of the schema. -/
abbrev Resolver.Backs (g : Resolver) (s : Schema) : Prop := s.AllRefs g.Answers

/-- The state answers all references of the parts of a struct. -/
abbrev Resolver.BacksParts (g : Resolver) (p : StructParts) : Prop := p.AllRefs g.Answers

namespace Resolver

variable {g : Resolver}

theorem Extends.backs (h : g.Extends g') (hs : g.Backs s) : g'.Backs s :=
  hs.imp fun _ hr => h.answers hr

theorem Extends.backsParts (h : g.Extends g') {p : StructParts} (hp : g.BacksParts p) :
    g'.BacksParts p :=
  hp.imp fun _ hr => h.answers hr

/-- A type that may be entered has no claim on a name. -/
theorem Sound.ne_of_fresh (hg : g.Sound) {id : TypeId} {n : String}
    (hfresh : g.parsed.lookup id = none) (hout : id ∉ g.building)
    (hn : g.names.get? n = some other) : other ≠ id := by
  rintro rfl
  rcases hg.claimed hn with hp | hb
  · rw [hfresh] at hp
    cases hp
  · exact hout hb

theorem runOn_claimName_taken {id : TypeId} (hn : g.names.get? d.typeName = some other)
    (hne : other ≠ id) : (claimName id d).runOn g =
      (.error (.malformed (.claimedName d.typeName (g.fullPathOf other) d.fullPath)), g) := by
  unfold claimName
  simp [hn, hne]

theorem runOn_claimName_free {id : TypeId} (hn : g.names.get? d.typeName = none) :
    (claimName id d).runOn g = (.ok (), g.claim id d.typeName) := by
  unfold claimName
  rw [Resolving.runOn_get_bind, hn]
  rfl

open Resolving

/-- How building a definition ends, by the end of its body: with the definition, or with the name
given back. -/
def afterBuild (id : TypeId) (d : TypeDecl) :
    Except DocError Schema × Resolver → Except DocError Schema × Resolver
  | (.ok s, g) => (.ok (Schema.ref d.typeName), g.leave.store id d.typeName (Schema.ofDecl d s))
  | (.error e, g) => (.error e, g.leave.release id d.typeName)

theorem runOn_buildDefinition_free {id : TypeId} (hn : g.names.get? d.typeName = none)
    (body : Resolving Schema) : (buildDefinition id d body).runOn g =
      afterBuild id d (body.runOn ((g.claim id d.typeName).enter id)) := by
  rw [buildDefinition, runOn_bind_ok _ (runOn_claimName_free hn), runOn_bind_ok _ (runOn_outcome _ _),
    runOn_whileBuilding]
  cases body.runOn ((g.claim id d.typeName).enter id) with
  | mk o g₁ => cases o <;> rfl

/-- A fresh type that is not on the way has claimed no name, so that it is refused if its name is
claimed. -/
theorem runOn_buildDefinition (hg : g.Sound) {id : TypeId} (hfresh : g.parsed.lookup id = none)
    (hout : id ∉ g.building) (body : Resolving Schema) :
    (∃ e, (buildDefinition id d body).runOn g = (.error (.malformed e), g)) ∨
      g.names.get? d.typeName = none ∧ (buildDefinition id d body).runOn g =
        afterBuild id d (body.runOn ((g.claim id d.typeName).enter id)) := by
  cases hn : g.names.get? d.typeName with
  | some other =>
    left
    rw [buildDefinition,
      runOn_bind_error _ (runOn_claimName_taken hn (hg.ne_of_fresh hfresh hout hn))]
    exact ⟨_, rfl⟩
  | none => exact .inr ⟨rfl, runOn_buildDefinition_free hn body⟩

/-- **Building a definition**: the type is entered under its claimed name, and left with a
definition or with its name given back. -/
theorem keeps_buildDefinition {id : TypeId} {body : Resolving Schema}
    (hd : g.registry.types[id]? = some d) (hfresh : g.parsed.lookup id = none)
    (hout : id ∉ g.building) (hbody : ∀ g', Keeps body g' Backs) :
    Keeps (buildDefinition id d body) g Backs := by
  intro hg
  have hid : g.HasName id d.typeName := ⟨d, hd, rfl⟩
  rcases runOn_buildDefinition hg hfresh hout body with ⟨e, hrun⟩ | ⟨hn, hrun⟩
  · rw [hrun]
    exact ⟨Extends.refl g, hg, fun s hs => by cases hs⟩
  obtain ⟨hext, hsound, hval⟩ := hbody _ (hg.claim_enter hid hn)
  rw [hrun]
  rcases hend : body.runOn ((g.claim id d.typeName).enter id) with ⟨e | s, g'⟩
  all_goals rw [hend] at hext hsound hval
  · exact ⟨Extends.release hn hext hsound, hsound.release hid hfresh hext, fun t ht => by cases ht⟩
  · have hs := Schema.allRefs_ofDecl (hval s rfl) d
    refine ⟨Extends.define hn hfresh hout hext hsound _, hsound.define hid hfresh hext hs,
      fun t ht => ?_⟩
    cases ht
    exact Schema.allRefs_ref ⟨d.typeName, rfl, .inl (mem_keys_store.2 (.inl rfl))⟩

/-- **Going through a struct**: it is entered and left without a definition. -/
theorem keeps_passThrough {id : TypeId} {fields : Resolving StructParts}
    (hout : id ∉ g.building) (hfields : ∀ g', Keeps fields g' BacksParts) :
    Keeps (passThrough id fields) g BacksParts := by
  intro hg
  have hopen := hg.noteOpen id
  obtain ⟨hext, hsound, hval⟩ := hfields _ (hopen.enter id)
  have hleft := hext.leftOpen (.head _)
  unfold passThrough
  rw [runOn_bind_ok _ (runOn_leaveOpen id g), runOn_whileBuilding]
  refine ⟨(Extends.noteOpen g id).trans hext.leave, hopen.leave hout hext hsound hleft, ?_⟩
  exact fun p hp => (hval p hp).imp fun _ hr => hr.leave hext hleft

/-! ### Leaves -/

theorem keeps_declaredType (t : TypeExpr) (file : FileId) :
    Keeps (declaredType t file) g fun _ _ => True := by
  unfold declaredType
  split
  · exact keeps_pure trivial
  · refine keeps_onRegistry fun r => ?_
    split
    · exact r.gains_instantiate _ _ file
    · exact Registry.Gains.refl r
  · exact keeps_onRegistry fun r => r.gains_findType _ file
  · exact keeps_onRegistry fun r => r.gains_findType _ file
  · exact keeps_pure trivial

theorem complement_of_typePath (h : g.typePath 2 s ≠ []) (f : Go.Field) :
    g.complement f s = Field.complement f s (g.typePath 2 s) := by
  unfold typePath at h ⊢
  unfold complement
  cases htypes : g.typePath? 2 s with
  | none => exact absurd (by rw [htypes]; rfl) h
  | some types => rfl

/-! ### The recursion -/

/-- The laws of the functions that resolve types, for a given number of steps. -/
structure KeepsWith (fuel : Nat) : Prop where
  resolve : ∀ t file g, Keeps (resolveWith fuel t file) g Backs
  text : ∀ text file g, Keeps (textWith fuel text file) g Backs
  override : ∀ key file g, Keeps (overrideWith fuel key file) g fun g' o => ∀ s, o = some s → g'.Backs s
  named : ∀ t file g, Keeps (namedWith fuel t file) g Backs
  symbol : ∀ id g, Keeps (symbolWith fuel id) g Backs
  definition : ∀ id d g, g.registry.types[id]? = some d → Keeps (definitionWith fuel id d) g Backs
  struct : ∀ fields file g, Keeps (structWith fuel fields file) g BacksParts
  field : ∀ parts f file g, g.BacksParts parts → Keeps (fieldWith fuel parts f file) g BacksParts
  namedField : ∀ parts f file g, g.BacksParts parts →
    Keeps (namedFieldWith fuel parts f file) g BacksParts
  embedded : ∀ parts f file g, g.BacksParts parts →
    Keeps (embeddedWith fuel parts f file) g BacksParts
  embeddedStruct : ∀ parts id d fields readOnly g, g.BacksParts parts →
    Keeps (embeddedStructWith fuel parts id d fields readOnly) g BacksParts

/-- The state stays sound, and it answers the references of all schemas. -/
def soundness : Discipline where
  toFrame := sound
  IsSchema := Backs
  IsParts := BacksParts
  IsType _ _ _ := True
  IsField _ _ _ := True
  IsFile _ _ := True
  IsId _ _ := True
  IsDecl g id d := g.registry.types[id]? = some d
  partsLater h := h.backsParts
  declLater h hd := h.registry.grows hd
  declared _ _ := id
  lookUp _ hg := by
    obtain ⟨hext, hsound, -⟩ := keeps_declaredType _ _ hg
    exact ⟨hext, hsound, fun _ _ => ⟨fun _ _ => trivial, fun _ => trivial⟩, fun _ _ => trivial⟩
  builtin := Schema.allRefs_ofBuiltin
  any := Schema.allRefs_any
  time := Schema.allRefs_of_leaf rfl rfl rfl rfl rfl
  array := Schema.allRefs_array
  map := Schema.allRefs_map
  toSchema hp := hp.toSchema
  known hg hname := Schema.allRefs_ref ⟨_, rfl, .inl (hg.parsed hname).2⟩
  entered hd hin := Schema.allRefs_ref ⟨_, rfl, .inr ⟨_, ⟨_, hd, rfl⟩, .inl hin⟩⟩
  empty := StructParts.allRefs_empty
  normalized := id
  property hp _ hs h :=
    hp.addProperty (Field.allRefs_complement (hs.elim id Field.allRefs_customSchema?) h)
  compose hp := hp.compose
  embed hp := hp.embed
  embedReadOnly hp := hp.embedReadOnly
  build hd hfresh hout hbody := keeps_iff_obeys.1 (keeps_buildDefinition hd hfresh hout fun g' =>
    keeps_iff_obeys.2 (hbody g' trivial))
  pass _ hout _ hx := keeps_iff_obeys.1 (keeps_passThrough hout fun g' =>
    keeps_iff_obeys.2 (hx g' fun _ _ => trivial))

theorem reads_soundness (g : Resolver) (text : String) (file : FileId) :
    soundness.Reads g text file :=
  ⟨fun _ _ => trivial, fun _ _ => trivial⟩

/-- **Every function that resolves types keeps the state sound**, whatever the number of steps. -/
theorem keepsWith (fuel : Nat) : KeepsWith fuel := by
  have h := obeysWith soundness fuel
  exact {
    resolve := fun _ _ _ => keeps_iff_obeys.2 (h.resolve trivial)
    text := fun text file g => keeps_iff_obeys.2 (h.text (reads_soundness g text file))
    override := fun key _ _ => keeps_iff_obeys.2 (h.override key trivial)
    named := fun _ _ _ => keeps_iff_obeys.2 (h.named trivial)
    symbol := fun _ _ => keeps_iff_obeys.2 (h.symbol trivial)
    definition := fun _ _ _ hd => keeps_iff_obeys.2 (h.definition hd)
    struct := fun _ _ _ => keeps_iff_obeys.2 (h.struct fun _ _ => trivial)
    field := fun _ _ _ _ hp => keeps_iff_obeys.2 (h.field hp trivial)
    namedField := fun _ _ _ _ hp => keeps_iff_obeys.2 (h.namedField hp trivial)
    embedded := fun _ _ _ _ hp => keeps_iff_obeys.2 (h.embedded hp trivial)
    embeddedStruct := fun _ _ _ _ readOnly _ hp =>
      keeps_iff_obeys.2 (h.embeddedStruct readOnly hp trivial fun _ _ => trivial) }

end Resolver

/-! ### Sequences of requests -/

/-- What may be asked of a resolver, in any order. -/
inductive Request where
  /-- The schema of a type written in a file. -/
  | type (t : TypeExpr) (file : FileId)
  /-- The schema of a type given as text. -/
  | text (text : String) (file : FileId)
  /-- The schema of a declared type. -/
  | symbol (id : TypeId)
  /-- An instance of a generic declaration. -/
  | instantiate (generic : TypeId) (args : List TypeExpr) (file : FileId)

namespace Resolver

/-- The state after a request, also if it fails. -/
def answer (g : Resolver) : Request → Resolver
  | .type t file => ((resolve t file).runOn g).2
  | .text text file => ((resolveText text file).runOn g).2
  | .symbol id => ((resolveSymbol id).runOn g).2
  | .instantiate generic args file =>
    { g with registry := (g.registry.instantiate generic args file).2 }

/-- The state after a sequence of requests. -/
def after (g : Resolver) (requests : List Request) : Resolver := requests.foldl answer g

/-- A resolver that has not been asked anything. -/
def fresh (r : Registry) (settings : Settings) : Resolver := { registry := r, settings := settings }

/-- The tables agree: the names of the definitions are the claimed names and the names noted for
types, the two tables between types and names are inverse to each other, and the name of a type is
its definition name. -/
structure Consistent (g : Resolver) : Prop where
  claimed : ∀ n, n ∈ g.definitions.keys ↔ n ∈ g.names.keys
  noted : ∀ n, n ∈ g.definitions.keys ↔ ∃ id, g.parsed.lookup id = some n
  inverse : ∀ id n, g.parsed.lookup id = some n ↔ g.names.get? n = some id
  typeName : ∀ id n, g.parsed.lookup id = some n → g.HasName id n

variable {g : Resolver}

theorem sound_fresh (r : Registry) (settings : Settings) : (fresh r settings).Sound where
  sorted := List.Pairwise.nil
  named := fun _ _ hn => nomatch hn
  claimed := fun _ _ hn => nomatch hn
  parsed := fun _ _ hp => nomatch hp
  defined := fun _ hk => nomatch hk
  settled := fun _ he => nomatch he

/-- One request. -/
theorem Sound.answer (hg : g.Sound) (q : Request) :
    g.Extends (g.answer q) ∧ (g.answer q).Sound := by
  cases q with
  | type t file =>
    obtain ⟨hext, hsound, -⟩ := (keepsWith _).resolve t file g hg
    exact ⟨hext, hsound⟩
  | text text file =>
    obtain ⟨hext, hsound, -⟩ := (keepsWith _).text text file g hg
    exact ⟨hext, hsound⟩
  | symbol id =>
    obtain ⟨hext, hsound, -⟩ := (keepsWith _).symbol id g hg
    exact ⟨hext, hsound⟩
  | instantiate generic args file =>
    have hgains := g.registry.gains_instantiate generic args file
    exact ⟨Extends.ofGains hgains, hg.ofGains hgains⟩

/-- A sequence of requests. -/
theorem Sound.after (hg : g.Sound) (requests : List Request) :
    g.Extends (g.after requests) ∧ (g.after requests).Sound := by
  induction requests generalizing g with
  | nil => exact ⟨Extends.refl g, hg⟩
  | cons q requests ih =>
    obtain ⟨hext, hsound⟩ := hg.answer q
    obtain ⟨hext', hsound'⟩ := ih hsound
    exact ⟨hext.trans hext', hsound'⟩

theorem Sound.consistent (hg : g.Sound) (hidle : g.building = []) : g.Consistent := by
  have hclaim : ∀ id n, g.names.get? n = some id → g.parsed.lookup id = some n := by
    intro id n hn
    rcases hg.claimed hn with hp | hb
    · exact hp
    · rw [hidle] at hb
      exact absurd hb List.not_mem_nil
  have hnoted : ∀ n, n ∈ g.definitions.keys ↔ ∃ id, g.parsed.lookup id = some n := by
    intro n
    constructor
    · exact fun hk => hg.defined hk
    · rintro ⟨id, hp⟩
      exact (hg.parsed hp).2
  refine ⟨?_, hnoted, ?_, ?_⟩
  · intro n
    rw [hnoted, Table.mem_keys_iff]
    constructor
    · rintro ⟨id, hp⟩
      exact ⟨id, (hg.parsed hp).1⟩
    · rintro ⟨id, hn⟩
      exact ⟨id, hclaim id n hn⟩
  · exact fun id n => ⟨fun hp => (hg.parsed hp).1, hclaim id n⟩
  · exact fun id n hp => hg.named (hg.parsed hp).1

/-- **The definition table, whatever is asked in whatever order.**  After every request of a
sequence, failed ones included, the types being built are those from before, the tables agree, and a
definition is the same after all later requests; so no two types share a definition. -/
theorem definitions_consistent (r : Registry) (settings : Settings) (earlier : List Request)
    (q : Request) (later : List Request) :
    let before := (fresh r settings).after earlier
    let now := before.answer q
    let final := now.after later
    now.building = before.building ∧ now.Consistent ∧
      (∀ n s, before.definitions.get? n = some s → now.definitions.get? n = some s) ∧
      (∀ n s, now.definitions.get? n = some s → final.definitions.get? n = some s) ∧
      ∀ id id' n, final.parsed.lookup id = some n → final.parsed.lookup id' = some n → id = id' := by
  intro before now final
  obtain ⟨hext₀, hbefore⟩ := (sound_fresh r settings).after earlier
  obtain ⟨hext₁, hnow⟩ := hbefore.answer q
  obtain ⟨hext₂, hfinal⟩ := hnow.after later
  have hidle : now.building = [] := hext₁.building.trans hext₀.building
  refine ⟨hext₁.building, hnow.consistent hidle, hext₁.definitions, hext₂.definitions, ?_⟩
  intro id id' n hp hp'
  have hn := (hfinal.parsed hp).1
  have hn' := (hfinal.parsed hp').1
  exact Option.some.inj (hn.symm.trans hn')

end Resolver

end GoApiDoc
