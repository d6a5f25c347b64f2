/-
What may stand beside a reference.

A schema that refers to a definition holds nothing else where it is made, and what a field adds to
it goes into a schema around it.  Some steps come after that and change a schema without looking at
its reference: the properties of a read-only embedded struct are marked, the constraints of a field
go to the items of an array, a type gets the values of its constants, and the attributes of a body
go to its schema.  So what may stand beside a reference depends on its place, and outside these
places a reference stands alone.

* `placementLaw` — **everything that is resolved is well placed**.
-/

import GoApiDoc.Proofs.SourceLaw

set_option autoImplicit false

namespace GoApiDoc

variable {s t : Schema} {properties : Table Schema}

/-! ### Places -/

/-- Where a schema stands in a document. -/
inductive Place where
  | definition
  | property
  | propertyItems
  | body
  /-- The items of such a schema. -/
  | bodyItems
  /-- Anywhere else: a response, a part of a combined schema, the values of a map, other items. -/
  | inner
deriving DecidableEq

variable {π : Place}

namespace Place

/-- The place of the items of a schema. -/
def items : Place → Place
  | property => propertyItems
  | body => bodyItems
  | definition | propertyItems | bodyItems | inner => inner

/-- The schema without the keywords that a reference may have beside it. -/
def strip : Place → Schema → Schema
  | definition, s => { s with enumValues := [], extensions := [] }
  | property, s => { s with readOnly := false }
  | propertyItems, s => { s with
      maximum := none, minimum := none, multipleOf := none, maxLength := none, minLength := none
      enumValues := [], format := none, pattern := none, extensions := [] }
  | body, s => { s with
      enumValues := [], defaultValue := none, exampleValue := none, maximum := none
      minimum := none, maxLength := none, minLength := none, format := none, pattern := none
      extensions := [] }
  | bodyItems, s => { s with enumValues := [] }
  | inner, s => s

/-- The further members that a reference may have beside it. -/
def extends? : Place → String → Bool
  | definition, key => ["x-enum-varnames", "x-enum-comments", "x-enum-descriptions"].contains key
  | propertyItems, key => key == "x-enum-varnames"
  | body, _ => true
  | property, _ | bodyItems, _ | inner, _ => false

/-- The schema is a reference with nothing beside it but what the place admits. -/
structure Admits (π : Place) (s : Schema) : Prop where
  alone : ∃ name, π.strip s = Schema.ref name
  extensions : ∀ e ∈ s.extensions, π.extends? e.1 = true

/-- A reference that stands alone is admitted at every place. -/
theorem admits_ref (π : Place) (name : String) : π.Admits (Schema.ref name) :=
  ⟨⟨name, by cases π <;> rfl⟩, fun e he => nomatch he⟩

theorem admits_inner_iff : inner.Admits s ↔ ∃ name, s = Schema.ref name := by
  constructor
  · exact fun h => h.alone
  · rintro ⟨name, rfl⟩
    exact admits_ref inner name

theorem Admits.type (h : π.Admits s) : s.type = none := by
  obtain ⟨name, hname⟩ := h.alone
  have htype : (π.strip s).type = s.type := by cases π <;> rfl
  rw [← htype, hname]
  rfl

end Place

/-! ### Schemas with their places -/

namespace Schema

mutual

/-- The schemas in a schema at a place, itself included, with their places. -/
def nodes : Place → Schema → List (Place × Schema)
  | π, ⟨facts, items, allOf, properties, additional⟩ =>
    (π, ⟨facts, items, allOf, properties, additional⟩) ::
      (optionNodes π.items items ++ listNodes allOf ++ propertyNodes properties ++
        optionNodes .inner additional)

/-- The schemas in an optional schema at a place. -/
def optionNodes : Place → Option Schema → List (Place × Schema)
  | _, none => []
  | π, some s => s.nodes π

/-- The schemas in the parts of a combined schema. -/
def listNodes : List Schema → List (Place × Schema)
  | [] => []
  | s :: ss => s.nodes .inner ++ listNodes ss

/-- The schemas in properties. -/
def propertyNodes : List (String × Schema) → List (Place × Schema)
  | [] => []
  | (_, s) :: ps => s.nodes .property ++ propertyNodes ps

end

variable {n : Place × Schema}

theorem mem_optionNodes {s : Option Schema} :
    n ∈ optionNodes π s ↔ ∃ t, s = some t ∧ n ∈ t.nodes π := by
  cases s with
  | none | some t => simp [optionNodes]

theorem mem_listNodes {ss : List Schema} : n ∈ listNodes ss ↔ ∃ t ∈ ss, n ∈ t.nodes .inner := by
  induction ss with
  | nil => simp [listNodes]
  | cons s ss ih => simp [listNodes, ih]

theorem mem_propertyNodes {ps : List (String × Schema)} :
    n ∈ propertyNodes ps ↔ ∃ e ∈ ps, n ∈ e.2.nodes .property := by
  induction ps with
  | nil => simp [propertyNodes]
  | cons e ps ih => simp [propertyNodes, ih]

/-- Every reference in the schema has only that beside it which its place admits. -/
def WellPlaced (π : Place) (s : Schema) : Prop :=
  ∀ n ∈ s.nodes π, n.2.reference.isSome → n.1.Admits n.2

variable {π : Place} {s : Schema}

/-- One layer of a schema. -/
theorem wellPlaced_iff : s.WellPlaced π ↔
    (s.reference.isSome → π.Admits s) ∧ (∀ t, s.items = some t → t.WellPlaced π.items) ∧
      (∀ t ∈ s.allOf, t.WellPlaced .inner) ∧ (∀ e ∈ s.properties, e.2.WellPlaced .property) ∧
      ∀ t, s.additional = some t → t.WellPlaced .inner := by
  obtain ⟨facts, items, allOf, properties, additional⟩ := s
  simp only [WellPlaced, nodes, List.mem_cons, List.mem_append, mem_optionNodes, mem_listNodes,
    mem_propertyNodes]
  constructor
  · intro h
    exact ⟨h _ (.inl rfl), fun t ht n hn => h n (.inr (.inl (.inl (.inl ⟨t, ht, hn⟩)))),
      fun t ht n hn => h n (.inr (.inl (.inl (.inr ⟨t, ht, hn⟩)))),
      fun e he n hn => h n (.inr (.inl (.inr ⟨e, he, hn⟩))),
      fun t ht n hn => h n (.inr (.inr ⟨t, ht, hn⟩))⟩
  · rintro ⟨hown, hitems, hall, hprops, hadd⟩ n (rfl | ((⟨t, ht, hn⟩ | ⟨t, ht, hn⟩) | ⟨e, he, hn⟩) |
      ⟨t, ht, hn⟩)
    · exact hown
    · exact hitems t ht n hn
    · exact hall t ht n hn
    · exact hprops e he n hn
    · exact hadd t ht n hn

theorem WellPlaced.root (h : s.WellPlaced π) : s.reference.isSome → π.Admits s :=
  (wellPlaced_iff.1 h).1

theorem WellPlaced.items (h : s.WellPlaced π) (ht : s.items = some t) :
    t.WellPlaced π.items := (wellPlaced_iff.1 h).2.1 t ht

theorem WellPlaced.allOf (h : s.WellPlaced π) (ht : t ∈ s.allOf) :
    t.WellPlaced .inner := (wellPlaced_iff.1 h).2.2.1 t ht

theorem WellPlaced.property (h : s.WellPlaced π) {e : String × Schema} (he : e ∈ s.properties) :
    e.2.WellPlaced .property := (wellPlaced_iff.1 h).2.2.2.1 e he

/-- The keywords that hold no schemas may change where the place still admits the schema. -/
theorem WellPlaced.withFacts (h : s.WellPlaced π) (facts : Facts)
    (hroot : facts.reference.isSome → π.Admits { s with toFacts := facts }) :
    WellPlaced π { s with toFacts := facts } :=
  wellPlaced_iff.2 ⟨hroot, (wellPlaced_iff.1 h).2⟩

theorem wellPlaced_of_leaf (hr : s.reference = none) (hi : s.items = none) (ha : s.allOf = [])
    (hp : s.properties = []) (hv : s.additional = none) : s.WellPlaced π := by
  rw [wellPlaced_iff, hr, hi, ha, hp, hv]
  simp

theorem WellPlaced.at_plain (h : s.WellPlaced .inner) (hπ : π.items = .inner) : s.WellPlaced π := by
  obtain ⟨hroot, hitems, hrest⟩ := wellPlaced_iff.1 h
  refine wellPlaced_iff.2 ⟨fun hr => ?_, ?_, hrest⟩
  · obtain ⟨name, rfl⟩ := Place.admits_inner_iff.1 (hroot hr)
    exact Place.admits_ref π name
  · rw [hπ]
    exact hitems

/-- What is well placed anywhere else is so at every place. -/
theorem WellPlaced.anywhere (h : s.WellPlaced .inner) (π : Place) : s.WellPlaced π := by
  obtain ⟨hroot, hitems, hrest⟩ := wellPlaced_iff.1 h
  refine wellPlaced_iff.2 ⟨fun hr => ?_, fun t ht => (hitems t ht).at_plain ?_, hrest⟩
  · obtain ⟨name, rfl⟩ := Place.admits_inner_iff.1 (hroot hr)
    exact Place.admits_ref π name
  · cases π <;> rfl

/-! ### Common schemas -/

theorem wellPlaced_ref (π : Place) (name : String) : (ref name).WellPlaced π := by
  refine wellPlaced_iff.2 ⟨fun _ => π.admits_ref name, ?_⟩
  simp [ref]

theorem wellPlaced_any : any.WellPlaced π := wellPlaced_of_leaf rfl rfl rfl rfl rfl

theorem wellPlaced_ofType (type : String) : (ofType type).WellPlaced π :=
  wellPlaced_of_leaf rfl rfl rfl rfl rfl

theorem wellPlaced_array (h : s.WellPlaced .inner) : (array s).WellPlaced .inner := by
  rw [wellPlaced_iff]
  simpa [array, Place.items] using h

theorem wellPlaced_map (h : s.WellPlaced .inner) : (map s).WellPlaced .inner := by
  rw [wellPlaced_iff]
  simpa [map] using h

theorem wellPlaced_combined {parts : List Schema} (h : ∀ t ∈ parts, t.WellPlaced .inner) :
    (combined parts).WellPlaced .inner := by
  rw [wellPlaced_iff]
  simpa [combined] using h

theorem wellPlaced_object (required : List String)
    (h : ∀ e ∈ properties, e.2.WellPlaced .property) : WellPlaced .inner
      { type := some "object", properties := properties, required := required } := by
  rw [wellPlaced_iff]
  simpa using h

/-! ### Definitions -/

theorem admits_addEnums (name : String) (enums : List EnumMember) :
    Place.definition.Admits ((ref name).addEnums enums) := by
  unfold addEnums
  split
  · exact Place.admits_ref _ name
  refine ⟨⟨name, rfl⟩, ?_⟩
  have hnames := Table.forall_mem_insert (k := "x-enum-varnames")
    (v := Json.strs (enums.map (·.key))) (P := fun e => Place.definition.extends? e.1 = true) rfl
    (List.forall_mem_nil _)
  dsimp only
  split
  · exact hnames
  · exact Table.forall_mem_insert rfl (Table.forall_mem_insert rfl hnames)

theorem WellPlaced.addEnums (h : s.WellPlaced .inner) (enums : List EnumMember) :
    (s.addEnums enums).WellPlaced .definition := by
  by_cases hr : s.reference.isSome = true
  · obtain ⟨name, rfl⟩ := Place.admits_inner_iff.1 (h.root hr)
    refine wellPlaced_iff.2 ⟨fun _ => admits_addEnums name enums, ?_⟩
    unfold Schema.addEnums
    split
    · simp [ref]
    · simp [ref]
  · have hplain : s.WellPlaced .definition := h.anywhere _
    unfold Schema.addEnums
    split
    · exact hplain
    · exact hplain.withFacts _ fun hr' => absurd hr' hr

/-- **A definition**: a reference gets the values of the constants beside it. -/
theorem wellPlaced_ofDecl (h : s.WellPlaced .inner) (d : TypeDecl) :
    (ofDecl d s).WellPlaced .definition := by
  have henums := h.addEnums d.enums
  unfold ofDecl
  split
  · dsimp only
    split
    · next hr =>
      refine henums.withFacts _ fun hr' => ?_
      rw [Option.isNone_iff_eq_none.1 hr] at hr'
      cases hr'
    · exact henums
  · exact henums

end Schema

/-! ### Fields -/

namespace Field

variable {s s' : Schema}

/-- A schema that is no reference, at the place of a property. -/
structure Own (s : Schema) : Prop where
  reference : s.reference = none
  placed : s.WellPlaced .property

/-- The keywords of a schema that is no reference may change. -/
theorem Own.withFacts (h : Own s) (facts : Schema.Facts) (hr : facts.reference = none) :
    Own { s with toFacts := facts } :=
  ⟨hr, h.placed.withFacts facts fun hr' => by rw [hr] at hr'; cases hr'⟩

/-- A change of the items, or of a schema without items. -/
theorem Own.onElement (h : Own s) (type : String) {f : Schema → Schema}
    (hf : ∀ t : Schema, ∃ facts : Schema.Facts, f t = { t with toFacts := facts } ∧
      facts.reference = t.reference)
    (hadmits : ∀ t, Place.propertyItems.Admits t → Place.propertyItems.Admits (f t)) :
    Own (onElement type f s) := by
  unfold Field.onElement
  split
  · have hitems : (s.items.getD {}).WellPlaced .propertyItems := by
      cases hi : s.items with
      | none => exact Schema.wellPlaced_any
      | some t => exact h.placed.items hi
    obtain ⟨facts, hfacts, hr⟩ := hf (s.items.getD {})
    refine ⟨h.reference, ?_⟩
    obtain ⟨hroot, -, hrest⟩ := Schema.wellPlaced_iff.1 h.placed
    refine Schema.wellPlaced_iff.2 ⟨fun hr' => ?_, fun t ht => ?_, hrest⟩
    · rw [h.reference] at hr'
      cases hr'
    cases ht
    rw [hfacts]
    refine hitems.withFacts facts fun hr' => ?_
    rw [← hfacts]
    exact hadmits _ (hitems.root (hr ▸ hr'))
  · obtain ⟨facts, hfacts, hr⟩ := hf s
    rw [hfacts]
    exact h.withFacts facts (hr.trans h.reference)

theorem Own.constrain (h : Own s) (tag : String) (c : Constraints) : Own (constrain tag c s) := by
  unfold Field.constrain
  refine Own.onElement ?_ _ (fun t => ⟨_, rfl, rfl⟩) fun t h =>
    ⟨h.alone, h.extensions⟩
  split
  · exact h.withFacts _ h.reference
  · exact h

theorem passes_own (f : Go.Field) : Passes f Own where
  description _ h := h.withFacts _ h.reference
  fresh _ := ⟨rfl, Schema.wellPlaced_of_leaf rfl rfl rfl rfl rfl⟩
  enumNames type _ h := by
    refine h.onElement type (fun t => ⟨_, rfl, rfl⟩) fun t ht => ⟨ht.alone, ?_⟩
    exact Table.forall_mem_insert rfl ht.extensions
  extensions _ h := h.withFacts _ h.reference
  constrain _ _ h := h.constrain _ _
  missing _ h := h.withFacts _ h.reference
  sample _ _ h := h.withFacts _ h.reference

/-- **A property**: what a field adds to a reference goes into a schema around it. -/
theorem wellPlaced_complement {f : Go.Field} {types : List String} (hs : s.WellPlaced .inner)
    (h : complement f s types = .ok s') : s'.WellPlaced .property := by
  obtain rfl | ⟨type, rest, ⟨extra, hextra, rfl⟩ | ⟨hr, hplain⟩⟩ := complement_cases h
  · exact hs.anywhere _
  · obtain ⟨hr, hplaced⟩ := (passes_own f).complementPlain ⟨rfl, Schema.wellPlaced_any⟩ hextra
    obtain ⟨hroot, hitems, -, hrest⟩ := Schema.wellPlaced_iff.1 hplaced
    refine Schema.wellPlaced_iff.2 ⟨fun hr' => ?_, hitems, ?_, hrest⟩
    · rw [hr] at hr'
      cases hr'
    · simpa using hs
  · exact ((passes_own f).complementPlain ⟨hr, hs.anywhere _⟩ hplain).placed

end Field

/-! ### Structs -/

namespace StructParts

variable {p : StructParts} {inner : StructParts}

/-- The properties and the parts kept by reference are well placed. -/
structure WellPlaced (p : StructParts) : Prop where
  properties : ∀ e ∈ p.properties, e.2.WellPlaced .property
  composed : ∀ s ∈ p.composed, s.WellPlaced .inner

theorem WellPlaced.addProperty (h : p.WellPlaced) (hs : s.WellPlaced .property) (name : String)
    (required : Bool) : (p.addProperty name s required).WellPlaced :=
  ⟨Table.forall_mem_insert hs h.properties, h.composed⟩

theorem WellPlaced.compose (h : p.WellPlaced) (hs : s.WellPlaced .inner) :
    WellPlaced { p with composed := p.composed ++ [s] } :=
  ⟨h.properties, List.forall_mem_append.2 ⟨h.composed, List.forall_mem_singleton.2 hs⟩⟩

theorem WellPlaced.embed (h : p.WellPlaced) (hi : inner.WellPlaced) :
    (p.embed inner).WellPlaced := by
  refine ⟨fun e he => ?_, fun s hs => ?_⟩
  · exact (mem_offered he).elim (h.properties e) (hi.properties e)
  · exact (List.mem_append.1 hs).elim (h.composed s) (hi.composed s)

theorem WellPlaced.embedReadOnly (h : p.WellPlaced) (hi : inner.WellPlaced) :
    (p.embedReadOnly inner).WellPlaced := by
  refine ⟨forall_embedReadOnly (fun s hs => ?_) h.properties hi.properties, h.composed⟩
  exact hs.withFacts _ fun hr => ⟨(hs.root hr).alone, (hs.root hr).extensions⟩

theorem WellPlaced.toSchema (h : p.WellPlaced) : p.toSchema.WellPlaced .inner := by
  have hobject := Schema.wellPlaced_object p.required h.properties
  unfold StructParts.toSchema
  split
  · exact hobject
  · refine Schema.wellPlaced_combined ?_
    split
    · exact h.composed
    · exact List.forall_mem_append.2 ⟨h.composed, List.forall_mem_singleton.2 hobject⟩

end StructParts

theorem Composite.wellPlaced_combine {base : Schema} (hb : base.WellPlaced .inner)
    (hp : ∀ e ∈ properties, e.2.WellPlaced .inner) :
    (combine base properties).WellPlaced .inner := by
  have hprops : ∀ e ∈ properties, e.2.WellPlaced .property := fun e he => (hp e he).anywhere _
  unfold combine
  split
  · exact hb
  split
  · next hplain =>
    obtain ⟨-, hitems, hall, -, hadd⟩ := Schema.wellPlaced_iff.1 hb
    refine Schema.wellPlaced_iff.2 ⟨fun hr => ?_, hitems, hall, hprops, hadd⟩
    simp only [Bool.and_eq_true, Option.isNone_iff_eq_none] at hplain
    rw [hplain.1.1.1] at hr
    cases hr
  · refine Schema.wellPlaced_combined fun t ht => ?_
    rcases List.mem_cons.1 ht with rfl | ht
    · exact hb
    · exact List.mem_singleton.1 ht ▸ Schema.wellPlaced_object [] hprops

/-- **Everything that is resolved is well placed**, whatever it is made of. -/
def placementLaw : SourceLaw where
  AdmitsIngredient := fun _ => True
  Admits := Schema.WellPlaced .inner
  AdmitsParts := StructParts.WellPlaced
  AdmitsDefinitions := fun t => ∀ e ∈ t, e.2.WellPlaced .definition
  closed := fun _ _ _ _ _ _ _ _ => trivial
  any := Schema.wellPlaced_any
  ofType := Schema.wellPlaced_ofType
  withFormat := fun _ _ => Schema.wellPlaced_of_leaf rfl rfl rfl rfl rfl
  ref := Schema.wellPlaced_ref .inner
  array := Schema.wellPlaced_array
  map := Schema.wellPlaced_map
  struct := StructParts.WellPlaced.toSchema
  combine := fun hs _ hp => Composite.wellPlaced_combine hs hp
  empty := ⟨(fun _ h => nomatch h), fun _ h => nomatch h⟩
  normalized := fun h => ⟨h.properties, h.composed⟩
  property := fun hp _ hs h => hp.addProperty (Field.wellPlaced_complement hs h)
  compose := fun hp hs => hp.compose hs
  embed := StructParts.WellPlaced.embed
  embedReadOnly := StructParts.WellPlaced.embedReadOnly
  define := fun ht hs d _ _ => Table.forall_mem_insert (Schema.wellPlaced_ofDecl hs d) ht

theorem placementLaw_governs_iff {g : Resolver} :
    placementLaw.Governs g ↔ ∀ e ∈ g.definitions, e.2.WellPlaced .definition := by
  constructor
  · exact fun h => h.definitions
  · exact fun h => ⟨h, fun _ _ _ _ => trivial, fun _ _ _ _ _ _ => trivial⟩

end GoApiDoc
