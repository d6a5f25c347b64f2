/-
Further members of schemas.

The further members of a schema are listed in the tags of fields, which may give them any names, or
they are the names and comments of constants, whose names begin with `x-`.  A schema is tidy if the
further members at all depths have names that satisfy a condition, properties are in order, and the
values in it name no member twice.  All that is resolved is tidy, if the condition admits what the
tags list.  As JSON a tidy schema names no member twice, unless a further member has the name of a
keyword that is written.

* `tidyLaw` — **everything that is resolved is tidy**;
* `Schema.Tidy.distinct_toJson_iff` — **when a tidy schema as JSON names a member twice**.
-/

import GoApiDoc.Proofs.Member
import GoApiDoc.Proofs.Placement

set_option autoImplicit false

namespace GoApiDoc

/-! ### Tidy schemas -/

namespace Schema

/-- The names of the further members satisfy the condition, and the values name no member twice. -/
structure Facts.Tidy (K : String → Prop) (f : Facts) : Prop where
  extensions : FurtherMembers K f.extensions
  defaultValue : ∀ v ∈ f.defaultValue, v.Distinct
  exampleValue : ∀ v ∈ f.exampleValue, v.Distinct
  enumValues : ∀ v ∈ f.enumValues, v.Distinct

/-- All schemas in the schema have tidy keywords, and properties in order. -/
inductive Tidy (K : String → Prop) : Schema → Prop
  | layer {s : Schema} (facts : s.toFacts.Tidy K) (sorted : Table.Sorted s.properties)
      (items : ∀ t, s.items = some t → Tidy K t) (allOf : ∀ t ∈ s.allOf, Tidy K t)
      (properties : ∀ e ∈ s.properties, Tidy K e.2)
      (additional : ∀ t, s.additional = some t → Tidy K t) : Tidy K s

variable {K : String → Prop} {s : Schema}

/-- One layer of a tidy schema. -/
theorem tidy_iff : s.Tidy K ↔ s.toFacts.Tidy K ∧ Table.Sorted s.properties ∧
    (∀ t, s.items = some t → t.Tidy K) ∧ (∀ t ∈ s.allOf, t.Tidy K) ∧
      (∀ e ∈ s.properties, e.2.Tidy K) ∧ ∀ t, s.additional = some t → t.Tidy K := by
  constructor
  · rintro ⟨hfacts, hsorted, hitems, hall, hprops, hadd⟩
    exact ⟨hfacts, hsorted, hitems, hall, hprops, hadd⟩
  · rintro ⟨hfacts, hsorted, hitems, hall, hprops, hadd⟩
    exact .layer hfacts hsorted hitems hall hprops hadd

namespace Tidy

theorem facts (h : s.Tidy K) : s.toFacts.Tidy K := (tidy_iff.1 h).1

theorem items (h : s.Tidy K) : ∀ t, s.items = some t → t.Tidy K := (tidy_iff.1 h).2.2.1

theorem allOf (h : s.Tidy K) : ∀ t ∈ s.allOf, t.Tidy K := (tidy_iff.1 h).2.2.2.1

theorem properties (h : s.Tidy K) : ∀ e ∈ s.properties, e.2.Tidy K := (tidy_iff.1 h).2.2.2.2.1

/-- The keywords that hold no schemas may change. -/
theorem withFacts (h : s.Tidy K) {facts : Facts} (hfacts : facts.Tidy K) :
    Tidy K { s with toFacts := facts } :=
  tidy_iff.2 ⟨hfacts, (tidy_iff.1 h).2⟩

end Tidy

/-- What holds of all schemas in a schema holds of it and of all schemas in its parts. -/
theorem forall_mem_nodes {π : Place} {P : Place × Schema → Prop} : (∀ n ∈ s.nodes π, P n) ↔
    P (π, s) ∧ (∀ t, s.items = some t → ∀ n ∈ t.nodes π.items, P n) ∧
      (∀ t ∈ s.allOf, ∀ n ∈ t.nodes .inner, P n) ∧
      (∀ e ∈ s.properties, ∀ n ∈ e.2.nodes .property, P n) ∧
      ∀ t, s.additional = some t → ∀ n ∈ t.nodes .inner, P n := by
  obtain ⟨facts, items, allOf, properties, additional⟩ := s
  simp only [nodes, List.forall_mem_cons, List.forall_mem_append, mem_optionNodes, mem_listNodes,
    mem_propertyNodes, forall_exists_index, and_imp, and_assoc]
  refine and_congr_right' (and_congr ?_ (and_congr ?_ (and_congr ?_ ?_)))
  all_goals exact ⟨fun h t ht n => h n t ht, fun h n t ht => h t ht n⟩

/-- Every schema in a tidy one is tidy. -/
theorem Tidy.nodes (h : s.Tidy K) (π : Place) : ∀ n ∈ s.nodes π, n.2.Tidy K := by
  induction h generalizing π with
  | @layer s hfacts hsorted hitems hall hprops hadd ihitems ihall ihprops ihadd =>
    refine forall_mem_nodes.2 ⟨.layer hfacts hsorted hitems hall hprops hadd, ?_⟩
    exact ⟨fun t ht => ihitems t ht _, fun t ht => ihall t ht _, fun e he => ihprops e he _,
      fun t ht => ihadd t ht _⟩

/-! ### Common schemas -/

/-- Keywords without further members and values. -/
theorem Facts.tidy_plain {f : Facts} (hext : f.extensions = []) (hdefault : f.defaultValue = none)
    (hexample : f.exampleValue = none) (henum : f.enumValues = []) : f.Tidy K where
  extensions := hext.symm ▸ .nil
  defaultValue := by simp [hdefault]
  exampleValue := by simp [hexample]
  enumValues := by simp [henum]

theorem tidy_ofType (type : String) : (ofType type).Tidy K :=
  tidy_iff.2 ⟨Facts.tidy_plain rfl rfl rfl rfl, .nil, by simp [ofType]⟩

theorem tidy_any : any.Tidy K :=
  tidy_iff.2 ⟨Facts.tidy_plain rfl rfl rfl rfl, .nil, by simp [any]⟩

theorem tidy_ref (name : String) : (ref name).Tidy K :=
  tidy_iff.2 ⟨Facts.tidy_plain rfl rfl rfl rfl, .nil, by simp [ref]⟩

theorem Tidy.array (h : s.Tidy K) : (array s).Tidy K :=
  tidy_iff.2 ⟨Facts.tidy_plain rfl rfl rfl rfl, .nil, by simp [Schema.array, h]⟩

theorem Tidy.map (h : s.Tidy K) : (map s).Tidy K :=
  tidy_iff.2 ⟨Facts.tidy_plain rfl rfl rfl rfl, .nil, by simp [Schema.map, h]⟩

theorem tidy_combined {parts : List Schema} (h : ∀ t ∈ parts, t.Tidy K) : (combined parts).Tidy K :=
  tidy_iff.2 ⟨Facts.tidy_plain rfl rfl rfl rfl, .nil, by simp [combined], h,
    by simp [combined], by simp [combined]⟩

theorem tidy_object {properties : Table Schema} (required : List String)
    (hsorted : properties.Sorted) (h : ∀ e ∈ properties, e.2.Tidy K) :
    Tidy K { type := some "object", properties := properties, required := required } :=
  tidy_iff.2 ⟨Facts.tidy_plain rfl rfl rfl rfl, hsorted, by simp, by simp, h, by simp⟩

/-! ### Definitions -/

theorem Tidy.addEnums (hvendor : ∀ key, IsVendor key → K key) (h : s.Tidy K)
    {enums : List EnumMember} (henums : ∀ m ∈ enums, m.value.Distinct) :
    (s.addEnums enums).Tidy K := by
  unfold Schema.addEnums
  split
  · exact h
  have hnames := h.facts.extensions.insert (hvendor "x-enum-varnames" (by decide))
    (Json.distinct_strs (enums.map (·.key)))
  refine h.withFacts { h.facts with extensions := ?_, enumValues := fun v hv => ?_ }
  · dsimp only
    split
    · exact hnames
    refine (hnames.insert (hvendor "x-enum-comments" (by decide)) ?_).insert
      (hvendor "x-enum-descriptions" (by decide)) (Json.distinct_strs _)
    refine Json.distinct_ofEntries fun e he => ?_
    obtain ⟨m, -, rfl⟩ := List.mem_map.1 he
    trivial
  · obtain ⟨m, hm, rfl⟩ := List.mem_map.1 hv
    exact henums m hm

/-- **A definition** gets the names and comments of the constants. -/
theorem Tidy.ofDecl (hvendor : ∀ key, IsVendor key → K key) (h : s.Tidy K) (d : TypeDecl)
    (hd : ∀ m ∈ d.enums, m.value.Distinct) : (ofDecl d s).Tidy K := by
  have henums := h.addEnums hvendor hd
  unfold Schema.ofDecl
  split
  · dsimp only
    split
    · exact henums.withFacts { henums.facts with }
    · exact henums
  · exact henums

/-! ### Properties -/

section Field

variable {s' : Schema} {f : Go.Field} {tag : String} {c : Field.Constraints}

/-- A change of the items, or of a schema without items. -/
theorem Tidy.onElement (h : s.Tidy K) (type : String) {g : Schema → Schema}
    (hg : ∀ t : Schema, t.Tidy K → (g t).Tidy K) : (Field.onElement type g s).Tidy K := by
  unfold Field.onElement
  split
  · obtain ⟨hfacts, hsorted, hitems, hrest⟩ := tidy_iff.1 h
    refine tidy_iff.2 ⟨hfacts, hsorted, fun t ht => ?_, hrest⟩
    cases ht
    refine hg _ ?_
    cases hi : s.items with
    | none => exact tidy_any
    | some t => exact hitems t hi
  · exact hg s h

theorem Tidy.constrain (h : s.Tidy K) (hc : c.Distinct) : (Field.constrain tag c s).Tidy K := by
  unfold Field.constrain
  refine .onElement ?_ _ fun t ht => ht.withFacts { ht.facts with enumValues := ?_ }
  · split
    · exact h.withFacts { h.facts with }
    · exact h
  · dsimp only
    split
    · exact ht.facts.enumValues
    · exact hc

variable (hvendor : ∀ key, IsVendor key → K key)
  (htag : ∀ tag ∈ f.tag, ∀ key ∈ (Field.extensionsOf (Tag.get tag "extensions")).keys, K key)

include hvendor htag

theorem passes_tidy : Field.Passes f (Tidy K) where
  description _ h := h.withFacts { h.facts with }
  fresh _ := (tidy_ofType "string").withFacts (Facts.tidy_plain rfl rfl rfl rfl)
  enumNames type names h := by
    refine h.onElement type fun t ht => ht.withFacts { ht.facts with extensions := ?_ }
    refine ht.facts.extensions.insert (hvendor "x-enum-varnames" (by decide)) ?_
    refine Json.distinct_arr_iff.2 fun v hv => ?_
    obtain ⟨n, -, rfl⟩ := List.mem_map.1 hv
    trivial
  extensions hf h := h.withFacts { h.facts with
    extensions := h.facts.extensions.extend (.of_extensionsOf _ (htag _ hf)) }
  constrain hc henums h := by
    refine h.constrain fun v hv => ?_
    exact Field.Constraints.distinct_ofTag hc v (henums ▸ hv)
  missing hv h := h.withFacts { h.facts with
    defaultValue := fun w hw => Option.some.inj hw ▸ Field.distinct_defaultOf hv }
  sample {s _ _ _ _ sample} _ hsample h := by
    have hzero : ∀ v ∈ sample, v.Distinct := by
      refine Field.distinct_exampleFor (fun v hv => ?_) hsample
      obtain ⟨text, -, rfl⟩ := Option.map_eq_some_iff.1 hv
      trivial
    -- without an example of its own the property keeps that of its type
    refine h.withFacts { h.facts with exampleValue := fun v hv => ?_ }
    cases hsome : sample with
    | none => exact h.facts.exampleValue v (by simpa [hsome] using hv)
    | some w => exact hzero v (by simpa [hsome] using hv)

/-- **A property**: what the field lists is added to the schema or to one around it. -/
theorem Tidy.complement {types : List String} (hs : s.Tidy K)
    (h : Field.complement f s types = .ok s') : s'.Tidy K := by
  have hpasses := passes_tidy hvendor htag
  obtain rfl | ⟨type, rest, ⟨extra, hextra, rfl⟩ | ⟨-, hplain⟩⟩ := Field.complement_cases h
  · exact hs
  · obtain ⟨hfacts, hsorted, hitems, -, hrest⟩ :=
      tidy_iff.1 (hpasses.complementPlain tidy_any hextra)
    exact tidy_iff.2 ⟨hfacts, hsorted, hitems, List.forall_mem_singleton.2 hs, hrest⟩
  · exact hpasses.complementPlain hs hplain

end Field

end Schema

/-! ### Structs -/

namespace StructParts

variable {K : String → Prop} {p inner : StructParts} {s : Schema}

/-- The properties are in order, and all parts are tidy. -/
structure Tidy (K : String → Prop) (p : StructParts) : Prop where
  sorted : p.properties.Sorted
  properties : ∀ e ∈ p.properties, e.2.Tidy K
  composed : ∀ s ∈ p.composed, s.Tidy K

theorem Tidy.addProperty (h : p.Tidy K) (hs : s.Tidy K) (name : String)
    (required : Bool) : (p.addProperty name s required).Tidy K :=
  ⟨Table.sorted_insert h.sorted, Table.forall_mem_insert hs h.properties, h.composed⟩

theorem Tidy.compose (h : p.Tidy K) (hs : s.Tidy K) :
    Tidy K { p with composed := p.composed ++ [s] } :=
  ⟨h.sorted, h.properties, List.forall_mem_append.2 ⟨h.composed, List.forall_mem_singleton.2 hs⟩⟩

theorem sorted_offered {inner properties : Table Schema} (h : properties.Sorted) :
    Table.Sorted (inner.foldl offerProperty properties) := by
  induction inner generalizing properties with
  | nil => exact h
  | cons e inner ih =>
    refine ih ?_
    unfold offerProperty
    split
    · exact h
    · exact Table.sorted_insert h

theorem Tidy.embed (h : p.Tidy K) (hi : inner.Tidy K) : (p.embed inner).Tidy K :=
  ⟨sorted_offered h.sorted, fun e he => (mem_offered he).elim (h.properties e) (hi.properties e),
    List.forall_mem_append.2 ⟨h.composed, hi.composed⟩⟩

theorem sorted_embedReadOnly (h : p.properties.Sorted) :
    (p.embedReadOnly inner).properties.Sorted :=
  List.foldlRecOn (motive := Table.Sorted) _ _ h fun _ ht _ _ => Table.sorted_insert ht

theorem Tidy.embedReadOnly (h : p.Tidy K) (hi : inner.Tidy K) : (p.embedReadOnly inner).Tidy K :=
  ⟨sorted_embedReadOnly h.sorted,
    forall_embedReadOnly (fun _ hs => hs.withFacts { hs.facts with }) h.properties hi.properties,
    h.composed⟩

theorem Tidy.toSchema (h : p.Tidy K) : p.toSchema.Tidy K := by
  have hobject := Schema.tidy_object p.required h.sorted h.properties
  unfold StructParts.toSchema
  split
  · exact hobject
  · refine Schema.tidy_combined ?_
    split
    · exact h.composed
    · exact List.forall_mem_append.2 ⟨h.composed, List.forall_mem_singleton.2 hobject⟩

end StructParts

variable {K : String → Prop}

theorem Composite.tidy_combine {base : Schema} {properties : Table Schema}
    (hb : base.Tidy K) (hsorted : properties.Sorted) (hp : ∀ e ∈ properties, e.2.Tidy K) :
    (combine base properties).Tidy K := by
  unfold combine
  split
  · exact hb
  split
  · obtain ⟨hfacts, -, hitems, hall, -, hadd⟩ := Schema.tidy_iff.1 hb
    exact Schema.tidy_iff.2 ⟨hfacts, hsorted, hitems, hall, hp, hadd⟩
  · refine Schema.tidy_combined (List.forall_mem_cons.2 ⟨hb, List.forall_mem_singleton.2 ?_⟩)
    exact Schema.tidy_object [] hsorted hp

/-! ### The law -/

/-- What is asked of the ingredients: tags list members with admitted names only, which those that
begin with `x-` are in any case, and the constants name no member twice. -/
structure TidyIngredients (K : String → Prop) (P : Ingredient → Prop) : Prop where
  closed : Ingredient.Closed P
  vendor : ∀ key, IsVendor key → K key
  tag : ∀ tag, P (.tag tag) → ∀ key ∈ (Field.extensionsOf (Tag.get tag "extensions")).keys, K key
  value : ∀ v, P (.value v) → v.Distinct

/-- **Everything that is resolved is tidy.** -/
def tidyLaw {P : Ingredient → Prop} (h : TidyIngredients K P) : SourceLaw where
  AdmitsIngredient := P
  Admits := Schema.Tidy K
  AdmitsParts := StructParts.Tidy K
  AdmitsDefinitions := fun t => t.Sorted ∧ ∀ e ∈ t, e.2.Tidy K
  closed := h.closed
  any := Schema.tidy_any
  ofType := Schema.tidy_ofType
  withFormat := fun _ _ =>
    (Schema.tidy_ofType _).withFacts (Schema.Facts.tidy_plain rfl rfl rfl rfl)
  ref := Schema.tidy_ref
  array := Schema.Tidy.array
  map := Schema.Tidy.map
  struct := StructParts.Tidy.toSchema
  combine := Composite.tidy_combine
  empty := ⟨List.Pairwise.nil, List.forall_mem_nil _, List.forall_mem_nil _⟩
  normalized := fun hp => ⟨hp.sorted, hp.properties, hp.composed⟩
  property := fun hp hf hs hcomp =>
    hp.addProperty (hs.complement h.vendor (fun tag htag => h.tag tag (hf tag htag)) hcomp)
  compose := fun hp hs => hp.compose hs
  embed := StructParts.Tidy.embed
  embedReadOnly := StructParts.Tidy.embedReadOnly
  define := fun ht hs d hd _ => ⟨Table.sorted_insert ht.1,
    Table.forall_mem_insert (hs.ofDecl h.vendor d fun m hm => h.value _ (hd m hm)) ht.2⟩

/-! ### Schemas as JSON -/

namespace Schema

variable {K : String → Prop} {s : Schema}

open Json (Fixed fixed_text fixed_double fixed_int fixed_optional fixed_unlessEmpty fixed_whenTrue
  fixed_strs)

/-- No further member has the name of a keyword that is written. -/
def Clear (s : Schema) : Prop := ∀ key ∈ s.extensions.keys, key ∉ Table.keys s.keywordMembers

theorem Facts.Tidy.fixed_members {f : Facts} (h : f.Tidy K) :
    Fixed factKeywords True f.members := by
  have htexts := (fixed_text "$ref" f.reference).plain (fixed_text "type" f.type)
    |>.plain (fixed_text "format" f.format) |>.plain (fixed_text "title" f.title)
    |>.plain (fixed_text "description" f.description)
  have hdefault : Fixed ["default"] True (Json.optional "default" id f.defaultValue) :=
    fixed_optional "default" (iff_true_intro h.defaultValue)
  have hexample : Fixed ["example"] True (Json.optional "example" id f.exampleValue) :=
    fixed_optional "example" (iff_true_intro h.exampleValue)
  have henum : Fixed ["enum"] True (Json.unlessEmpty "enum" .arr f.enumValues) :=
    fixed_unlessEmpty "enum" (iff_true_intro (Json.distinct_arr_iff.2 h.enumValues)) trivial
  have hbounds := htexts.plain hdefault |>.plain hexample |>.plain henum
    |>.plain (fixed_double "maximum" f.maximum) |>.plain (fixed_double "minimum" f.minimum)
    |>.plain (fixed_double "multipleOf" f.multipleOf)
  exact hbounds.plain (fixed_int "maxLength" f.maxLength)
    |>.plain (fixed_int "minLength" f.minLength) |>.plain (fixed_text "pattern" f.pattern)
    |>.plain (fixed_int "maxItems" f.maxItems) |>.plain (fixed_int "minItems" f.minItems)
    |>.plain (fixed_whenTrue "readOnly" f.readOnly)

theorem Tidy.clear (h : s.Tidy K) (hK : ∀ key, K key → key ∉ keywords) : s.Clear := by
  intro key hkey hmem
  exact hK key (h.facts.extensions.keys key hkey) ((keys_keywordMembers s).subset hmem)

/-- **A tidy schema as JSON** names a member twice exactly if a further member of a schema in it has
the name of a keyword that is written. -/
theorem Tidy.distinct_toJson_iff (h : s.Tidy K) (π : Place) :
    s.toJson.Distinct ↔ ∀ n ∈ s.nodes π, n.2.Clear := by
  induction h generalizing π with
  | @layer s hfacts hsorted _ _ _ _ ihitems ihall ihprops ihadd =>
    have hitems := fixed_optional "items" (x := s.items)
      (forall₂_congr fun t ht => ihitems t ht π.items)
    have hall : (Json.arr (listJson s.allOf)).Distinct ↔
        ∀ t ∈ s.allOf, ∀ n ∈ t.nodes .inner, n.2.Clear := by
      rw [listJson_eq, Json.distinct_arr_map_iff]
      exact forall₂_congr fun t ht => ihall t ht .inner
    have hprops : (Json.obj (propertyMembers s.properties)).Distinct ↔
        ∀ e ∈ s.properties, ∀ n ∈ e.2.nodes .property, n.2.Clear := by
      rw [propertyMembers_eq, Json.distinct_mapValues_iff hsorted]
      exact forall₂_congr fun e he => ihprops e he .property
    have hadd := fixed_optional "additionalProperties" (x := s.additional)
      (forall₂_congr fun t ht => ihadd t ht .inner)
    have hfixed := hfacts.fixed_members.append hitems
      |>.append (fixed_unlessEmpty "allOf" hall trivial)
      |>.append (fixed_unlessEmpty "properties" hprops (by decide)) |>.append hadd
      |>.plain (fixed_strs "required" s.required)
    have hkeywords : keywords.Nodup := by decide +kernel
    have hobject := hfixed.distinct_further_iff hkeywords hfacts.extensions
    simp only [true_and, and_assoc] at hobject
    rw [toJson_eq, forall_mem_nodes]
    exact hobject

end Schema

end GoApiDoc
