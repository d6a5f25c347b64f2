/-
Further members of operations.

The further members of an operation are annotations of their own, whose words begin with `@x-`.
Those of a parameter are listed in its attributes, or they come with the schema of a type.  An
operation is tidy if the names of its further members begin with `x-`, those of its parameters and
its schemas satisfy a condition, and its tables are in order.  Annotations keep operations tidy, if
the condition admits what attributes and tags list.

* `tidyAnnotations` — **annotations keep operations tidy**;
* `Operation.Tidy.distinct_toJson_iff` — **when a tidy operation as JSON names a member twice**.
-/

import GoApiDoc.Document.Json
import GoApiDoc.Proofs.DocumentPlacement
import GoApiDoc.Proofs.Extension

set_option autoImplicit false

namespace GoApiDoc

variable {K : String → Prop} {constraint value format place : String} {p : Parameter}
  {x : Option Schema} {o : Operation} {r : Response} {P : Place × Schema → Prop}

/-! ### Attributes -/

namespace ParamAttributes

variable {a a' : ParamAttributes} {type : String} {isArray : Bool}

/-- The names of the further members satisfy the condition, and the values name no member twice. -/
structure Tidy (K : String → Prop) (a : ParamAttributes) : Prop where
  extensions : FurtherMembers K a.extensions
  enums : ∀ v ∈ a.enums, v.Distinct
  defaultValue : ∀ v ∈ a.defaultValue, v.Distinct
  exampleValue : ∀ v ∈ a.exampleValue, v.Distinct

theorem distinct_valuesOf {vs : List Json} (h : valuesOf type constraint value = .ok vs) :
    ∀ v ∈ vs, v.Distinct :=
  forall_mem_of_mapM (fun _ _ => Field.distinct_valueOf) h

theorem distinct_valueFor {v : Json} (h : valueFor type isArray constraint value = .ok v) :
    v.Distinct := by
  unfold valueFor at h
  split at h
  · obtain ⟨vs, hvs, rfl⟩ := map_eq_ok_iff.1 h
    exact Json.distinct_arr_iff.2 (distinct_valuesOf hvs)
  · exact Field.distinct_valueOf h

theorem Tidy.add (ha : a.Tidy K) {pair : String × String}
    (hpair : pair.1 = "extensions" → ∀ key ∈ (Field.extensionsOf pair.2).keys, K key)
    (h : a.add type isArray pair = .ok a') : a'.Tidy K := by
  unfold ParamAttributes.add at h
  dsimp only at h
  split at h
  case h_1 =>
    obtain ⟨vs, hvs, rfl⟩ := map_eq_ok_iff.1 h
    exact { ha with enums := distinct_valuesOf hvs }
  case h_6 =>
    obtain ⟨v, hv, rfl⟩ := map_eq_ok_iff.1 h
    refine { ha with defaultValue := ?_ }
    rintro w ⟨⟩
    exact distinct_valueFor hv
  case h_7 =>
    obtain ⟨v, hv, rfl⟩ := map_eq_ok_iff.1 h
    refine { ha with exampleValue := ?_ }
    rintro w ⟨⟩
    exact distinct_valueFor hv
  case h_8 | h_9 =>
    cases h
    exact { ha with }
  case h_10 =>
    split at h
    · cases h
    · split at h
      · cases h
        exact { ha with }
      · cases h
  case h_11 hname =>
    cases h
    exact { ha with extensions := ha.extensions.extend (.of_extensionsOf _ (hpair hname)) }
  case h_12 => exact Except.ok.inj h ▸ ha
  -- the bounds
  all_goals
    obtain ⟨x, -, rfl⟩ := map_eq_ok_iff.1 h
    exact { ha with }

/-- **Attributes** with admitted names of further members only. -/
theorem tidy_ofText {text : String} (hK : ∀ key ∈ listedMembers text, K key)
    (h : ofText type isArray text = .ok a) : a.Tidy K := by
  refine foldlM_invariant_of_mem (fun b pair hpair b' hb h => hb.add (fun hname key hkey => ?_) h)
    ⟨.nil, List.forall_mem_nil _, by simp, by simp⟩ h
  refine hK key (List.mem_flatMap.2 ⟨pair, hpair, ?_⟩)
  rwa [if_pos hname]

end ParamAttributes

/-! ### Parameters -/

/-- The names of the further members satisfy the condition, the schemas are tidy, and the values
name no member twice. -/
structure Parameter.Tidy (K : String → Prop) (p : Parameter) : Prop where
  extensions : FurtherMembers K p.extensions
  enumValues : ∀ v ∈ p.enumValues, v.Distinct
  defaultValue : ∀ v ∈ p.defaultValue, v.Distinct
  exampleValue : ∀ v ∈ p.exampleValue, v.Distinct
  schema : ∀ s, p.schema = some s → s.Tidy K
  items : ∀ s, p.items = some s → s.Tidy K

section Attributes

variable {a : ParamAttributes} {p : Parameter} {s : Schema}

/-- A value that replaces another one. -/
theorem distinct_orElse {x y : Option Json} (hx : ∀ v ∈ x, v.Distinct) (hy : ∀ v ∈ y, v.Distinct) :
    ∀ v ∈ x <|> y, v.Distinct := by
  cases x with
  | none => exact hy
  | some w => exact hx

theorem Parameter.IsBlank.tidy (h : p.IsBlank) : p.Tidy K where
  extensions := h.extensions.symm ▸ .nil
  enumValues := by simp [h.enumValues]
  defaultValue := by simp [h.defaultValue]
  exampleValue := by simp [h.exampleValue]
  schema := by simp [h.schema]
  items := by simp [h.items]

theorem Schema.Tidy.restrict {enums : List Json} (h : s.Tidy K)
    (henums : ∀ v ∈ enums, v.Distinct) : (ParamAttributes.restrict enums s).Tidy K := by
  unfold ParamAttributes.restrict
  split
  · exact h
  · exact h.withFacts { h.facts with enumValues := henums }

theorem ParamAttributes.Tidy.onSchema (ha : a.Tidy K) (h : s.Tidy K) : (a.onSchema s).Tidy K := by
  obtain ⟨hfacts, hsorted, hitems, hrest⟩ := Schema.tidy_iff.1 h
  refine Schema.tidy_iff.2 ⟨⟨hfacts.extensions.extend ha.extensions,
    distinct_orElse ha.defaultValue hfacts.defaultValue,
    distinct_orElse ha.exampleValue hfacts.exampleValue, ?_⟩, hsorted, fun t ht => ?_, hrest⟩
  · unfold ParamAttributes.onSchema
    dsimp only
    split
    · exact hfacts.enumValues
    · exact ha.enums
  · obtain ⟨t', ht', rfl⟩ := Option.map_eq_some_iff.1 ht
    exact (hitems t' ht').restrict ha.enums

theorem ParamAttributes.Tidy.onParameter (ha : a.Tidy K) (h : p.Tidy K) :
    (a.onParameter p).Tidy K where
  extensions := h.extensions.extend ha.extensions
  enumValues := by
    unfold ParamAttributes.onParameter
    dsimp only
    split
    · exact h.enumValues
    · exact ha.enums
  defaultValue := distinct_orElse ha.defaultValue h.defaultValue
  exampleValue := distinct_orElse ha.exampleValue h.exampleValue
  schema := h.schema
  items := fun t ht => by
    obtain ⟨t', ht', rfl⟩ := Option.map_eq_some_iff.1 ht
    exact (h.items t' ht').restrict ha.enums

end Attributes

namespace Annotating

section Definitions

variable {g : Resolver} (hg : ∀ e ∈ g.definitions, e.2.Tidy K) {s : Schema}

include hg

theorem tidy_flattened (hs : s.Tidy K) : (flattened g s).Tidy K :=
  forall_flattened hg hs hs.allOf

theorem tidy_structParameters (hs : s.Tidy K) :
    ∀ p ∈ structParameters g format place s, p.Tidy K := by
  refine forall_structParameters hs.properties
    (fun t ht => (forall_dereference hg (hs.allOf t ht)).properties) fun t p ht hp => ?_
  have hflat := tidy_flattened hg ht
  have hfacts := hflat.facts
  refine ⟨hp.extensions ▸ hfacts.extensions, hp.enumValues ▸ hfacts.enumValues,
    hp.defaultValue ▸ hfacts.defaultValue, hp.exampleValue ▸ hfacts.exampleValue,
    by simp [hp.schema], fun u hu => ?_⟩
  obtain ⟨-, items, hitems, rfl⟩ := hp.items u hu
  exact forall_dereference hg (hflat.items items hitems)

end Definitions

end Annotating

/-! ### Operations -/

/-- The schema is tidy, and the headers are in order. -/
structure Response.Tidy (K : String → Prop) (r : Response) : Prop where
  schema : ∀ s, r.schema = some s → s.Tidy K
  headers : r.headers.Sorted

/-- The names of the further members begin with `x-`, the parameters and responses are tidy, and the
tables are in order. -/
structure Operation.Tidy (K : String → Prop) (o : Operation) : Prop where
  parameters : ∀ p ∈ o.parameters, p.Tidy K
  sorted : o.responses.Sorted
  responses : ∀ e ∈ o.responses, e.2.Tidy K
  security : ∀ r ∈ o.security, Table.Sorted r
  extensions : FurtherMembers IsVendor o.extensions

theorem sorted_requirementOf (text : String) : (requirementOf text).Sorted := by
  suffices hfold : ∀ (schemes : List String) (r : SecurityRequirement), r.Sorted →
      Table.Sorted (schemes.foldl (fun r scheme =>
        r.modify (schemeOf scheme).1 [] (· ++ (schemeOf scheme).2)) r) from
    hfold _ [] List.Pairwise.nil
  intro schemes
  induction schemes with
  | nil => exact fun r hr => hr
  | cons scheme schemes ih => exact fun r hr => ih _ (Table.sorted_insert hr)

namespace Operation.Tidy

variable {o : Operation}

theorem addResponse (h : o.Tidy K) {key : String} (hr : r.Tidy K) :
    Operation.Tidy K { o with responses := o.responses.insert key r } := by
  exact { h with
    sorted := Table.sorted_insert h.sorted
    responses := Table.forall_mem_insert hr h.responses }

theorem addHeader (h : o.Tidy K) (name : String) (header : Header) :
    Operation.Tidy K { o with responses := o.responses.mapValues fun r =>
      { r with headers := r.headers.insert name header } } := by
  refine { h with sorted := ?_, responses := fun e he => ?_ }
  · dsimp only
    exact Table.sorted_mapValues _ h.sorted
  · obtain ⟨e', he', rfl⟩ := List.mem_map.1 he
    exact ⟨(h.responses e' he').schema, Table.sorted_insert (h.responses e' he').headers⟩

theorem addHeaderTo (h : o.Tidy K) (key name : String) (header : Header) :
    (Annotating.addHeaderTo key name header o).Tidy K := by
  unfold Annotating.addHeaderTo
  split
  · next r hget =>
    have hr := h.responses _ (Table.mem_of_get? hget)
    exact h.addResponse ⟨hr.schema, Table.sorted_insert hr.headers⟩
  · exact h

theorem addSecurity (h : o.Tidy K) (text : String) :
    Operation.Tidy K { o with security := o.security ++ requirementsOf text } := by
  refine { h with security := List.forall_mem_append.2 ⟨h.security, fun r hr => ?_⟩ }
  obtain ⟨t, -, rfl⟩ := List.mem_map.1 (List.mem_of_mem_filter hr)
  exact sorted_requirementOf t

end Operation.Tidy

/-- **Annotations keep operations tidy**, if the condition admits what attributes and tags list. -/
def tidyAnnotations {P : Ingredient → Prop} (h : TidyIngredients K P) : AnnotationLaw where
  source := (tidyLaw h).discipline
  composes := (tidyLaw h).composes_discipline
  AdmitsText := (tidyLaw h).AdmitsText
  AdmitsMember := K
  AdmitsAttributes := ParamAttributes.Tidy K
  AdmitsBare := fun _ => Parameter.Tidy K
  AdmitsParameter := fun _ => Parameter.Tidy K
  AdmitsOperation := fun _ => Operation.Tidy K
  reads := SourceLaw.AdmitsText.reads
  attributes := ParamAttributes.tidy_ofText
  bare := Parameter.IsBlank.tidy
  array := fun hp _ type => { hp.tidy with
    items := fun _ ht => Option.some.inj ht ▸ Schema.tidy_ofType type }
  named := fun hp hg hs =>
    have hflat := (Annotating.tidy_flattened (SourceLaw.Governs.definitions hg).2 hs).facts
    { hp.tidy with
      enumValues := hflat.enumValues
      extensions := hp.tidy.extensions.extend hflat.extensions }
  body := fun hp hs => { hp.tidy with schema := fun _ ht => Option.some.inj ht ▸ hs }
  onSchema := fun hp hs ha => { hp with
    schema := fun _ ht => Option.some.inj ht ▸ ha.onSchema (hp.schema _ hs) }
  onParameter := fun hp _ ha => ha.onParameter hp
  struct := fun hg hs _ _ => Annotating.tidy_structParameters (SourceLaw.Governs.definitions hg).2
    (Annotating.tidy_flattened (SourceLaw.Governs.definitions hg).2 hs)
  empty := ⟨List.forall_mem_nil _, List.Pairwise.nil, List.forall_mem_nil _, List.forall_mem_nil _,
    .nil⟩
  parameter := fun ho hp => { ho with
    parameters := List.forall_mem_append.2 ⟨ho.parameters, List.forall_mem_singleton.2 hp⟩ }
  response := fun ho hs _ _ => ho.addResponse ⟨hs, List.Pairwise.nil⟩
  header := Operation.Tidy.addHeader
  headerTo := Operation.Tidy.addHeaderTo
  member := fun ho hkey hv => { ho with extensions := ho.extensions.insert hkey hv }
  security := Operation.Tidy.addSecurity
  other := fun ho hp hr hs he => ⟨hp ▸ ho.parameters, hr ▸ ho.sorted, hr ▸ ho.responses,
    hs ▸ ho.security, he ▸ ho.extensions⟩

/-! ### Operations as JSON -/

open Json (Fixed fixed_text fixed_str fixed_double fixed_int fixed_single fixed_optional
  fixed_unlessEmpty fixed_whenTrue fixed_strs)

theorem Schema.forall_mem_optionNodes {π : Place} :
    (∀ n ∈ optionNodes π x, P n) ↔ ∀ s, x = some s → ∀ n ∈ s.nodes π, P n := by
  simp only [mem_optionNodes, forall_exists_index, and_imp]
  exact ⟨fun h s hs n => h n s hs, fun h n s hs => h s hs n⟩

/-- The members of a schema that may be missing. -/
theorem fixed_schema (name : String) (h : ∀ s, x = some s → s.Tidy K)
    (π : Place) : Fixed [name] (∀ n ∈ Schema.optionNodes π x, n.2.Clear)
      (Json.optional name Schema.toJson x) := by
  rw [Schema.forall_mem_optionNodes]
  exact fixed_optional name (forall₂_congr fun s hs => (h s hs).distinct_toJson_iff π)

namespace Parameter

/-- The members of a parameter that are not further ones. -/
def keywordMembers (p : Parameter) : List (String × Json) :=
  Json.optional "description" .str p.description ++ [("name", .str p.name), ("in", .str p.place)] ++
    Json.whenTrue "required" p.required ++
    Json.optional "schema" Schema.toJson p.schema ++
    Json.optional "type" .str p.type ++
    Json.optional "format" .str p.format ++
    Json.optional "items" Schema.toJson p.items ++
    Json.optional "collectionFormat" .str p.collectionFormat ++
    Json.optional "default" id p.defaultValue ++
    Json.optional "example" id p.exampleValue ++
    Json.unlessEmpty "enum" .arr p.enumValues ++
    Json.optional "maximum" .double p.maximum ++
    Json.optional "minimum" .double p.minimum ++
    Json.optional "maxLength" .int p.maxLength ++
    Json.optional "minLength" .int p.minLength ++
    Json.optional "pattern" .str p.pattern

/-- No further member has the name of a member that is written. -/
def Clear (p : Parameter) : Prop := ∀ key ∈ p.extensions.keys, key ∉ Table.keys p.keywordMembers

/-- The names of the members that are not further ones, in the order in which they are written. -/
def keywords : List String :=
  ["description", "name", "in", "required", "schema", "type", "format", "items", "collectionFormat",
    "default", "example", "enum", "maximum", "minimum", "maxLength", "minLength", "pattern"]

theorem Tidy.fixed_keywordMembers (h : p.Tidy K) :
    Fixed keywords (∀ n ∈ p.nodes, n.2.Clear) p.keywordMembers := by
  have hdefault : Fixed ["default"] True (Json.optional "default" id p.defaultValue) :=
    fixed_optional "default" (iff_true_intro h.defaultValue)
  have hexample : Fixed ["example"] True (Json.optional "example" id p.exampleValue) :=
    fixed_optional "example" (iff_true_intro h.exampleValue)
  have henum : Fixed ["enum"] True (Json.unlessEmpty "enum" .arr p.enumValues) :=
    fixed_unlessEmpty "enum" (iff_true_intro (Json.distinct_arr_iff.2 h.enumValues)) trivial
  have hplace := (fixed_text "description" p.description).plain
      ((fixed_str "name" p.name).plain (fixed_str "in" p.place))
    |>.plain (fixed_whenTrue "required" p.required)
  have htype := hplace.append (fixed_schema "schema" h.schema .body)
    |>.plain (fixed_text "type" p.type) |>.plain (fixed_text "format" p.format)
    |>.append (fixed_schema "items" h.items .inner)
    |>.plain (fixed_text "collectionFormat" p.collectionFormat)
  have hvalues := htype.plain hdefault |>.plain hexample |>.plain henum
  have hbounds := hvalues.plain (fixed_double "maximum" p.maximum)
    |>.plain (fixed_double "minimum" p.minimum) |>.plain (fixed_int "maxLength" p.maxLength)
    |>.plain (fixed_int "minLength" p.minLength) |>.plain (fixed_text "pattern" p.pattern)
  rw [true_and] at hbounds
  rw [nodes, List.forall_mem_append]
  exact hbounds

/-- **A tidy parameter as JSON.** -/
theorem Tidy.distinct_toJson_iff (h : p.Tidy K) :
    p.toJson.Distinct ↔ p.Clear ∧ ∀ n ∈ p.nodes, n.2.Clear :=
  h.fixed_keywordMembers.distinct_further_iff (by decide +kernel) h.extensions

theorem Tidy.clear (h : p.Tidy K) (hK : ∀ key, K key → key ∉ keywords) : p.Clear := by
  intro key hkey hmem
  exact hK key (h.extensions.keys key hkey) (h.fixed_keywordMembers.keys.subset hmem)

end Parameter

theorem Response.Tidy.distinct_toJson_iff (h : r.Tidy K) :
    r.toJson.Distinct ↔ ∀ n ∈ Schema.optionNodes .inner r.schema, n.2.Clear := by
  have hheader : ∀ header : Header, header.toJson.Distinct := by
    intro header
    have hfixed := (fixed_str "type" header.type).plain
      (fixed_text "description" header.description)
    exact (hfixed.distinct_iff (by decide +kernel)).2 trivial
  have hheaders : (Json.obj (Table.mapValues Header.toJson r.headers)).Distinct :=
    (Json.distinct_mapValues_iff h.headers).2 fun e _ => hheader e.2
  have hfixed := (fixed_str "description" r.description).append
      (fixed_schema "schema" h.schema .inner)
    |>.plain (fixed_unlessEmpty "headers" (f := fun hs => .obj (Table.mapValues Header.toJson hs))
      (iff_true_intro hheaders) (by decide))
  have hobject := hfixed.distinct_iff (by decide +kernel)
  rw [true_and] at hobject
  exact hobject

theorem Operation.forall_mem_nodes :
    (∀ n ∈ o.nodes, P n) ↔ (∀ p ∈ o.parameters, ∀ n ∈ p.nodes, P n) ∧
      ∀ e ∈ o.responses, ∀ n ∈ Schema.optionNodes .inner e.2.schema, P n := by
  rw [nodes, List.forall_mem_append, List.forall_mem_flatMap, List.forall_mem_flatMap, Table.values,
    List.forall_mem_map]

theorem Operation.Tidy.nodes (h : o.Tidy K) : ∀ n ∈ o.nodes, n.2.Tidy K := by
  refine forall_mem_nodes.2 ⟨fun p hp => List.forall_mem_append.2 ⟨?_, ?_⟩, fun e he => ?_⟩
  · exact Schema.forall_mem_optionNodes.2 fun s hs => ((h.parameters p hp).schema s hs).nodes .body
  · exact Schema.forall_mem_optionNodes.2 fun s hs => ((h.parameters p hp).items s hs).nodes .inner
  · exact Schema.forall_mem_optionNodes.2 fun s hs => ((h.responses e he).schema s hs).nodes .inner

/-- **A tidy operation as JSON** names a member twice exactly if a parameter or a schema in it has a
further member with the name of one that is written. -/
theorem Operation.Tidy.distinct_toJson_iff (h : o.Tidy K) :
    o.toJson.Distinct ↔ (∀ p ∈ o.parameters, p.Clear) ∧ ∀ n ∈ o.nodes, n.2.Clear := by
  have hsecurity : (Json.arr (o.security.map SecurityRequirement.toJson)).Distinct := by
    refine Json.distinct_arr_map_iff.2 fun r hr => ?_
    exact (Json.distinct_mapValues_iff (h.security r hr)).2 fun e _ => Json.distinct_strs e.2
  have hparameters : (Json.arr (o.parameters.map Parameter.toJson)).Distinct ↔
      ∀ p ∈ o.parameters, p.Clear ∧ ∀ n ∈ p.nodes, n.2.Clear := by
    rw [Json.distinct_arr_map_iff]
    exact forall₂_congr fun p hp => (h.parameters p hp).distinct_toJson_iff
  have hresponses : (Json.obj (o.responses.mapValues Response.toJson)).Distinct ↔
      ∀ e ∈ o.responses, ∀ n ∈ Schema.optionNodes .inner e.2.schema, n.2.Clear := by
    rw [Json.distinct_mapValues_iff h.sorted]
    exact forall₂_congr fun e he => (h.responses e he).distinct_toJson_iff
  have htexts := (fixed_text "description" o.description).plain (fixed_strs "consumes" o.consumes)
    |>.plain (fixed_strs "produces" o.produces) |>.plain (fixed_strs "tags" o.tags)
    |>.plain (fixed_text "summary" o.summary) |>.plain (fixed_text "operationId" o.operationId)
    |>.plain (fixed_whenTrue "deprecated" o.deprecated)
  have hfixed := htexts.plain (fixed_unlessEmpty "security"
      (f := fun rs => .arr (rs.map SecurityRequirement.toJson)) (iff_true_intro hsecurity) trivial)
    |>.append (fixed_unlessEmpty "parameters" (f := fun ps => .arr (ps.map Parameter.toJson))
      hparameters trivial)
    |>.append (fixed_single "responses" hresponses)
  have hobject := hfixed.distinct_vendor_iff (by decide +kernel) (by decide +kernel) h.extensions
  rw [true_and, forall₂_and, and_assoc] at hobject
  rw [forall_mem_nodes]
  exact hobject

end GoApiDoc
