/-
Further members of documents.

The further members of a document, of its description, of its operations and of its security schemes
are written by annotations that begin with `@x-`, so their names begin with `x-`.  Those of schemas
and parameters may also be listed in tags of fields and attributes of parameters, and then they have
the names that are given there, which may be names of keywords.

* `Document.Tidy.distinct_toJson_iff` — **when a document as JSON names a member twice**;
* `Project.extensions_vendor_unless_listed` — **the further members of a document**.
-/

import GoApiDoc.Proofs.OperationExtension
import GoApiDoc.Proofs.Reparsing

set_option autoImplicit false

namespace GoApiDoc

variable {K : String → Prop} {name : String} {r : Registry} {main : FileId} {s : SecurityScheme}
  {P : Operation → Prop}

/-! ### Security schemes -/

/-- The names of the further members begin with `x-`, and the scopes are in order. -/
structure SecurityScheme.Tidy (s : SecurityScheme) : Prop where
  scopes : s.scopes.Sorted
  extensions : FurtherMembers IsVendor s.extensions

namespace SecurityBlock

variable {b : SecurityBlock}

/-- The names of the further members begin with `x-`, and the scopes are in order. -/
structure Tidy (b : SecurityBlock) : Prop where
  scopes : b.scopes.Sorted
  extensions : FurtherMembers IsVendor b.extensions

theorem Tidy.add (h : b.Tidy) (line : String) : (b.add line).Tidy := by
  unfold SecurityBlock.add
  generalize Text.splitAttribute (Text.trim line) = words
  obtain ⟨word, value⟩ := words
  dsimp only
  split
  · exact ⟨h.scopes, h.extensions⟩
  split
  · exact ⟨h.scopes, h.extensions⟩
  split
  · exact ⟨Table.sorted_insert h.scopes, h.extensions⟩
  · split
    · next hword =>
      exact ⟨h.scopes, h.extensions.insert (isVendor_drop hword) (Json.distinct_ofText value)⟩
    · exact h

theorem tidy_ofLines (lines : List String) : (ofLines lines).Tidy := by
  suffices hfold : ∀ b : SecurityBlock, b.Tidy → (lines.foldl add b).Tidy from hfold {} ⟨.nil, .nil⟩
  induction lines with
  | nil => exact fun b hb => hb
  | cons line lines ih =>
    intro b hb
    rw [List.foldl_cons]
    exact ih _ (hb.add line)

theorem Tidy.scheme (h : b.Tidy) {k : SecurityKind} {word : String}
    (hs : k.scheme word name b = .ok s) : s.Tidy := by
  unfold SecurityKind.scheme at hs
  split at hs
  · cases hs
  · cases hs
    exact ⟨h.scopes, h.extensions⟩

end SecurityBlock

/-! ### The overview -/

/-- All parts of the document are tidy, and its tables are in order. -/
structure Document.Tidy (K : String → Prop) (d : Document) : Prop where
  info : FurtherMembers IsVendor d.info.extensions
  extensions : FurtherMembers IsVendor d.extensions
  sortedSchemes : d.securityDefinitions.Sorted
  schemes : ∀ e ∈ d.securityDefinitions, e.2.Tidy
  sortedPaths : d.paths.Sorted
  operations : Assembly.AllOperations (Operation.Tidy K) d.paths
  sortedDefinitions : d.definitions.Sorted
  definitions : ∀ e ∈ d.definitions, e.2.Tidy K

namespace Overview

variable {v v' : Overview} {assets : Assets} {previous word value : String}

theorem tidy_addExtension (h : v.document.Tidy K) (hname : IsVendor name) {value : Json}
    (hvalue : value.Distinct) : (v.addExtension name value).document.Tidy K := by
  unfold addExtension
  split
  · exact { h with info := h.info.insert hname hvalue }
  · exact { h with extensions := h.extensions.insert hname hvalue }

theorem tidy_changeTag (h : v.document.Tidy K) {f : ApiTag → Except DocError ApiTag}
    (hv : v.changeTag word f = .ok v') : v'.document.Tidy K := by
  unfold changeTag at hv
  split at hv
  · cases hv
  · split at hv
    · cases hv
    · cases hv
      exact { h with }

/-- **One annotation.** -/
theorem tidy_addDirective (h : v.document.Tidy K)
    (hv : addDirective assets previous word value v = .ok v') : v'.document.Tidy K := by
  unfold addDirective at hv
  dsimp only at hv
  split at hv
  case h_24 =>
    split at hv
    · split at hv
      · cases hv
      · next hword _ =>
        exact Except.ok.inj hv ▸ tidy_addExtension h (isVendor_trimStartOf hword)
          (Json.distinct_ofText value)
    · exact Except.ok.inj hv ▸ h
  case h_4 | h_14 | h_15 =>
    obtain ⟨_, -, rfl⟩ := map_eq_ok_iff.1 hv
    exact { h with }
  case h_17 | h_18 | h_19 | h_20 => exact tidy_changeTag h hv
  case h_23 =>
    split at hv
    · cases hv
      exact h
    · cases hv
  -- the other annotations change a text or a list of texts
  all_goals
    cases hv
    exact { h with }

theorem tidy_addScheme (h : v.document.Tidy K) {kind : String} {block : List String}
    (hv : addScheme kind name block v = .ok v') : v'.document.Tidy K := by
  unfold addScheme at hv
  split at hv
  · cases hv
  dsimp only at hv
  split at hv
  · cases hv
  obtain ⟨s, hs, rfl⟩ := map_eq_ok_iff.1 hv
  have htidy := (SecurityBlock.tidy_ofLines block).scheme hs
  exact { h with
    sortedSchemes := Table.sorted_insert h.sortedSchemes
    schemes := Table.forall_mem_insert htidy h.schemes }

/-- **A comment**: what was read up to the first error is tidy. -/
theorem tidy_addLinesFrom (h : v.document.Tidy K) (assets : Assets) (previous : String)
    (inBlock : Bool) (lines : List String) :
    (addLinesFrom assets previous inBlock v lines).1.document.Tidy K := by
  induction lines generalizing previous inBlock v with
  | nil => exact h
  | cons line lines ih =>
    rw [addLinesFrom]
    split
    · exact ih h previous inBlock
    dsimp only
    unfold andThen
    split
    · exact h
    · next v' hv =>
      refine ih ?_ _ _
      unfold addLine at hv
      split at hv
      · exact tidy_addScheme h hv
      · exact tidy_addDirective h hv

end Overview

/-! ### Documents as JSON -/

open Json (Fixed fixed_text fixed_str fixed_single fixed_optional fixed_unlessEmpty fixed_strs)

theorem Contact.distinct_toJson (c : Contact) : c.toJson.Distinct := by
  have hfixed := (fixed_text "name" c.name).plain (fixed_text "url" c.url)
    |>.plain (fixed_text "email" c.email)
  exact (hfixed.distinct_iff (by decide +kernel)).2 trivial

theorem License.distinct_toJson (l : License) : l.toJson.Distinct := by
  have hfixed := (fixed_str "name" l.name).plain (fixed_text "url" l.url)
  exact (hfixed.distinct_iff (by decide +kernel)).2 trivial

theorem ExternalDocs.distinct_toJson (d : ExternalDocs) : d.toJson.Distinct := by
  have hfixed := (fixed_text "description" d.description).plain (fixed_str "url" d.url)
  exact (hfixed.distinct_iff (by decide +kernel)).2 trivial

theorem fixed_docs (d : Option ExternalDocs) :
    Fixed ["externalDocs"] True (Json.optional "externalDocs" ExternalDocs.toJson d) :=
  fixed_optional "externalDocs" (iff_true_intro fun docs _ => docs.distinct_toJson)

theorem ApiTag.distinct_toJson (t : ApiTag) : t.toJson.Distinct := by
  have hfixed := (fixed_str "name" t.name).plain (fixed_text "description" t.description)
    |>.plain (fixed_docs t.externalDocs)
  exact (hfixed.distinct_iff (by decide +kernel)).2 trivial

theorem Info.distinct_toJson {i : Info} (h : FurtherMembers IsVendor i.extensions) :
    i.toJson.Distinct := by
  have hcontact := fixed_optional "contact" (x := i.contact)
    (iff_true_intro fun c _ => c.distinct_toJson)
  have hlicense := fixed_optional "license" (x := i.license)
    (iff_true_intro fun l _ => l.distinct_toJson)
  have hfixed := (fixed_text "description" i.description).plain (fixed_str "title" i.title)
    |>.plain (fixed_text "termsOfService" i.termsOfService) |>.plain hcontact |>.plain hlicense
    |>.plain (fixed_str "version" i.version)
  exact (hfixed.distinct_vendor_iff (by decide +kernel) (by decide +kernel) h).2 trivial

theorem SecurityScheme.Tidy.distinct_toJson (h : s.Tidy) : s.toJson.Distinct := by
  have hscopes : (Json.obj (Table.mapValues .str s.scopes)).Distinct :=
    (Json.distinct_mapValues_iff h.scopes).2 fun _ _ => trivial
  have hfixed := (fixed_str "type" s.type).plain (fixed_text "description" s.description)
    |>.plain (fixed_text "name" s.name) |>.plain (fixed_text "in" s.place)
    |>.plain (fixed_text "flow" s.flow) |>.plain (fixed_text "authorizationUrl" s.authorizationUrl)
    |>.plain (fixed_text "tokenUrl" s.tokenUrl)
    |>.plain (fixed_unlessEmpty "scopes" (f := fun ss => .obj (Table.mapValues .str ss))
      (iff_true_intro hscopes) (by decide))
  exact (hfixed.distinct_vendor_iff (by decide +kernel) (by decide +kernel) h.extensions).2 trivial

namespace PathItem

variable {item : PathItem}

theorem forall_mem_operations :
    (∀ o ∈ item.operations, P o) ↔ ∀ m o, item.operation? m = some o → P o := by
  constructor
  · intro h m o ho
    refine h o (List.mem_filterMap.2 ⟨m, ?_, ho⟩)
    cases m <;> decide
  · intro h o ho
    obtain ⟨m, -, ho⟩ := List.mem_filterMap.1 ho
    exact h m o ho

theorem distinct_toJson_iff : item.toJson.Distinct ↔ ∀ o ∈ item.operations, o.toJson.Distinct := by
  have hfixed := (fixed_optional "get" (x := item.get) (f := Operation.toJson) Iff.rfl)
    |>.append (fixed_optional "put" (x := item.put) (f := Operation.toJson) Iff.rfl)
    |>.append (fixed_optional "post" (x := item.post) (f := Operation.toJson) Iff.rfl)
    |>.append (fixed_optional "delete" (x := item.delete) (f := Operation.toJson) Iff.rfl)
    |>.append (fixed_optional "options" (x := item.options) (f := Operation.toJson) Iff.rfl)
    |>.append (fixed_optional "head" (x := item.head) (f := Operation.toJson) Iff.rfl)
    |>.append (fixed_optional "patch" (x := item.patch) (f := Operation.toJson) Iff.rfl)
  refine (hfixed.distinct_iff (by decide +kernel)).trans ?_
  rw [forall_mem_operations]
  constructor
  · rintro ⟨⟨⟨⟨⟨⟨hget, hput⟩, hpost⟩, hdelete⟩, hoptions⟩, hhead⟩, hpatch⟩ m
    cases m with
    | get => exact hget
    | put => exact hput
    | post => exact hpost
    | delete => exact hdelete
    | options => exact hoptions
    | head => exact hhead
    | patch => exact hpatch
  · exact fun h => ⟨⟨⟨⟨⟨⟨h .get, h .put⟩, h .post⟩, h .delete⟩, h .options⟩, h .head⟩, h .patch⟩

end PathItem

namespace Document

variable {d : Document}

/-- The operations of all paths. -/
def operations (d : Document) : List Operation := d.paths.values.flatMap PathItem.operations

/-- The parameters of all operations. -/
def parameters (d : Document) : List Parameter := d.operations.flatMap Operation.parameters

theorem forall_mem_operations :
    (∀ o ∈ d.operations, P o) ↔ ∀ e ∈ d.paths, ∀ o ∈ e.2.operations, P o := by
  rw [operations, List.forall_mem_flatMap, Table.values, List.forall_mem_map]

theorem forall_mem_nodes {P : Place × Schema → Prop} :
    (∀ n ∈ d.nodes, P n) ↔ (∀ o ∈ d.operations, ∀ n ∈ o.nodes, P n) ∧
      ∀ e ∈ d.definitions, ∀ n ∈ e.2.nodes .definition, P n := by
  rw [nodes, List.forall_mem_append, List.forall_mem_flatMap, List.forall_mem_flatMap,
    forall_mem_operations, Table.values, Table.values, List.forall_mem_map, List.forall_mem_map]
  simp only [List.forall_mem_flatMap]

theorem Tidy.operation (h : d.Tidy K) : ∀ o ∈ d.operations, o.Tidy K :=
  forall_mem_operations.2 fun e he => PathItem.forall_mem_operations.2 (h.operations e he)

theorem Tidy.parameter (h : d.Tidy K) : ∀ q ∈ d.parameters, q.Tidy K :=
  List.forall_mem_flatMap.2 fun o ho => (h.operation o ho).parameters

/-- Every schema of a tidy document is tidy. -/
theorem Tidy.nodes (h : d.Tidy K) : ∀ n ∈ d.nodes, n.2.Tidy K :=
  forall_mem_nodes.2 ⟨fun o ho => (h.operation o ho).nodes,
    fun e he => (h.definitions e he).nodes .definition⟩

/-- **A tidy document as JSON** names a member twice exactly if a parameter or a schema in it has a
further member with the name of one that is written. -/
theorem Tidy.distinct_toJson_iff (h : d.Tidy K) :
    d.toJson.Distinct ↔ (∀ q ∈ d.parameters, q.Clear) ∧ ∀ n ∈ d.nodes, n.2.Clear := by
  have hpaths : (Json.obj (d.paths.mapValues PathItem.toJson)).Distinct ↔
      ∀ o ∈ d.operations, (∀ q ∈ o.parameters, q.Clear) ∧ ∀ n ∈ o.nodes, n.2.Clear := by
    rw [Json.distinct_mapValues_iff h.sortedPaths]
    rw [← forall₂_congr fun o ho => (h.operation o ho).distinct_toJson_iff, forall_mem_operations]
    exact forall₂_congr fun e _ => PathItem.distinct_toJson_iff
  have hdefinitions : (Json.obj (Table.mapValues Schema.toJson d.definitions)).Distinct ↔
      ∀ e ∈ d.definitions, ∀ n ∈ e.2.nodes .definition, n.2.Clear := by
    rw [Json.distinct_mapValues_iff h.sortedDefinitions]
    exact forall₂_congr fun e he => (h.definitions e he).distinct_toJson_iff .definition
  have hschemes :
      (Json.obj (Table.mapValues SecurityScheme.toJson d.securityDefinitions)).Distinct :=
    (Json.distinct_mapValues_iff h.sortedSchemes).2 fun e he => (h.schemes e he).distinct_toJson
  have htags : (Json.arr (d.tags.map ApiTag.toJson)).Distinct :=
    Json.distinct_arr_map_iff.2 fun t _ => t.distinct_toJson
  have hinfo := (fixed_str "swagger" "2.0").plain
    (fixed_single "info" (iff_true_intro (Info.distinct_toJson h.info)))
  have htexts := (fixed_strs "schemes" d.schemes).plain (fixed_strs "consumes" d.consumes)
    |>.plain (fixed_strs "produces" d.produces) |>.plain hinfo |>.plain (fixed_text "host" d.host)
    |>.plain (fixed_text "basePath" d.basePath)
  have hfixed := htexts.append (fixed_single "paths" hpaths)
    |>.append (fixed_unlessEmpty "definitions"
      (f := fun ds => .obj (Table.mapValues Schema.toJson ds)) hdefinitions (by decide))
    |>.plain (fixed_unlessEmpty "securityDefinitions"
      (f := fun ss => .obj (Table.mapValues SecurityScheme.toJson ss)) (iff_true_intro hschemes)
      (by decide))
    |>.plain (fixed_unlessEmpty "tags" (f := fun ts => .arr (ts.map ApiTag.toJson))
      (iff_true_intro htags) trivial)
    |>.plain (fixed_docs d.externalDocs)
  have hobject := hfixed.distinct_vendor_iff (by decide +kernel) (by decide +kernel) h.extensions
  rw [true_and, forall₂_and, and_assoc] at hobject
  rw [forall_mem_nodes, parameters, List.forall_mem_flatMap]
  exact hobject

/-- No member is named twice if no keyword may be the name of a further member. -/
theorem Tidy.distinct_toJson (h : d.Tidy K)
    (hK : ∀ key, K key → key ∉ Schema.keywords ∧ key ∉ Parameter.keywords) : d.toJson.Distinct := by
  refine h.distinct_toJson_iff.2 ⟨fun q hq => ?_, fun n hn => ?_⟩
  · exact (h.parameter q hq).clear fun key hkey => (hK key hkey).2
  · exact (h.nodes n hn).clear fun key hkey => (hK key hkey).1

end Document

theorem ConstValue.distinct_toJson? {v : ConstValue} {json : Json} (h : v.toJson? = some json) :
    json.Distinct := by
  unfold toJson? at h
  split at h
  · split at h
    · exact Option.some.inj h ▸ trivial
    · cases h
  · split at h
    · exact Option.some.inj h ▸ trivial
    · cases h
  · exact Option.some.inj h ▸ trivial
  · exact Option.some.inj h ▸ trivial

/-! ### What a project lists -/

namespace Project

variable {p : Project}

/-- The types that a project writes: in declarations, in replacements, in annotations, and as
arguments inside names. -/
inductive Writes (p : Project) : Go.TypeExpr → Prop
  | declared {main : FileId} {r : Registry} {d : TypeDecl} (hr : p.registry = .ok (main, r))
      (hd : d ∈ r.parseTypes.types) : Writes p d.type
  | replacement {e : String × String} {t : Go.TypeExpr} (he : e ∈ p.settings.overrides)
      (ht : Go.typeOfText (Text.trim e.2) = .ok t) : Writes p t
  | annotated {main : FileId} {r : Registry} {c : OperationComment} {line text : String}
      {t : Go.TypeExpr} (hr : p.registry = .ok (main, r)) (hc : c ∈ operationComments r.parseTypes)
      (hline : line ∈ c.lines) (htext : text ∈ typesOfLine line)
      (ht : Go.typeOfText (Text.trim text) = .ok t) : Writes p t
  | argument {t a : Go.TypeExpr} {name args : String} (ht : Writes p t)
      (hname : .name name ∈ t.ingredients) (hargs : (splitTypeArgs (Text.trim name)).2 = some args)
      (ha : a ∈ Registry.argsOfText args) : Writes p a

/-- The tag of a field lists the member. -/
def ListsInTag (p : Project) (key : String) : Prop :=
  ∃ t tag, p.Writes t ∧ .tag tag ∈ t.ingredients ∧
    key ∈ (Field.extensionsOf (Tag.get tag "extensions")).keys

/-- The attributes of a parameter list the member. -/
def ListsInAttributes (p : Project) (key : String) : Prop :=
  ∃ main r, p.registry = .ok (main, r) ∧ ∃ c ∈ operationComments r.parseTypes,
    ∃ line ∈ c.lines, key ∈ membersOfLine line

/-- The member is listed in a tag or in attributes. -/
def Lists (p : Project) (key : String) : Prop := p.ListsInTag key ∨ p.ListsInAttributes key

/-- The names of further members that schemas and parameters may have. -/
def AdmitsName (p : Project) (key : String) : Prop := IsVendor key ∨ p.Lists key

/-- What types are made of in the project: names and tags in types that it writes, and constants. -/
def Holds (p : Project) : Ingredient → Prop
  | .value v => v.Distinct
  | i => ∃ t, p.Writes t ∧ i ∈ t.ingredients

theorem Writes.holds {t : Go.TypeExpr} (h : p.Writes t) : ∀ i ∈ t.ingredients, p.Holds i := by
  intro i hi
  cases i with
  | name text | tag text => exact ⟨t, h, hi⟩
  | value v => exact absurd hi (t.value_notMem_ingredients v)

theorem tidyIngredients (p : Project) : TidyIngredients p.AdmitsName p.Holds where
  closed := by
    rintro name args ⟨t, ht, hname⟩ hargs a ha
    exact (Writes.argument ht hname hargs ha).holds
  vendor := fun _ => .inl
  tag := by
    rintro tag ⟨t, ht, htag⟩ key hkey
    exact .inr (.inl ⟨t, tag, ht, htag, hkey⟩)
  value := fun _ hv => hv

theorem distinct_enums {d : TypeDecl} (hd : d ∈ r.parseTypes.types) :
    ∀ m ∈ d.enums, m.value.Distinct := by
  obtain ⟨id, hid⟩ := Array.getElem?_of_mem hd
  rw [Registry.enums_parseTypes hid]
  intro m hm
  obtain ⟨c, -, hm⟩ := List.mem_filterMap.1 hm
  unfold Registry.enumMember? at hm
  split at hm
  · cases hm
  split at hm
  · split at hm
    · obtain ⟨v, hv, rfl⟩ := Option.map_eq_some_iff.1 hm
      exact ConstValue.distinct_toJson? hv
    · cases hm
  · cases hm

theorem governs_start (hr : p.registry = .ok (main, r)) :
    (tidyLaw p.tidyIngredients).Governs (p.start r).resolver ∧
      ∀ c ∈ operationComments r.parseTypes, ∀ line ∈ c.lines,
        (tidyAnnotations p.tidyIngredients).AdmitsLine line := by
  refine ⟨⟨⟨.nil, List.forall_mem_nil _⟩, fun d hd i hi => ?_, fun e he t ht => ?_⟩,
    fun c hc line hline => ⟨fun text htext t ht => ?_, fun key hkey => ?_⟩⟩
  · -- a declared type is made of its right-hand side and its constants
    rcases List.mem_append.1 hi with hi | hi
    · exact (Writes.declared hr hd).holds i hi
    · obtain ⟨m, hm, rfl⟩ := List.mem_map.1 hi
      exact distinct_enums hd m hm
  · exact (Writes.replacement he ht).holds
  · exact (Writes.annotated hr hc hline htext ht).holds
  · exact .inr (.inr ⟨main, r, hr, c, hc, line, hline, hkey⟩)

theorem tidy_overview {v : Overview} (h : p.overview r main = .ok v) : v.document.Tidy K := by
  have hempty : Document.Tidy K {} :=
    ⟨.nil, .nil, .nil, List.forall_mem_nil _, .nil, List.forall_mem_nil _,
      List.Pairwise.nil, List.forall_mem_nil _⟩
  refine foldlM_invariant (I := fun v : Overview => v.document.Tidy K) (fun v g v' hv h => ?_)
    hempty h
  unfold Project.addComment at h
  split at h
  · have hlines := Overview.tidy_addLinesFrom hv p.assets "" false g.lines
    split at h
    · next v' heq =>
      cases h
      rw [Overview.addLines] at heq
      rwa [heq] at hlines
    · cases h
  · exact Except.ok.inj h ▸ hv

end Project

theorem Assembly.sorted_addComment {assets : Assets} {settings : Settings} {format : String}
    {a a' : Assembly} {c : OperationComment} (ha : a.paths.Sorted)
    (h : Assembly.addComment assets settings format a c = .ok a') : a'.paths.Sorted := by
  rcases addComment_eq_ok_iff.1 h with ⟨-, rfl⟩ | ⟨-, e, g, -, hadd⟩
  · exact ha
  rcases addEndpoint_eq_ok_iff.1 hadd with ⟨-, rfl⟩ | ⟨-, ids, paths, -, hpaths, rfl⟩
  · exact ha
  · refine foldlM_invariant (I := Table.Sorted) (fun paths route paths' hsorted h => ?_) ha hpaths
    obtain ⟨-, rfl⟩ := bindRoute_eq_ok_iff.1 h
    exact Table.sorted_insert hsorted

namespace Project

variable {p : Project} {doc : Document}

/-- **A document is tidy**: the names of the further members of its schemas and parameters begin
with `x-` or are listed. -/
theorem tidy_build (h : p.build = .ok doc) : doc.Tidy p.AdmitsName := by
  obtain ⟨v, a, hasm, rfl⟩ := build_eq_ok_iff.1 h
  have hgoverns : (tidyAnnotations p.tidyIngredients).GovernsAssembly a :=
    AnnotationLaw.governs_assemble hasm fun main r hr => governs_start hr
  obtain ⟨hresolver, hbound⟩ := hgoverns
  obtain ⟨main, r, -, hv, hfold⟩ := assemble_eq_ok_iff.1 hasm
  have hsorted : a.paths.Sorted := by
    refine foldlM_invariant (I := fun a : Assembly => a.paths.Sorted)
      (fun _ _ _ ha h => Assembly.sorted_addComment ha h) ?_ hfold
    exact .nil
  -- the paths and the definitions are put into the document of the overview, which has none
  have hoverview : v.document.Tidy p.AdmitsName := tidy_overview hv
  exact { hoverview with
    sortedPaths := hsorted
    operations := hbound
    sortedDefinitions := (SourceLaw.Governs.definitions hresolver).1
    definitions := (SourceLaw.Governs.definitions hresolver).2 }

/-- **The further members of a document.**  Those of the document, of its description, of its
operations and of its security schemes have names that begin with `x-`.  Those of its parameters and
schemas too, but for the names that are listed in tags of fields and in attributes of parameters.
As JSON the document names a member twice exactly if a parameter or a schema has a further member
with the name of one that is written, so it does not if no keyword is listed. -/
theorem extensions_vendor_unless_listed (p : Project) (doc : Document) (h : p.build = .ok doc) :
    (∀ key ∈ doc.extensions.keys, IsVendor key) ∧
    (∀ key ∈ doc.info.extensions.keys, IsVendor key) ∧
    (∀ o ∈ doc.operations, ∀ key ∈ o.extensions.keys, IsVendor key) ∧
    (∀ s ∈ doc.securityDefinitions.values, ∀ key ∈ s.extensions.keys, IsVendor key) ∧
    (∀ q ∈ doc.parameters, ∀ key ∈ q.extensions.keys, IsVendor key ∨ p.Lists key) ∧
    (∀ n ∈ doc.nodes, ∀ key ∈ n.2.extensions.keys, IsVendor key ∨ p.Lists key) ∧
    (doc.toJson.Distinct ↔ (∀ q ∈ doc.parameters, q.Clear) ∧ ∀ n ∈ doc.nodes, n.2.Clear) ∧
    ((∀ key, p.Lists key → key ∉ Schema.keywords ∧ key ∉ Parameter.keywords) →
      doc.toJson.Distinct) := by
  have htidy := tidy_build h
  refine ⟨htidy.extensions.keys, htidy.info.keys,
    fun o ho => (htidy.operation o ho).extensions.keys, fun s hs => ?_,
    fun q hq => (htidy.parameter q hq).extensions.keys,
    fun n hn => (htidy.nodes n hn).facts.extensions.keys, htidy.distinct_toJson_iff,
    fun hlisted => htidy.distinct_toJson ?_⟩
  · obtain ⟨e, he, rfl⟩ := List.mem_map.1 hs
    exact (htidy.schemes e he).extensions.keys
  · have hkeyword : ∀ key ∈ Schema.keywords ++ Parameter.keywords, ¬ IsVendor key := by
      decide +kernel
    rintro key (hvendor | hkey)
    · exact ⟨fun hmem => hkeyword key (List.mem_append_left _ hmem) hvendor,
        fun hmem => hkeyword key (List.mem_append_right _ hmem) hvendor⟩
    · exact hlisted key hkey

/-- A struct whose field lists a member with the name of a keyword. -/
def relabelledPet : Project :=
  ofSource "package m\ntype Pet struct \x7bName string `json:\"name\" extensions:\"type=oops\"`\x7d
// @Success 200 \x7bobject\x7d Pet\n// @Router /pet [get]\nfunc Get() \x7b\x7d"

set_option maxRecDepth 100000 in
/-- The listed member stands beside the keyword, so the schema of the property names it twice. -/
theorem extensions_vendor_unless_listed_keyword : ∃ doc, relabelledPet.build = .ok doc ∧
    (∃ n ∈ doc.nodes, "type" ∈ n.2.extensions.keys) ∧ ¬ IsVendor "type" ∧
      relabelledPet.Lists "type" ∧ ¬ doc.toJson.Distinct := by
  have hrun : relabelledPet.assemble.toOption.map (fun va =>
      (va.2.resolver.definitions.values.flatMap (Schema.nodes .definition)).any fun n =>
        n.2.extensions.keys.contains "type" && (Table.keys n.2.keywordMembers).contains "type") =
          some true := by
    decide +kernel
  have hvendor : ¬ IsVendor "type" := by decide
  cases hasm : relabelledPet.assemble with
  | error e =>
    rw [hasm] at hrun
    cases hrun
  | ok va =>
    obtain ⟨v, a⟩ := va
    rw [hasm] at hrun
    obtain ⟨n, hn, hboth⟩ := List.any_eq_true.1 (Option.some.inj hrun)
    obtain ⟨hkey, hkeyword⟩ := Bool.and_eq_true_iff.1 hboth
    have hbuild := build_eq_ok_iff.2 ⟨v, a, hasm, rfl⟩
    have hnode : n ∈ Document.nodes
        { v.document with paths := a.paths, definitions := a.resolver.definitions } :=
      List.mem_append_right _ hn
    have hmem := List.contains_iff_mem.1 hkey
    obtain ⟨-, -, -, -, -, hnodes, hdistinct, -⟩ := extensions_vendor_unless_listed _ _ hbuild
    refine ⟨_, hbuild, ⟨n, hnode, hmem⟩, hvendor, ?_, fun hclear => ?_⟩
    · exact (hnodes n hnode "type" hmem).resolve_left hvendor
    · exact (hdistinct.1 hclear).2 n hnode "type" hmem (List.contains_iff_mem.1 hkeyword)

end Project

end GoApiDoc
