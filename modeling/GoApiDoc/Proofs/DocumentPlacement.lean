/-
References in documents.

The schemas of operations are those of resolved types with the attributes of parameters added to
them.  So every schema of a document is well placed, and what stands beside a reference is known
from its place.

* `annotationPlacement` — **annotations keep all schemas well placed**;
* `Project.references_alone_but_by_place` — **what stands beside the references of a document**.
-/

import GoApiDoc.Proofs.Assembly
import GoApiDoc.Proofs.Placement

set_option autoImplicit false

namespace GoApiDoc

variable {p : Parameter} {s : Schema} {format place : String}

/-! ### Operations -/

namespace ParamAttributes

variable {s : Schema}

theorem wellPlaced_restrict (h : s.WellPlaced .inner) (enums : List Json) :
    (restrict enums s).WellPlaced .bodyItems := by
  unfold restrict
  split
  · exact h.anywhere _
  · refine (h.anywhere .bodyItems).withFacts _ fun hr => ?_
    obtain ⟨name, rfl⟩ := Place.admits_inner_iff.1 (h.root hr)
    exact ⟨⟨name, rfl⟩, fun _ he => nomatch he⟩

/-- **A body**: its attributes go to the schema and to its items. -/
theorem wellPlaced_onSchema (a : ParamAttributes) (h : s.WellPlaced .inner) :
    (a.onSchema s).WellPlaced .body := by
  obtain ⟨hroot, hitems, hrest⟩ := Schema.wellPlaced_iff.1 h
  refine Schema.wellPlaced_iff.2 ⟨fun hr => ?_, fun t ht => ?_, hrest⟩
  · obtain ⟨name, rfl⟩ := Place.admits_inner_iff.1 (hroot hr)
    exact ⟨⟨name, rfl⟩, fun _ _ => rfl⟩
  · obtain ⟨t', ht', rfl⟩ := Option.map_eq_some_iff.1 ht
    exact wellPlaced_restrict (hitems t' ht') _

end ParamAttributes

/-- The schema of the parameter is well placed, and its items are well placed and no reference. -/
structure Parameter.WellPlaced (p : Parameter) : Prop where
  schema : ∀ s, p.schema = some s → s.WellPlaced .body
  items : ∀ s, p.items = some s → s.reference = none ∧ s.WellPlaced .inner

/-- The parameters and the responses are well placed. -/
structure Operation.WellPlaced (o : Operation) : Prop where
  parameters : ∀ p ∈ o.parameters, p.WellPlaced
  responses : ∀ e ∈ o.responses, ∀ s, e.2.schema = some s → s.WellPlaced .inner

/-- The parameter before its attributes are added. -/
structure Parameter.Fresh (p : Parameter) : Prop where
  schema : ∀ s, p.schema = some s → s.WellPlaced .inner
  items : ∀ s, p.items = some s → s.reference = none ∧ s.WellPlaced .inner

theorem Parameter.Fresh.of_plain (hs : p.schema = none) (hi : p.items = none) : p.Fresh :=
  ⟨(fun _ h => by cases hs.symm.trans h), fun _ h => by cases hi.symm.trans h⟩

theorem Parameter.Fresh.withItems (h : p.Fresh) (type : String)
    {format : Option String} : Parameter.Fresh { p with
      type := some "array", collectionFormat := format, items := some (Schema.ofType type) } :=
  ⟨h.schema, fun _ ht => Option.some.inj ht ▸ ⟨rfl, Schema.wellPlaced_ofType type⟩⟩

theorem Parameter.Fresh.wellPlaced (h : p.Fresh) : p.WellPlaced :=
  ⟨fun s hs => (h.schema s hs).anywhere _, h.items⟩

theorem Parameter.Fresh.onSchema (h : p.Fresh) (hs : p.schema = some s) (a : ParamAttributes) :
    Parameter.WellPlaced { p with schema := some (a.onSchema s) } :=
  ⟨(fun _ ht => Option.some.inj ht ▸ a.wellPlaced_onSchema (h.schema s hs)), h.items⟩

theorem Parameter.Fresh.onParameter (h : p.Fresh) (a : ParamAttributes) :
    (a.onParameter p).WellPlaced := by
  refine ⟨h.wellPlaced.schema, fun t ht => ?_⟩
  obtain ⟨t', ht', rfl⟩ := Option.map_eq_some_iff.1 ht
  obtain ⟨hr, hplaced⟩ := h.items t' ht'
  unfold ParamAttributes.restrict
  split
  · exact ⟨hr, hplaced⟩
  · refine ⟨hr, hplaced.withFacts _ fun hr' => ?_⟩
    rw [hr] at hr'
    cases hr'

/-! ### Parameters for the properties of a struct -/

namespace Schema

/-- The schema is well placed where the items are not special. -/
def PlainlyPlaced (s : Schema) : Prop := ∃ π : Place, π.items = .inner ∧ s.WellPlaced π

theorem PlainlyPlaced.of_simple (h : s.PlainlyPlaced) (hs : isSimpleType (s.type.getD "") = true) :
    s.reference = none ∧ s.WellPlaced .inner := by
  obtain ⟨π, hπ, hplaced⟩ := h
  have hr : ¬s.reference.isSome = true := by
    intro hr
    rw [(hplaced.root hr).type] at hs
    exact absurd hs (by decide)
  obtain ⟨-, hitems, hrest⟩ := wellPlaced_iff.1 hplaced
  rw [hπ] at hitems
  exact ⟨by simpa using hr, wellPlaced_iff.2 ⟨fun hr' => absurd hr' hr, hitems, hrest⟩⟩

end Schema

namespace Annotating

section Parameters

variable {g : Resolver} (hg : ∀ e ∈ g.definitions, e.2.WellPlaced .definition) {π : Place}

include hg

theorem placed_dereference (hs : s.WellPlaced π) : ∃ π', (g.dereference s).WellPlaced π' :=
  forall_dereference (P := fun s => ∃ π, s.WellPlaced π) (fun e he => ⟨_, hg e he⟩) ⟨π, hs⟩

theorem placed_flattened (hs : s.WellPlaced π) : ∃ π', (flattened g s).WellPlaced π' :=
  forall_flattened (P := fun s => ∃ π, s.WellPlaced π) (fun e he => ⟨_, hg e he⟩) ⟨π, hs⟩
    fun _ ht => ⟨_, hs.allOf ht⟩

theorem wellPlaced_structParameters (hs : s.WellPlaced π) :
    ∀ p ∈ structParameters g format place s, p.WellPlaced := by
  refine forall_structParameters (P := (·.WellPlaced .property)) (fun e he => hs.property he)
    (fun t ht e he => ?_) fun t p ht hp => ?_
  · obtain ⟨π', hpart⟩ := placed_dereference hg (hs.allOf ht)
    exact hpart.property he
  · obtain ⟨π', hflat⟩ := placed_flattened hg ht
    refine ⟨by simp [hp.schema], fun u hu => ?_⟩
    obtain ⟨hsimple, items, hitems, rfl⟩ := hp.items u hu
    refine Schema.PlainlyPlaced.of_simple ?_ hsimple
    exact forall_dereference (fun e he => ⟨.definition, rfl, hg e he⟩)
      ⟨π'.items, by cases π' <;> rfl, hflat.items hitems⟩

end Parameters

end Annotating

/-! ### Annotations -/

namespace Operation.WellPlaced

variable {o : Operation}

/-- A change that leaves the parameters and the schemas of the responses. -/
theorem withResponses (h : o.WellPlaced) {responses : Table Response}
    (hr : ∀ x ∈ responses, ∃ x' ∈ o.responses, x.2.schema = x'.2.schema) :
    Operation.WellPlaced { o with responses := responses } := by
  refine ⟨h.parameters, fun x hx s hs => ?_⟩
  obtain ⟨x', hx', hschema⟩ := hr x hx
  exact h.responses x' hx' s (hschema ▸ hs)

theorem addParameter (h : o.WellPlaced) (hp : p.WellPlaced) :
    Operation.WellPlaced { o with parameters := o.parameters ++ [p] } :=
  ⟨List.forall_mem_append.2 ⟨h.parameters, List.forall_mem_singleton.2 hp⟩, h.responses⟩

theorem addResponse (h : o.WellPlaced) {key : String} {r : Response}
    (hr : ∀ s, r.schema = some s → s.WellPlaced .inner) :
    Operation.WellPlaced { o with responses := o.responses.insert key r } :=
  ⟨h.parameters, Table.forall_mem_insert hr h.responses⟩

theorem addHeader (h : o.WellPlaced) (name : String) (header : Header) :
    Operation.WellPlaced { o with responses := o.responses.mapValues fun r =>
      { r with headers := r.headers.insert name header } } := by
  refine h.withResponses fun x hx => ?_
  obtain ⟨x', hx', rfl⟩ := List.mem_map.1 hx
  exact ⟨x', hx', rfl⟩

theorem addHeaderTo (h : o.WellPlaced) (key name : String) (header : Header) :
    (Annotating.addHeaderTo key name header o).WellPlaced := by
  unfold Annotating.addHeaderTo
  split
  · next r hget =>
    exact h.withResponses (Table.forall_mem_insert ⟨_, Table.mem_of_get? hget, rfl⟩
      fun x hx => ⟨x, hx, rfl⟩)
  · exact h

end Operation.WellPlaced

/-- **Annotations keep all schemas well placed**, whatever they look up and list. -/
def annotationPlacement : AnnotationLaw where
  source := placementLaw.discipline
  composes := placementLaw.composes_discipline
  AdmitsText := placementLaw.AdmitsText
  AdmitsMember := fun _ => True
  AdmitsAttributes := fun _ => True
  AdmitsBare := fun _ => Parameter.Fresh
  AdmitsParameter := fun _ => Parameter.WellPlaced
  AdmitsOperation := fun _ => Operation.WellPlaced
  reads := SourceLaw.AdmitsText.reads
  attributes := fun _ _ => trivial
  bare := fun hp => .of_plain hp.schema hp.items
  array := fun hp _ type => (Parameter.Fresh.of_plain hp.schema hp.items).withItems type
  named := fun hp _ _ => .of_plain hp.schema hp.items
  body := fun hp hs => ⟨(fun _ ht => Option.some.inj ht ▸ hs),
    (Parameter.Fresh.of_plain hp.schema hp.items).items⟩
  onSchema := fun hp hs _ => hp.onSchema hs _
  onParameter := fun hp _ _ => hp.onParameter _
  struct := fun {g s} hg hs format place => by
    have hdefinitions : placementLaw.AdmitsDefinitions g.definitions :=
      SourceLaw.Governs.definitions hg
    obtain ⟨π, hflat⟩ := Annotating.placed_flattened hdefinitions hs
    exact Annotating.wellPlaced_structParameters hdefinitions hflat
  empty := ⟨List.forall_mem_nil _, List.forall_mem_nil _⟩
  parameter := fun ho hp => ho.addParameter hp
  response := fun ho hs _ _ => ho.addResponse hs
  header := Operation.WellPlaced.addHeader
  headerTo := Operation.WellPlaced.addHeaderTo
  member := fun ho _ _ => ⟨ho.parameters, ho.responses⟩
  security := fun ho _ => ⟨ho.parameters, ho.responses⟩
  other := fun ho hp hr _ _ => ⟨hp ▸ ho.parameters, hr ▸ ho.responses⟩

theorem annotationPlacement_admitsLine (line : String) : annotationPlacement.AdmitsLine line :=
  ⟨fun _ _ _ _ _ _ => trivial, fun _ _ => trivial⟩

/-! ### Documents -/

/-- The schemas in a parameter, with their places. -/
def Parameter.nodes (p : Parameter) : List (Place × Schema) :=
  Schema.optionNodes .body p.schema ++ Schema.optionNodes .inner p.items

/-- The schemas in an operation, with their places. -/
def Operation.nodes (o : Operation) : List (Place × Schema) :=
  o.parameters.flatMap Parameter.nodes ++
    o.responses.values.flatMap fun r => Schema.optionNodes .inner r.schema

/-- The schemas in a document, with their places: in its operations and in its definitions. -/
def Document.nodes (d : Document) : List (Place × Schema) :=
  d.paths.values.flatMap (fun item => item.operations.flatMap Operation.nodes) ++
    d.definitions.values.flatMap (Schema.nodes .definition)

theorem Operation.WellPlaced.admits {o : Operation} (h : o.WellPlaced) :
    ∀ n ∈ o.nodes, n.2.reference.isSome → n.1.Admits n.2 := by
  intro n hn
  simp only [Operation.nodes, Parameter.nodes, Table.values, List.mem_append, List.mem_flatMap,
    List.mem_map, Schema.mem_optionNodes] at hn
  rcases hn with ⟨p, hp, ⟨s, hs, hn⟩ | ⟨s, hs, hn⟩⟩ | ⟨_, ⟨e, he, rfl⟩, s, hs, hn⟩
  · exact (h.parameters p hp).schema s hs n hn
  · exact ((h.parameters p hp).items s hs).2 n hn
  · exact h.responses e he s hs n hn

namespace Assembly

/-- All definitions and all operations are well placed. -/
structure Placed (a : Assembly) : Prop where
  resolver : ∀ e ∈ a.resolver.definitions, e.2.WellPlaced .definition
  bound : AllOperations Operation.WellPlaced a.paths

/-- **One comment** keeps all schemas well placed. -/
theorem Placed.addComment {assets : Assets} {settings : Settings} {a a' : Assembly} (ha : a.Placed)
    {c : OperationComment} (h : Assembly.addComment assets settings format a c = .ok a') :
    a'.Placed := by
  have hgoverns : annotationPlacement.GovernsAssembly a :=
    ⟨placementLaw_governs_iff.2 ha.resolver, ha.bound⟩
  obtain ⟨-, hresolver, hbound⟩ :=
    hgoverns.addComment (fun line _ => annotationPlacement_admitsLine line) h
  exact ⟨placementLaw_governs_iff.1 hresolver, hbound⟩

end Assembly

namespace Project

/-- **What stands beside a reference.**  In a document every schema that is a reference has nothing
beside it but what its place admits: the mark of a read-only property, the constraints of a field on
the items of its array, the constants of a type in its definition, and the attributes of a body in
its schema and its items.  At all other places it stands alone. -/
theorem references_alone_but_by_place (p : Project) (doc : Document) (h : p.build = .ok doc) :
    ∀ n ∈ doc.nodes, n.2.reference.isSome →
      n.1.Admits n.2 ∧ (n.1 = .inner → ∃ name, n.2 = Schema.ref name) := by
  obtain ⟨v, a, hasm, rfl⟩ := build_eq_ok_iff.1 h
  obtain ⟨main, r, -, -, hfold⟩ := assemble_eq_ok_iff.1 hasm
  have hplaced : a.Placed := by
    refine foldlM_invariant (fun _ _ _ ha h => Assembly.Placed.addComment ha h) ⟨?_, ?_⟩ hfold
    · exact fun e he => nomatch he
    · exact fun e he => nomatch he
  intro n hn hr
  have hadmits : n.1.Admits n.2 := by
    simp only [Document.nodes, Table.values, PathItem.operations, List.mem_append,
      List.mem_flatMap, List.mem_map, List.mem_filterMap] at hn
    rcases hn with ⟨item, ⟨e, he, rfl⟩, o, ⟨m, -, ho⟩, hno⟩ | ⟨s, ⟨e, he, rfl⟩, hns⟩
    · exact (hplaced.bound e he m o ho).admits n hno hr
    · exact hplaced.resolver e he n hns hr
  refine ⟨hadmits, fun hinner => ?_⟩
  rw [hinner] at hadmits
  exact Place.admits_inner_iff.1 hadmits

/-- A struct that embeds another one as a read-only part, with a property that is a reference. -/
def auditedDocument : Project :=
  ofSource "package m\ntype Owner struct \x7bName string\x7d\ntype Audit struct \x7bBy Owner\x7d
type Doc struct \x7bAudit `readonly:\"true\"`\x7d
// @Success 200 \x7bobject\x7d Doc\n// @Router /doc [get]\nfunc Get() \x7b\x7d"

set_option maxRecDepth 100000 in
/-- A property that is a reference has the mark of a read-only one beside it. -/
theorem references_alone_but_by_place_readOnly : ∃ doc, auditedDocument.build = .ok doc ∧
    ∃ s, (Place.property, s) ∈ doc.nodes ∧ s.reference = some "#/definitions/m.Owner" ∧
      s.readOnly = true ∧ Place.property.Admits s ∧ ∀ name, s ≠ Schema.ref name := by
  have hrun : auditedDocument.assemble.toOption.map (fun va =>
      ((va.2.resolver.definitions.values.flatMap (Schema.nodes .definition)).map fun n =>
        (n.1, n.2.reference, n.2.readOnly)).contains
          (Place.property, some "#/definitions/m.Owner", true)) = some true := by
    decide +kernel
  cases hasm : auditedDocument.assemble with
  | error e =>
    rw [hasm] at hrun
    cases hrun
  | ok va =>
    obtain ⟨v, a⟩ := va
    rw [hasm] at hrun
    have hcontains := List.contains_iff_mem.1 (Option.some.inj hrun)
    obtain ⟨⟨π, s⟩, hmem, hfacts⟩ := List.mem_map.1 hcontains
    obtain ⟨rfl, hrest⟩ := Prod.mk.inj hfacts
    obtain ⟨href, hro⟩ : s.reference = _ ∧ s.readOnly = true := Prod.mk.inj hrest
    have hbuild := build_eq_ok_iff.2 ⟨v, a, hasm, rfl⟩
    have hnode : (Place.property, s) ∈ Document.nodes
        { v.document with paths := a.paths, definitions := a.resolver.definitions } :=
      List.mem_append_right _ hmem
    obtain ⟨hadmits, -⟩ := references_alone_but_by_place _ _ hbuild _ hnode (by simp [href])
    refine ⟨_, hbuild, s, hnode, href, hro, hadmits, ?_⟩
    rintro name rfl
    cases hro

end Project

end GoApiDoc
