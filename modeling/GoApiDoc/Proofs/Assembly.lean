/-
Where the references of a document lead.

The comments above functions are read one after the other; each one may add definitions and binds
its operation to routes.  The state in between is sound, no type is being built in it, and it answers
the references of all operations that are bound.  So a reference of the finished document leads to a
definition, unless its type was entered and left without one: a struct that was only gone through
because another one embeds it, or a type that could not be built.

* `Project.references_defined_unless_open` — **a reference leads to a definition, or to a type that
  was left open**.
-/

import GoApiDoc.Build
import GoApiDoc.Proofs.Annotation

set_option autoImplicit false

namespace GoApiDoc

variable {assets : Assets} {settings : Settings} {format : String} {c : OperationComment}
  {v : Overview} {a : Assembly} {g : Resolver} {a' : Assembly} {r : String} {e : Endpoint}
  {paths paths' : Table PathItem}

/-! ### The parts of a build -/

theorem readEndpoint_eq_ok_iff {ctx : AnnotationContext} {lines : List String} {g' : Resolver} : readEndpoint ctx lines g = .ok (e, g') ↔
      (lines.forM (Annotating.addLine ctx)).runOn { resolver := g } = (.ok (), ⟨g', e⟩) := by
  change (match (lines.forM (Annotating.addLine ctx)).runOn { resolver := g } with
    | (.ok _, st) => Except.ok (st.endpoint, st.resolver)
    | (.error e, _) => .error e) = _ ↔ _
  obtain ⟨r, ⟨g₁, e₁⟩⟩ := (lines.forM (Annotating.addLine ctx)).runOn { resolver := g }
  cases r with
  | error err => simp
  | ok u =>
    simp only [Except.ok.injEq, Prod.mk.injEq, Annotated.mk.injEq, true_and]
    exact and_comm

/-- The operation that a method and a path lead to. -/
def boundAt (paths : Table PathItem) (m : HttpMethod) (path : String) : Option Operation :=
  (paths.get? path).bind (·.operation? m)

/-- The operation as it is bound to a route. -/
def Operation.boundBy (o : Operation) (r : Route) : Operation :=
  { o with deprecated := o.deprecated || r.deprecated }

theorem getD_operation? (paths : Table PathItem) (m : HttpMethod) (path : String) :
    ((paths.get? path).getD {}).operation? m = boundAt paths m path := by
  unfold boundAt
  cases paths.get? path with
  | none => cases m <;> rfl
  | some item => rfl

namespace Assembly

variable {strict : Bool}

theorem bindRoute_eq_ok_iff {o : Operation} {r : Route} : bindRoute strict o paths r = .ok paths' ↔
      (strict = true → boundAt paths r.method r.path = none) ∧
        paths' = paths.insert r.path (((paths.get? r.path).getD {}).bind r.method (o.boundBy r)) := by
  unfold bindRoute
  dsimp only
  rw [getD_operation?]
  cases strict with
  | false => simp [Operation.boundBy, eq_comm]
  | true =>
    cases boundAt paths r.method r.path with
    | none => simp [Operation.boundBy, eq_comm]
    | some o' => simp

theorem addEndpoint_eq_ok_iff :
    addEndpoint strict a e = .ok a' ↔ e.routes = [] ∧ a' = a ∨ e.routes ≠ [] ∧ ∃ ids paths,
      enterId strict a.ids e.operation.operationId = .ok ids ∧
        e.routes.foldlM (bindRoute strict e.operation) a.paths = .ok paths ∧
          a' = { a with ids := ids, paths := paths } := by
  unfold addEndpoint
  by_cases hroutes : e.routes = []
  · simp [hroutes, eq_comm]
  rw [if_neg (by simpa using hroutes)]
  constructor
  · intro h
    obtain ⟨ids, hids, h⟩ := bind_eq_ok_iff.1 h
    obtain ⟨paths, hpaths, h⟩ := bind_eq_ok_iff.1 h
    cases h
    exact .inr ⟨hroutes, ids, paths, hids, hpaths, rfl⟩
  · rintro (⟨hnone, -⟩ | ⟨-, ids, paths, hids, hpaths, rfl⟩)
    · exact absurd hnone hroutes
    · exact bind_eq_ok_iff.2 ⟨ids, hids, bind_eq_ok_iff.2 ⟨paths, hpaths, rfl⟩⟩

theorem addComment_eq_ok_iff : addComment assets settings format a c = .ok a' ↔
      ¬ settings.tags.keeps c.lines ∧ a' = a ∨ settings.tags.keeps c.lines ∧ ∃ e g,
        readEndpoint ⟨assets, c.file, format⟩ c.lines a.resolver = .ok (e, g) ∧
          addEndpoint settings.strict { a with resolver := g } e = .ok a' := by
  unfold addComment
  by_cases hc : settings.tags.keeps c.lines = true
  · rw [if_pos hc]
    constructor
    · intro h
      obtain ⟨⟨e, g⟩, hread, hadd⟩ := bind_eq_ok_iff.1 h
      exact .inr ⟨hc, e, g, hread, hadd⟩
    · rintro (⟨hnot, -⟩ | ⟨-, e, g, hread, hadd⟩)
      · exact absurd hc hnot
      · exact bind_eq_ok_iff.2 ⟨(e, g), hread, hadd⟩
  · simp [hc, eq_comm]

end Assembly

namespace Project

variable {p : Project}

/-- The state before the first comment is read. -/
def start (p : Project) (r : Registry) : Assembly := { resolver := .fresh r.parseTypes p.settings }

/-- The collection format of array parameters that give none. -/
def formatWith (p : Project) (v : Overview) : String :=
  v.collectionFormat.getD p.settings.collectionFormat

theorem assemble_eq_ok_iff : p.assemble = .ok (v, a) ↔
    ∃ main r, p.registry = .ok (main, r) ∧ p.overview r main = .ok v ∧
      (operationComments r.parseTypes).foldlM
        (Assembly.addComment p.assets p.settings (p.formatWith v)) (p.start r) = .ok a := by
  unfold assemble
  constructor
  · intro h
    obtain ⟨⟨main, r⟩, hr, h⟩ := bind_eq_ok_iff.1 h
    obtain ⟨v', hv, h⟩ := bind_eq_ok_iff.1 h
    obtain ⟨a', ha, h⟩ := bind_eq_ok_iff.1 h
    cases h
    exact ⟨main, r, hr, hv, ha⟩
  · rintro ⟨main, r, hr, hv, ha⟩
    refine bind_eq_ok_iff.2 ⟨(main, r), hr, ?_⟩
    refine bind_eq_ok_iff.2 ⟨v, hv, ?_⟩
    exact bind_eq_ok_iff.2 ⟨a, ha, rfl⟩

theorem build_eq_ok_iff {doc : Document} : p.build = .ok doc ↔ ∃ v a, p.assemble = .ok (v, a) ∧
    doc = { v.document with paths := a.paths, definitions := a.resolver.definitions } := by
  unfold build
  constructor
  · intro h
    obtain ⟨⟨v, a⟩, ha, h⟩ := bind_eq_ok_iff.1 h
    cases h
    exact ⟨v, a, ha, rfl⟩
  · rintro ⟨v, a, ha, rfl⟩
    exact bind_eq_ok_iff.2 ⟨(v, a), ha, rfl⟩

end Project

/-! ### What a comment keeps -/

namespace Assembly

/-- Every operation that is bound satisfies the condition. -/
def AllOperations (P : Operation → Prop) (paths : Table PathItem) : Prop :=
  ∀ e ∈ paths, ∀ m o, e.2.operation? m = some o → P o

variable {P : Operation → Prop} {strict : Bool} {o : Operation}

theorem AllOperations.bindRoute (hpaths : AllOperations P paths)
    (ho : ∀ d, P { o with deprecated := d }) {r : Route}
    (h : Assembly.bindRoute strict o paths r = .ok paths') : AllOperations P paths' := by
  obtain ⟨-, rfl⟩ := bindRoute_eq_ok_iff.1 h
  intro e he m o' ho'
  rcases Table.mem_insert_imp he with rfl | he
  · rw [PathItem.operation?_bind, getD_operation?] at ho'
    split at ho'
    · exact Option.some.inj ho' ▸ ho _
    · obtain ⟨item, hget, hitem⟩ := Option.bind_eq_some_iff.1 ho'
      exact hpaths _ (Table.mem_of_get? hget) m o' hitem
  · exact hpaths e he m o' ho'

end Assembly

namespace AnnotationLaw

variable {law : AnnotationLaw}

/-- The law holds of the state and of all operations that are bound. -/
structure GovernsAssembly (law : AnnotationLaw) (a : Assembly) : Prop where
  resolver : law.source.Inv a.resolver
  bound : Assembly.AllOperations (law.AdmitsOperation a.resolver) a.paths

/-- **One comment** keeps everything under the law. -/
theorem GovernsAssembly.addComment (ha : law.GovernsAssembly a)
    (hc : ∀ line ∈ c.lines, law.AdmitsLine line)
    (h : Assembly.addComment assets settings format a c = .ok a') :
    law.source.Later a.resolver a'.resolver ∧ law.GovernsAssembly a' := by
  rcases Assembly.addComment_eq_ok_iff.1 h with ⟨-, rfl⟩ | ⟨-, e, g, hread, hadd⟩
  · exact ⟨law.source.refl _, ha⟩
  have hlines : Annotating.Passes law (c.lines.forM (.addLine ⟨assets, c.file, format⟩))
      { resolver := a.resolver } :=
    Annotating.respects_forM _ fun line hline _ _ =>
      Annotating.respects_addLine _ (hc line hline)
  obtain ⟨hlater, hgoverns, -⟩ := hlines ⟨ha.resolver, law.empty⟩
  rw [readEndpoint_eq_ok_iff.1 hread] at hlater hgoverns
  have hbound : Assembly.AllOperations (law.AdmitsOperation g) a.paths :=
    fun e he m o ho => law.operationLater hlater (ha.bound e he m o ho)
  rcases Assembly.addEndpoint_eq_ok_iff.1 hadd with ⟨-, rfl⟩ | ⟨-, ids, paths, -, hpaths, rfl⟩
  · exact ⟨hlater, hgoverns.resolver, hbound⟩
  · refine ⟨hlater, hgoverns.resolver, ?_⟩
    refine foldlM_invariant (fun _ _ _ hbound h => hbound.bindRoute (fun d => ?_) h) hbound hpaths
    exact law.other hgoverns.operation rfl rfl rfl rfl

/-- **A project** that builds is under every law that admits its types, its replacements and the
lines of its comments. -/
theorem governs_assemble {p : Project} (h : p.assemble = .ok (v, a))
    (hstart : ∀ main r, p.registry = .ok (main, r) → law.source.Inv (p.start r).resolver ∧
      ∀ c ∈ operationComments r.parseTypes, ∀ line ∈ c.lines, law.AdmitsLine line) :
    law.GovernsAssembly a := by
  obtain ⟨main, r, hr, -, hfold⟩ := Project.assemble_eq_ok_iff.1 h
  obtain ⟨hgoverns, hlines⟩ := hstart main r hr
  refine foldlM_invariant_of_mem (fun _ c hc _ ha h => (ha.addComment (hlines c hc) h).2) ?_ hfold
  exact ⟨hgoverns, fun e he => nomatch he⟩

end AnnotationLaw

namespace Assembly

/-- The resolver is sound and at rest, and it answers the references of all operations. -/
structure Sound (a : Assembly) : Prop where
  resolver : a.resolver.Sound
  idle : a.resolver.building = []
  bound : AllOperations (·.AllRefs a.resolver.Answers) a.paths

/-- **One comment** keeps the state sound. -/
theorem Sound.addComment (ha : a.Sound)
    (h : Assembly.addComment assets settings format a c = .ok a') : a'.Sound := by
  have hgoverns : soundAnnotations.GovernsAssembly a := ⟨ha.resolver, ha.bound⟩
  obtain ⟨hext, hresolver, hbound⟩ :=
    hgoverns.addComment (fun line _ => soundAnnotations_admitsLine line) h
  exact ⟨hresolver, (Resolver.Extends.building hext).trans ha.idle, hbound⟩

end Assembly

/-! ### The document -/

/-- The names of types that were entered and never got a definition. -/
def Resolver.openNames (g : Resolver) : List String :=
  (g.leftOpen.map g.nameOf).filter fun n => !g.definitions.contains n

/-- When no type is being built, a reference leads to a definition or to a type left open. -/
theorem Resolver.Answers.defined_iff_not_open (h : g.Answers r)
    (hidle : g.building = []) : ∃ n, r = Schema.definitionsPath ++ n ∧
      (n ∈ g.definitions.keys ↔ n ∉ g.openNames) := by
  obtain ⟨n, hr, hlead⟩ := h
  refine ⟨n, hr, ?_⟩
  constructor
  · intro hkey hopen
    obtain ⟨-, hfree⟩ := List.mem_filter.1 hopen
    rw [Table.contains_iff_mem_keys.2 hkey] at hfree
    cases hfree
  · intro hopen
    rcases hlead with hkey | ⟨id, ⟨d, hd, hname⟩, hbuild | hleft⟩
    · exact hkey
    · rw [hidle] at hbuild
      exact absurd hbuild List.not_mem_nil
    · by_cases hkey : n ∈ g.definitions.keys
      · exact hkey
      · refine absurd (List.mem_filter.2 ⟨List.mem_map.2 ⟨id, hleft, ?_⟩, ?_⟩) hopen
        · simp [nameOf, hd, hname]
        · rw [← Table.contains_iff_mem_keys] at hkey
          simpa using hkey

/-- Every reference leads to a definition of the document. -/
def Document.Closed (d : Document) : Prop :=
  ∀ r ∈ d.references, ∃ n ∈ d.definitions.keys, r = Schema.definitionsPath ++ n

namespace Project

variable {p : Project}

/-- The names of the types that the build entered and that have no definition in the end. -/
def openNames (p : Project) : List String :=
  match p.assemble with
  | .ok (_, a) => a.resolver.openNames
  | .error _ => []

theorem assemble_sound (h : p.assemble = .ok (v, a)) : a.Sound := by
  obtain ⟨main, r, -, -, hfold⟩ := assemble_eq_ok_iff.1 h
  refine foldlM_invariant (fun _ _ _ ha h => .addComment ha h) ⟨?_, rfl, ?_⟩ hfold
  · exact Resolver.sound_fresh r.parseTypes p.settings
  · exact fun e he => nomatch he

theorem answers_of_mem_references (ha : a.Sound)
    (hr : r ∈ Document.references
      { v.document with paths := a.paths, definitions := a.resolver.definitions }) :
    a.resolver.Answers r := by
  simp only [Document.references, Table.values, PathItem.operations, List.mem_append,
    List.mem_flatMap, List.mem_map, List.mem_filterMap] at hr
  rcases hr with ⟨item, ⟨e, he, rfl⟩, o, ⟨m, -, ho⟩, hro⟩ | ⟨s, ⟨e, he, rfl⟩, hrs⟩
  · exact ha.bound e he m o ho r hro
  · exact ha.resolver.settled e he r hrs

/-- **Where references lead.**  Every reference of a document names a definition path; the
definition is there unless it is that of a type that was entered and left open.  So the document is
closed exactly if it does not refer to types left open. -/
theorem references_defined_unless_open (p : Project) (doc : Document) (h : p.build = .ok doc) :
    (∀ r ∈ doc.references, ∃ n, r = Schema.definitionsPath ++ n ∧
      (n ∈ doc.definitions.keys ↔ n ∉ p.openNames)) ∧
    (doc.Closed ↔ ∀ n ∈ p.openNames, Schema.definitionsPath ++ n ∉ doc.references) := by
  obtain ⟨v, a, hasm, rfl⟩ := build_eq_ok_iff.1 h
  have hsound := assemble_sound hasm
  have hopen : p.openNames = a.resolver.openNames := by rw [openNames, hasm]
  have hlead : ∀ r ∈ Document.references
      { v.document with paths := a.paths, definitions := a.resolver.definitions },
      ∃ n, r = Schema.definitionsPath ++ n ∧
        (n ∈ a.resolver.definitions.keys ↔ n ∉ p.openNames) := by
    intro r hr
    rw [hopen]
    exact (answers_of_mem_references hsound hr).defined_iff_not_open hsound.idle
  refine ⟨hlead, ?_, ?_⟩
  · intro hclosed n hn hr
    -- a reference determines the name it leads to
    obtain ⟨n', hkey, heq⟩ := hclosed _ hr
    obtain rfl : n = n' := by simpa using heq
    obtain ⟨n', heq, hiff⟩ := hlead _ hr
    obtain rfl : n = n' := by simpa using heq
    exact hiff.1 hkey hn
  · intro havoid r hr
    obtain ⟨n, rfl, hiff⟩ := hlead r hr
    exact ⟨n, hiff.2 fun hn => havoid n hn hr, rfl⟩

/-- The project with a single file. -/
def ofSource (text : String) : Project where
  tree := SourceTree.ofFiles [("/m.go", text)]
  assets := Assets.ofTables [] []
  settings := {}
  dirs := ["/"]
  main := "m.go"

/-- A struct that refers to itself and is only ever embedded. -/
def embeddedNode : Project :=
  ofSource "package m\ntype Node struct \x7bNext *Node\x7d\ntype Leaf struct \x7bNode\x7d
// @Success 200 \x7bobject\x7d Leaf\n// @Router /leaf [get]\nfunc Get() \x7b\x7d"

set_option maxRecDepth 100000 in
/-- The fields of an embedded struct refer to the struct, which has no definition. -/
theorem references_open_of_embedded : ∃ doc, embeddedNode.build = .ok doc ∧
    embeddedNode.openNames = ["m.Node"] ∧ "#/definitions/m.Node" ∈ doc.references ∧
      ¬ doc.Closed := by
  have hrun : embeddedNode.assemble.toOption.map (fun va => (va.2.resolver.openNames,
      va.2.resolver.definitions.values.flatMap Schema.references)) =
        some (["m.Node"], ["#/definitions/m.Node"]) := by
    decide +kernel
  cases hasm : embeddedNode.assemble with
  | error e =>
    rw [hasm] at hrun
    cases hrun
  | ok va =>
    obtain ⟨v, a⟩ := va
    rw [hasm] at hrun
    simp only [Except.toOption, Option.map_some, Option.some.injEq, Prod.mk.injEq] at hrun
    have hbuild := build_eq_ok_iff.2 ⟨v, a, hasm, rfl⟩
    have hopen : embeddedNode.openNames = ["m.Node"] := by
      rw [openNames, hasm]
      exact hrun.1
    have hmem : "#/definitions/m.Node" ∈ Document.references
        { v.document with paths := a.paths, definitions := a.resolver.definitions } :=
      List.mem_append_right _ (hrun.2 ▸ List.mem_singleton_self _)
    refine ⟨_, hbuild, hopen, hmem, fun hclosed => ?_⟩
    refine (references_defined_unless_open _ _ hbuild).2.1 hclosed "m.Node" ?_ hmem
    rw [hopen]
    exact List.mem_singleton_self _

end Project

end GoApiDoc
