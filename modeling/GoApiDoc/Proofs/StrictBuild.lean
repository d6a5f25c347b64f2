/-
Strict mode of a whole build.

Strict mode only ever turns a build into an error: on a type without a schema, on a route that is
bound twice, or on an operation id that is given twice.  A build that passes is the same one without
strict mode, and nothing in it is declared twice.

* `Project.strict_build_agrees` — **strict mode is a gate**.
-/

import GoApiDoc.Proofs.Route

set_option autoImplicit false

namespace GoApiDoc

variable {o : Operation} {a a₁ a' : Assembly} {path : String} {e : Endpoint} {routes : List Route}
  {paths paths' : Table PathItem} {c : OperationComment} {comments : List OperationComment}
  {m : HttpMethod}

/-! ### Annotations -/

namespace Annotating

variable {α β : Type}

/-- From states that differ in the mode only, the two runs have the same outcome and leave states
that differ in the mode only, unless the strict one fails. -/
def Gated (x : Annotating α) : Prop :=
  ∀ st : Annotated, ∃ (r : Except DocError α) (st' : Annotated),
    x.runOn (st.mode true) = (r, st'.mode true) ∧
      (x.runOn (st.mode false) = (r, st'.mode false) ∨ ∃ e, r = .error e)

theorem gated_bind {x : Annotating α} {f : α → Annotating β} (hx : Gated x)
    (hf : ∀ a, Gated (f a)) : Gated (x >>= f) := by
  intro st
  obtain ⟨r, st', hstrict, hlenient⟩ := hx st
  cases r with
  | error e => exact ⟨.error e, st', runOn_bind_error f hstrict, .inr ⟨e, rfl⟩⟩
  | ok a =>
    rcases hlenient with h | ⟨e, h⟩
    · obtain ⟨r, st'', hstrict', hlenient'⟩ := hf a st'
      refine ⟨r, st'', (runOn_bind_ok f hstrict).trans hstrict', ?_⟩
      exact hlenient'.imp_left fun h' => (runOn_bind_ok f h).trans h'
    · cases h

theorem gated_read {f : Annotated → Annotating β}
    (hmode : ∀ st : Annotated, f (st.mode true) = f (st.mode false)) (hf : ∀ st, Gated (f st)) :
    Gated (get >>= f) := by
  intro st
  obtain ⟨r, st', hstrict, hlenient⟩ := hf (st.mode true) st
  refine ⟨r, st', hstrict, hlenient.imp_left fun h => ?_⟩
  rw [hmode st] at h
  exact h

theorem gated_resolving {x : Resolving α} (hx : x.Gated) : Gated (resolving x) := by
  intro st
  obtain ⟨r, g', hstrict, hlenient⟩ := hx st.resolver
  refine ⟨r, { st with resolver := g' }, ?_, ?_⟩
  · change ((x.runOn (st.resolver.mode true)).1,
      { st with resolver := (x.runOn (st.resolver.mode true)).2 }) = _
    rw [hstrict]
    rfl
  · rcases hlenient with h | ⟨type, h⟩
    · refine .inl ?_
      change ((x.runOn (st.resolver.mode false)).1,
        { st with resolver := (x.runOn (st.resolver.mode false)).2 }) = _
      rw [h]
      rfl
    · exact .inr ⟨_, h⟩

theorem gated_change (f : Endpoint → Endpoint) : Gated (change f) :=
  fun st => ⟨.ok (), { st with endpoint := f st.endpoint }, rfl, .inl rfl⟩

theorem compositional_gated : Compositional fun _ x => Gated x where
  pure := fun a st => ⟨.ok a, st, rfl, .inl rfl⟩
  throw := fun e st => ⟨.error e, st, rfl, .inr ⟨e, rfl⟩⟩
  bind := gated_bind
  read := gated_read
  resolving := gated_resolving
  change := fun {f} _ => gated_change f

theorem gated_addRoute (rest : String) (deprecated : Bool) : Gated (addRoute rest deprecated) := by
  unfold addRoute
  split
  · exact compositional_gated.throw _
  · split
    · exact compositional_gated.throw _
    · exact gated_change _

theorem gated_addDirective (ctx : AnnotationContext) (word rest : String) :
    Gated (addDirective ctx word rest) := by
  by_cases hw : Text.asciiLower word ∈ bindingWords
  · simp only [bindingWords, List.mem_cons, List.not_mem_nil, or_false] at hw
    unfold addDirective
    rcases hw with hw | hw | hw | hw | hw
    all_goals rw [hw]
    · exact gated_addRoute rest false
    · exact gated_addRoute rest true
    all_goals exact gated_change _
  · exact compositional_gated.addDirective hw

theorem gated_addLine (ctx : AnnotationContext) (line : String) : Gated (addLine ctx line) := by
  unfold addLine
  dsimp only
  split
  · intro st
    obtain ⟨r, st', hstrict, hlenient⟩ := gated_addDirective ctx
      (Text.splitAttribute (lineText line)).1 (Text.splitAttribute (lineText line)).2 st
    refine ⟨r.mapError (DocError.inComment line), st', ?_, ?_⟩
    · rw [runOn_inComment, hstrict]
    · rcases hlenient with h | ⟨e, rfl⟩
      · exact .inl (by rw [runOn_inComment, h])
      · exact .inr ⟨_, rfl⟩
  · exact compositional_gated.pure ()

end Annotating

theorem readEndpoint_mode {ctx : AnnotationContext} {lines : List String} {g g₁ : Resolver} (h : readEndpoint ctx lines (g.mode true) = .ok (e, g₁)) :
    ∃ g' : Resolver, g₁ = g'.mode true ∧
      readEndpoint ctx lines (g.mode false) = .ok (e, g'.mode false) := by
  have hgated := Annotating.compositional_gated.forM (Annotating.gated_addLine ctx) lines
  obtain ⟨r, st', hstrict, hlenient⟩ := hgated { resolver := g }
  have hrun := hstrict.symm.trans (readEndpoint_eq_ok_iff.1 h)
  obtain ⟨rfl, hst⟩ := Prod.mk.inj hrun
  obtain ⟨hg, he⟩ := Annotated.mk.inj hst
  refine ⟨st'.resolver, hg.symm, readEndpoint_eq_ok_iff.2 ?_⟩
  rcases hlenient with hl | ⟨err, herr⟩
  · rw [← he]
    exact hl
  · cases herr

/-! ### Comments -/

namespace Assembly

/-- The state with strict mode switched on or off. -/
def mode (a : Assembly) (strict : Bool) : Assembly := { a with resolver := a.resolver.mode strict }

theorem enterId_eq_ok {ids ids' : List String} {o : Option String}
    (h : enterId true ids o = .ok ids') :
    enterId false ids o = .ok ids' ∧ ids' = o.toList ++ ids ∧ ∀ id ∈ o.toList, id ∉ ids := by
  cases o with
  | none =>
    cases h
    simp [enterId]
  | some id =>
    rw [enterId] at h ⊢
    by_cases hid : ids.contains id = true
    · rw [if_pos hid, if_pos rfl] at h
      cases h
    · rw [if_neg hid] at h ⊢
      cases h
      simpa using hid

theorem bindRoutes_mode (h : routes.foldlM (bindRoute true o) paths = .ok paths') :
    routes.foldlM (bindRoute false o) paths = .ok paths' := by
  induction routes generalizing paths with
  | nil => exact h
  | cons r routes ih =>
    obtain ⟨paths₁, h₁, h⟩ := bind_eq_ok_iff.1 h
    obtain ⟨-, heq⟩ := bindRoute_eq_ok_iff.1 h₁
    refine bind_eq_ok_iff.2 ⟨paths₁, bindRoute_eq_ok_iff.2 ⟨fun hstrict => ?_, heq⟩, ih h⟩
    cases hstrict

theorem addEndpoint_mode (h : addEndpoint true (a.mode true) e = .ok a₁) :
    ∃ a' : Assembly, a₁ = a'.mode true ∧ addEndpoint false (a.mode false) e = .ok (a'.mode false) := by
  rcases addEndpoint_eq_ok_iff.1 h with ⟨hnone, rfl⟩ | ⟨hsome, ids, paths, hids, hpaths, rfl⟩
  · exact ⟨a, rfl, addEndpoint_eq_ok_iff.2 (.inl ⟨hnone, rfl⟩)⟩
  · refine ⟨{ a with ids := ids, paths := paths }, rfl, addEndpoint_eq_ok_iff.2 (.inr ?_)⟩
    exact ⟨hsome, ids, paths, (enterId_eq_ok hids).1, bindRoutes_mode hpaths, rfl⟩

variable {assets : Assets} {settings : Settings} {format : String}

theorem addComment_mode
    (h : addComment assets (settings.mode true) format (a.mode true) c = .ok a₁) :
    ∃ a' : Assembly, a₁ = a'.mode true ∧
      addComment assets (settings.mode false) format (a.mode false) c = .ok (a'.mode false) := by
  -- the filter is the same in both modes
  rcases addComment_eq_ok_iff.1 h with ⟨hc, rfl⟩ | ⟨hc, e, g, hread, hadd⟩
  · exact ⟨a, rfl, addComment_eq_ok_iff.2 (.inl ⟨hc, rfl⟩)⟩
  · obtain ⟨g', rfl, hread'⟩ := readEndpoint_mode hread
    obtain ⟨a', rfl, hadd'⟩ := addEndpoint_mode (a := { a with resolver := g' }) hadd
    exact ⟨a', rfl, addComment_eq_ok_iff.2 (.inr ⟨hc, e, _, hread', hadd'⟩)⟩

/-- **A strict run over comments that passes** is the same one without strict mode. -/
theorem addComments_mode
    (h : comments.foldlM (addComment assets (settings.mode true) format) (a.mode true) = .ok a₁) :
    ∃ a' : Assembly, a₁ = a'.mode true ∧
      comments.foldlM (addComment assets (settings.mode false) format) (a.mode false) =
        .ok (a'.mode false) := by
  induction comments generalizing a with
  | nil =>
    cases h
    exact ⟨a, rfl, rfl⟩
  | cons c comments ih =>
    obtain ⟨a₀, h₀, h⟩ := bind_eq_ok_iff.1 h
    obtain ⟨a₀', rfl, h₀'⟩ := addComment_mode h₀
    obtain ⟨a', ha, h'⟩ := ih h
    exact ⟨a', ha, bind_eq_ok_iff.2 ⟨_, h₀', h'⟩⟩

end Assembly

/-! ### What strict mode checks -/

/-- What a route binds: a method and a path. -/
def Route.key (r : Route) : HttpMethod × String := (r.method, r.path)

theorem Route.isFor_iff_key {r : Route} : r.IsFor m path ↔ r.key = (m, path) := by
  simp [IsFor, key]

namespace Assembly

theorem bindRoutes_keys (h : routes.foldlM (bindRoute true o) paths = .ok paths') :
    (routes.map Route.key).Nodup ∧ ∀ r ∈ routes, boundAt paths r.method r.path = none := by
  induction routes generalizing paths with
  | nil => exact ⟨List.nodup_nil, List.forall_mem_nil _⟩
  | cons r routes ih =>
    obtain ⟨paths₁, h₁, h⟩ := bind_eq_ok_iff.1 h
    obtain ⟨hfree, rfl⟩ := bindRoute_eq_ok_iff.1 h₁
    obtain ⟨hnodup, hrest⟩ := ih h
    have hother : ∀ r' ∈ routes, ¬ r.IsFor r'.method r'.path ∧
        boundAt paths r'.method r'.path = none := by
      intro r' hr'
      have hnone := hrest r' hr'
      rw [boundAt_insert] at hnone
      by_cases hfor : r.IsFor r'.method r'.path
      · rw [if_pos hfor] at hnone
        cases hnone
      · rw [if_neg hfor] at hnone
        exact ⟨hfor, hnone⟩
    refine ⟨List.nodup_cons.2 ⟨fun hmem => ?_, hnodup⟩, fun r' hr' => ?_⟩
    · obtain ⟨r', hr', hkey⟩ := List.mem_map.1 hmem
      exact (hother r' hr').1 (Route.isFor_iff_key.2 hkey.symm)
    · rcases List.mem_cons.1 hr' with rfl | hr'
      · exact hfree rfl
      · exact (hother r' hr').2

variable {assets : Assets} {settings : Settings} {format : String}

/-- The comments whose operations are bound: the filter keeps them, and they have routes. -/
def bound (settings : Settings) (comments : List OperationComment) : List OperationComment :=
  comments.filter fun c => settings.tags.keeps c.lines && !c.routes.isEmpty

/-- The methods and paths that comments declare. -/
def keys (settings : Settings) (comments : List OperationComment) : List (HttpMethod × String) :=
  (bound settings comments).flatMap fun c => c.routes.map Route.key

/-- The operation ids that comments give. -/
def operationIds (settings : Settings) (comments : List OperationComment) : List String :=
  (bound settings comments).filterMap OperationComment.operationId

theorem bound_cons (c : OperationComment) (comments : List OperationComment) :
    bound settings (c :: comments) = bound settings [c] ++ bound settings comments :=
  List.filter_append [c] comments

theorem keys_cons (c : OperationComment) (comments : List OperationComment) :
    keys settings (c :: comments) = keys settings [c] ++ keys settings comments := by
  rw [keys, bound_cons, List.flatMap_append]
  rfl

theorem operationIds_cons (c : OperationComment) (comments : List OperationComment) :
    operationIds settings (c :: comments) =
      operationIds settings [c] ++ operationIds settings comments := by
  rw [operationIds, bound_cons, List.filterMap_append]
  rfl

theorem mem_keys_iff : (m, path) ∈ keys settings comments ↔
      ∃ c ∈ comments, settings.tags.keeps c.lines ∧ c.Declares m path := by
  constructor
  · intro h
    obtain ⟨c, hc, hkey⟩ := List.mem_flatMap.1 h
    obtain ⟨hmem, hbound⟩ := List.mem_filter.1 hc
    obtain ⟨r, hr, heq⟩ := List.mem_map.1 hkey
    exact ⟨c, hmem, (Bool.and_eq_true_iff.1 hbound).1, r, hr, Route.isFor_iff_key.2 heq⟩
  · rintro ⟨c, hmem, hkeep, r, hr, hfor⟩
    have hroutes : c.routes.isEmpty = false := List.isEmpty_eq_false_iff.2 (List.ne_nil_of_mem hr)
    refine List.mem_flatMap.2 ⟨c, List.mem_filter.2 ⟨hmem, ?_⟩, ?_⟩
    · rw [hkeep, hroutes]
      rfl
    · exact List.mem_map.2 ⟨r, hr, Route.isFor_iff_key.1 hfor⟩

/-- Nothing that the comments declare is declared twice or bound already. -/
structure Fresh (settings : Settings) (comments : List OperationComment) (a : Assembly) : Prop where
  keys_nodup : (keys settings comments).Nodup
  keys_free : ∀ k ∈ keys settings comments, boundAt a.paths k.1 k.2 = none
  ids_nodup : (operationIds settings comments).Nodup
  ids_free : ∀ id ∈ operationIds settings comments, id ∉ a.ids

theorem fresh_of_not_bound (hbound : bound settings [c] = []) :
    Fresh settings [c] a ∧ a.ids = operationIds settings [c] ++ a.ids := by
  have hkeys : keys settings [c] = [] := by rw [keys, hbound]; rfl
  have hids : operationIds settings [c] = [] := by rw [operationIds, hbound]; rfl
  refine ⟨⟨?_, ?_, ?_, ?_⟩, ?_⟩
  · rw [hkeys]
    exact List.nodup_nil
  · rw [hkeys]
    exact List.forall_mem_nil _
  · rw [hids]
    exact List.nodup_nil
  · rw [hids]
    exact List.forall_mem_nil _
  · rw [hids]
    rfl

/-- **One comment in strict mode**: what it declares is new, and its operation id is entered. -/
theorem addComment_fresh (hs : settings.strict = true)
    (h : addComment assets settings format a c = .ok a') :
    Fresh settings [c] a ∧ a'.ids = operationIds settings [c] ++ a.ids := by
  rcases addComment_eq_ok_iff.1 h with ⟨hc, rfl⟩ | ⟨hc, e, g, hread, hadd⟩
  · exact fresh_of_not_bound (by simp [bound, hc])
  obtain ⟨hroutes, -, hid, -⟩ := readEndpoint_declared hread
  rw [hs] at hadd
  rcases addEndpoint_eq_ok_iff.1 hadd with ⟨hnone, rfl⟩ | ⟨hsome, ids, paths, hids, hpaths, rfl⟩
  · rw [hroutes] at hnone
    exact fresh_of_not_bound (by simp [bound, hnone])
  obtain ⟨hnodup, hfree⟩ := bindRoutes_keys hpaths
  obtain ⟨-, hids, hnew⟩ := enterId_eq_ok hids
  rw [hroutes] at hsome hnodup hfree
  rw [hid] at hids hnew
  have hbound : bound settings [c] = [c] := by simp [bound, hsome, hc]
  have hkeys : keys settings [c] = c.routes.map Route.key := by simp [keys, hbound]
  have hopids : operationIds settings [c] = c.operationId.toList := by
    cases hop : c.operationId with
    | none | some id => simp [operationIds, hbound, hop]
  refine ⟨⟨hkeys ▸ hnodup, ?_, ?_, hopids ▸ hnew⟩, hopids ▸ hids⟩
  · intro k hk
    rw [hkeys] at hk
    obtain ⟨r, hr, rfl⟩ := List.mem_map.1 hk
    exact hfree r hr
  · rw [hopids]
    cases c.operationId with
    | none | some id => simp

/-- **A strict run over comments that passes** meets nothing twice. -/
theorem addComments_fresh (hs : settings.strict = true)
    (h : comments.foldlM (addComment assets settings format) a = .ok a') :
    Fresh settings comments a := by
  induction comments generalizing a with
  | nil =>
    exact ⟨List.nodup_nil, List.forall_mem_nil _, List.nodup_nil, List.forall_mem_nil _⟩
  | cons c comments ih =>
    obtain ⟨a₁, h₁, h⟩ := bind_eq_ok_iff.1 h
    obtain ⟨hc, hids⟩ := addComment_fresh hs h₁
    have hrest := ih h
    -- what is still free after the comment was free before it and is not declared by it
    have hstill : ∀ k ∈ keys settings comments,
        k ∉ keys settings [c] ∧ boundAt a.paths k.1 k.2 = none := by
      intro k hk
      have hnone := hrest.keys_free k hk
      rcases addComment_boundAt h₁ k.1 k.2 with ⟨-, -, o, ho, -⟩ | ⟨hnot, hsame⟩
      · rw [ho] at hnone
        cases hnone
      · refine ⟨fun hmem => hnot ?_, hsame.symm.trans hnone⟩
        obtain ⟨d, hd, hboth⟩ := mem_keys_iff.1 hmem
        exact List.mem_singleton.1 hd ▸ hboth
    refine ⟨?_, ?_, ?_, ?_⟩
    · rw [keys_cons, List.nodup_append]
      refine ⟨hc.keys_nodup, hrest.keys_nodup, ?_⟩
      rintro k hk k' hk' rfl
      exact (hstill k hk').1 hk
    · intro k hk
      rw [keys_cons] at hk
      rcases List.mem_append.1 hk with hk | hk
      · exact hc.keys_free k hk
      · exact (hstill k hk).2
    · rw [operationIds_cons, List.nodup_append]
      refine ⟨hc.ids_nodup, hrest.ids_nodup, ?_⟩
      rintro id hid id' hid' rfl
      refine hrest.ids_free id hid' ?_
      rw [hids]
      exact List.mem_append_left _ hid
    · intro id hid hmem
      rw [operationIds_cons] at hid
      rcases List.mem_append.1 hid with hid | hid
      · exact hc.ids_free id hid hmem
      · refine hrest.ids_free id hid ?_
        rw [hids]
        exact List.mem_append_right _ hmem

theorem mem_keys_iff_boundAt
    (h : comments.foldlM (addComment assets settings format) a = .ok a') (hnew : a.paths = [])
    (m : HttpMethod) (path : String) :
    (m, path) ∈ keys settings comments ↔ (boundAt a'.paths m path).isSome := by
  rw [mem_keys_iff]
  rcases addComments_boundAt h m path with
    ⟨before, c, after, a₁, o, rfl, hc, -, -, ho, -⟩ | ⟨hnone, hsame⟩
  · rw [ho]
    exact ⟨fun _ => rfl, fun _ => ⟨c, List.mem_append_right _ (.head _), hc⟩⟩
  · rw [hsame, hnew]
    constructor
    · rintro ⟨c, hmem, hboth⟩
      exact absurd hboth (hnone c hmem)
    · exact fun hsome => nomatch hsome

end Assembly

/-! ### The build -/

namespace Project

/-- The project with strict mode switched on or off. -/
def mode (p : Project) (strict : Bool) : Project := { p with settings := p.settings.mode strict }

theorem assemble_mode {p : Project} {v : Overview}
    (h : (p.mode true).assemble = .ok (v, a₁)) : ∃ a' : Assembly, a₁ = a'.mode true ∧
      (p.mode false).assemble = .ok (v, a'.mode false) := by
  obtain ⟨main, r, hr, hv, hfold⟩ := assemble_eq_ok_iff.1 h
  obtain ⟨a', ha, hfold'⟩ := Assembly.addComments_mode (a := p.start r) hfold
  exact ⟨a', ha, assemble_eq_ok_iff.2 ⟨main, r, hr, hv, hfold'⟩⟩

/-- **Strict mode is a gate.**  A build that passes in strict mode gives the same document without
it; in that document every method and path that has an operation is declared by one route, and no
operation id is given by two comments whose operations are bound. -/
theorem strict_build_agrees (p : Project) (doc : Document) (h : (p.mode true).build = .ok doc) :
    (p.mode false).build = .ok doc ∧ ∃ main r, p.registry = .ok (main, r) ∧
      (Assembly.keys p.settings (operationComments r.parseTypes)).Nodup ∧
      (∀ m path, (m, path) ∈ Assembly.keys p.settings (operationComments r.parseTypes) ↔
        (doc.operation? m path).isSome) ∧
      (Assembly.operationIds p.settings (operationComments r.parseTypes)).Nodup := by
  obtain ⟨v, a₁, hasm, rfl⟩ := build_eq_ok_iff.1 h
  obtain ⟨a', rfl, hasm'⟩ := assemble_mode hasm
  obtain ⟨main, r, hr, -, hfold⟩ := assemble_eq_ok_iff.1 hasm
  have hfresh := Assembly.addComments_fresh rfl hfold
  refine ⟨build_eq_ok_iff.2 ⟨v, _, hasm', rfl⟩, main, r, hr, hfresh.keys_nodup, ?_,
    hfresh.ids_nodup⟩
  intro m path
  refine Assembly.mem_keys_iff_boundAt hfold ?_ m path
  rfl

/-- A project with a definition, two routes and an operation id. -/
def twoRoutes : Project :=
  ofSource "package m\ntype T struct\x7bA int\x7d\n// @ID one\n// @Success 200 \x7bobject\x7d T
// @Router /x [get]\n// @Router /y [get]\nfunc F()\x7b\x7d"

set_option maxRecDepth 100000 in
theorem strict_build_agrees_twoRoutes : ∃ doc, (twoRoutes.mode true).build = .ok doc ∧
    (twoRoutes.mode false).build = .ok doc ∧ doc.definitions.keys = ["m.T"] ∧
      doc.paths.keys = ["/x", "/y"] := by
  have hrun : (twoRoutes.mode true).build.toOption.map
      (fun d => (d.definitions.keys, d.paths.keys)) = some (["m.T"], ["/x", "/y"]) := by
    decide +kernel
  cases hb : (twoRoutes.mode true).build with
  | error e =>
    rw [hb] at hrun
    cases hrun
  | ok doc =>
    rw [hb] at hrun
    simp only [Except.toOption, Option.map_some, Option.some.injEq, Prod.mk.injEq] at hrun
    exact ⟨doc, rfl, (strict_build_agrees twoRoutes doc hb).1, hrun⟩

end Project

end GoApiDoc
