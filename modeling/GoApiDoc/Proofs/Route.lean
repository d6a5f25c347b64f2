/-
Which operation a method and a path lead to.

The comments are read in order, and each binds its operation to its routes, over whatever was bound
there before.  So a method and a path lead to the operation of the last comment that declares them,
and to none if no comment does.

* `Assembly.addComments_boundAt` — **the last comment wins**.
-/

import GoApiDoc.Proofs.Comment

set_option autoImplicit false

namespace GoApiDoc

/-! ### Routes -/

/-- The last of the routes for a method and a path. -/
def lastFor (routes : List Route) (m : HttpMethod) (path : String) : Option Route :=
  (routes.filter fun r => r.IsFor m path).getLast?

variable {routes : List Route}

theorem lastFor_isSome_iff {m : HttpMethod} {path : String} :
    (lastFor routes m path).isSome ↔ ∃ r ∈ routes, r.IsFor m path := by
  simp [lastFor]

theorem lastFor_cons (r : Route) (routes : List Route) (m : HttpMethod) (path : String) :
    lastFor (r :: routes) m path =
      (lastFor routes m path).or (if r.IsFor m path then some r else none) := by
  unfold lastFor
  by_cases h : r.IsFor m path
  · rw [List.filter_cons_of_pos (by simpa using h), List.getLast?_cons, if_pos h]
    cases (routes.filter fun r => r.IsFor m path).getLast? with
    | none | some last => rfl
  · rw [List.filter_cons_of_neg (by simpa using h), if_neg h, Option.or_none]

/-- Binding an operation to a method and a path changes nothing elsewhere. -/
theorem boundAt_insert (paths : Table PathItem) (o : Operation) (r : Route) (m : HttpMethod)
    (path : String) :
    boundAt (paths.insert r.path (((paths.get? r.path).getD {}).bind r.method o)) m path =
      if r.IsFor m path then some o else boundAt paths m path := by
  unfold boundAt
  rw [Table.get?_insert]
  by_cases hp : path = r.path
  · subst hp
    rw [if_pos rfl, Option.bind_some, PathItem.operation?_bind, getD_operation?]
    by_cases hm : m = r.method
    · rw [if_pos hm, if_pos ⟨hm.symm, rfl⟩]
    · rw [if_neg hm, if_neg fun h => hm h.1.symm]
      rfl
  · rw [if_neg hp, if_neg fun h => hp h.2.symm]

variable {a a' : Assembly}

namespace Assembly

variable {strict : Bool} {o : Operation} {m : HttpMethod} {path : String}

/-- Of the routes of one operation, too, the last one for a method and a path counts. -/
theorem boundAt_bindRoutes {paths paths' : Table PathItem}
    (h : routes.foldlM (bindRoute strict o) paths = .ok paths') (m : HttpMethod) (path : String) :
    boundAt paths' m path = ((lastFor routes m path).map o.boundBy).or (boundAt paths m path) := by
  induction routes generalizing paths with
  | nil =>
    cases h
    rfl
  | cons r routes ih =>
    obtain ⟨paths₁, h₁, h⟩ := bind_eq_ok_iff.1 h
    obtain ⟨-, rfl⟩ := bindRoute_eq_ok_iff.1 h₁
    rw [ih h, boundAt_insert, lastFor_cons]
    cases lastFor routes m path with
    | some last => rfl
    | none =>
      by_cases hr : r.IsFor m path
      · simp [hr]
      · simp [hr]

theorem boundAt_addEndpoint {e : Endpoint}
    (h : addEndpoint strict a e = .ok a') (m : HttpMethod) (path : String) :
    boundAt a'.paths m path =
      ((lastFor e.routes m path).map e.operation.boundBy).or (boundAt a.paths m path) := by
  rcases addEndpoint_eq_ok_iff.1 h with ⟨hnone, rfl⟩ | ⟨-, ids, paths, -, hpaths, rfl⟩
  · rw [hnone]
    rfl
  · exact boundAt_bindRoutes hpaths m path

end Assembly

/-! ### Comments -/

/-- The comment declares a route for the method and the path. -/
def OperationComment.Declares (c : OperationComment) (m : HttpMethod) (path : String) : Prop :=
  ∃ r ∈ c.routes, r.IsFor m path

/-- The operation is the one that the comment describes, read after the definitions in `g`, and bound
to the last of its routes for the method and the path. -/
def OperationComment.Describes (c : OperationComment) (assets : Assets) (format : String)
    (g : Resolver) (m : HttpMethod) (path : String) (o : Operation) : Prop :=
  ∃ e g' r, readEndpoint ⟨assets, c.file, format⟩ c.lines g = .ok (e, g') ∧
    lastFor c.routes m path = some r ∧
      o = { e.operation with deprecated := c.isDeprecated || r.deprecated }

namespace Assembly

variable {assets : Assets} {settings : Settings} {format : String} {m : HttpMethod} {path : String}

/-- What one comment binds: its operation, if it declares the method and the path, or else
nothing. -/
theorem addComment_boundAt {c : OperationComment}
    (h : addComment assets settings format a c = .ok a') (m : HttpMethod) (path : String) :
    (settings.tags.keeps c.lines ∧ c.Declares m path ∧
      ∃ o, boundAt a'.paths m path = some o ∧ c.Describes assets format a.resolver m path o) ∨
    (¬ (settings.tags.keeps c.lines ∧ c.Declares m path) ∧
      boundAt a'.paths m path = boundAt a.paths m path) := by
  rcases addComment_eq_ok_iff.1 h with ⟨hc, rfl⟩ | ⟨hc, e, g, hread, hadd⟩
  · exact .inr ⟨fun hboth => hc hboth.1, rfl⟩
  obtain ⟨hroutes, hdeprecated, -⟩ := readEndpoint_declared hread
  have hbound := boundAt_addEndpoint hadd m path
  rw [hroutes] at hbound
  cases hlast : lastFor c.routes m path with
  | some r =>
    rw [hlast] at hbound
    have hdecl : c.Declares m path := lastFor_isSome_iff.1 (by rw [hlast]; rfl)
    refine .inl ⟨hc, hdecl, _, hbound, e, g, r, hread, hlast, ?_⟩
    rw [Operation.boundBy, hdeprecated]
  | none =>
    rw [hlast] at hbound
    refine .inr ⟨fun hboth => ?_, hbound⟩
    have hsome := lastFor_isSome_iff.2 hboth.2
    rw [hlast] at hsome
    cases hsome

/-- **The last comment wins.**  After a run over comments, a method and a path lead to the operation
of the last one that declares them, and to what they led to before if there is none. -/
theorem addComments_boundAt {comments : List OperationComment}
    (h : comments.foldlM (addComment assets settings format) a = .ok a') (m : HttpMethod)
    (path : String) : (∃ before c after a₁ o, comments = before ++ c :: after ∧
      (settings.tags.keeps c.lines ∧ c.Declares m path) ∧
      (∀ d ∈ after, ¬ (settings.tags.keeps d.lines ∧ d.Declares m path)) ∧
      before.foldlM (addComment assets settings format) a = .ok a₁ ∧
      boundAt a'.paths m path = some o ∧ c.Describes assets format a₁.resolver m path o) ∨
    ((∀ d ∈ comments, ¬ (settings.tags.keeps d.lines ∧ d.Declares m path)) ∧
      boundAt a'.paths m path = boundAt a.paths m path) := by
  induction comments generalizing a with
  | nil =>
    cases h
    exact .inr ⟨List.forall_mem_nil _, rfl⟩
  | cons c comments ih =>
    obtain ⟨a₀, h₀, h⟩ := bind_eq_ok_iff.1 h
    rcases ih h with ⟨before, d, after, a₁, o, rfl, hd, hafter, hbefore, ho, hdesc⟩ | ⟨hnone, hsame⟩
    · refine .inl ⟨c :: before, d, after, a₁, o, rfl, hd, hafter, ?_, ho, hdesc⟩
      exact bind_eq_ok_iff.2 ⟨a₀, h₀, hbefore⟩
    rcases addComment_boundAt h₀ m path with ⟨hkeep, hdecl, o, ho, hdesc⟩ | ⟨hnot, hsame₀⟩
    · exact .inl ⟨[], c, comments, a, o, rfl, ⟨hkeep, hdecl⟩, hnone, rfl, hsame.trans ho, hdesc⟩
    refine .inr ⟨?_, hsame.trans hsame₀⟩
    intro d hd
    rcases List.mem_cons.1 hd with rfl | hd
    · exact hnot
    · exact hnone d hd

end Assembly

/-! ### The document -/

/-- The operation of a document for a method and a path. -/
def Document.operation? (d : Document) (m : HttpMethod) (path : String) : Option Operation :=
  boundAt d.paths m path

namespace Project

/-- The comment passes the tag filter and is not taken for one about the whole interface. -/
def Reads (p : Project) (c : OperationComment) : Prop :=
  p.settings.tags.keeps c.lines ∧ isOverview c.lines = false

/-- **The operations of a document.**  The comments above functions come in the order of the paths of
their files.  A method and a path have an operation exactly if a comment that is read declares a
route for them, and it is the operation of the last such comment.  A comment that passes the filter
and is not read has no line that begins with the word for routes; all its routes are deprecated. -/
theorem operation_of_last_declaration (p : Project) (doc : Document) (h : p.build = .ok doc) :
    ∃ main r v, p.registry = .ok (main, r) ∧ p.overview r main = .ok v ∧
      ((functionComments r.parseTypes).Pairwise fun c d =>
        Path.le (r.parseTypes.pathOf c.file) (r.parseTypes.pathOf d.file) = true) ∧
      (∀ m path, (doc.operation? m path).isSome ↔
        ∃ c ∈ functionComments r.parseTypes, p.Reads c ∧ c.Declares m path) ∧
      (∀ m path o, doc.operation? m path = some o →
        ∃ before c after a, functionComments r.parseTypes = before ++ c :: after ∧
          (p.Reads c ∧ c.Declares m path) ∧ (∀ d ∈ after, ¬ (p.Reads d ∧ d.Declares m path)) ∧
          (before.filter fun d => !isOverview d.lines).foldlM
            (Assembly.addComment p.assets p.settings (p.formatWith v)) (p.start r) = .ok a ∧
          c.Describes p.assets (p.formatWith v) a.resolver m path o) ∧
      (∀ c ∈ functionComments r.parseTypes, p.settings.tags.keeps c.lines → ¬ p.Reads c →
        ¬ c.lines.any isRouteLine ∧ ∀ route ∈ c.routes, route.deprecated = true) := by
  obtain ⟨v, a, hasm, rfl⟩ := build_eq_ok_iff.1 h
  obtain ⟨main, r, hr, hv, hfold⟩ := assemble_eq_ok_iff.1 hasm
  refine ⟨main, r, v, hr, hv, functionComments_inPathOrder _, ?_, ?_, ?_⟩
  · intro m path
    rcases Assembly.addComments_boundAt hfold m path with
      ⟨before, c, after, a₁, o, hsplit, hc, -, -, ho, -⟩ | ⟨hnone, hsame⟩
    · have hmem : c ∈ operationComments r.parseTypes := by
        rw [hsplit]
        exact List.mem_append_right _ List.mem_cons_self
      obtain ⟨hmem, hread⟩ := List.mem_filter.1 hmem
      refine ⟨fun _ => ⟨c, hmem, ⟨hc.1, by simpa using hread⟩, hc.2⟩, fun _ => ?_⟩
      exact Option.isSome_iff_exists.2 ⟨o, ho⟩
    · constructor
      · intro hsome
        obtain ⟨o, ho⟩ := Option.isSome_iff_exists.1 hsome
        cases hsame.symm.trans ho
      · rintro ⟨c, hmem, ⟨hkeep, hread⟩, hdecl⟩
        exact absurd ⟨hkeep, hdecl⟩ (hnone c (List.mem_filter.2 ⟨hmem, by simpa using hread⟩))
  · intro m path o ho
    rcases Assembly.addComments_boundAt hfold m path with
      ⟨before, c, after, a₁, o', hsplit, hc, hafter, hbefore, ho', hdesc⟩ | ⟨-, hsame⟩
    · obtain rfl : o = o' := Option.some.inj (ho.symm.trans ho')
      -- the comments that are not read are put back between those that are
      obtain ⟨front, back, hfront, rfl, hback⟩ := List.filter_eq_append_iff.1 hsplit
      obtain ⟨skipped, rest, rfl, hskipped, hread, rfl⟩ := List.filter_eq_cons_iff.1 hback
      refine ⟨front ++ skipped, c, rest, a₁, ?_, ⟨⟨hc.1, by simpa using hread⟩, hc.2⟩, ?_, ?_, hdesc⟩
      · rw [hfront, List.append_assoc]
      · rintro d hd ⟨⟨hkeep, hread'⟩, hdecl⟩
        exact hafter d (List.mem_filter.2 ⟨hd, by simpa using hread'⟩) ⟨hkeep, hdecl⟩
      · have hempty : (skipped.filter fun d => !isOverview d.lines) = [] :=
          List.filter_eq_nil_iff.2 hskipped
        rw [List.filter_append, hempty, List.append_nil]
        exact hbefore
    · cases hsame.symm.trans ho
  · intro c _ hkeep hnot
    have hover : isOverview c.lines = true := by
      cases hc : isOverview c.lines with
      | true => rfl
      | false => exact absurd ⟨hkeep, hc⟩ hnot
    exact ⟨by simpa [isOverview] using hover, isOverview_routes hover⟩

/-- A function with a deprecated route only, and two functions with one route. -/
def rebound : Project :=
  ofSource "package m\n// @DeprecatedRouter /old [get]\nfunc A()\x7b\x7d
// @Router /x [get]\nfunc B()\x7b\x7d\n// @ID last\n// @Router /x [get]\nfunc C()\x7b\x7d"

set_option maxRecDepth 100000 in
/-- The operation of the last function is bound, and that of a function with a deprecated route only
is not. -/
theorem operation_of_last_declaration_rebound : ∃ doc main r, rebound.build = .ok doc ∧
    rebound.registry = .ok (main, r) ∧
    (∃ c ∈ functionComments r.parseTypes, rebound.Reads c ∧ c.Declares .get "/x") ∧
    (doc.operation? .get "/x").bind (·.operationId) = some "last" ∧
    (∃ c ∈ functionComments r.parseTypes, rebound.settings.tags.keeps c.lines ∧
      c.Declares .get "/old") ∧
    (¬ ∃ c ∈ functionComments r.parseTypes, rebound.Reads c ∧ c.Declares .get "/old") ∧
    doc.operation? .get "/old" = none := by
  have hbuild : rebound.build.toOption.map (fun d => ((d.operation? .get "/x").bind (·.operationId),
      (d.operation? .get "/old").isSome)) = some (some "last", false) := by
    decide +kernel
  have hroutes : rebound.registry.toOption.map (fun mr =>
      (functionComments mr.2.parseTypes).head?.map fun c =>
        (c.routes, rebound.settings.tags.keeps c.lines)) =
          some (some ([⟨.get, "/old", true⟩], true)) := by
    decide +kernel
  cases hb : rebound.build with
  | error e =>
    rw [hb] at hbuild
    cases hbuild
  | ok doc =>
    obtain ⟨main, r, v, hr, -, -, hiff, -, -⟩ := operation_of_last_declaration rebound doc hb
    rw [hb] at hbuild
    rw [hr] at hroutes
    simp only [Except.toOption, Option.map_some, Option.some.injEq, Prod.mk.injEq] at hbuild
    simp only [Except.toOption, Option.map_some, Option.some.injEq, Option.map_eq_some_iff,
      Prod.mk.injEq] at hroutes
    obtain ⟨c, hhead, hc, hkeep⟩ := hroutes
    have hx : (doc.operation? .get "/x").isSome := by
      obtain ⟨o, ho, -⟩ := Option.bind_eq_some_iff.1 hbuild.1
      rw [ho]
      rfl
    refine ⟨doc, main, r, rfl, hr, (hiff _ _).1 hx, hbuild.1, ?_, ?_, ?_⟩
    · exact ⟨c, List.mem_of_head? hhead, hkeep, _, hc ▸ List.mem_singleton_self _, rfl, rfl⟩
    · intro hold
      have hsome := (hiff _ _).2 hold
      rw [hbuild.2] at hsome
      cases hsome
    · simpa using hbuild.2

end Project

end GoApiDoc
