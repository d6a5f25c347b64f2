/-
What a comment declares, read off its lines.

A comment is read annotation by annotation, with types resolved on the way.  Its routes, its
operation id, its deprecation and its tags depend on none of that: each of them is a function of the
lines alone, and every other annotation leaves them as they are.

Whether a comment is read at all is decided by another look at the same lines, which only knows one
of the two words for routes.

* `readEndpoint_declared` — **reading a comment declares what its lines say**.
-/

import GoApiDoc.Proofs.Assembly
import GoApiDoc.Proofs.Directive
import GoApiDoc.Proofs.PathOrder

set_option autoImplicit false

namespace GoApiDoc

variable {word rest line : String} {ctx : AnnotationContext} {c : OperationComment}

/-! ### Lines -/

namespace Route

/-- The route of a route line, from what follows the word. -/
def ofText? (rest : String) (deprecated : Bool) : Option Route :=
  (RouterLine.ofText? rest).bind fun line =>
    (HttpMethod.ofText? line.method).map fun method => ⟨method, line.path, deprecated⟩

/-- The route that a line declares. -/
def ofLine? (line : String) : Option Route :=
  match annotation? line with
  | some ("@router", rest) => ofText? rest false
  | some ("@deprecatedrouter", rest) => ofText? rest true
  | _ => none

/-- The route binds an operation to the method and the path. -/
def IsFor (r : Route) (m : HttpMethod) (path : String) : Prop := r.method = m ∧ r.path = path

instance (r : Route) (m : HttpMethod) (path : String) : Decidable (r.IsFor m path) :=
  inferInstanceAs (Decidable (r.method = m ∧ r.path = path))

end Route

/-- The line says that the operation should not be used any more. -/
def isDeprecation (line : String) : Bool :=
  match annotation? line with
  | some ("@deprecated", _) => true
  | _ => false

/-- What a line with an operation id says: the id, unless it is missing. -/
def idOfLine? (line : String) : Option (Option String) :=
  match annotation? line with
  | some ("@id", rest) => some (Text.nonEmpty rest)
  | _ => none

/-- The tags that a line names. -/
def tagsOfLine (line : String) : List String :=
  match annotation? line with
  | some ("@tags", rest) => Text.commaList rest
  | _ => []

namespace OperationComment

/-- The routes that the lines declare. -/
def routes (c : OperationComment) : List Route := c.lines.filterMap Route.ofLine?

/-- Some line says that the operation should not be used any more. -/
def isDeprecated (c : OperationComment) : Bool := c.lines.any isDeprecation

/-- The operation id, which the last line for one decides. -/
def operationId (c : OperationComment) : Option String :=
  (c.lines.filterMap idOfLine?).getLast?.getD none

/-- The tags that the lines name. -/
def tags (c : OperationComment) : List String := c.lines.flatMap tagsOfLine

end OperationComment

/-! ### What reading leaves alone -/

/-- Adds what an annotation declares. -/
def Declared.add (d : Declared) (word rest : String) : Declared :=
  match word with
  | "@router" => { d with routes := d.routes ++ (Route.ofText? rest false).toList }
  | "@deprecatedrouter" => { d with routes := d.routes ++ (Route.ofText? rest true).toList }
  | "@deprecated" => { d with deprecated := true }
  | "@id" => { d with operationId := Text.nonEmpty rest }
  | "@tags" => { d with tags := d.tags ++ Text.commaList rest }
  | _ => d

theorem Declared.add_of_notMem {d : Declared} (hw : word ∉ bindingWords) : d.add word rest = d := by
  simp only [bindingWords, List.mem_cons, List.not_mem_nil, or_false, not_or] at hw
  simp [Declared.add, hw]

/-- Adds what a line declares. -/
def Declared.addLine (d : Declared) (line : String) : Declared :=
  match annotation? line with
  | some (word, rest) => d.add word rest
  | none => d

namespace Annotating

variable {α β : Type}

/-- The computation leaves what the endpoint is selected and bound by. -/
def Frames (x : Annotating α) : Prop :=
  ∀ st : Annotated, (x.runOn st).2.endpoint.declared = st.endpoint.declared

theorem frames_bind {x : Annotating α} {f : α → Annotating β} (hx : Frames x)
    (hf : ∀ a, Frames (f a)) : Frames (x >>= f) := by
  intro st
  have hst := hx st
  rcases hrun : runOn x st with ⟨e | a, st'⟩
  all_goals rw [hrun] at hst
  · rwa [runOn_bind_error f hrun]
  · rw [runOn_bind_ok f hrun]
    exact (hf a st').trans hst

theorem compositional_frames : Compositional fun _ x => Frames x where
  pure := fun _ _ => rfl
  throw := fun _ _ => rfl
  bind := frames_bind
  read := fun _ hf st => hf st st
  resolving := fun _ _ => rfl
  change := fun hf st => hf st.endpoint

/-! ### Reading lines -/

variable {st st' : Annotated}

theorem declared_addRoute {deprecated : Bool}
    (h : (addRoute rest deprecated).runOn st = (.ok (), st')) :
    st'.endpoint.declared = { st.endpoint.declared with
      routes := st.endpoint.declared.routes ++ (Route.ofText? rest deprecated).toList } := by
  unfold addRoute at h
  split at h
  · cases h
  · next line hline =>
    split at h
    · cases h
    · next method hmethod =>
      cases h
      simp [Endpoint.declared, Route.ofText?, hline, hmethod]

theorem declared_addDirective (h : (addDirective ctx word rest).runOn st = (.ok (), st')) :
    st'.endpoint.declared = st.endpoint.declared.add (Text.asciiLower word) rest := by
  by_cases hw : Text.asciiLower word ∈ bindingWords
  · simp only [bindingWords, List.mem_cons, List.not_mem_nil, or_false] at hw
    unfold addDirective at h
    rcases hw with hw | hw | hw | hw | hw
    all_goals rw [hw] at h ⊢
    · exact declared_addRoute h
    · exact declared_addRoute h
    all_goals
      cases h
      rfl
  · have hframe : Frames (addDirective ctx word rest) := compositional_frames.addDirective hw
    have hframe := hframe st
    rw [h] at hframe
    rw [Declared.add_of_notMem hw]
    exact hframe

/-- **Reading a line** declares what the line says. -/
theorem declared_addLine (h : (addLine ctx line).runOn st = (.ok (), st')) :
    st'.endpoint.declared = st.endpoint.declared.addLine line := by
  unfold addLine at h
  unfold Declared.addLine annotation?
  dsimp only at h
  split at h
  · next hat =>
    rw [if_pos hat]
    generalize Text.splitAttribute (lineText line) = split at h ⊢
    obtain ⟨word, rest⟩ := split
    exact declared_addDirective (runOn_inComment_eq_ok h)
  · next hat =>
    rw [if_neg hat]
    cases h
    rfl

theorem declared_forM {lines : List String}
    (h : (lines.forM (addLine ctx)).runOn st = (.ok (), st')) :
    st'.endpoint.declared = lines.foldl Declared.addLine st.endpoint.declared := by
  induction lines generalizing st with
  | nil =>
    cases h
    rfl
  | cons line lines ih =>
    change runOn (addLine ctx line >>= fun _ => lines.forM (addLine ctx)) st = _ at h
    rcases hrun : runOn (addLine ctx line) st with ⟨e | u, st₁⟩
    · cases (runOn_bind_error _ hrun).symm.trans h
    · rw [runOn_bind_ok _ hrun] at h
      rw [ih h, declared_addLine hrun, List.foldl_cons]

end Annotating

/-! ### Whole comments -/

namespace Declared

theorem addLine_eq (d : Declared) (line : String) : d.addLine line =
    { routes := d.routes ++ (Route.ofLine? line).toList
      deprecated := d.deprecated || isDeprecation line
      operationId := (idOfLine? line).getD d.operationId
      tags := d.tags ++ tagsOfLine line } := by
  unfold addLine Route.ofLine? isDeprecation idOfLine? tagsOfLine
  cases annotation? line with
  | none => simp
  | some wr =>
    obtain ⟨word, rest⟩ := wr
    by_cases hw : word ∈ bindingWords
    · simp only [bindingWords, List.mem_cons, List.not_mem_nil, or_false] at hw
      rcases hw with rfl | rfl | rfl | rfl | rfl
      all_goals simp [add]
    · change d.add word rest = _
      rw [add_of_notMem hw]
      simp only [bindingWords, List.mem_cons, List.not_mem_nil, or_false, not_or] at hw
      simp [hw]

theorem foldl_addLine (lines : List String) (d : Declared) : lines.foldl addLine d =
    { routes := d.routes ++ lines.filterMap Route.ofLine?
      deprecated := d.deprecated || lines.any isDeprecation
      operationId := (lines.filterMap idOfLine?).getLast?.getD d.operationId
      tags := d.tags ++ lines.flatMap tagsOfLine } := by
  induction lines generalizing d with
  | nil => simp
  | cons line lines ih =>
    rw [List.foldl_cons, ih, addLine_eq]
    cases hr : Route.ofLine? line with
    | none | some r =>
      cases hi : idOfLine? line with
      | none => simp [hr, hi, Bool.or_assoc]
      | some id => simp [hr, hi, Bool.or_assoc, List.getLast?_cons]

end Declared

/-- **Reading a comment** declares what its lines say. -/
theorem readEndpoint_declared {g g' : Resolver}
    {e : Endpoint} (h : readEndpoint ctx c.lines g = .ok (e, g')) :
    e.routes = c.routes ∧ e.operation.deprecated = c.isDeprecated ∧
      e.operation.operationId = c.operationId ∧ e.operation.tags = c.tags := by
  have hread : e.declared = c.lines.foldl Declared.addLine {} :=
    Annotating.declared_forM (readEndpoint_eq_ok_iff.1 h)
  rw [Declared.foldl_addLine] at hread
  refine ⟨congrArg Declared.routes hread, ?_, congrArg Declared.operationId hread,
    congrArg Declared.tags hread⟩
  exact (congrArg Declared.deprecated hread).trans (Bool.false_or _)

/-! ### Comments that are not read -/

/-- A line with the word for routes is seen as a route line. -/
theorem isRouteLine_of_annotation (h : annotation? line = some ("@router", rest)) :
    isRouteLine line = true := by
  have hline : (Annotating.lineText line).toList <+:
      Text.trimStart (Text.trimStartOf '/' (Text.trim line)).toList := by
    rw [Annotating.lineText, Text.trim, String.toList_ofList]
    exact Text.dropTrailing_begins _ _
  have hprefix := (Text.splitAttribute_begins (Annotating.lineText line)).trans hline
  unfold annotation? at h
  split at h
  · generalize Text.splitAttribute (Annotating.lineText line) = split at h hprefix
    obtain ⟨word, tail⟩ := split
    have hword : Text.asciiLower word = "@router" := congrArg Prod.fst (Option.some.inj h)
    unfold isRouteLine
    rw [Text.hasPrefix_iff, ← hword, Text.asciiLower, Text.asciiLower, String.toList_ofList,
      String.toList_ofList, String.toList_ofList]
    exact hprefix.map Char.toLower
  · cases h

/-- A comment that counts as one about the whole interface declares no routes but deprecated
ones. -/
theorem isOverview_routes (h : isOverview c.lines = true) :
    ∀ r ∈ c.routes, r.deprecated = true := by
  intro r hr
  obtain ⟨line, hline, hof⟩ := List.mem_filterMap.1 hr
  unfold Route.ofLine? at hof
  split at hof
  · next rest hann =>
    have hroute : c.lines.any isRouteLine = true :=
      List.any_eq_true.2 ⟨line, hline, isRouteLine_of_annotation hann⟩
    rw [isOverview, hroute] at h
    cases h
  · next rest hann =>
    obtain ⟨l, -, hmap⟩ := Option.bind_eq_some_iff.1 hof
    obtain ⟨m, -, rfl⟩ := Option.map_eq_some_iff.1 hmap
    rfl
  · cases hof

/-! ### The order of comments -/

/-- **The comments come in the order of the paths** of their files. -/
theorem functionComments_inPathOrder (r : Registry) : (functionComments r).Pairwise fun c d =>
    Path.le (r.pathOf c.file) (r.pathOf d.file) = true := by
  have hfiles : r.operationFiles.Pairwise fun a b => Path.le (r.pathOf a) (r.pathOf b) = true := by
    refine .filter _ (List.pairwise_mergeSort ?_ ?_ _)
    · exact fun a b c => Path.le_trans
    · exact fun a b => by simpa using Path.le_total (r.pathOf a) (r.pathOf b)
  refine List.pairwise_flatMap.2 ⟨?_, hfiles.imp ?_⟩
  · intro file _
    refine List.pairwise_map.2 (List.pairwise_of_forall fun _ _ => ?_)
    exact or_self_iff.1 (Path.le_total _ _)
  · intro a b hab c hc d hd
    obtain ⟨_, -, rfl⟩ := List.mem_map.1 hc
    obtain ⟨_, -, rfl⟩ := List.mem_map.1 hd
    exact hab

end GoApiDoc
