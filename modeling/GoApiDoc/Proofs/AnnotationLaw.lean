/-
Laws of operations.

Operations are put together from the lines of comments: parameters and responses with the schemas of
types, attributes of parameters, headers, further members and a few texts.  A law is a condition on
operations, with conditions on what they are made of, that passes through these steps, provided that
the types which the lines look up and the members which they list satisfy conditions too.  The types
are resolved under a discipline, so a condition may depend on the state.

* `Annotating.respects_addLine` — **reading a line respects every law**.
-/

import GoApiDoc.Operation.Basic
import GoApiDoc.Proofs.Discipline
import GoApiDoc.Proofs.Member

set_option autoImplicit false

namespace GoApiDoc

variable {line word rest attributes type : String} {p : Parameter}

/-! ### Running computations -/

namespace Annotating

variable {α β : Type}

/-- The outcome of a computation from a state, and the state that is left. -/
def runOn (x : Annotating α) (st : Annotated) : Except DocError α × Annotated := x.run.run st

/-- A composed computation goes on from the state that its first part leaves, unless that fails. -/
theorem runOn_bind (x : Annotating α) (f : α → Annotating β) (st : Annotated) :
    runOn (x >>= f) st = match runOn x st with
      | (.ok a, st') => runOn (f a) st'
      | (.error e, st') => (.error e, st') := by
  simp only [runOn, ExceptT.run_bind, StateT.run_bind]
  generalize StateT.run (ExceptT.run x) st = p
  obtain ⟨r, st'⟩ := p
  cases r with
  | ok a | error e => rfl

theorem runOn_bind_ok {x : Annotating α} {st st' : Annotated} {a : α} (f : α → Annotating β)
    (h : runOn x st = (.ok a, st')) : runOn (x >>= f) st = runOn (f a) st' := by
  rw [runOn_bind, h]

theorem runOn_bind_error {x : Annotating α} {st st' : Annotated} {e : DocError}
    (f : α → Annotating β) (h : runOn x st = (.error e, st')) :
    runOn (x >>= f) st = (.error e, st') := by
  rw [runOn_bind, h]

/-- An error about a line names it; the state is left as it is. -/
theorem runOn_inComment (x : Annotating α) (line : String) (st : Annotated) :
    runOn (tryCatch x fun e => throw (e.inComment line)) st =
      ((runOn x st).1.mapError (DocError.inComment line), (runOn x st).2) := by
  change runOn (.tryCatch x fun e => throw (e.inComment line)) st = _
  simp only [runOn, ExceptT.tryCatch, ExceptT.run, ExceptT.mk, StateT.run_bind]
  generalize StateT.run x st = p
  obtain ⟨r, st'⟩ := p
  cases r with
  | ok a | error e => rfl

theorem runOn_inComment_eq_ok {x : Annotating α} {st st' : Annotated} {a : α}
    (h : runOn (tryCatch x fun e => throw (e.inComment line)) st = (.ok a, st')) :
    runOn x st = (.ok a, st') := by
  rw [runOn_inComment] at h
  rcases hrun : runOn x st with ⟨e | b, st₁⟩
  all_goals rw [hrun] at h
  · cases h
  · cases h
    rfl

end Annotating

/-! ### What lines look up and list -/

/-- The annotation of a line: its word in small letters, and the rest. -/
def annotation? (line : String) : Option (String × String) :=
  if Text.hasPrefix "@" (Annotating.lineText line) then
    let (word, rest) := Text.splitAttribute (Annotating.lineText line)
    some (Text.asciiLower word, rest)
  else none

/-- The texts that are looked up for a written type: the type of a parameter, and the names in the
type and in that of its items. -/
def lookedUp (written : String) : List String :=
  simpleType written :: ((Composite.ofText written).names ++
    (Composite.ofText ((Text.stripPrefix "[]" written).getD written)).names)

/-- The names of the members that the attributes of a parameter list. -/
def listedMembers (attributes : String) : List String :=
  (attributePairs attributes).flatMap fun a =>
    if a.1 = "extensions" then (Field.extensionsOf a.2).keys else []

/-- The types that an annotation looks up. -/
def annotatedTypes (word rest : String) : List String :=
  match word with
  | "@param" => ((ParamLine.ofText? rest).map fun l => lookedUp l.type).getD []
  | "@success" | "@failure" | "@response" =>
    ((ResponseLine.ofText? rest).map fun l => lookedUp l.type).getD []
  | _ => []

/-- The members that an annotation lists. -/
def annotatedMembers (word rest : String) : List String :=
  match word with
  | "@param" => ((ParamLine.ofText? rest).map fun l => listedMembers l.attributes).getD []
  | _ => []

/-- The types that a line looks up. -/
def typesOfLine (line : String) : List String :=
  match annotation? line with
  | some (word, rest) => annotatedTypes word rest
  | none => []

/-- The members that a line lists. -/
def membersOfLine (line : String) : List String :=
  match annotation? line with
  | some (word, rest) => annotatedMembers word rest
  | none => []

theorem typesOfLine_eq (h : annotation? line = some (word, rest)) :
    typesOfLine line = annotatedTypes word rest := by
  unfold typesOfLine
  rw [h]

theorem membersOfLine_eq (h : annotation? line = some (word, rest)) :
    membersOfLine line = annotatedMembers word rest := by
  unfold membersOfLine
  rw [h]

/-! ### Laws -/

/-- The parameter says nothing about its values, but for their type. -/
structure Parameter.IsBlank (p : Parameter) : Prop where
  schema : p.schema = none
  items : p.items = none
  defaultValue : p.defaultValue = none
  exampleValue : p.exampleValue = none
  enumValues : p.enumValues = []
  extensions : p.extensions = []

open Annotating (flattened structParameters addHeaderTo)

/-- Conditions on operations and on what they are made of, in a state, that pass through everything
that annotations do. -/
structure AnnotationLaw where
  source : Discipline
  composes : source.Composes
  /-- The condition on the texts that are looked up. -/
  AdmitsText : String → Prop
  /-- The condition on the members that are listed. -/
  AdmitsMember : String → Prop
  /-- The condition on attributes. -/
  AdmitsAttributes : ParamAttributes → Prop
  /-- The condition on a parameter before its attributes are added. -/
  AdmitsBare : Resolver → Parameter → Prop
  /-- The condition on a parameter. -/
  AdmitsParameter : Resolver → Parameter → Prop
  /-- The condition on an operation. -/
  AdmitsOperation : Resolver → Operation → Prop
  reads : ∀ {text}, AdmitsText text → ∀ g file, source.Reads g text file
  bareLater : ∀ {g g' p}, source.Later g g' → AdmitsBare g p → AdmitsBare g' p := by
    intros; assumption
  parameterLater : ∀ {g g' p}, source.Later g g' → AdmitsParameter g p → AdmitsParameter g' p := by
    intros; assumption
  operationLater : ∀ {g g' o}, source.Later g g' → AdmitsOperation g o → AdmitsOperation g' o := by
    intros; assumption
  attributes : ∀ {type isArray text a}, (∀ key ∈ listedMembers text, AdmitsMember key) →
    ParamAttributes.ofText type isArray text = .ok a → AdmitsAttributes a
  bare : ∀ {g} {p : Parameter}, p.IsBlank → AdmitsBare g p
  array : ∀ {g} {p : Parameter}, p.IsBlank → ∀ format type, AdmitsBare g { p with
    type := some "array", collectionFormat := some format, items := some (Schema.ofType type) }
  named : ∀ {p : Parameter} {g s}, p.IsBlank → source.Inv g → source.IsSchema g s →
    AdmitsBare g { p with
      type := (flattened g s).type, format := (flattened g s).format
      enumValues := (flattened g s).enumValues
      extensions := p.extensions.extend (flattened g s).extensions }
  body : ∀ {p : Parameter} {g s}, p.IsBlank → source.IsSchema g s →
    AdmitsBare g { p with schema := some s }
  onSchema : ∀ {g p s a}, AdmitsBare g p → p.schema = some s → AdmitsAttributes a →
    AdmitsParameter g { p with schema := some (a.onSchema s) }
  onParameter : ∀ {g p a}, AdmitsBare g p → p.schema = none → AdmitsAttributes a →
    AdmitsParameter g (a.onParameter p)
  struct : ∀ {g s}, source.Inv g → source.IsSchema g s → ∀ format place,
    ∀ p ∈ structParameters g format place (flattened g s), AdmitsParameter g p
  empty : ∀ {g}, AdmitsOperation g {}
  parameter : ∀ {g o p}, AdmitsOperation g o → AdmitsParameter g p →
    AdmitsOperation g { o with parameters := o.parameters ++ [p] }
  response : ∀ {g o schema}, AdmitsOperation g o → source.IsOption g schema → ∀ key text,
    AdmitsOperation g { o with responses := o.responses.insert key ⟨text, schema, []⟩ }
  header : ∀ {g o}, AdmitsOperation g o → ∀ name h, AdmitsOperation g { o with
    responses := o.responses.mapValues fun r => { r with headers := r.headers.insert name h } }
  headerTo : ∀ {g o}, AdmitsOperation g o → ∀ key name h,
    AdmitsOperation g (addHeaderTo key name h o)
  member : ∀ {g o key v}, AdmitsOperation g o → IsVendor key → v.Distinct →
    AdmitsOperation g { o with extensions := o.extensions.insert key v }
  security : ∀ {g o}, AdmitsOperation g o → ∀ text,
    AdmitsOperation g { o with security := o.security ++ requirementsOf text }
  other : ∀ {g o o'}, AdmitsOperation g o → o'.parameters = o.parameters →
    o'.responses = o.responses → o'.security = o.security → o'.extensions = o.extensions →
    AdmitsOperation g o'

namespace AnnotationLaw

variable (law : AnnotationLaw)

/-- The law admits what an annotation looks up and lists. -/
structure AdmitsAnnotation (word rest : String) : Prop where
  types : ∀ text ∈ annotatedTypes word rest, law.AdmitsText text
  members : ∀ key ∈ annotatedMembers word rest, law.AdmitsMember key

/-- The law admits what a line looks up and lists. -/
structure AdmitsLine (line : String) : Prop where
  types : ∀ text ∈ typesOfLine line, law.AdmitsText text
  members : ∀ key ∈ membersOfLine line, law.AdmitsMember key

theorem AdmitsLine.annotation {law : AnnotationLaw} (h : law.AdmitsLine line)
    (hline : annotation? line = some (word, rest)) : law.AdmitsAnnotation word rest := by
  have htypes := h.types
  have hmembers := h.members
  rw [typesOfLine_eq hline] at htypes
  rw [membersOfLine_eq hline] at hmembers
  exact ⟨htypes, hmembers⟩

/-- The state is as it should be, and the law holds of the operation. -/
structure Governs (st : Annotated) : Prop where
  resolver : law.source.Inv st.resolver
  operation : law.AdmitsOperation st.resolver st.endpoint.operation

end AnnotationLaw

/-! ### Parameters for the properties of a struct -/

namespace Annotating

variable {g : Resolver} {s : Schema} {P : Schema → Prop} {Q : Parameter → Prop}
  {format place name : String} {required : List String}

/-- A schema stands for itself, or for one of the definitions. -/
theorem forall_dereference (hg : ∀ e ∈ g.definitions, P e.2) (hs : P s) : P (g.dereference s) := by
  unfold Resolver.dereference
  cases ht : s.refName?.bind fun name => g.definitions.get? name with
  | none => exact hs
  | some t =>
    obtain ⟨name, -, hget⟩ := Option.bind_eq_some_iff.1 ht
    exact hg _ (Table.mem_of_get? hget)

theorem forall_flattened (hg : ∀ e ∈ g.definitions, P e.2) (hs : P s) (hall : ∀ t ∈ s.allOf, P t) :
    P (flattened g s) := by
  unfold flattened
  split
  · next only heq =>
    split
    · exact forall_dereference hg (hall only (by simp [heq]))
    · exact forall_dereference hg hs
  · exact forall_dereference hg hs

/-- What the parameter for a property takes from the schema that the property stands for. -/
structure TakenFrom (g : Resolver) (target : Schema) (p : Parameter) : Prop where
  schema : p.schema = none
  items : ∀ s, p.items = some s → isSimpleType (s.type.getD "") = true ∧
    ∃ t, target.items = some t ∧ s = g.dereference t
  extensions : p.extensions = target.extensions
  enumValues : p.enumValues = target.enumValues
  defaultValue : p.defaultValue = target.defaultValue
  exampleValue : p.exampleValue = target.exampleValue

theorem takenFrom_of_propertyParameter?
    (h : propertyParameter? g format place required name s = some p) :
    TakenFrom g (flattened g s) p := by
  unfold propertyParameter? at h
  dsimp only at h
  split at h
  · split at h
    · next items hitems =>
      obtain ⟨t, ht, rfl⟩ := Option.map_eq_some_iff.1 hitems
      split at h
      · next hsimple =>
        cases h
        exact ⟨rfl, by rintro _ ⟨⟩; exact ⟨hsimple, t, ht, rfl⟩, rfl, rfl, rfl, rfl⟩
      · cases h
    · cases h
  · split at h
    · cases h
      exact ⟨rfl, by rintro _ ⟨⟩, rfl, rfl, rfl, rfl⟩
    · cases h
  · cases h

/-- The properties of the combined schemas are put on top of those of the struct. -/
theorem forall_structParameters (hs : ∀ e ∈ s.properties, P e.2)
    (hparts : ∀ t ∈ s.allOf, ∀ e ∈ (g.dereference t).properties, P e.2)
    (hQ : ∀ t p, P t → TakenFrom g (flattened g t) p → Q p) :
    ∀ p ∈ structParameters g format place s, Q p := by
  have hfold : ∀ (parts : List Schema) (t : Table Schema),
      (∀ part ∈ parts, ∀ e ∈ part.properties, P e.2) → (∀ e ∈ t, P e.2) →
      ∀ e ∈ parts.foldl (fun t part => t.extend part.properties) t, P e.2 := by
    intro parts
    induction parts with
    | nil => exact fun t _ ht => ht
    | cons part parts ih =>
      intro t hall ht
      obtain ⟨hpart, hall⟩ := List.forall_mem_cons.1 hall
      exact ih _ hall fun e he => (Table.mem_extend he).elim (ht e) (hpart e)
  intro p hp
  obtain ⟨e, he, hsome⟩ := List.mem_filterMap.1 hp
  refine hQ e.2 p (hfold _ _ ?_ hs e he) (takenFrom_of_propertyParameter? hsome)
  exact List.forall_mem_map.2 hparts

end Annotating

/-! ### The judgement -/

namespace Annotating

variable {α β : Type} {law : AnnotationLaw} {st : Annotated} {x : Annotating α}
  {φ : Resolver → α → Prop} {ψ : Resolver → β → Prop}

/-- The computation leaves a later state under the law, also when it fails, and its value satisfies
the condition there. -/
def Respects (law : AnnotationLaw) (x : Annotating α) (st : Annotated)
    (φ : Resolver → α → Prop) : Prop :=
  law.Governs st → law.source.Later st.resolver (x.runOn st).2.resolver ∧
    law.Governs (x.runOn st).2 ∧ ∀ a, (x.runOn st).1 = .ok a → φ (x.runOn st).2.resolver a

/-- The judgement where nothing is asked of the value. -/
abbrev Passes (law : AnnotationLaw) (x : Annotating α) (st : Annotated) : Prop :=
  Respects law x st fun _ _ => True

theorem respects_pure {a : α} (h : φ st.resolver a) : Respects law (pure a) st φ :=
  fun hst => ⟨law.source.refl _, hst, fun _ hb => Except.ok.inj hb ▸ h⟩

theorem respects_throw (e : DocError) : Respects law (throw e : Annotating α) st φ :=
  fun hst => ⟨law.source.refl _, hst, fun _ hb => nomatch hb⟩

theorem respects_bind {f : α → Annotating β} (hx : Respects law x st φ)
    (hf : ∀ a st', law.source.Later st.resolver st'.resolver → φ st'.resolver a →
      Respects law (f a) st' ψ) : Respects law (x >>= f) st ψ := by
  intro hst
  obtain ⟨hlater, hgoverns, hval⟩ := hx hst
  rcases hrun : runOn x st with ⟨e | a, st'⟩
  all_goals rw [hrun] at hlater hgoverns hval
  · rw [runOn_bind_error f hrun]
    exact ⟨hlater, hgoverns, fun b hb => nomatch hb⟩
  · rw [runOn_bind_ok f hrun]
    obtain ⟨hlater', hrest⟩ := hf a st' hlater (hval a rfl) hgoverns
    exact ⟨law.source.trans hlater hlater', hrest⟩

/-- What is read may be used. -/
theorem respects_get_bind {f : Annotated → Annotating β}
    (hf : law.Governs st → Respects law (f st) st ψ) : Respects law (get >>= f) st ψ :=
  fun hst => hf hst hst

theorem respects_ofResult {r : Except DocError α} (h : ∀ a, r = .ok a → φ st.resolver a) :
    Respects law (ofResult r) st φ := by
  cases r with
  | ok a => exact respects_pure (h a rfl)
  | error e => exact respects_throw e

/-- A result that tells nothing. -/
theorem respects_ofAny (r : Except DocError α) : Passes law (ofResult r) st :=
  respects_ofResult fun _ _ => trivial

theorem respects_resolving {x : Resolving α} (hx : law.source.Holds x st.resolver φ) :
    Respects law (resolving x) st φ := by
  intro hst
  obtain ⟨hlater, hinv, hval, -⟩ := hx hst.resolver
  exact ⟨hlater, ⟨hinv, law.operationLater hlater hst.operation⟩, hval⟩

theorem respects_change {f : Endpoint → Endpoint} (h : ∀ e : Endpoint,
    law.AdmitsOperation st.resolver e.operation →
      law.AdmitsOperation st.resolver (f e).operation) : Passes law (change f) st :=
  fun hst => ⟨law.source.refl _, ⟨hst.resolver, h _ hst.operation⟩, fun _ _ => trivial⟩

/-- A change of a text or a mark. -/
theorem respects_other {f : Endpoint → Endpoint} (h : ∀ e, (f e).operation.parameters =
      e.operation.parameters ∧ (f e).operation.responses = e.operation.responses ∧
      (f e).operation.security = e.operation.security ∧
      (f e).operation.extensions = e.operation.extensions) : Passes law (change f) st := by
  refine respects_change fun e he => ?_
  obtain ⟨hparameters, hresponses, hsecurity, hextensions⟩ := h e
  exact law.other he hparameters hresponses hsecurity hextensions

theorem respects_forM {γ : Type} {f : γ → Annotating Unit} (l : List γ)
    (hf : ∀ c ∈ l, ∀ st', law.source.Later st.resolver st'.resolver → Passes law (f c) st') :
    Passes law (l.forM f) st := by
  induction l generalizing st with
  | nil => exact respects_pure trivial
  | cons c l ih =>
    change Passes law (f c >>= fun _ => l.forM f) st
    refine respects_bind (hf c (.head _) st (law.source.refl _)) fun _ st' hst' _ => ?_
    exact ih fun c' hc' st'' hst'' =>
      hf c' (.tail _ hc') st'' (law.source.trans hst' hst'')

theorem respects_inComment {x : Annotating Unit} (hx : Passes law x st) (line : String) :
    Passes law (tryCatch x fun e => throw (e.inComment line)) st := by
  intro hst
  rw [runOn_inComment]
  exact ⟨(hx hst).1, (hx hst).2.1, fun _ _ => trivial⟩

/-! ### Parameters -/

theorem respects_addParameter (hp : law.AdmitsParameter st.resolver p) :
    Passes law (change (·.addParameter p)) st :=
  respects_change fun _ he => law.parameter he hp

theorem respects_addWithAttributes (hp : law.AdmitsBare st.resolver p)
    (hmembers : ∀ key ∈ listedMembers attributes, law.AdmitsMember key) :
    Passes law (addWithAttributes p attributes) st := by
  unfold addWithAttributes
  refine respects_get_bind fun _ => ?_
  refine respects_bind (φ := fun _ => law.AdmitsAttributes)
    (respects_ofResult fun a ha => law.attributes hmembers ha) fun a st' hst' ha => ?_
  have hp' := law.bareLater hst' hp
  refine respects_addParameter ?_
  split
  · next s hs => exact law.onSchema hp' hs ha
  · next hs => exact law.onParameter hp' hs ha

theorem respects_addObjectParam (ctx : AnnotationContext) (hp : p.IsBlank)
    (htype : law.AdmitsText type)
    (hmembers : ∀ key ∈ listedMembers attributes, law.AdmitsMember key) :
    Passes law (addObjectParam ctx p type attributes) st := by
  unfold addObjectParam
  refine respects_bind (respects_resolving (Resolver.obeys_resolveText (law.reads htype _ ctx.file)))
    fun s st' _ hs => ?_
  refine respects_get_bind fun hst => ?_
  dsimp only
  split
  · exact respects_addWithAttributes (law.named hp hst.resolver hs) hmembers
  · split
    · refine respects_forM _ fun q hq st'' hst'' => respects_addParameter ?_
      exact law.parameterLater hst'' (law.struct hst.resolver hs _ _ q hq)
    · exact respects_throw _

theorem respects_addPlainParam (ctx : AnnotationContext) (hp : p.IsBlank) {shape : ParamShape}
    (htype : shape = .object → law.AdmitsText type)
    (hmembers : ∀ key ∈ listedMembers attributes, law.AdmitsMember key) :
    Passes law (addPlainParam ctx p shape type attributes) st := by
  cases shape with
  | simple =>
    rw [addPlainParam]
    refine respects_addWithAttributes (law.bare ?_) hmembers
    exact ⟨hp.schema, hp.items, hp.defaultValue, hp.exampleValue, hp.enumValues, hp.extensions⟩
  | array =>
    rw [addPlainParam]
    split
    · exact respects_addWithAttributes (law.array hp _ _) hmembers
    · exact respects_throw _
  | object =>
    rw [addPlainParam]
    exact respects_addObjectParam ctx hp (htype rfl) hmembers

theorem shapeOf_object {place written : String} (h : (shapeOf place written).1 = .object) :
    (shapeOf place written).2 = simpleType written := by
  unfold shapeOf at h ⊢
  split at h
  · cases h
  · dsimp only at h ⊢
    split at h
    · cases h
    · next hsimple => rw [if_neg hsimple]

section Types

variable {written : String} (h : ∀ text ∈ lookedUp written, law.AdmitsText text)

include h

theorem reads_written (file : FileId) : ∀ name ∈ (Composite.ofText written).names, ∀ g,
    law.source.Reads g name file :=
  fun name hname g => law.reads (h name (.tail _ (List.mem_append_left _ hname))) g file

theorem respects_items {elem : String} (helem : (Text.stripPrefix "[]" written).getD written = elem)
    (file : FileId) (g : Resolver) :
    law.source.Holds (annotatedSchema file elem) g law.source.IsSchema := by
  refine obeys_annotatedSchema law.composes fun name hname g => law.reads (h name ?_) g file
  rw [← helem] at hname
  exact .tail _ (List.mem_append_right _ hname)

theorem respects_bodySchema (ctx : AnnotationContext) (shape : ParamShape) (type : String) :
    Respects law (bodySchema ctx shape written type) st law.source.IsSchema := by
  cases shape with
  | simple =>
    rw [bodySchema]
    exact respects_pure (law.composes.ofType type)
  | array =>
    rw [bodySchema]
    refine respects_bind (respects_resolving (respects_items h rfl ctx.file _)) fun s st' _ hs => ?_
    exact respects_pure (law.source.array hs)
  | object =>
    rw [bodySchema]
    exact respects_resolving (obeys_annotatedSchema law.composes (reads_written h ctx.file))

theorem respects_responseSchema (ctx : AnnotationContext) (kind : String) :
    Respects law (responseSchema ctx kind written) st law.source.IsOption := by
  have harray : ∀ elem, (∀ g, law.source.Holds (annotatedSchema ctx.file elem) g
      law.source.IsSchema) → Respects law (do
        return some (.array (← resolving (annotatedSchema ctx.file elem)))) st
        law.source.IsOption := by
    intro elem helem
    refine respects_bind (respects_resolving (helem _)) fun s st' _ hs => respects_pure ?_
    exact fun t ht => Option.some.inj ht ▸ law.source.array hs
  have hwritten := reads_written h ctx.file
  unfold responseSchema
  split
  · split
    · next elem helem => exact harray elem (respects_items h (by rw [helem]; rfl) ctx.file)
    · exact respects_resolving (obeys_annotatedSchema? law.composes hwritten)
  · exact harray written fun g => obeys_annotatedSchema law.composes hwritten
  · dsimp only
    split
    · exact respects_pure fun t ht => Option.some.inj ht ▸ law.composes.ofType _
    · exact respects_throw _

end Types

theorem respects_addParam (ctx : AnnotationContext) (h : law.AdmitsAnnotation "@param" rest) :
    Passes law (addParam ctx rest) st := by
  obtain ⟨htypes, hmembers⟩ := h
  simp only [annotatedTypes, annotatedMembers] at htypes hmembers
  unfold addParam
  split
  · exact respects_throw _
  · next line hline =>
    let p : Parameter :=
      { name := line.name, place := line.place
        required := ["true", "required"].contains (Text.asciiLower line.required)
        description := Text.nonEmpty line.description }
    have hp : p.IsBlank := ⟨rfl, rfl, rfl, rfl, rfl, rfl⟩
    simp only [hline, Option.map_some, Option.getD_some] at htypes hmembers
    have hobject : (shapeOf line.place line.type).1 = .object →
        law.AdmitsText (shapeOf line.place line.type).2 := by
      intro hshape
      rw [shapeOf_object hshape]
      exact htypes _ (.head _)
    dsimp only
    split
    iterate 4
      · exact respects_addPlainParam ctx hp hobject hmembers
    · refine respects_bind (respects_bodySchema htypes ctx _ _) fun s st' _ hs => ?_
      exact respects_addWithAttributes (law.body hp hs) hmembers
    · exact respects_throw _

/-! ### Responses -/

theorem respects_addResponses (line codes description : String) {schema : Option Schema}
    (hs : law.source.IsOption st.resolver schema) :
    Passes law (addResponses line codes description schema) st := by
  refine respects_forM _ fun code _ st' hst' => ?_
  refine respects_bind (respects_ofAny _) fun kv st'' hst'' _ => ?_
  refine respects_change fun _ he => law.response he (fun s hsome => ?_) _ _
  exact law.composes.schemaLater (law.source.trans hst' hst'') (hs s hsome)

theorem respects_addResponse (ctx : AnnotationContext)
    (h : ∀ line, ResponseLine.ofText? rest = some line →
      ∀ text ∈ lookedUp line.type, law.AdmitsText text) : Passes law (addResponse ctx rest) st := by
  unfold addResponse
  split
  · unfold addEmptyResponse
    dsimp only
    split
    · exact respects_throw _
    · exact respects_addResponses _ _ _ fun s hs => by cases hs
  · next line hline =>
    refine respects_bind (respects_responseSchema (h line hline) ctx _) fun schema st' _ hs => ?_
    exact respects_addResponses _ _ _ hs

theorem respects_addHeader (rest : String) : Passes law (addHeader rest) st := by
  unfold addHeader
  split
  · exact respects_throw _
  split
  · exact respects_change fun _ he => law.header he _ _
  · refine respects_forM _ fun code _ st' _ => ?_
    refine respects_bind (respects_ofAny _) fun kv st'' _ _ => ?_
    exact respects_change fun _ he => law.headerTo he _ _ _

/-! ### Lines -/

theorem respects_addRoute (rest : String) (deprecated : Bool) :
    Passes law (addRoute rest deprecated) st := by
  unfold addRoute
  split
  · exact respects_throw _
  · split
    · exact respects_throw _
    · exact respects_other fun _ => ⟨rfl, rfl, rfl, rfl⟩

section Members

variable {word : String} (hword : Text.hasPrefix "@x-" (Text.asciiLower word) = true)

include hword

theorem respects_addCodeSamples (ctx : AnnotationContext) :
    Passes law (addCodeSamples ctx word) st := by
  unfold addCodeSamples
  refine respects_get_bind fun _ => respects_bind (respects_ofAny _) fun text st' _ _ => ?_
  split
  · next v hv =>
    refine respects_change fun _ he => law.member he (isVendor_trimStartOf hword) ?_
    exact Json.distinct_parse? hv
  · exact respects_throw _

theorem respects_addExtension (rest : String) : Passes law (addExtension word rest) st := by
  unfold addExtension
  split
  · exact respects_throw _
  · refine respects_change fun _ he => law.member he (isVendor_trimStartOf hword) ?_
    exact Json.distinct_ofText rest

end Members

theorem respects_addDirective (ctx : AnnotationContext)
    (h : law.AdmitsAnnotation (Text.asciiLower word) rest) :
    Passes law (addDirective ctx word rest) st := by
  -- the three words for responses are read alike
  have hresponse : Text.asciiLower word ∈ ["@success", "@failure", "@response"] →
      Passes law (addResponse ctx rest) st := by
    intro hword
    refine respects_addResponse ctx fun line hline text htext => h.types text ?_
    simp only [List.mem_cons, List.not_mem_nil, or_false] at hword
    rcases hword with hword | hword | hword
    all_goals
      rw [hword, annotatedTypes, hline]
      exact htext
  unfold addDirective
  dsimp only
  split
  case h_2 => exact respects_bind (respects_ofAny _) fun _ _ _ _ =>
    respects_other fun _ => ⟨rfl, rfl, rfl, rfl⟩
  case h_6 => exact respects_bind (respects_ofAny _) fun _ _ _ _ =>
    respects_other fun _ => ⟨rfl, rfl, rfl, rfl⟩
  case h_7 => exact respects_bind (respects_ofAny _) fun _ _ _ _ =>
    respects_other fun _ => ⟨rfl, rfl, rfl, rfl⟩
  case h_8 heq => exact respects_addParam ctx (heq ▸ h)
  case h_9 heq => exact hresponse (heq ▸ by simp)
  case h_10 heq => exact hresponse (heq ▸ by simp)
  case h_11 heq => exact hresponse (heq ▸ by simp)
  case h_12 => exact respects_addHeader rest
  case h_13 => exact respects_addRoute rest false
  case h_14 => exact respects_addRoute rest true
  case h_15 => exact respects_change fun _ he => law.security he rest
  case h_17 =>
    split
    · next hsamples =>
      have hword : Text.asciiLower word = "@x-codesamples" := by simp_all
      exact respects_addCodeSamples (hword ▸ by decide) ctx
    · split
      · next hword => exact respects_addExtension hword rest
      · exact respects_pure trivial
  -- the other annotations change a text or a mark of the operation
  all_goals exact respects_other fun _ => ⟨rfl, rfl, rfl, rfl⟩

/-- **Reading a line** keeps the state under every law that admits what the line looks up and lists,
also when the line is in error. -/
theorem respects_addLine (ctx : AnnotationContext) (h : law.AdmitsLine line) :
    Passes law (addLine ctx line) st := by
  unfold addLine
  dsimp only
  split
  · next hat =>
    have hline : annotation? line = some (Text.asciiLower (Text.splitAttribute (lineText line)).1,
        (Text.splitAttribute (lineText line)).2) := by
      rw [annotation?, if_pos hat]
    exact respects_inComment (respects_addDirective ctx (h.annotation hline)) line
  · exact respects_pure trivial

end Annotating

end GoApiDoc
