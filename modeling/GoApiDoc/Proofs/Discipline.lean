/-
Conditions that all functions keep.

Several laws follow one run of the functions that resolve types: the state stays sound, schemas
have a shape, tags and constants come from the source, numbers belong to types.  They all go through
the functions in the same way, and differ in what they ask of the states, of the types that are read
and of the schemas that come out.  What they need of the steps is listed here, and the way through
the functions is gone once.

* `Resolver.obeysWith` — **every function that resolves types obeys every discipline**.
-/

import GoApiDoc.Operation.Composite
import GoApiDoc.Proofs.Congruence
import GoApiDoc.Proofs.TagError

set_option autoImplicit false

namespace GoApiDoc

open Go (TypeId TypeExpr)

variable {e : DocError} {f : Go.Field} {t : TypeExpr} {file : FileId} {parts : StructParts}
  {id : TypeId} {text : String} {g : Resolver} {s : Schema} {d : TypeDecl} {α : Type}

/-! ### The judgement -/

namespace Resolving

/-- What is asked of the states, of a later state against an earlier one, and of errors. -/
structure Frame where
  Inv : Resolver → Prop
  Later : Resolver → Resolver → Prop
  Admits : DocError → Prop
  refl : ∀ g, Later g g
  trans : ∀ {g g' g''}, Later g g' → Later g' g'' → Later g g''

/-- From a state as it should be, the computation leaves a later one, also when it fails; its value
satisfies the condition there, and its error is admitted. -/
def Obeys (D : Frame) (x : Resolving α) (g : Resolver) (φ : Resolver → α → Prop) : Prop :=
  D.Inv g → D.Later g (x.runOn g).2 ∧ D.Inv (x.runOn g).2 ∧
    (∀ a, (x.runOn g).1 = .ok a → φ (x.runOn g).2 a) ∧ ∀ e, (x.runOn g).1 = .error e → D.Admits e

variable {D : Frame} {α β γ : Type} {g : Resolver} {x : Resolving α} {φ : Resolver → α → Prop}
  {ψ : Resolver → β → Prop}

theorem obeys_pure {a : α} (h : φ g a) : Obeys D (pure a) g φ := by
  intro hg
  refine ⟨D.refl g, hg, fun b hb => Except.ok.inj hb ▸ h, fun e he => ?_⟩
  cases he

theorem obeys_throw (h : D.Admits e) : Obeys D (throw e : Resolving α) g φ := by
  intro hg
  refine ⟨D.refl g, hg, fun b hb => ?_, fun e' he => Except.error.inj he ▸ h⟩
  cases hb

theorem obeys_bind {f : α → Resolving β} (hx : Obeys D x g φ)
    (hf : ∀ a g', D.Later g g' → φ g' a → Obeys D (f a) g' ψ) : Obeys D (x >>= f) g ψ := by
  intro hg
  obtain ⟨hlater, hinv, hval, herr⟩ := hx hg
  rcases hrun : runOn x g with ⟨e | a, g'⟩
  all_goals rw [hrun] at hlater hinv hval herr
  · rw [runOn_bind_error f hrun]
    refine ⟨hlater, hinv, fun b hb => ?_, fun e' he => Except.error.inj he ▸ herr e rfl⟩
    cases hb
  · rw [runOn_bind_ok f hrun]
    obtain ⟨hlater', hrest⟩ := hf a g' hlater (hval a rfl) hinv
    exact ⟨D.trans hlater hlater', hrest⟩

/-- What is read is as it should be. -/
theorem obeys_get_bind {f : Resolver → Resolving β} (hf : D.Inv g → Obeys D (f g) g ψ) :
    Obeys D (get >>= f) g ψ :=
  fun hg => hf hg hg

theorem obeys_ofResult {r : Except DocError α} (hval : ∀ a, r = .ok a → φ g a)
    (herr : ∀ e, r = .error e → D.Admits e) : Obeys D (ofResult r) g φ := by
  cases r with
  | ok a => exact obeys_pure (hval a rfl)
  | error e => exact obeys_throw (herr e rfl)

/-- The outcome of a computation: what follows sees its error. -/
theorem obeys_outcome (hx : Obeys D x g φ) : Obeys D (outcome x) g fun g' r =>
    (∀ a, r = .ok a → φ g' a) ∧ ∀ e, r = .error e → D.Admits e := by
  intro hg
  obtain ⟨hlater, hinv, hval, herr⟩ := hx hg
  exact ⟨hlater, hinv, fun r hr => Except.ok.inj hr ▸ ⟨hval, herr⟩, by rintro _ ⟨⟩⟩

/-- A run over a list keeps what each of its steps keeps. -/
theorem obeys_foldlM {f : α → γ → Resolving α} (l : List γ)
    (hf : ∀ a, ∀ c ∈ l, ∀ g', D.Later g g' → φ g' a → Obeys D (f a c) g' φ) {a : α} (ha : φ g a) :
    Obeys D (l.foldlM f a) g φ := by
  induction l generalizing g a with
  | nil => exact obeys_pure ha
  | cons c l ih =>
    rw [List.foldlM_cons]
    refine obeys_bind (hf a c (.head _) g (D.refl g) ha) fun b g' hg' hb => ?_
    exact ih (fun a c' hc' g'' hg'' => hf a c' (.tail _ hc') g'' (D.trans hg' hg'')) hb

/-- A change of the state. -/
theorem obeys_modify {f : Resolver → Resolver} (h : D.Inv g → D.Later g (f g) ∧ D.Inv (f g)) :
    Obeys D (modify f) g fun _ _ => True :=
  fun hg => ⟨(h hg).1, (h hg).2, fun _ _ => trivial, by rintro _ ⟨⟩⟩

end Resolving

/-! ### Disciplines -/

/-- The types inside a type that resolving goes on with. -/
def Go.TypeExpr.inside : TypeExpr → List TypeExpr
  | pointer elem | slice elem | array elem => [elem]
  | map _ value => [value]
  | struct fields => fields.map (·.type)
  | _ => []

/-- What a field adds was read along the type path. -/
theorem Resolver.complement_eq_ok {t : Schema} (h : g.complement f s = .ok t) :
    Field.complement f s (g.typePath 2 s) = .ok t := by
  unfold complement at h
  split at h
  · next types htypes =>
    rw [typePath, htypes]
    exact h
  · cases h

/-- What a field adds fails because of its tag, or because there is no end to the type path. -/
theorem Resolver.complement_eq_error (h : g.complement f s = .error e) :
    e.OfTag ∨ e = .endless := by
  unfold complement at h
  split at h
  · exact .inl (Field.tagFails_complement f s _ e h)
  · cases h
    exact .inr rfl

open Resolving

/-- What is asked of the types, declarations and files that are read and of the schemas and parts of
structs that come out, in a state. -/
structure Discipline extends Frame where
  IsSchema : Resolver → Schema → Prop
  IsParts : Resolver → StructParts → Prop
  IsType : Resolver → TypeExpr → FileId → Prop
  IsField : Resolver → Go.Field → FileId → Prop
  IsFile : Resolver → FileId → Prop
  IsId : Resolver → TypeId → Prop
  IsDecl : Resolver → TypeId → TypeDecl → Prop
  partsLater : ∀ {g g' p}, Later g g' → IsParts g p → IsParts g' p := by intros; trivial
  typeLater : ∀ {g g' t file}, Later g g' → IsType g t file → IsType g' t file := by
    intros; trivial
  fieldLater : ∀ {g g' f file}, Later g g' → IsField g f file → IsField g' f file := by
    intros; trivial
  idLater : ∀ {g g' id}, Later g g' → IsId g id → IsId g' id := by intros; trivial
  declLater : ∀ {g g' id d}, Later g g' → IsDecl g id d → IsDecl g' id d
  error : ∀ {e}, (∀ name, e ≠ .unresolvedType name) → Admits e := by intros; trivial
  -- what is read
  file : ∀ {g t file}, IsType g t file → IsFile g file := by intros; trivial
  inside : ∀ {g t t' file}, IsType g t file → t' ∈ t.inside → IsType g t' file := by intros; trivial
  field : ∀ {g fields file}, IsType g (.struct fields) file → ∀ f ∈ fields, IsField g f file := by
    intros; trivial
  fieldType : ∀ {g f file}, IsField g f file → IsType g f.type file := by intros; trivial
  renamed : ∀ {g f file}, IsField g f file → ∀ names, IsField g { f with names := names } file := by
    intros; trivial
  bound : ∀ {g id file}, IsType g (.resolved id) file → IsId g id := by intros; trivial
  missing : ∀ {g id}, Inv g → IsId g id → g.registry.types[id]? = none →
    ∀ name, Admits (.unresolvedType name) := by intros; trivial
  declared : ∀ {g id d}, Inv g → IsId g id → g.registry.types[id]? = some d → IsDecl g id d
  rightSide : ∀ {g id d}, IsDecl g id d → IsType g d.type d.file := by intros; trivial
  lookUp : ∀ {g t file}, IsType g t file → Obeys toFrame (Resolver.declaredType t file) g
    fun g' o => (∀ id, o = some id → IsId g' id) ∧ (o = none → Admits (.unresolvedType t.text))
  replacement : ∀ {g file key text}, Inv g → IsFile g file →
    g.settings.overrides.get? key = some text →
    (∀ t, Go.typeOfText (Text.trim text) = .ok t → IsType g t file) ∧
      ∀ e, Go.typeOfText (Text.trim text) = .error e → Admits (.unresolvedType (Text.trim text)) := by
    intros; exact ⟨fun _ _ => trivial, fun _ _ => trivial⟩
  -- schemas
  builtin : ∀ {g name s}, Schema.ofBuiltin? name = some s → IsSchema g s := by intros; trivial
  any : ∀ {g}, IsSchema g .any := by intros; trivial
  time : ∀ {g}, IsSchema g ((Schema.ofType "string").withFormat "date-time") := by intros; trivial
  array : ∀ {g s}, IsSchema g s → IsSchema g (.array s) := by intros; trivial
  map : ∀ {g s}, IsSchema g s → IsSchema g (.map s) := by intros; trivial
  toSchema : ∀ {g p}, IsParts g p → IsSchema g p.toSchema := by intros; trivial
  known : ∀ {g id name}, Inv g → g.parsed.lookup id = some name → IsSchema g (.ref name) := by
    intros; trivial
  entered : ∀ {g id d}, IsDecl g id d → id ∈ g.building → IsSchema g (.ref d.typeName) := by
    intros; trivial
  -- parts of structs
  empty : ∀ {g}, IsParts g {} := by intros; trivial
  normalized : ∀ {g p}, IsParts g p → IsParts g p.normalized := by intros; trivial
  property : ∀ {g p f file s s' types}, IsParts g p → IsField g f file →
    (IsSchema g s ∨ Field.customSchema? f = .ok (some s)) → Field.complement f s types = .ok s' →
    ∀ name required, IsParts g (p.addProperty name s' required) := by intros; trivial
  compose : ∀ {g p s}, IsParts g p → IsSchema g s →
    IsParts g { p with composed := p.composed ++ [s] } := by intros; trivial
  embed : ∀ {g p inner}, IsParts g p → IsParts g inner → IsParts g (p.embed inner) := by
    intros; trivial
  embedReadOnly : ∀ {g p inner}, IsParts g p → IsParts g inner →
    IsParts g (p.embedReadOnly inner) := by intros; trivial
  -- the two ways to enter a type
  build : ∀ {g id d body}, IsDecl g id d → g.parsed.lookup id = none → id ∉ g.building →
    (∀ g', IsType g' d.type d.file → Obeys toFrame body g' IsSchema) →
    Obeys toFrame (Resolver.buildDefinition id d body) g IsSchema
  pass : ∀ {g id file x} {fields : List Go.Field}, IsId g id → id ∉ g.building →
    (∀ f ∈ fields, IsField g f file) → (∀ g', (∀ f ∈ fields, IsField g' f file) →
      Obeys toFrame x g' IsParts) →
    Obeys toFrame (Resolver.passThrough id x) g IsParts

namespace Discipline

variable (D : Discipline)

/-- The judgement of the discipline. -/
abbrev Holds {α : Type} (x : Resolving α) (g : Resolver) (φ : Resolver → α → Prop) : Prop :=
  Obeys D.toFrame x g φ

/-- The text stands for a type that may be read, or is refused by an error that is admitted. -/
def Reads (g : Resolver) (text : String) (file : FileId) : Prop :=
  (∀ t, Go.typeOfText (Text.trim text) = .ok t → D.IsType g t file) ∧
    ∀ e, Go.typeOfText (Text.trim text) = .error e → D.Admits (.unresolvedType (Text.trim text))

/-- The condition on a schema that there may be. -/
abbrev IsOption (g : Resolver) (o : Option Schema) : Prop := ∀ s, o = some s → D.IsSchema g s

variable {D}

theorem target (h : D.IsType g t file) : D.IsType g t.target file := by
  induction t using Go.TypeExpr.target.induct with
  | case1 elem ih => exact ih (D.inside h (List.mem_singleton_self elem))
  | case2 t hpointer =>
    rw [TypeExpr.target]
    · exact h
    · exact hpointer

theorem holds_some (h : D.IsSchema g s) : D.Holds (pure (some s)) g D.IsOption :=
  obeys_pure fun _ ht => Option.some.inj ht ▸ h

/-- An error of another kind. -/
theorem holds_other {φ : Resolver → α → Prop} (h : ∀ name, e ≠ .unresolvedType name) :
    D.Holds (throw e : Resolving α) g φ :=
  obeys_throw (D.error h)

theorem admits_of_ofTag (h : e.OfTag) : D.Admits e :=
  D.error fun name hname => by rw [hname] at h; cases h

end Discipline

/-! ### The way through the functions -/

namespace Resolver

open Discipline

variable {D : Discipline} {g : Resolver}

theorem obeys_builtinSchema (name : String) : D.Holds (builtinSchema name) g D.IsSchema := by
  unfold builtinSchema
  split
  · next s hs => exact obeys_pure (D.builtin hs)
  · exact holds_other fun _ => DocError.noConfusion

theorem obeys_addResolved (hparts : D.IsParts g parts) (hf : D.IsField g f file) (property : String)
    {resolved : Except DocError Schema}
    (hval : ∀ s, resolved = .ok s → D.IsSchema g s ∨ Field.customSchema? f = .ok (some s))
    (herr : ∀ e, resolved = .error e → D.Admits e) :
    D.Holds (addResolved parts f property resolved) g D.IsParts := by
  unfold addResolved
  refine obeys_get_bind fun _ => ?_
  split
  · next s =>
    refine obeys_bind (obeys_ofResult (φ := fun g t => ∀ name required,
      D.IsParts g (parts.addProperty name t required)) (fun t ht => ?_) fun e he => ?_)
      fun t g' _ ht => obeys_pure (ht _ _)
    · exact D.property hparts hf (hval s rfl) (complement_eq_ok ht)
    · rcases complement_eq_error he with he | rfl
      · exact admits_of_ofTag he
      · exact D.error fun _ => DocError.noConfusion
  · exact obeys_pure hparts
  · split
    · exact holds_other fun _ => DocError.noConfusion
    · exact obeys_pure hparts
  · next e _ _ => exact obeys_throw (herr e rfl)

theorem obeys_fieldPart {x : Resolving Schema}
    (hparts : D.IsParts g parts) (hf : D.IsField g f file)
    (hx : ∀ g', D.IsField g' f file → D.Holds x g' D.IsSchema) :
    D.Holds (fieldPart parts f x) g D.IsParts := by
  unfold fieldPart
  split
  · exact obeys_pure hparts
  refine obeys_get_bind fun _ => ?_
  split
  · exact obeys_pure hparts
  · next property _ =>
    refine obeys_bind (obeys_ofResult (φ := fun _ o => Field.customSchema? f = .ok o)
      (fun o ho => ho) fun e he => admits_of_ofTag (Field.tagFails_customSchema? f e he))
      fun o g' hg' ho => ?_
    have hparts' := D.partsLater hg' hparts
    have hf' := D.fieldLater hg' hf
    cases o with
    | some s =>
      refine obeys_addResolved hparts' hf' property (fun t ht => .inr ?_) (by rintro _ ⟨⟩)
      exact Except.ok.inj ht ▸ ho
    | none =>
      -- an error of the field's type is looked at, so it does not end the struct
      refine obeys_bind (obeys_outcome (hx g' hf')) fun r g'' hg'' hr => ?_
      exact obeys_addResolved (D.partsLater hg'' hparts') (D.fieldLater hg'' hf') property
        (fun s hs => .inl (hr.1 s hs)) hr.2

/-- The laws of the functions that resolve types, for a given number of steps. -/
structure ObeysWith (D : Discipline) (fuel : Nat) : Prop where
  resolve : ∀ {t file g}, D.IsType g t file → D.Holds (resolveWith fuel t file) g D.IsSchema
  text : ∀ {text file g}, D.Reads g text file → D.Holds (textWith fuel text file) g D.IsSchema
  override : ∀ key {file g}, D.IsFile g file → D.Holds (overrideWith fuel key file) g D.IsOption
  named : ∀ {t file g}, D.IsType g t file → D.Holds (namedWith fuel t file) g D.IsSchema
  symbol : ∀ {id g}, D.IsId g id → D.Holds (symbolWith fuel id) g D.IsSchema
  definition : ∀ {id d g}, D.IsDecl g id d → D.Holds (definitionWith fuel id d) g D.IsSchema
  struct : ∀ {fields file g}, (∀ f ∈ fields, D.IsField g f file) →
    D.Holds (structWith fuel fields file) g D.IsParts
  field : ∀ {parts f file g}, D.IsParts g parts → D.IsField g f file →
    D.Holds (fieldWith fuel parts f file) g D.IsParts
  namedField : ∀ {parts f file g}, D.IsParts g parts → D.IsField g f file →
    D.Holds (namedFieldWith fuel parts f file) g D.IsParts
  embedded : ∀ {parts f file g}, D.IsParts g parts → D.IsField g f file →
    D.Holds (embeddedWith fuel parts f file) g D.IsParts
  embeddedStruct : ∀ {parts id d fields} readOnly {g}, D.IsParts g parts → D.IsId g id →
    (∀ f ∈ fields, D.IsField g f d.file) →
    D.Holds (embeddedStructWith fuel parts id d fields readOnly) g D.IsParts

section Step

variable {fuel : Nat} (ih : ObeysWith D fuel)

include ih

/-- A type is looked up and resolved, or refused because it is not found. -/
theorem obeys_symbolOf (ht : D.IsType g t file) :
    D.Holds (declaredType t file >>= symbolOf fuel t) g D.IsSchema := by
  refine obeys_bind (D.lookUp ht) fun o g' _ ho => ?_
  cases o with
  | none => exact obeys_throw (ho.2 rfl)
  | some id => exact ih.symbol (ho.1 id rfl)

theorem obeys_resolveWith (ht : D.IsType g t file) :
    D.Holds (resolveWith (fuel + 1) t file) g D.IsSchema := by
  cases t <;> rw [resolveWith]
  case ident name =>
    split
    · exact obeys_builtinSchema name
    · exact ih.named ht
  case qualified => exact ih.named ht
  case generic base args =>
    refine obeys_bind (ih.override _ (D.file ht)) fun o g' hg' ho => ?_
    cases o with
    | some s => exact obeys_pure (ho s rfl)
    | none => exact obeys_symbolOf ih (D.typeLater hg' ht)
  case pointer elem => exact ih.resolve (D.inside ht (List.mem_singleton_self elem))
  case slice elem | array elem =>
    exact obeys_bind (ih.resolve (D.inside ht (List.mem_singleton_self elem))) fun s g' _ hs =>
      obeys_pure (D.array hs)
  case map key value =>
    exact obeys_bind (ih.resolve (D.inside ht (List.mem_singleton_self value))) fun s g' _ hs =>
      obeys_pure (D.map hs)
  case interface => exact obeys_pure D.any
  case struct fields =>
    exact obeys_bind (ih.struct (D.field ht)) fun p g' _ hp => obeys_pure (D.toSchema hp)
  case resolved id => exact ih.symbol (D.bound ht)
  case func | chan | tilde | union => exact holds_other fun _ => DocError.noConfusion

theorem obeys_symbolWith (hid : D.IsId g id) : D.Holds (symbolWith (fuel + 1) id) g D.IsSchema := by
  rw [symbolWith]
  refine obeys_get_bind fun hg => ?_
  split
  · next hnone => exact obeys_throw (D.missing hg hid hnone _)
  · next d hd =>
    have hdecl := D.declared hg hid hd
    refine obeys_bind (ih.override _ (D.file (D.rightSide hdecl))) fun o g' hg' ho => ?_
    cases o with
    | some s => exact obeys_pure (ho s rfl)
    | none =>
      have hdef := ih.definition (D.declLater hg' hdecl)
      dsimp only
      split
      · split
        · exact obeys_builtinSchema _
        · exact hdef
      · exact hdef

/-- A definition that is there, or on its way, is referred to; any other is built. -/
theorem obeys_definitionWith (hd : D.IsDecl g id d) :
    D.Holds (definitionWith (fuel + 1) id d) g D.IsSchema := by
  rw [definitionWith]
  split
  · exact ih.resolve (D.rightSide hd)
  refine obeys_get_bind fun hg => ?_
  split
  · next name hname => exact obeys_pure (D.known hg hname)
  · next hfresh =>
    split
    · next hin => exact obeys_pure (D.entered hd (by simpa using hin))
    · next hout => exact D.build hd hfresh (by simpa using hout) fun _ ht => ih.resolve ht

theorem obeys_embeddedOf {o : Option TypeId}
    (hparts : D.IsParts g parts) (hf : D.IsField g f file) (hid : ∀ id, o = some id → D.IsId g id)
    (hnone : o = none → D.Admits (.unresolvedType f.type.target.text)) :
    D.Holds (embeddedOf fuel parts f file o) g D.IsParts := by
  cases o with
  | none => exact obeys_throw (hnone rfl)
  | some id =>
    refine obeys_get_bind fun hg => ?_
    split
    · next h => exact obeys_throw (D.missing hg (hid id rfl) h _)
    · next d hd =>
      have htype := D.rightSide (D.declared hg (hid id rfl) hd)
      split
      · next fields hfields =>
        rw [hfields] at htype
        exact ih.embeddedStruct _ hparts (hid id rfl) (D.field htype)
      · exact ih.namedField hparts (D.renamed hf _)

theorem obeys_embedFields {fields : List Go.Field} (readOnly : Bool) (hparts : D.IsParts g parts)
    (hid : D.IsId g id) (hfields : ∀ f ∈ fields, D.IsField g f d.file) :
    D.Holds (embedFields parts id readOnly (structWith fuel fields d.file)) g D.IsParts := by
  refine obeys_get_bind fun _ => ?_
  split
  · exact holds_other fun _ => DocError.noConfusion
  · next hout =>
    have hmem : id ∉ g.building := by simpa using hout
    refine obeys_bind (D.pass hid hmem hfields fun _ h => ih.struct h) fun inner g' hg' hinner => ?_
    have hparts' := D.partsLater hg' hparts
    refine obeys_pure ?_
    split
    · exact D.embedReadOnly hparts' hinner
    · exact D.embed hparts' hinner

theorem ObeysWith.next : ObeysWith D (fuel + 1) where
  resolve := obeys_resolveWith ih
  symbol := obeys_symbolWith ih
  definition := obeys_definitionWith ih
  text htext := by
    rw [textWith]
    split
    · next t ht => exact ih.resolve (htext.1 t ht)
    · next e he => exact obeys_throw (htext.2 e he)
  override key {file g} hfile := by
    rw [overrideWith]
    refine obeys_get_bind fun hg => ?_
    split
    · exact obeys_pure (by rintro _ ⟨⟩)
    · next text hkey =>
      split
      · exact holds_other fun _ => DocError.noConfusion
      · exact obeys_bind (ih.text (D.replacement hg hfile hkey)) fun s g' _ hs => holds_some hs
  named ht := by
    rw [namedWith]
    refine obeys_bind (ih.override _ (D.file ht)) fun o g' hg' ho => ?_
    cases o with
    | some s => exact obeys_pure (ho s rfl)
    | none =>
      refine obeys_get_bind fun _ => ?_
      split
      · exact obeys_pure D.time
      · exact obeys_symbolOf ih (D.typeLater hg' ht)
  struct {fields file g} hfields := by
    rw [structWith]
    refine obeys_bind (φ := D.IsParts) ?_ fun p g' _ hp => obeys_pure (D.normalized hp)
    exact obeys_foldlM fields
      (fun p f hf g' hg' hp => ih.field hp (D.fieldLater hg' (hfields f hf))) D.empty
  field hparts hf := by
    rw [fieldWith]
    split
    · exact ih.embedded hparts hf
    · exact obeys_foldlM _ (fun p name _ g' hg' hp =>
        ih.namedField hp (D.renamed (D.fieldLater hg' hf) _)) hparts
  namedField hparts hf := by
    rw [namedFieldWith_succ]
    exact obeys_fieldPart hparts hf fun _ hf' => ih.resolve (D.fieldType hf')
  embedded hparts hf := by
    rw [embeddedWith_succ]
    split
    · exact obeys_pure hparts
    refine obeys_get_bind fun _ => ?_
    split
    · exact ih.namedField hparts hf
    · exact obeys_bind (D.lookUp (target (D.fieldType hf))) fun o g' hg' ho =>
        obeys_embeddedOf ih (D.partsLater hg' hparts) (D.fieldLater hg' hf) ho.1 ho.2
  embeddedStruct {_ _ _ _} readOnly {g} hparts hid hfields := by
    rw [embeddedStructWith_succ]
    have hrest := fun parts g' (hg' : D.Later g g') (hparts : D.IsParts g' parts) =>
      obeys_embedFields ih readOnly hparts (D.idLater hg' hid)
        fun f hf => D.fieldLater hg' (hfields f hf)
    cases readOnly with
    | true =>
      refine obeys_bind (ih.symbol hid) fun s g' hg' hs => ?_
      exact obeys_bind (obeys_pure (D.compose (D.partsLater hg' hparts) hs)) fun parts g'' hg'' =>
        hrest parts g'' (D.trans hg' hg'')
    | false => exact obeys_bind (obeys_pure hparts) hrest

end Step

/-- **Every function that resolves types obeys every discipline**, whatever the number of steps. -/
theorem obeysWith (D : Discipline) (fuel : Nat) : ObeysWith D fuel := by
  induction fuel with
  | zero =>
    constructor <;> intros <;>
      simp only [resolveWith, textWith, overrideWith, namedWith, symbolWith, definitionWith,
        structWith, fieldWith, namedFieldWith, embeddedWith, embeddedStructWith] <;>
      exact holds_other fun _ => DocError.noConfusion
  | succ fuel ih => exact ih.next

theorem obeys_resolveText (h : D.Reads g text file) :
    D.Holds (resolveText text file) g D.IsSchema :=
  obeys_get_bind fun _ => (obeysWith D _).text h

end Resolver

/-! ### Types that annotations write -/

/-- The discipline passes through what is done with the types that annotations write. -/
structure Discipline.Composes (D : Discipline) : Prop where
  schemaLater : ∀ {g g' s}, D.Later g g' → D.IsSchema g s → D.IsSchema g' s
  ofType : ∀ {g} type, D.IsSchema g (.ofType type)
  combine : ∀ {g s} {properties : Table Schema}, D.IsSchema g s → properties.Sorted →
    (∀ e ∈ properties, D.IsSchema g e.2) → D.IsSchema g (Composite.combine s properties)

namespace Composite

open Discipline

mutual

/-- The names in a type that an annotation writes. -/
def names : Composite → List String
  | nothing | anyObject | anything | simple _ | unreadable _ => []
  | array elem | map elem => elem.names
  | combined base fields => base.names ++ fieldNames fields
  | named text => [text]

/-- The names in the types of the replaced properties. -/
def fieldNames : List (String × Composite) → List String
  | [] => []
  | (_, value) :: fields => value.names ++ fieldNames fields

end

variable {D : Discipline} (hD : D.Composes)

include hD

theorem isSchema_getD {o : Option Schema} (h : D.IsOption g o) :
    D.IsSchema g (o.getD Schema.object) := by
  cases o with
  | none => exact hD.ofType _
  | some s => exact h s rfl

mutual

theorem obeys_schema (file : FileId) : ∀ (c : Composite) (g : Resolver),
    (∀ text ∈ c.names, ∀ g, D.Reads g text file) → D.Holds (c.schema file) g D.IsOption
  | nothing, g, _ => by
    rw [schema]
    exact obeys_pure (by rintro _ ⟨⟩)
  | anyObject, g, _ => by
    rw [schema]
    exact holds_some (hD.ofType _)
  | anything, g, _ => by
    rw [schema]
    exact holds_some D.any
  | simple type, g, _ => by
    rw [schema]
    exact holds_some (hD.ofType type)
  | array elem, g, h => by
    rw [schema]
    refine obeys_bind (obeys_schema file elem g h) fun o g' _ ho => ?_
    exact holds_some (D.array (isSchema_getD hD ho))
  | map value, g, h => by
    rw [schema]
    refine obeys_bind (obeys_schema file value g h) fun o g' _ ho => ?_
    exact holds_some (D.map (isSchema_getD hD ho))
  | combined base fields, g, h => by
    rw [schema]
    rw [names] at h
    obtain ⟨hbase, hfields⟩ := List.forall_mem_append.1 h
    refine obeys_bind (obeys_schema file base g hbase) fun o g' _ ho => ?_
    refine obeys_bind (obeys_fieldSchemas file fields [] g' ⟨List.Pairwise.nil, ?_⟩ hfields) ?_
    · rintro _ ⟨⟩
    · intro properties g'' hg'' hp
      exact holds_some (hD.combine (hD.schemaLater hg'' (isSchema_getD hD ho)) hp.1 hp.2)
  | named text, g, h => by
    rw [schema]
    have htext := h text (List.mem_singleton_self text) g
    exact obeys_bind (Resolver.obeys_resolveText htext) fun s g' _ hs => holds_some hs
  | unreadable text, g, _ => by
    rw [schema]
    exact holds_other fun _ => DocError.noConfusion

theorem obeys_fieldSchemas (file : FileId) : ∀ (fields : List (String × Composite))
    (t : Table Schema) (g : Resolver), (t.Sorted ∧ ∀ e ∈ t, D.IsSchema g e.2) →
    (∀ text ∈ fieldNames fields, ∀ g, D.Reads g text file) →
    D.Holds (fieldSchemas file t fields) g fun g' t => t.Sorted ∧ ∀ e ∈ t, D.IsSchema g' e.2
  | [], t, g, ht, _ => by
    rw [fieldSchemas]
    exact obeys_pure ht
  | (key, value) :: fields, t, g, ht, h => by
    rw [fieldSchemas]
    rw [fieldNames] at h
    obtain ⟨hvalue, hfields⟩ := List.forall_mem_append.1 h
    refine obeys_bind (obeys_schema file value g hvalue) fun o g' hg' ho => ?_
    refine obeys_fieldSchemas file fields _ g' ⟨Table.sorted_insert ht.1, ?_⟩ hfields
    exact Table.forall_mem_insert (isSchema_getD hD ho) fun e he => hD.schemaLater hg' (ht.2 e he)

end

end Composite

variable {D : Discipline}

theorem obeys_annotatedSchema? (hD : D.Composes)
    (h : ∀ name ∈ (Composite.ofText text).names, ∀ g, D.Reads g name file) :
    D.Holds (annotatedSchema? file text) g D.IsOption :=
  Composite.obeys_schema hD file _ g h

theorem obeys_annotatedSchema (hD : D.Composes)
    (h : ∀ name ∈ (Composite.ofText text).names, ∀ g, D.Reads g name file) :
    D.Holds (annotatedSchema file text) g D.IsSchema :=
  obeys_bind (obeys_annotatedSchema? hD h) fun _ _ _ ho =>
    obeys_pure (Composite.isSchema_getD hD ho)

end GoApiDoc
