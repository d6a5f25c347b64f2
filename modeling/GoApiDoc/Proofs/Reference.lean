/-
The references of a document.

A schema refers to definitions by name, itself or through the schemas inside it.  This module lists
the references and shows where those of a composed or changed schema come from: a step that adds
constraints, descriptions or enumerations never makes a reference up.

* `Schema.references` — the references in a schema, at any depth;
* `Schema.AllRefs` — all of them satisfy a condition, with `Schema.allRefs_iff` for one layer;
* `Operation.references`, `Document.references` — the references in operations and documents;
* `Field.Passes` — a condition that passes through what a field adds to a schema;
* `Field.allRefs_complement` — what a field adds to a schema holds no new reference;
* `StructParts.AllRefs` — the same for the parts of a struct.
-/

import GoApiDoc.Operation.Attribute
import GoApiDoc.Proofs.Outcome
import GoApiDoc.Proofs.Table

set_option autoImplicit false

namespace GoApiDoc

variable {r name tag : String} {t s : Schema} {e : String × Schema} {types : List String}
  {inner : StructParts} {p : Parameter} {o : Operation}

/-! ### Schemas -/

namespace Schema

mutual

/-- The references in a schema, at any depth. -/
def references : Schema → List String
  | ⟨facts, items, allOf, properties, additional⟩ =>
    facts.reference.toList ++ optionReferences items ++ listReferences allOf ++
      propertyReferences properties ++ optionReferences additional

/-- The references in an optional schema. -/
def optionReferences : Option Schema → List String
  | none => []
  | some s => s.references

/-- The references in the schemas of a list. -/
def listReferences : List Schema → List String
  | [] => []
  | s :: ss => s.references ++ listReferences ss

/-- The references in the schemas of properties. -/
def propertyReferences : List (String × Schema) → List String
  | [] => []
  | (_, s) :: ps => s.references ++ propertyReferences ps

end

theorem mem_optionReferences {s : Option Schema} :
    r ∈ optionReferences s ↔ ∃ t, s = some t ∧ r ∈ t.references := by
  cases s with
  | none | some t => simp [optionReferences]

theorem mem_listReferences {ss : List Schema} :
    r ∈ listReferences ss ↔ ∃ t ∈ ss, r ∈ t.references := by
  induction ss with
  | nil => simp [listReferences]
  | cons s ss ih => simp [listReferences, ih]

theorem mem_propertyReferences {ps : List (String × Schema)} :
    r ∈ propertyReferences ps ↔ ∃ e ∈ ps, r ∈ e.2.references := by
  induction ps with
  | nil => simp [propertyReferences]
  | cons e ps ih => simp [propertyReferences, ih]

/-- Every reference in the schema satisfies the condition. -/
def AllRefs (P : String → Prop) (s : Schema) : Prop := ∀ r ∈ s.references, P r

variable {P Q : String → Prop} {s : Schema}

/-- One layer of a schema: its own reference, and the schemas inside it. -/
theorem allRefs_iff : s.AllRefs P ↔
    (∀ r, s.reference = some r → P r) ∧ (∀ t, s.items = some t → t.AllRefs P) ∧
      (∀ t ∈ s.allOf, t.AllRefs P) ∧ (∀ e ∈ s.properties, e.2.AllRefs P) ∧
      ∀ t, s.additional = some t → t.AllRefs P := by
  obtain ⟨facts, items, allOf, properties, additional⟩ := s
  simp only [AllRefs, references, List.mem_append, mem_optionReferences, mem_listReferences,
    mem_propertyReferences, Option.mem_toList]
  constructor
  · intro h
    exact ⟨fun r hr => h r (by simp [hr]), fun t ht r hr => h r (by simp [ht, hr]),
      fun t ht r hr => h r (.inl (.inl (.inr ⟨t, ht, hr⟩))),
      fun e he r hr => h r (.inl (.inr ⟨e, he, hr⟩)), fun t ht r hr => h r (by simp [ht, hr])⟩
  · rintro ⟨hown, hitems, hall, hprops, hadd⟩ r ((((hr | ⟨t, ht, hr⟩) | ⟨t, ht, hr⟩) | ⟨e, he, hr⟩) |
      ⟨t, ht, hr⟩)
    · exact hown r hr
    · exact hitems t ht r hr
    · exact hall t ht r hr
    · exact hprops e he r hr
    · exact hadd t ht r hr

theorem AllRefs.imp (h : s.AllRefs P) (hPQ : ∀ r, P r → Q r) : s.AllRefs Q :=
  fun r hr => hPQ r (h r hr)

theorem AllRefs.items (h : s.AllRefs P) (ht : s.items = some t) : t.AllRefs P :=
  (allRefs_iff.1 h).2.1 t ht

theorem AllRefs.allOf (h : s.AllRefs P) (ht : t ∈ s.allOf) : t.AllRefs P :=
  (allRefs_iff.1 h).2.2.1 t ht

theorem AllRefs.property (h : s.AllRefs P) (he : e ∈ s.properties) : e.2.AllRefs P :=
  (allRefs_iff.1 h).2.2.2.1 e he

/-- The references do not depend on the keywords that hold no schemas. -/
theorem AllRefs.withFacts (h : s.AllRefs P) (facts : Facts)
    (hr : facts.reference = s.reference) : AllRefs P { s with toFacts := facts } := by
  have hs := allRefs_iff.1 h
  exact allRefs_iff.2 ⟨fun r hr' => hs.1 r (hr ▸ hr'), hs.2⟩

/-! ### Common schemas -/

theorem allRefs_of_leaf (hr : s.reference = none) (hi : s.items = none) (ha : s.allOf = [])
    (hp : s.properties = []) (hv : s.additional = none) : s.AllRefs P := by
  rw [allRefs_iff, hr, hi, ha, hp, hv]
  simp

theorem allRefs_any : any.AllRefs P := allRefs_of_leaf rfl rfl rfl rfl rfl

theorem allRefs_ofType (type : String) : (ofType type).AllRefs P :=
  allRefs_of_leaf rfl rfl rfl rfl rfl

theorem allRefs_array (h : s.AllRefs P) : (array s).AllRefs P := by
  rw [allRefs_iff]
  simpa [array] using h

theorem allRefs_map (h : s.AllRefs P) : (map s).AllRefs P := by
  rw [allRefs_iff]
  simpa [map] using h

theorem allRefs_ref (h : P (definitionsPath ++ name)) : (ref name).AllRefs P := by
  rw [allRefs_iff]
  simpa [ref] using h

theorem allRefs_combined {parts : List Schema} (h : ∀ t ∈ parts, t.AllRefs P) :
    (combined parts).AllRefs P := by
  rw [allRefs_iff]
  simpa [combined] using h

theorem allRefs_getD {o : Option Schema} {d : Schema} (h : ∀ t, o = some t → t.AllRefs P)
    (hd : d.AllRefs P) : (o.getD d).AllRefs P := by
  cases o with
  | none => exact hd
  | some t => exact h t rfl

theorem allRefs_ofBuiltin (h : ofBuiltin? name = some s) : s.AllRefs P := by
  unfold ofBuiltin? at h
  split at h <;> cases h <;> exact allRefs_of_leaf rfl rfl rfl rfl rfl

theorem allRefs_addEnums (h : s.AllRefs P) (enums : List EnumMember) :
    (s.addEnums enums).AllRefs P := by
  unfold addEnums
  split
  · exact h
  · exact h.withFacts _ rfl

/-- The definition of a type has the references of its right-hand side. -/
theorem allRefs_ofDecl (h : s.AllRefs P) (d : TypeDecl) : (ofDecl d s).AllRefs P := by
  unfold ofDecl
  have henum := allRefs_addEnums h d.enums
  split
  · dsimp only
    split
    · exact henum.withFacts _ rfl
    · exact henum
  · exact henum

end Schema

/-! ### Fields -/

namespace Field

section Passing

variable {M : Schema → Prop} {f : Go.Field} {s s' : Schema} {c : Constraints}

theorem of_customSchema (hofType : ∀ type, M (.ofType type)) (harray : ∀ {s}, M s → M (.array s))
    (hmap : ∀ {s}, M s → M (.map s)) {words : List String} (h : customSchema words = .ok s) :
    M s := by
  fun_induction customSchema words generalizing s with
  | case1 | case2 | case4 | case9 => cases h
  | case3 rest _ ih => exact ih h
  | case5 rest _ ih =>
    obtain ⟨t, ht, rfl⟩ := map_eq_ok_iff.1 h
    exact harray (ih ht)
  | case6 | case8 => exact Except.ok.inj h ▸ hofType _
  | case7 rest _ ih =>
    obtain ⟨t, ht, rfl⟩ := map_eq_ok_iff.1 h
    exact hmap (ih ht)

theorem of_customSchema? (hofType : ∀ type, M (.ofType type))
    (harray : ∀ {s}, M s → M (.array s)) (hmap : ∀ {s}, M s → M (.map s))
    (h : customSchema? f = .ok (some s)) : M s := by
  unfold customSchema? at h
  dsimp only at h
  split at h
  · cases h
  · obtain ⟨t, ht, heq⟩ := map_eq_ok_iff.1 h
    cases heq
    exact of_customSchema hofType harray hmap ht

/-- A condition on schemas passes through each of the changes that a field makes. -/
structure Passes (f : Go.Field) (M : Schema → Prop) : Prop where
  description {s : Schema} (d : Option String) : M s → M { s with description := d }
  fresh (d : Option String) : M { Schema.ofType "string" with description := d }
  enumNames {s : Schema} (type : String) (names : List String) : M s →
    M (onElement type (fun e => { e with
      extensions := e.extensions.insert "x-enum-varnames" (.arr (names.map .str)) }) s)
  extensions {s : Schema} {tag : String} : f.tag = some tag → M s → M (addExtensions tag s)
  constrain {s : Schema} {tag type : String} {rest : List String} {c c' : Constraints} :
    Constraints.ofTag tag type rest = .ok c → c'.enums = c.enums → M s → M (constrain tag c' s)
  missing {s : Schema} {c : Constraints} {value : String} {v : Json} :
    defaultOf c value = .ok v → M s → M { s with defaultValue := some v }
  sample {s : Schema} {tag : String} {encoded : Bool} {zero : Option String} {c : Constraints}
    {v : Option Json} (readOnly : Bool) : exampleFor tag encoded (zero.map .str) c = .ok v → M s →
    M { s with exampleValue := v <|> s.exampleValue, readOnly := readOnly }

theorem Passes.addEnumNames (hM : Passes f M) (hs : M s)
    (h : addEnumNames tag c s = .ok s') : M s' := by
  unfold Field.addEnumNames at h
  dsimp only at h
  split at h
  · exact Except.ok.inj h ▸ hs
  split at h
  · cases h
    have := hM.enumNames c.type ((Text.split ',' (Tag.get tag "x-enum-varnames")).map Text.trim) hs
    rwa [List.map_map] at this
  · cases h

theorem Passes.addDefault (hM : Passes f M) (hs : M s)
    (h : addDefault tag c s = .ok s') : M s' := by
  unfold Field.addDefault at h
  dsimp only at h
  split at h
  · exact Except.ok.inj h ▸ hs
  · obtain ⟨v, hv, rfl⟩ := map_eq_ok_iff.1 h
    exact hM.missing hv hs

theorem Passes.complementPlain (hM : Passes f M) {type : String} {rest : List String} (hs : M s)
    (h : complementPlain f s type rest = .ok s') : M s' := by
  unfold Field.complementPlain at h
  dsimp only at h
  split at h
  · exact Except.ok.inj h ▸ hM.description _ hs
  · next tag htag =>
    obtain ⟨c, hc, h⟩ := bind_eq_ok_iff.1 h
    obtain ⟨s₁, h₁, h⟩ := bind_eq_ok_iff.1 h
    obtain ⟨s₂, h₂, h⟩ := bind_eq_ok_iff.1 h
    obtain ⟨sample, hsample, h⟩ := bind_eq_ok_iff.1 h
    -- a field that is encoded as a string gets a new schema
    have hs₁ : M s₁ := by
      refine hM.addEnumNames ?_ h₁
      split
      · exact hM.fresh _
      · exact hM.description _ hs
    have hs₂ : M s₂ := by
      refine hM.addDefault (hM.constrain hc ?_ (hM.extensions htag hs₁)) h₂
      split
      · rfl
      · rfl
    cases h
    exact hM.sample _ hsample hs₂

/-- What a field adds to a reference goes into a schema around it. -/
theorem complement_cases (h : complement f s types = .ok s') :
    s' = s ∨ ∃ type rest,
      (∃ extra, complementPlain f {} type rest = .ok extra ∧ s' = { extra with allOf := [s] }) ∨
        s.reference = none ∧ complementPlain f s type rest = .ok s' := by
  unfold complement at h
  split at h
  · cases h
  · next type rest =>
    split at h
    · obtain ⟨extra, hextra, h⟩ := bind_eq_ok_iff.1 h
      cases h
      split
      · exact .inl rfl
      · exact .inr ⟨type, rest, .inl ⟨extra, hextra, rfl⟩⟩
    · next hr => exact .inr ⟨type, rest, .inr ⟨by simpa using hr, h⟩⟩

end Passing

variable {P : String → Prop} {f : Go.Field} {s s' : Schema}

theorem allRefs_customSchema? (h : customSchema? f = .ok (some s)) : s.AllRefs P :=
  of_customSchema? Schema.allRefs_ofType Schema.allRefs_array Schema.allRefs_map h

theorem allRefs_onElement {f : Schema → Schema} (hf : ∀ t, t.AllRefs P → (f t).AllRefs P)
    (type : String) (h : s.AllRefs P) : (onElement type f s).AllRefs P := by
  unfold onElement
  split
  · have hs := Schema.allRefs_iff.1 h
    refine Schema.allRefs_iff.2 ⟨hs.1, ?_, hs.2.2⟩
    intro t ht
    cases ht
    exact hf _ (Schema.allRefs_getD hs.2.1 Schema.allRefs_any)
  · exact hf s h

theorem allRefs_constrain (tag : String) (c : Constraints) (h : s.AllRefs P) :
    (constrain tag c s).AllRefs P := by
  unfold constrain
  refine allRefs_onElement ?_ _ ?_
  · intro t ht
    exact ht.withFacts _ rfl
  · split
    · exact h.withFacts _ rfl
    · exact h

theorem passes_allRefs (f : Go.Field) (P : String → Prop) : Passes f (Schema.AllRefs P) where
  description _ h := h.withFacts _ rfl
  fresh _ := Schema.allRefs_of_leaf rfl rfl rfl rfl rfl
  enumNames type _ h := by
    refine allRefs_onElement (fun t ht => ?_) type h
    exact ht.withFacts _ rfl
  extensions _ h := h.withFacts _ rfl
  constrain _ _ := allRefs_constrain _ _
  missing _ h := h.withFacts _ rfl
  sample _ _ h := h.withFacts _ rfl

/-- **What a field adds to a schema holds no new reference.** -/
theorem allRefs_complement (hs : s.AllRefs P) (h : complement f s types = .ok s') :
    s'.AllRefs P := by
  obtain rfl | ⟨type, rest, ⟨extra, hextra, rfl⟩ | ⟨-, hplain⟩⟩ := complement_cases h
  · exact hs
  · have hx := Schema.allRefs_iff.1 ((passes_allRefs f P).complementPlain Schema.allRefs_any hextra)
    exact Schema.allRefs_iff.2 ⟨hx.1, hx.2.1, by simpa using hs, hx.2.2.2⟩
  · exact (passes_allRefs f P).complementPlain hs hplain

end Field

/-! ### Structs -/

namespace StructParts

variable {P Q : String → Prop} {p : StructParts}

/-- Every reference in the parts of a struct satisfies the condition. -/
def AllRefs (P : String → Prop) (p : StructParts) : Prop :=
  (∀ e ∈ p.properties, e.2.AllRefs P) ∧ ∀ s ∈ p.composed, s.AllRefs P

theorem AllRefs.imp (h : p.AllRefs P) (hPQ : ∀ r, P r → Q r) : p.AllRefs Q :=
  ⟨fun e he => (h.1 e he).imp hPQ, fun s hs => (h.2 s hs).imp hPQ⟩

theorem allRefs_empty : AllRefs P {} := by simp [AllRefs]

theorem AllRefs.addProperty (h : p.AllRefs P) (hs : s.AllRefs P) (name : String) (required : Bool) :
    (p.addProperty name s required).AllRefs P :=
  ⟨Table.forall_mem_insert hs h.1, h.2⟩

theorem AllRefs.compose (h : p.AllRefs P) (hs : s.AllRefs P) :
    AllRefs P { p with composed := p.composed ++ [s] } :=
  ⟨h.1, List.forall_mem_append.2 ⟨h.2, List.forall_mem_singleton.2 hs⟩⟩

theorem mem_offered {inner properties : Table Schema}
    (h : e ∈ inner.foldl offerProperty properties) : e ∈ properties ∨ e ∈ inner := by
  induction inner generalizing properties with
  | nil => exact .inl h
  | cons a inner ih =>
    rcases ih h with h | h
    · unfold offerProperty at h
      split at h
      · exact .inl h
      · rcases Table.mem_insert_imp h with rfl | h
        · exact .inr (.head _)
        · exact .inl h
    · exact .inr (.tail _ h)

theorem AllRefs.embed (h : p.AllRefs P) (hi : inner.AllRefs P) : (p.embed inner).AllRefs P :=
  ⟨fun e he => (mem_offered he).elim (h.1 e) (hi.1 e), List.forall_mem_append.2 ⟨h.2, hi.2⟩⟩

/-- The properties go in one by one, each with a keyword that holds no schema changed. -/
theorem forall_embedReadOnly {P : Schema → Prop} (hP : ∀ s, P s → P { s with readOnly := true })
    (h : ∀ e ∈ p.properties, P e.2) (hi : ∀ e ∈ inner.properties, P e.2) :
    ∀ e ∈ (p.embedReadOnly inner).properties, P e.2 :=
  List.foldlRecOn (motive := fun t : Table Schema => ∀ e ∈ t, P e.2) _ _ h
    fun _ ht e he => Table.forall_mem_insert (hP _ (hi e he)) ht

theorem AllRefs.embedReadOnly (h : p.AllRefs P) (hi : inner.AllRefs P) :
    (p.embedReadOnly inner).AllRefs P :=
  ⟨forall_embedReadOnly (fun _ hs => hs.withFacts _ rfl) h.1 hi.1, h.2⟩

theorem AllRefs.toSchema (h : p.AllRefs P) : p.toSchema.AllRefs P := by
  have hobject : Schema.AllRefs P
      { type := some "object", properties := p.properties, required := p.required } := by
    rw [Schema.allRefs_iff]
    simpa using h.1
  unfold StructParts.toSchema
  split
  · exact hobject
  · refine Schema.allRefs_combined ?_
    split
    · exact h.2
    · exact List.forall_mem_append.2 ⟨h.2, List.forall_mem_singleton.2 hobject⟩

end StructParts

/-! ### Operations and documents -/

/-- The references in a parameter. -/
def Parameter.references (p : Parameter) : List String :=
  Schema.optionReferences p.schema ++ Schema.optionReferences p.items

/-- The references in a response. -/
def Response.references (r : Response) : List String := Schema.optionReferences r.schema

/-- The references in an operation. -/
def Operation.references (o : Operation) : List String :=
  o.parameters.flatMap Parameter.references ++ o.responses.values.flatMap Response.references

/-- The references in a document: in its operations and in its definitions. -/
def Document.references (d : Document) : List String :=
  d.paths.values.flatMap (fun item => item.operations.flatMap Operation.references) ++
    d.definitions.values.flatMap Schema.references

section Operations

variable {P Q : String → Prop}

/-- Every reference in the parameter satisfies the condition. -/
def Parameter.AllRefs (P : String → Prop) (p : Parameter) : Prop := ∀ r ∈ p.references, P r

theorem Parameter.allRefs_iff : p.AllRefs P ↔
    (∀ s, p.schema = some s → s.AllRefs P) ∧ ∀ s, p.items = some s → s.AllRefs P := by
  simp only [Parameter.AllRefs, Parameter.references, List.mem_append, Schema.mem_optionReferences]
  constructor
  · intro h
    exact ⟨fun s hs r hr => h r (.inl ⟨s, hs, hr⟩), fun s hs r hr => h r (.inr ⟨s, hs, hr⟩)⟩
  · rintro ⟨hschema, hitems⟩ r (⟨s, hs, hr⟩ | ⟨s, hs, hr⟩)
    · exact hschema s hs r hr
    · exact hitems s hs r hr

/-- Every reference in the operation satisfies the condition. -/
def Operation.AllRefs (P : String → Prop) (o : Operation) : Prop := ∀ r ∈ o.references, P r

theorem Operation.allRefs_iff : o.AllRefs P ↔ (∀ p ∈ o.parameters, p.AllRefs P) ∧
      ∀ e ∈ o.responses, ∀ s, e.2.schema = some s → s.AllRefs P := by
  simp only [Operation.AllRefs, Operation.references, List.mem_append, List.mem_flatMap,
    Table.values, List.mem_map, Response.references, Schema.mem_optionReferences]
  constructor
  · intro h
    exact ⟨fun p hp r hr => h r (.inl ⟨p, hp, hr⟩),
      fun e he s hs r hr => h r (.inr ⟨e.2, ⟨e, he, rfl⟩, s, hs, hr⟩)⟩
  · rintro ⟨hparams, hresponses⟩ r (⟨p, hp, hr⟩ | ⟨_, ⟨e, he, rfl⟩, s, hs, hr⟩)
    · exact hparams p hp r hr
    · exact hresponses e he s hs r hr

/-- The attributes of a parameter hold no references. -/
theorem ParamAttributes.allRefs_restrict (h : s.AllRefs P) (enums : List Json) :
    (restrict enums s).AllRefs P := by
  unfold restrict
  split
  · exact h
  · exact h.withFacts _ rfl

theorem ParamAttributes.allRefs_onSchema (a : ParamAttributes) (h : s.AllRefs P) :
    (a.onSchema s).AllRefs P := by
  have hs := Schema.allRefs_iff.1 h
  refine Schema.allRefs_iff.2 ⟨hs.1, ?_, hs.2.2⟩
  intro t ht
  obtain ⟨t', ht', rfl⟩ := Option.map_eq_some_iff.1 ht
  exact allRefs_restrict (hs.2.1 t' ht') _

theorem ParamAttributes.allRefs_onParameter (a : ParamAttributes) (h : p.AllRefs P) :
    (a.onParameter p).AllRefs P := by
  have hp := Parameter.allRefs_iff.1 h
  refine Parameter.allRefs_iff.2 ⟨hp.1, ?_⟩
  intro t ht
  obtain ⟨t', ht', rfl⟩ := Option.map_eq_some_iff.1 ht
  exact allRefs_restrict (hp.2 t' ht') _

end Operations

end GoApiDoc
