/-
Types that lead back to themselves.

While a type is being built, a reference to it is answered before anything is known of it: it is
taken for an object, and for a type that will have a definition.  Both are true of a struct that is
nowhere embedded, and neither has to be true of other types.  What is said here of types is read
off their declarations, and holds whatever has been resolved before.

* `Orderly.not_fails` — **a type that leads back to itself is not left out**.
-/

import GoApiDoc.Proofs.Recursion

set_option autoImplicit false

namespace GoApiDoc

open Go (TypeId TypeExpr)

variable {r : Filling} {settings : Settings} {id i : TypeId} {file : FileId} {d : TypeDecl}
  {elem : TypeExpr} {fs : List Go.Field} {f : Go.Field} {site : Site}

/-! ### Circles -/

/-- The declaration of one type leads to the other. -/
def Refers (r : Filling) (settings : Settings) (i j : TypeId) : Prop :=
  ∃ v, Leads r settings i j v

/-- The type leads back to itself. -/
def Circular (r : Filling) (settings : Settings) (i : TypeId) : Prop :=
  Relation.TransGen (Refers r settings) i i

theorem Enters.declared_of_reference (h : Enters r settings site id .reference) :
    ∃ d, r.types[id]? = some d ∧ settings.overrides.get? d.fullPath = none ∧ d.isAlias = false := by
  generalize hv : Entry.reference = v at h
  induction h with
  | symbol hd ht halias => exact ⟨_, hd, ht, halias⟩
  | embedded _ => cases hv
  | replaced _ _ ih | declared _ _ _ ih | resolved _ ih | pointer _ ih | slice _ ih | array _ ih
  | map _ ih | struct _ ih | replacedSymbol _ _ _ ih | aliased _ _ _ _ ih | field _ _ ih
  | typed _ _ ih | kept _ _ _ ih => exact ih hv

/-! ### Structs that are more than objects -/

/-- Among the fields a struct is embedded that is kept by reference. -/
inductive Composes (r : Filling) (settings : Settings) : Site → Prop
  | kept {f : Go.Field} {file : FileId} {id : TypeId} (hf : Field.Embeds r settings f file id)
      (hro : Field.isReadOnly f = true) : Composes r settings (.field f file)
  | inside {f : Go.Field} {fs : List Go.Field} {file : FileId} {id : TypeId} {d : TypeDecl}
      (hf : Field.Embeds r settings f file id) (hd : r.types[id]? = some d)
      (htype : d.type = .struct fs) (h : Composes r settings (.fields fs d.file)) :
      Composes r settings (.field f file)
  | field {f : Go.Field} {fs : List Go.Field} {file : FileId} (hf : f ∈ fs)
      (h : Composes r settings (.field f file)) : Composes r settings (.fields fs file)

/-! ### Types without a schema -/

/-- The type is given by a name that is looked up. -/
def Go.TypeExpr.isNamed : TypeExpr → Bool
  | .ident name => !isBuiltinType name
  | .qualified _ _ | .generic _ _ => true
  | _ => false

/-- The type has no schema, whatever its parts are. -/
def Go.TypeExpr.isUnsupported : TypeExpr → Bool
  | .func | .chan _ _ | .tilde _ | .union _ => true
  | _ => false

/-- What is read instead of a type that is no name: the type in it, or its fields. -/
def Go.TypeExpr.part? (file : FileId) : TypeExpr → Option Site
  | .pointer elem | .slice elem | .array elem | .map _ elem => some (.type elem file)
  | .struct fs => some (.fields fs file)
  | .resolved id => some (.symbol id)
  | _ => none

/-- The settings take the type out. -/
def Settings.Removes (settings : Settings) (key : String) : Prop :=
  ∃ text, settings.overrides.get? key = some text ∧ text.isEmpty = true

/-- What is read has no schema, and a field of this type is left out. -/
inductive Fails (r : Filling) (settings : Settings) : Site → Prop
  | builtin {name : String} {file : FileId} (h : isBuiltinType name = true)
      (hs : Schema.ofBuiltin? name = none) : Fails r settings (.type (.ident name) file)
  | unsupported {t : TypeExpr} {file : FileId} (ht : t.isUnsupported = true) :
      Fails r settings (.type t file)
  | removed {t : TypeExpr} {file : FileId} (ht : t.isNamed = true)
      (hr : settings.Removes t.text) : Fails r settings (.type t file)
  | replaced {t t' : TypeExpr} {file : FileId} (ht : t.isNamed = true)
      (hr : settings.replacement? t.text = some t') (h : Fails r settings (.type t' file)) :
      Fails r settings (.type t file)
  | declared {t : TypeExpr} {file : FileId} {id : TypeId} (ht : t.isNamed = true)
      (hr : settings.overrides.get? t.text = none) (htime : Resolver.isTime r t file = false)
      (hid : r.Finds file t id) (h : Fails r settings (.symbol id)) :
      Fails r settings (.type t file)
  | resolved {id : TypeId} {file : FileId} (h : Fails r settings (.symbol id)) :
      Fails r settings (.type (.resolved id) file)
  | pointer {elem : TypeExpr} {file : FileId} (h : Fails r settings (.type elem file)) :
      Fails r settings (.type (.pointer elem) file)
  | slice {elem : TypeExpr} {file : FileId} (h : Fails r settings (.type elem file)) :
      Fails r settings (.type (.slice elem) file)
  | array {elem : TypeExpr} {file : FileId} (h : Fails r settings (.type elem file)) :
      Fails r settings (.type (.array elem) file)
  | map {key value : TypeExpr} {file : FileId} (h : Fails r settings (.type value file)) :
      Fails r settings (.type (.map key value) file)
  | struct {fs : List Go.Field} {file : FileId} (h : Fails r settings (.fields fs file)) :
      Fails r settings (.type (.struct fs) file)
  | removedSymbol {id : TypeId} {d : TypeDecl} (hd : r.types[id]? = some d)
      (hr : settings.Removes d.fullPath) : Fails r settings (.symbol id)
  | replacedSymbol {id : TypeId} {d : TypeDecl} {t' : TypeExpr} (hd : r.types[id]? = some d)
      (hr : settings.replacement? d.fullPath = some t')
      (h : Fails r settings (.type t' d.file)) : Fails r settings (.symbol id)
  | symbol {id : TypeId} {d : TypeDecl} (hd : r.types[id]? = some d)
      (hr : settings.overrides.get? d.fullPath = none)
      (h : Fails r settings (.type d.type d.file)) : Fails r settings (.symbol id)
  | field {f : Go.Field} {fs : List Go.Field} {file : FileId} (hf : f ∈ fs)
      (h : Fails r settings (.field f file)) : Fails r settings (.fields fs file)
  | kept {f : Go.Field} {file : FileId} {id : TypeId} (hf : Field.Embeds r settings f file id)
      (hro : Field.isReadOnly f = true) (h : Fails r settings (.symbol id)) :
      Fails r settings (.field f file)
  | inside {f : Go.Field} {fs : List Go.Field} {file : FileId} {id : TypeId} {d : TypeDecl}
      (hf : Field.Embeds r settings f file id) (hd : r.types[id]? = some d)
      (htype : d.type = .struct fs) (h : Fails r settings (.fields fs d.file)) :
      Fails r settings (.field f file)

/-- What is read is a struct or a field of one. -/
def Site.isPart : Site → Bool
  | .type _ _ | .symbol _ => false
  | .fields _ _ | .field _ _ => true

/-- **A struct is left out only for one that is kept in it by reference**: its other fields are left
out one by one. -/
theorem Fails.composes (h : Fails r settings site) (hpart : site.isPart = true) :
    Composes r settings site := by
  induction h with
  | field hf _ ih => exact .field hf (ih rfl)
  | kept hf hro _ _ => exact .kept hf hro
  | inside hf hd htype _ ih => exact .inside hf hd htype (ih rfl)
  | _ => cases hpart

/-! ### Orderly registries -/

/-- Every circle of types goes through structs that are objects and are nowhere embedded.  What a
type stands for does not change while instances are added. -/
structure Orderly (r : Filling) (settings : Settings) : Prop where
  certain : ∀ ⦃file : FileId⦄ ⦃t : TypeExpr⦄ ⦃i j : TypeId⦄,
    r.Finds file t i → r.Finds file t j → i = j
  struct : ∀ ⦃i : TypeId⦄, Circular r settings i → ∃ d fs, r.types[i]? = some d ∧
    d.type = .struct fs ∧ ¬Composes r settings (.fields fs d.file)
  apart : ∀ ⦃i j : TypeId⦄, Circular r settings i → ¬Leads r settings j i .embedding

namespace Orderly

variable {r : Filling} {settings : Settings}

theorem reference_of_circular (ho : Orderly r settings) (hi : Circular r settings i) :
    ∃ d, r.types[i]? = some d ∧ settings.overrides.get? d.fullPath = none ∧ d.isAlias = false := by
  obtain ⟨j, -, v, hlast⟩ := Relation.TransGen.tail'_iff.1 hi
  cases v with
  | embedding => exact absurd hlast (ho.apart hi)
  | reference =>
    obtain ⟨d, -, henters⟩ := hlast
    exact henters.declared_of_reference

/-- **A type that leads back to itself is not left out.** -/
theorem not_fails (ho : Orderly r settings) (hi : Circular r settings i) :
    ¬Fails r settings (.symbol i) := by
  obtain ⟨d, hd, hkept, -⟩ := ho.reference_of_circular hi
  obtain ⟨d', fs, hd', htype, hplain⟩ := ho.struct hi
  cases hd.symm.trans hd'
  intro h
  cases h with
  | removedSymbol hd' hr =>
    cases hd.symm.trans hd'
    obtain ⟨text, htext, -⟩ := hr
    cases hkept.symm.trans htext
  | replacedSymbol hd' hr _ =>
    cases hd.symm.trans hd'
    rw [Settings.replacement?, hkept] at hr
    cases hr
  | symbol hd' _ h =>
    cases hd.symm.trans hd'
    rw [htype] at h
    cases h with
    | struct h => exact hplain (h.composes rfl)
    | unsupported ht | removed ht _ | replaced ht _ _ | declared ht _ _ _ _ => cases ht

end Orderly

/-! ### What is left out, by layers -/

/-- The settings leave the type out, or put a type in its place that is. -/
def OverrideFails (r : Filling) (settings : Settings) (key : String) (file : FileId) : Prop :=
  settings.Removes key ∨ ∃ t, settings.replacement? key = some t ∧ Fails r settings (.type t file)

namespace OverrideFails

variable {r : Filling} {settings : Settings} {key : String} {file : FileId}

theorem get?_ne_none (h : OverrideFails r settings key file) :
    settings.overrides.get? key ≠ none := by
  intro hnone
  rcases h with ⟨text, htext, -⟩ | ⟨t, ht, -⟩
  · cases hnone.symm.trans htext
  · rw [Settings.replacement?, hnone] at ht
    cases ht

end OverrideFails

section Layers

variable {r : Filling} {settings : Settings}

theorem fails_builtin_iff {name : String} (h : isBuiltinType name = true) :
    Fails r settings (.type (.ident name) file) ↔ Schema.ofBuiltin? name = none := by
  refine ⟨fun hf => ?_, .builtin h⟩
  have hnamed : ¬(TypeExpr.ident name).isNamed = true := by simp [TypeExpr.isNamed, h]
  cases hf with
  | builtin _ hs => exact hs
  | unsupported ht => cases ht
  | removed ht _ | replaced ht _ _ | declared ht _ _ _ _ => exact absurd ht hnamed

/-- A name is left out for the settings, or for the type that it stands for. -/
theorem fails_named_iff {t : TypeExpr} (ht : t.isNamed = true) :
    Fails r settings (.type t file) ↔ OverrideFails r settings t.text file ∨
      settings.overrides.get? t.text = none ∧ Resolver.isTime r t file = false ∧
        ∃ id, r.Finds file t id ∧ Fails r settings (.symbol id) := by
  constructor
  · intro h
    cases h with
    | removed _ hr => exact .inl (.inl hr)
    | replaced _ hr h => exact .inl (.inr ⟨_, hr, h⟩)
    | declared _ hr htime hid h => exact .inr ⟨hr, htime, _, hid, h⟩
    | builtin hname _ => simp [TypeExpr.isNamed, hname] at ht
    | unsupported hu =>
      cases t with
      | func | chan | tilde | union => cases ht
      | _ => cases hu
    | resolved | pointer | slice | array | map | struct => cases ht
  · rintro ((hr | ⟨t', hr, h⟩) | ⟨hr, htime, id, hid, h⟩)
    · exact .removed ht hr
    · exact .replaced ht hr h
    · exact .declared ht hr htime hid h

theorem fails_symbol_iff (hd : r.types[id]? = some d) :
    Fails r settings (.symbol id) ↔ OverrideFails r settings d.fullPath d.file ∨
      settings.overrides.get? d.fullPath = none ∧ Fails r settings (.type d.type d.file) := by
  constructor
  · intro h
    cases h with
    | removedSymbol hd' hr =>
      cases hd.symm.trans hd'
      exact .inl (.inl hr)
    | replacedSymbol hd' hr h =>
      cases hd.symm.trans hd'
      exact .inl (.inr ⟨_, hr, h⟩)
    | symbol hd' hr h =>
      cases hd.symm.trans hd'
      exact .inr ⟨hr, h⟩
  · rintro ((hr | ⟨t', hr, h⟩) | ⟨hr, h⟩)
    · exact .removedSymbol hd hr
    · exact .replacedSymbol hd hr h
    · exact .symbol hd hr h

theorem fails_symbol_iff_of_kept (hd : r.types[id]? = some d)
    (hkept : settings.overrides.get? d.fullPath = none) :
    Fails r settings (.symbol id) ↔ Fails r settings (.type d.type d.file) := by
  rw [fails_symbol_iff hd]
  constructor
  · rintro (h | ⟨-, h⟩)
    · exact absurd hkept h.get?_ne_none
    · exact h
  · exact fun h => .inr ⟨hkept, h⟩

/-- A type that is no name is left out with its part. -/
theorem fails_part_iff {t : TypeExpr} (ht : t.part? file = some site) :
    Fails r settings (.type t file) ↔ Fails r settings site := by
  constructor
  · intro h
    cases h with
    | pointer h | slice h | array h | map h | struct h | resolved h =>
      cases ht
      exact h
    | builtin => cases ht
    | unsupported hother | removed hother | replaced hother | declared hother =>
      cases t <;> first | (cases hother; done) | cases ht
  · intro h
    cases t <;> cases ht
    all_goals first
      | exact .pointer h | exact .slice h | exact .array h | exact .map h | exact .struct h
      | exact .resolved h

theorem not_fails_interface {methods : Nat} {embeds : List TypeExpr} :
    ¬Fails r settings (.type (.interface methods embeds) file) := by
  intro h
  cases h with
  | unsupported ht | removed ht | replaced ht | declared ht => cases ht

theorem fails_fields_iff :
    Fails r settings (.fields fs file) ↔ ∃ f ∈ fs, Fails r settings (.field f file) := by
  constructor
  · intro h
    cases h with
    | field hf h => exact ⟨_, hf, h⟩
  · rintro ⟨f, hf, h⟩
    exact .field hf h

/-- A field is left out with its struct only if it embeds one. -/
theorem not_fails_field (h : ∀ id, ¬Field.Embeds r settings f file id) :
    ¬Fails r settings (.field f file) := by
  intro hf
  cases hf with
  | kept hf | inside hf => exact h _ hf

theorem fails_field_iff (ho : Orderly r settings) (hf : Field.Embeds r settings f file id)
    (hd : r.types[id]? = some d) (htype : d.type = .struct fs) : Fails r settings (.field f file) ↔
      Field.isReadOnly f = true ∧ Fails r settings (.symbol id) ∨
        Fails r settings (.fields fs d.file) := by
  constructor
  · intro h
    cases h with
    | kept hf' hro h =>
      cases ho.certain hf.found hf'.found
      exact .inl ⟨hro, h⟩
    | inside hf' hd' htype' h =>
      cases ho.certain hf.found hf'.found
      cases hd.symm.trans hd'
      cases htype.symm.trans htype'
      exact .inr h
  · rintro (⟨hro, h⟩ | h)
    · exact .kept hf hro h
    · exact .inside hf hd htype h

end Layers

end GoApiDoc
