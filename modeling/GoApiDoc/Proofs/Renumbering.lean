/-
Registries that differ in the numbers of their types.

Instances of generic declarations are numbered in the order in which they are made.  So two runs
that make the same instances may give them different numbers, and with them the types in which the
instances are named by number.  Everything that is read from the declarations is the same up to
these numbers.

* `Go.unnumbered_typeOfText` — **a type that is read from a text names no type by its number**;
* `Filling.Renumbers.enters`, `Filling.Renumbers.circular_iff`, `Filling.Renumbers.fails_iff` —
  **what is entered, what leads back to itself and what is left out is the same**.
-/

import GoApiDoc.Proofs.Circular
import GoApiDoc.Proofs.Parsing
import Mathlib.Logic.Equiv.Basic

set_option autoImplicit false

namespace GoApiDoc

open Go (TypeId TypeExpr)

variable {t : TypeExpr} {id i : TypeId} {f : Go.Field} {v : Entry} {σ τ : TypeId → TypeId}

/-! ### Types with other numbers -/

namespace Go.TypeExpr

mutual

/-- The type with other numbers in it. -/
def renumber (σ : TypeId → TypeId) : TypeExpr → TypeExpr
  | ident name => ident name
  | qualified package name => qualified package name
  | generic base args => generic (renumber σ base) (renumberAll σ args)
  | pointer elem => pointer (renumber σ elem)
  | slice elem => slice (renumber σ elem)
  | array elem => array (renumber σ elem)
  | map key value => map (renumber σ key) (renumber σ value)
  | chan dir elem => chan dir (renumber σ elem)
  | func => func
  | interface methods embeds => interface methods (renumberAll σ embeds)
  | struct fields => struct (renumberFields σ fields)
  | tilde elem => tilde (renumber σ elem)
  | union terms => union (renumberAll σ terms)
  | resolved id => resolved (σ id)

/-- The types of a list with other numbers in them. -/
def renumberAll (σ : TypeId → TypeId) : List TypeExpr → List TypeExpr
  | [] => []
  | t :: ts => renumber σ t :: renumberAll σ ts

/-- Fields with other numbers in their types. -/
def renumberFields (σ : TypeId → TypeId) : List (FieldOf TypeExpr) → List (FieldOf TypeExpr)
  | [] => []
  | ⟨names, type, tag, doc, comment⟩ :: fs =>
    ⟨names, renumber σ type, tag, doc, comment⟩ :: renumberFields σ fs

end

/-- The type names no type by its number. -/
def Unnumbered (t : TypeExpr) : Prop := ∀ σ : TypeId → TypeId, t.renumber σ = t

mutual

theorem renumber_self (h : ∀ id, σ id = id) : ∀ t : TypeExpr, t.renumber σ = t
  | ident _ | qualified _ _ | func => rfl
  | generic base args => by rw [renumber, renumber_self h base, renumberAll_self h args]
  | pointer elem | slice elem | array elem | chan _ elem | tilde elem => by
    rw [renumber, renumber_self h elem]
  | map key value => by rw [renumber, renumber_self h key, renumber_self h value]
  | interface _ embeds => by rw [renumber, renumberAll_self h embeds]
  | struct fields => by rw [renumber, renumberFields_self h fields]
  | union terms => by rw [renumber, renumberAll_self h terms]
  | resolved id => by rw [renumber, h id]

theorem renumberAll_self (h : ∀ id, σ id = id) : ∀ ts : List TypeExpr, renumberAll σ ts = ts
  | [] => rfl
  | t :: ts => by rw [renumberAll, renumber_self h t, renumberAll_self h ts]

theorem renumberFields_self (h : ∀ id, σ id = id) :
    ∀ fs : List (FieldOf TypeExpr), renumberFields σ fs = fs
  | [] => rfl
  | ⟨names, type, tag, doc, comment⟩ :: fs => by
    rw [renumberFields, renumber_self h type, renumberFields_self h fs]

end

mutual

theorem renumber_of_inverse (h : ∀ id, τ (σ id) = id) :
    ∀ t : TypeExpr, (t.renumber σ).renumber τ = t
  | ident _ | qualified _ _ | func => rfl
  | generic base args => by
    rw [renumber, renumber, renumber_of_inverse h base, renumberAll_of_inverse h args]
  | pointer elem | slice elem | array elem | chan _ elem | tilde elem => by
    rw [renumber, renumber, renumber_of_inverse h elem]
  | map key value => by
    rw [renumber, renumber, renumber_of_inverse h key, renumber_of_inverse h value]
  | interface _ embeds => by rw [renumber, renumber, renumberAll_of_inverse h embeds]
  | struct fields => by rw [renumber, renumber, renumberFields_of_inverse h fields]
  | union terms => by rw [renumber, renumber, renumberAll_of_inverse h terms]
  | resolved id => by rw [renumber, renumber, h id]

theorem renumberAll_of_inverse (h : ∀ id, τ (σ id) = id) :
    ∀ ts : List TypeExpr, renumberAll τ (renumberAll σ ts) = ts
  | [] => rfl
  | t :: ts => by
    rw [renumberAll, renumberAll, renumber_of_inverse h t, renumberAll_of_inverse h ts]

theorem renumberFields_of_inverse (h : ∀ id, τ (σ id) = id) :
    ∀ fs : List (FieldOf TypeExpr), renumberFields τ (renumberFields σ fs) = fs
  | [] => rfl
  | ⟨names, type, tag, doc, comment⟩ :: fs => by
    rw [renumberFields, renumberFields, renumber_of_inverse h type, renumberFields_of_inverse h fs]

end

end Go.TypeExpr

/-! ### Types that are read from texts -/

namespace Go

open TypeExpr (renumberAll renumberFields)

theorem TypeExpr.renumberAll_eq_self {ts : List TypeExpr}
    (h : ∀ t ∈ ts, t.renumber σ = t) : renumberAll σ ts = ts := by
  induction ts with
  | nil => rfl
  | cons t ts ih =>
    obtain ⟨ht, hts⟩ := List.forall_mem_cons.1 h
    rw [renumberAll, ht, ih hts]

theorem TypeExpr.renumberFields_eq_self {fs : List Field}
    (h : ∀ f ∈ fs, f.type.renumber σ = f.type) : renumberFields σ fs = fs := by
  induction fs with
  | nil => rfl
  | cons f fs ih =>
    obtain ⟨hf, hfs⟩ := List.forall_mem_cons.1 h
    rw [renumberFields, hf, ih hfs]

theorem TypeExpr.Parsed.unnumbered {φ : Item → Prop} (h : t.Parsed φ) : t.Unnumbered := by
  intro σ
  induction h with
  | ident | qualified | func => rfl
  | generic _ _ ih ihs => rw [renumber, ih, renumberAll_eq_self ihs]
  | pointer _ ih | slice _ ih | array _ ih | chan _ _ ih | tilde _ ih => rw [renumber, ih]
  | map _ _ ihkey ihvalue => rw [renumber, ihkey, ihvalue]
  | interface _ _ ih | union _ ih => rw [renumber, renumberAll_eq_self ih]
  | struct _ _ ih => rw [renumber, renumberFields_eq_self ih]

/-- **A type that is read from a text names no type by its number.** -/
theorem unnumbered_typeOfText {source : String} (h : typeOfText source = .ok t) : t.Unnumbered := by
  obtain ⟨⟨c, m, fuel⟩, hopen, h⟩ := bind_eq_ok_iff.1 h
  obtain ⟨⟨tokens, comments⟩, -, hopen⟩ := bind_eq_ok_iff.1 hopen
  cases hopen
  obtain ⟨⟨t', c'⟩, ht, h⟩ := bind_eq_ok_iff.1 h
  have hc := Cursor.fits_start tokens
  obtain ⟨hparsed, -⟩ := ((parsesWith (fun _ h => h) _).type hc).2 _ ht
  dsimp only at h
  split at h
  · cases h
    exact hparsed.unnumbered
  · cases h

end Go

theorem Settings.unnumbered_replacement? {settings : Settings} {key : String}
    (h : settings.replacement? key = some t) : t.Unnumbered := by
  obtain ⟨text, -, ht⟩ := Option.bind_eq_some_iff.1 h
  cases hread : Go.typeOfText (Text.trim text) with
  | error e =>
    rw [hread] at ht
    cases ht
  | ok t' =>
    rw [hread] at ht
    cases ht
    exact Go.unnumbered_typeOfText hread

/-! ### Declarations and sites -/

/-- The field with other numbers in its type. -/
def Field.renumber (σ : TypeId → TypeId) (f : Go.Field) : Go.Field :=
  { f with type := f.type.renumber σ }

theorem Field.isHidden_renumber (σ : TypeId → TypeId) (f : Go.Field) :
    Field.isHidden (Field.renumber σ f) = Field.isHidden f := rfl

theorem Field.propertyName?_renumber (σ : TypeId → TypeId) (naming : Naming) (f : Go.Field) :
    Field.propertyName? naming (Field.renumber σ f) = Field.propertyName? naming f := rfl

theorem Field.customSchema?_renumber (σ : TypeId → TypeId) (f : Go.Field) :
    Field.customSchema? (Field.renumber σ f) = Field.customSchema? f := rfl

theorem Go.TypeExpr.renumberFields_eq_map (σ : TypeId → TypeId) (fs : List Go.Field) :
    renumberFields σ fs = fs.map (Field.renumber σ) := by
  induction fs with
  | nil => rfl
  | cons f fs ih => rw [renumberFields, ih, List.map_cons, Field.renumber]

theorem Go.TypeExpr.target_renumber (σ : TypeId → TypeId) (t : TypeExpr) :
    (t.renumber σ).target = t.target.renumber σ := by
  fun_induction TypeExpr.target t with
  | case1 elem ih => rw [renumber, target, ih]
  | case2 t hpointer =>
    cases t with
    | pointer elem => exact absurd rfl (hpointer elem)
    | _ => rfl

theorem Field.target_renumber (σ : TypeId → TypeId) (f : Go.Field) :
    (Field.renumber σ f).type.target = f.type.target.renumber σ := by
  rw [Field.renumber, TypeExpr.target_renumber]

theorem Go.TypeExpr.isNamed_renumber (σ : TypeId → TypeId) (t : TypeExpr) :
    (t.renumber σ).isNamed = t.isNamed := by
  cases t <;> rfl

theorem Go.TypeExpr.isUnsupported_renumber (σ : TypeId → TypeId) (t : TypeExpr) :
    (t.renumber σ).isUnsupported = t.isUnsupported := by
  cases t <;> rfl

/-- The declaration with other numbers in it. -/
def TypeDecl.renumber (σ : TypeId → TypeId) (d : TypeDecl) : TypeDecl :=
  { d with type := d.type.renumber σ, origin := d.origin.map σ }

theorem TypeDecl.renumber_of_inverse (h : ∀ id, τ (σ id) = id)
    (d : TypeDecl) : (d.renumber σ).renumber τ = d := by
  have horigin : (d.origin.map σ).map τ = d.origin := by
    rw [Option.map_map, show τ ∘ σ = id from funext h, Option.map_id]
    rfl
  rw [renumber, renumber, TypeExpr.renumber_of_inverse h, horigin]

/-- What is read, with other numbers in it. -/
def Site.renumber (σ : TypeId → TypeId) : Site → Site
  | .type t file => .type (t.renumber σ) file
  | .symbol id => .symbol (σ id)
  | .fields fs file => .fields (TypeExpr.renumberFields σ fs) file
  | .field f file => .field (Field.renumber σ f) file

theorem Site.renumber_of_inverse (h : ∀ id, τ (σ id) = id) (s : Site) :
    (s.renumber σ).renumber τ = s := by
  cases s with
  | type t file => rw [renumber, renumber, TypeExpr.renumber_of_inverse h]
  | symbol id => rw [renumber, renumber, h]
  | fields fs file => rw [renumber, renumber, TypeExpr.renumberFields_of_inverse h]
  | field f file =>
    rw [renumber, renumber, Field.renumber, Field.renumber, TypeExpr.renumber_of_inverse h]

/-! ### Registries -/

/-- The second registry is the first one with other numbers, and no replacement is for a type that
is given by its number. -/
structure Filling.Renumbers (σ : Equiv.Perm TypeId) (settings : Settings) (r r' : Filling) :
    Prop where
  types : ∀ id, r'.types[σ id]? = r.types[id]?.map (TypeDecl.renumber σ)
  finds : ∀ file t id, r'.Finds file (t.renumber σ) (σ id) ↔ r.Finds file t id
  packageOf? : ∀ qualifier file, r'.packageOf? qualifier file = r.packageOf? qualifier file
  replaced : ∀ t : TypeExpr,
    settings.overrides.get? (t.renumber σ).text = settings.overrides.get? t.text

namespace Filling.Renumbers

variable {σ : Equiv.Perm TypeId} {settings : Settings} {r r' : Filling}

theorem refl (settings : Settings) (r : Filling) :
    Filling.Renumbers (.refl TypeId) settings r r where
  types := fun id => by
    have hself : TypeDecl.renumber (Equiv.refl TypeId) = fun d => d := by
      funext d
      rw [TypeDecl.renumber, TypeExpr.renumber_self Equiv.refl_apply]
      cases horigin : d.origin <;> simp [← horigin]
    rw [hself, Option.map_id_fun']
    rfl
  finds := fun file t id => by
    rw [TypeExpr.renumber_self Equiv.refl_apply]
    rfl
  packageOf? := fun _ _ => rfl
  replaced := fun t => by rw [TypeExpr.renumber_self Equiv.refl_apply]

theorem symm (h : Filling.Renumbers σ settings r r') : Filling.Renumbers σ.symm settings r' r where
  types := fun id => by
    have hid := h.types (σ.symm id)
    rw [σ.apply_symm_apply] at hid
    have hback : TypeDecl.renumber σ.symm ∘ TypeDecl.renumber σ = fun d => d :=
      funext fun d => d.renumber_of_inverse σ.symm_apply_apply
    rw [hid, Option.map_map, hback, Option.map_id_fun']
    rfl
  finds := fun file t id => by
    rw [← h.finds, TypeExpr.renumber_of_inverse σ.apply_symm_apply, σ.apply_symm_apply]
  packageOf? := fun qualifier file => (h.packageOf? qualifier file).symm
  replaced := fun t => by
    rw [← h.replaced, TypeExpr.renumber_of_inverse σ.apply_symm_apply]

variable (h : Filling.Renumbers σ settings r r') {site : Site}

include h

theorem types_some {d : TypeDecl} (hd : r.types[id]? = some d) :
    r'.types[σ id]? = some (d.renumber σ) := by
  rw [h.types, hd]
  rfl

theorem replacement? (t : TypeExpr) :
    settings.replacement? (t.renumber σ).text = settings.replacement? t.text := by
  rw [Settings.replacement?, h.replaced]
  rfl

theorem isTime (t : TypeExpr) (file : FileId) :
    Resolver.isTime r' (t.renumber σ) file = Resolver.isTime r t file := by
  cases t with
  | qualified package name => rw [TypeExpr.renumber, Resolver.isTime, Resolver.isTime, h.packageOf?]
  | _ => rfl

theorem embeds {file : FileId} (hf : Field.Embeds r settings f file id) :
    Field.Embeds r' settings (Field.renumber σ f) file (σ id) where
  unnamed := hf.unnamed
  shown := hf.shown
  untagged := hf.untagged
  found := by
    rw [Field.target_renumber]
    exact (h.finds _ _ _).2 hf.found
  struct := by
    obtain ⟨d, fs, hd, htype⟩ := hf.struct
    exact ⟨_, TypeExpr.renumberFields σ fs, h.types_some hd, by rw [TypeDecl.renumber, htype]; rfl⟩

omit h in
theorem mem_renumberFields {fs : List Go.Field} (hf : f ∈ fs) :
    Field.renumber σ f ∈ TypeExpr.renumberFields σ fs := by
  rw [TypeExpr.renumberFields_eq_map]
  exact List.mem_map_of_mem hf

/-- **The same is entered.** -/
theorem enters (he : Enters r settings site id v) :
    Enters r' settings (site.renumber σ) (σ id) v := by
  induction he with
  | replaced ht _ ih =>
    refine .replaced ((h.replacement? _).trans ht) ?_
    rwa [Site.renumber, Settings.unnumbered_replacement? ht σ] at ih
  | declared ht hi _ ih => exact .declared ((h.replaced _).trans ht) ((h.finds _ _ _).2 hi) ih
  | resolved _ ih => exact .resolved ih
  | pointer _ ih => exact .pointer ih
  | slice _ ih => exact .slice ih
  | array _ ih => exact .array ih
  | map _ ih => exact .map ih
  | struct _ ih => exact .struct ih
  | replacedSymbol hd ht _ ih =>
    refine .replacedSymbol (h.types_some hd) ht ?_
    rwa [Site.renumber, Settings.unnumbered_replacement? ht σ] at ih
  | aliased hd ht halias _ ih => exact .aliased (h.types_some hd) ht halias ih
  | symbol hd ht halias => exact .symbol (h.types_some hd) ht halias
  | field hf _ ih => exact .field (mem_renumberFields hf) ih
  | typed hf _ ih => exact .typed ⟨hf.shown, hf.plain, hf.exported⟩ ih
  | embedded hf => exact .embedded (h.embeds hf)
  | kept hf hro _ ih => exact .kept (h.embeds hf) hro ih

theorem leads (hl : Leads r settings i id v) : Leads r' settings (σ i) (σ id) v := by
  obtain ⟨d, hd, he⟩ := hl
  exact ⟨_, h.types_some hd, h.enters he⟩

theorem circular (hc : Circular r settings id) : Circular r' settings (σ id) :=
  hc.lift σ fun _ _ ⟨v, hl⟩ => ⟨v, h.leads hl⟩

theorem composes (hc : Composes r settings site) : Composes r' settings (site.renumber σ) := by
  induction hc with
  | kept hf hro => exact .kept (h.embeds hf) hro
  | inside hf hd htype _ ih =>
    exact .inside (h.embeds hf) (h.types_some hd) (by rw [TypeDecl.renumber, htype]; rfl) ih
  | field hf _ ih => exact .field (mem_renumberFields hf) ih

theorem removes (hr : settings.Removes t.text) : settings.Removes (t.renumber σ).text := by
  obtain ⟨text, htext, hempty⟩ := hr
  exact ⟨text, (h.replaced t).trans htext, hempty⟩

/-- **The same is left out.** -/
theorem fails (hf : Fails r settings site) : Fails r' settings (site.renumber σ) := by
  induction hf with
  | builtin hname hs => exact .builtin hname hs
  | unsupported ht => exact .unsupported ((TypeExpr.isUnsupported_renumber σ _).trans ht)
  | removed ht hr => exact .removed ((TypeExpr.isNamed_renumber σ _).trans ht) (h.removes hr)
  | replaced ht hr _ ih =>
    refine .replaced ((TypeExpr.isNamed_renumber σ _).trans ht) ((h.replacement? _).trans hr) ?_
    rwa [Site.renumber, Settings.unnumbered_replacement? hr σ] at ih
  | declared ht hr htime hid _ ih =>
    exact .declared ((TypeExpr.isNamed_renumber σ _).trans ht) ((h.replaced _).trans hr)
      ((h.isTime _ _).trans htime) ((h.finds _ _ _).2 hid) ih
  | resolved _ ih => exact .resolved ih
  | pointer _ ih => exact .pointer ih
  | slice _ ih => exact .slice ih
  | array _ ih => exact .array ih
  | map _ ih => exact .map ih
  | struct _ ih => exact .struct ih
  | removedSymbol hd hr => exact .removedSymbol (h.types_some hd) hr
  | replacedSymbol hd hr _ ih =>
    refine .replacedSymbol (h.types_some hd) hr ?_
    rwa [Site.renumber, Settings.unnumbered_replacement? hr σ] at ih
  | symbol hd hr _ ih => exact .symbol (h.types_some hd) hr ih
  | field hf _ ih => exact .field (mem_renumberFields hf) ih
  | kept hf hro _ ih => exact .kept (h.embeds hf) hro ih
  | inside hf hd htype _ ih =>
    exact .inside (h.embeds hf) (h.types_some hd) (by rw [TypeDecl.renumber, htype]; rfl) ih

/-! ### Both ways -/

theorem enters_iff (site : Site) :
    Enters r' settings (site.renumber σ) id v ↔ Enters r settings site (σ.symm id) v := by
  refine ⟨fun he => ?_, fun he => ?_⟩
  · have hback := h.symm.enters he
    rwa [Site.renumber_of_inverse σ.symm_apply_apply] at hback
  · have hforth := h.enters he
    rwa [σ.apply_symm_apply] at hforth

theorem leads_iff : Leads r' settings (σ i) id v ↔ Leads r settings i (σ.symm id) v := by
  refine ⟨fun hl => ?_, fun hl => ?_⟩
  · have hback := h.symm.leads hl
    rwa [σ.symm_apply_apply] at hback
  · have hforth := h.leads hl
    rwa [σ.apply_symm_apply] at hforth

theorem circular_iff : Circular r' settings (σ id) ↔ Circular r settings id := by
  refine ⟨fun hc => ?_, h.circular⟩
  have hback := h.symm.circular hc
  rwa [σ.symm_apply_apply] at hback

theorem fails_iff (site : Site) : Fails r' settings (site.renumber σ) ↔ Fails r settings site := by
  refine ⟨fun hf => ?_, h.fails⟩
  have hback := h.symm.fails hf
  rwa [Site.renumber_of_inverse σ.symm_apply_apply] at hback

/-- **Both registries are orderly if one of them is.** -/
theorem orderly (ho : Orderly r settings) : Orderly r' settings where
  certain := by
    intro file t i j hi hj
    exact σ.symm.injective (ho.certain ((h.symm.finds _ _ _).2 hi) ((h.symm.finds _ _ _).2 hj))
  struct := by
    intro i hi
    obtain ⟨d, fs, hd, htype, hplain⟩ := ho.struct (h.symm.circular hi)
    have hd' := h.types_some hd
    rw [σ.apply_symm_apply] at hd'
    refine ⟨_, TypeExpr.renumberFields σ fs, hd', by rw [TypeDecl.renumber, htype]; rfl, ?_⟩
    intro hc
    have hback := h.symm.composes hc
    rw [Site.renumber, TypeExpr.renumberFields_of_inverse σ.symm_apply_apply] at hback
    exact hplain hback
  apart := fun i j hi hl => ho.apart (h.symm.circular hi) (h.symm.leads hl)

end Filling.Renumbers

end GoApiDoc
