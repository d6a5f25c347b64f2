/-
Structs that cannot be embedded.

A struct whose fields go into one that embeds it must not be one of the types that are being built.
That list holds the types whose fields are gone through for an embedding one, and also the types
whose definition is being built, which may have been reached through a field of any type.  So the
error names a circle of types each of which leads to the next one, and only the last step is known
to be an embedding.

* `Resolver.tracedWith` — **every function that resolves types is traced**;
* `Resolver.recursiveStruct_is_circle` — **the chain of the error is a circle of types, each of
  which leads to the next one, and the last embeds the first**; if no struct embeds itself in a
  circle, one of the steps is a mere reference.
-/

import Mathlib
import GoApiDoc.Proofs.Reading

set_option autoImplicit false

namespace GoApiDoc

open Go (TypeId TypeExpr)

variable {id i : TypeId} {d : TypeDecl} {file : FileId} {f : Go.Field} {name : String}
  {elem : TypeExpr}

/-! ### What is entered -/

/-- The type that the settings give in place of another one. -/
def Settings.replacement? (settings : Settings) (key : String) : Option TypeExpr :=
  (settings.overrides.get? key).bind fun text => (Go.typeOfText (Text.trim text)).toOption

/-- A registry together with the one from which it has been filled with instances. -/
structure Filling extends Registry where
  /-- The registry at the beginning. -/
  start : Registry

instance : Coe Filling Registry := ⟨Filling.toRegistry⟩

/-- In the file the type stands for the declared one, at some time while the registry was filled. -/
def Filling.Finds (r : Filling) (file : FileId) (t : TypeExpr) (id : TypeId) : Prop :=
  ∃ r₀, r.start.Gains r₀ ∧ (Registry.declaredOf file t r₀).2.Gains r ∧
    (Registry.declaredOf file t r₀).1 = some id

/-- What is read. -/
inductive Site where
  | type (t : TypeExpr) (file : FileId)
  | symbol (id : TypeId)
  /-- The fields of a struct in a file. -/
  | fields (fs : List Go.Field) (file : FileId)
  | field (f : Go.Field) (file : FileId)

/-- The way in which a type is entered. -/
inductive Entry where
  /-- A reference to it is asked for, so that its definition is built. -/
  | reference
  /-- A field without a name embeds it, and its fields are gone through. -/
  | embedding

/-- The field has no name, and no other use than to embed a struct. -/
structure Field.Embeds (r : Filling) (settings : Settings) (f : Go.Field) (file : FileId)
    (id : TypeId) : Prop where
  unnamed : f.names = []
  shown : Field.isHidden f = false
  untagged : Field.propertyName? settings.naming f = none
  found : r.Finds file f.type.target id
  struct : ∃ d fs, r.types[id]? = some d ∧ d.type = .struct fs

/-- The field contributes a property of its type. -/
structure Field.Reads (f : Go.Field) : Prop where
  shown : Field.isHidden f = false
  plain : Field.customSchema? f = .ok none
  exported : f.names = [] ∨ ∃ name ∈ f.names, Text.isExported name = true

/-- The type is entered when this is read, before any other type is. -/
inductive Enters (r : Filling) (settings : Settings) : Site → TypeId → Entry → Prop
  | replaced {t t' : TypeExpr} {file : FileId} {id : TypeId} {v : Entry}
      (ht : settings.replacement? t.text = some t')
      (h : Enters r settings (.type t' file) id v) : Enters r settings (.type t file) id v
  | declared {t : TypeExpr} {file : FileId} {i id : TypeId} {v : Entry}
      (ht : settings.overrides.get? t.text = none) (hi : r.Finds file t i)
      (h : Enters r settings (.symbol i) id v) : Enters r settings (.type t file) id v
  | resolved {file : FileId} {i id : TypeId} {v : Entry} (h : Enters r settings (.symbol i) id v) :
      Enters r settings (.type (.resolved i) file) id v
  | pointer {elem : TypeExpr} {file : FileId} {id : TypeId} {v : Entry}
      (h : Enters r settings (.type elem file) id v) :
      Enters r settings (.type (.pointer elem) file) id v
  | slice {elem : TypeExpr} {file : FileId} {id : TypeId} {v : Entry}
      (h : Enters r settings (.type elem file) id v) :
      Enters r settings (.type (.slice elem) file) id v
  | array {elem : TypeExpr} {file : FileId} {id : TypeId} {v : Entry}
      (h : Enters r settings (.type elem file) id v) :
      Enters r settings (.type (.array elem) file) id v
  | map {key value : TypeExpr} {file : FileId} {id : TypeId} {v : Entry}
      (h : Enters r settings (.type value file) id v) :
      Enters r settings (.type (.map key value) file) id v
  | struct {fs : List Go.Field} {file : FileId} {id : TypeId} {v : Entry}
      (h : Enters r settings (.fields fs file) id v) :
      Enters r settings (.type (.struct fs) file) id v
  | replacedSymbol {t' : TypeExpr} {i id : TypeId} {d : TypeDecl} {v : Entry}
      (hd : r.types[i]? = some d) (ht : settings.replacement? d.fullPath = some t')
      (h : Enters r settings (.type t' d.file) id v) : Enters r settings (.symbol i) id v
  | aliased {i id : TypeId} {d : TypeDecl} {v : Entry} (hd : r.types[i]? = some d)
      (ht : settings.overrides.get? d.fullPath = none) (halias : d.isAlias = true)
      (h : Enters r settings (.type d.type d.file) id v) : Enters r settings (.symbol i) id v
  | symbol {id : TypeId} {d : TypeDecl} (hd : r.types[id]? = some d)
      (ht : settings.overrides.get? d.fullPath = none) (halias : d.isAlias = false) :
      Enters r settings (.symbol id) id .reference
  | field {f : Go.Field} {fs : List Go.Field} {file : FileId} {id : TypeId} {v : Entry}
      (hf : f ∈ fs) (h : Enters r settings (.field f file) id v) :
      Enters r settings (.fields fs file) id v
  | typed {f : Go.Field} {file : FileId} {id : TypeId} {v : Entry} (hf : Field.Reads f)
      (h : Enters r settings (.type f.type file) id v) : Enters r settings (.field f file) id v
  | embedded {f : Go.Field} {file : FileId} {id : TypeId} (hf : Field.Embeds r settings f file id) :
      Enters r settings (.field f file) id .embedding
  | kept {f : Go.Field} {file : FileId} {i id : TypeId} {v : Entry}
      (hf : Field.Embeds r settings f file i) (hro : Field.isReadOnly f = true)
      (h : Enters r settings (.symbol i) id v) : Enters r settings (.field f file) id v

/-- The type is entered when the declaration of another one is read. -/
def Leads (r : Filling) (settings : Settings) (i id : TypeId) (v : Entry) : Prop :=
  ∃ d, r.types[i]? = some d ∧ Enters r settings (.type d.type d.file) id v

/-- The types have been entered one from the declaration of another, the first one where `P` says
what may be entered; `Q` says what may be entered at the end. -/
inductive Trail (r : Filling) (settings : Settings) :
    (TypeId → Entry → Prop) → List TypeId → (TypeId → Entry → Prop) → Prop
  | here (P : TypeId → Entry → Prop) : Trail r settings P [] P
  | enter {P Q : TypeId → Entry → Prop} {id : TypeId} {v : Entry} {path : List TypeId} (h : P id v)
      (ht : Trail r settings (Leads r settings id) path Q) : Trail r settings P (id :: path) Q

/-- Types are entered up to one that embeds a type on the way, `stack` being those that had been
entered before; the chain of names leads from that type back to it. -/
def Closes (r : Filling) (settings : Settings) (P : TypeId → Entry → Prop) (stack : List TypeId)
    (nameOf : TypeId → String) (chain : List String) : Prop :=
  ∃ path Q id, Trail r settings P path Q ∧ Q id .embedding ∧ id ∈ stack ++ path ∧
    chain = ((stack ++ path).dropWhile (· != id) ++ [id]).map nameOf

namespace Closes

variable {r : Filling} {settings : Settings} {P P' : TypeId → Entry → Prop}
  {stack : List TypeId} {nameOf : TypeId → String} {chain : List String}

theorem imp (h : Closes r settings P stack nameOf chain) (hP : ∀ id v, P id v → P' id v) :
    Closes r settings P' stack nameOf chain := by
  obtain ⟨path, Q, id, htrail, hQ, hid, hchain⟩ := h
  cases htrail with
  | here => exact ⟨[], P', id, .here P', hP id _ hQ, hid, hchain⟩
  | enter hfirst ht => exact ⟨_, Q, id, .enter (hP _ _ hfirst) ht, hQ, hid, hchain⟩

theorem enter {id : TypeId} {v : Entry} (hid : P id v)
    (h : Closes r settings (Leads r settings id) (stack ++ [id]) nameOf chain) :
    Closes r settings P stack nameOf chain := by
  obtain ⟨path, Q, id', htrail, hQ, hid', hchain⟩ := h
  rw [List.append_assoc, List.singleton_append] at hid' hchain
  exact ⟨id :: path, Q, id', .enter hid htrail, hQ, hid', hchain⟩

end Closes

/-! ### The judgement -/

namespace Resolving

variable {α β : Type} {r : Filling} {settings : Settings} {g : Resolver} {x : Resolving α}
  {φ : Resolver → α → Prop} {P P' : TypeId → Entry → Prop}

/-- If the computation fails because a struct cannot be embedded, types have been entered one from
another up to one that embeds a type on the way. -/
def Traced (r : Filling) (settings : Settings) (x : Resolving α) (g : Resolver)
    (P : TypeId → Entry → Prop) : Prop :=
  g.Sound → g.settings = settings → r.start.Gains g.registry → ∀ chain g',
    x.runOn g = (.error (.recursiveStruct chain), g') → g'.registry.Gains r →
    Closes r settings P g.building g'.nameOf chain

theorem Traced.imp (h : Traced r settings x g P) (hP : ∀ id v, P id v → P' id v) :
    Traced r settings x g P' :=
  fun hg hset hstart chain g' hrun hgain => (h hg hset hstart chain g' hrun hgain).imp hP

/-- What is entered may be looked up in the settings and the registry of the start. -/
theorem traced_intro (hk : Keeps x g φ)
    (h : g.settings = settings → r.start.Gains g.registry → g.registry.Gains r →
      Traced r settings x g P) : Traced r settings x g P := by
  intro hg hset hstart chain g' hrun hgain
  have hext := (hk hg).1
  rw [hrun] at hext
  exact h hset hstart (hext.registry.trans hgain) hg hset hstart chain g' hrun hgain

theorem traced_of_ne (h : ∀ chain, (x.runOn g).1 ≠ .error (.recursiveStruct chain)) :
    Traced r settings x g P :=
  fun _ _ _ chain _ hrun => absurd (congrArg Prod.fst hrun) (h chain)

theorem traced_pure (a : α) : Traced r settings (pure a) g P := traced_of_ne fun _ h => nomatch h

theorem traced_throw {e : DocError} (he : ∀ chain, e ≠ .recursiveStruct chain := by rintro _ ⟨⟩) :
    Traced r settings (throw e : Resolving α) g P :=
  traced_of_ne fun chain h => he chain (Except.error.inj h)

theorem traced_bind {f : α → Resolving β} (hk : Keeps x g φ) (hx : Traced r settings x g P)
    (hf : ∀ a g', x.runOn g = (.ok a, g') → φ g' a → Traced r settings (f a) g' P) :
    Traced r settings (x >>= f) g P := by
  intro hg hset hstart chain g' hrun hgain
  obtain ⟨hext, hsound, hval⟩ := hk hg
  rcases hfirst : runOn x g with ⟨e | a, g₁⟩
  all_goals rw [hfirst] at hext hsound hval
  · rw [runOn_bind_error f hfirst] at hrun
    cases hrun
    exact hx hg hset hstart chain _ hfirst hgain
  · rw [runOn_bind_ok f hfirst] at hrun
    have hcloses := hf a g₁ hfirst (hval a rfl) hsound (hext.settings.trans hset)
      (hstart.trans hext.registry) chain g' hrun hgain
    rwa [hext.building] at hcloses

theorem traced_get_bind {f : Resolver → Resolving β} (hf : Traced r settings (f g) g P) :
    Traced r settings (get >>= f) g P := hf

theorem traced_foldlM {γ : Type} {f : α → γ → Resolving α} (l : List γ)
    (hk : ∀ a c g', φ g' a → Keeps (f a c) g' φ)
    (hf : ∀ a, ∀ c ∈ l, ∀ g', φ g' a → Traced r settings (f a c) g' P) {a : α} (ha : φ g a) :
    Traced r settings (l.foldlM f a) g P := by
  induction l generalizing g a with
  | nil => exact traced_pure a
  | cons c l ih =>
    rw [List.foldlM_cons]
    refine traced_bind (hk a c g ha) (hf a c (.head _) g ha) fun b g' _ hb => ?_
    exact ih (fun a d hd => hf a d (.tail c hd)) hb

/-- **A type is entered.**  Where it is entered the state is sound, even if it was not before. -/
theorem closes_whileBuilding {v : Entry} (hid : P id v) (hsound : (g.enter id).Sound)
    (hset : g.settings = settings) (hstart : r.start.Gains g.registry)
    (hx : Traced r settings x (g.enter id) (Leads r settings id)) {chain : List String}
    {g' : Resolver} (hrun : (whileBuilding id x).runOn g = (.error (.recursiveStruct chain), g'))
    (hgain : g'.registry.Gains r) : Closes r settings P g.building g'.nameOf chain := by
  rw [runOn_whileBuilding] at hrun
  obtain ⟨hout, rfl⟩ := Prod.mk.inj hrun
  exact (hx hsound hset hstart chain _ (Prod.ext hout rfl) hgain).enter hid

end Resolving

/-! ### Entering types -/

namespace Resolver

open Resolving

variable {r : Filling} {settings : Settings} {g : Resolver} {P : TypeId → Entry → Prop}

theorem traced_buildDefinition {body : Resolving Schema} {v : Entry}
    (hd : g.registry.types[id]? = some d) (hfresh : g.parsed.lookup id = none)
    (hout : id ∉ g.building) (hid : P id v)
    (hbody : ∀ g', Traced r settings body g' (Leads r settings id)) :
    Traced r settings (buildDefinition id d body) g P := by
  intro hg hset hstart chain g' hrun hgain
  rcases runOn_buildDefinition hg hfresh hout body with ⟨e, hrefused⟩ | ⟨hn, hbuild⟩
  · cases hrefused.symm.trans hrun
  have hsound := hg.claim_enter ⟨d, hd, rfl⟩ hn
  rw [hbuild] at hrun
  rcases hend : body.runOn ((g.claim id d.typeName).enter id) with ⟨e | s, g₁⟩
  all_goals rw [hend] at hrun
  · cases hrun
    -- giving the name back changes no name of a type
    have hwhile : (whileBuilding id body).runOn (g.claim id d.typeName) =
        (.error (.recursiveStruct chain), g₁.leave) := by rw [runOn_whileBuilding, hend]
    have hcloses := closes_whileBuilding hid hsound hset hstart (hbody _) hwhile hgain
    exact hcloses
  · cases hrun

theorem traced_passThrough {fields : Resolving StructParts} {v : Entry} (hid : P id v)
    (hfields : ∀ g', Traced r settings fields g' (Leads r settings id)) :
    Traced r settings (passThrough id fields) g P := by
  intro hg hset hstart chain g' hrun hgain
  unfold passThrough at hrun
  rw [runOn_bind_ok _ (runOn_leaveOpen id g)] at hrun
  exact closes_whileBuilding hid ((hg.noteOpen id).enter id) hset hstart (hfields _) hrun hgain

/-! ### Leaves -/

theorem traced_builtinSchema (name : String) : Traced r settings (builtinSchema name) g P := by
  unfold builtinSchema
  split
  · exact traced_pure _
  · exact traced_throw

theorem traced_declaredType (t : TypeExpr) (file : FileId) :
    Traced r settings (declaredType t file) g P := by
  refine traced_of_ne fun chain h => ?_
  rw [runOn_declaredType] at h
  cases h

/-- A type that the settings do not replace is not in them. -/
theorem get?_of_overrideWith {n : Nat} {key : String} {g' : Resolver}
    (h : (overrideWith n key file).runOn g = (.ok none, g')) :
    g.settings.overrides.get? key = none ∧ g' = g := by
  cases n with
  | zero =>
    rw [overrideWith] at h
    cases h
  | succ n =>
    rw [overrideWith, runOn_get_bind] at h
    split at h
    · next hkey =>
      cases h
      exact ⟨hkey, rfl⟩
    · split at h
      · cases h
      · obtain ⟨s, g₁, -, hpure⟩ := runOn_bind_eq_ok h
        cases hpure

/-- The errors of a tag are others, and the error of a type is handed on. -/
theorem eq_of_runOn_addResolved {parts : StructParts} {property : String}
    {o : Except DocError Schema} {chain : List String} {g' : Resolver}
    (h : (addResolved parts f property o).runOn g = (.error (.recursiveStruct chain), g')) :
    o = .error (.recursiveStruct chain) ∧ g' = g := by
  unfold addResolved at h
  rw [runOn_get_bind] at h
  cases o with
  | ok s =>
    dsimp only at h
    cases hs : g.complement f s with
    | ok s' =>
      rw [hs] at h
      cases h
    | error e =>
      rw [hs] at h
      cases h
      rcases complement_eq_error hs with he | he
      · cases he
      · cases he
  | error e =>
    cases e
    case recursiveStruct c =>
      cases h
      exact ⟨rfl, rfl⟩
    case unsupportedField type =>
      dsimp only at h
      split at h
      · cases h
      · cases h
    all_goals cases h

theorem traced_fieldPart {x : Resolving Schema} (parts : StructParts)
    (hx : Field.isHidden f = false → Field.customSchema? f = .ok none → Traced r settings x g P) :
    Traced r settings (fieldPart parts f x) g P := by
  have hcustom := Field.tagFails_customSchema? f
  unfold fieldPart
  split
  · exact traced_pure parts
  · next hf =>
    refine traced_get_bind ?_
    split
    · exact traced_pure parts
    · next property _ =>
      cases hc : Field.customSchema? f with
      | error e =>
        refine traced_of_ne fun chain hrun => ?_
        cases hrun
        cases hcustom _ hc
      | ok o =>
        cases o with
        | some s =>
          intro _ _ _ chain g' hrun _
          rw [runOn_bind_ok _ (runOn_ofResult _ g)] at hrun
          obtain ⟨h, -⟩ := eq_of_runOn_addResolved hrun
          cases h
        | none =>
          intro hg hset hstart chain g' hrun hgain
          rw [runOn_bind_ok _ (runOn_ofResult _ g)] at hrun
          obtain ⟨hout, rfl⟩ := eq_of_runOn_addResolved hrun
          exact hx (by simpa using hf) hc hg hset hstart chain _ (Prod.ext hout rfl) hgain

/-! ### The recursion -/

/-- The laws of the functions that resolve types, for a given number of steps. -/
structure TracedWith (r : Filling) (settings : Settings) (fuel : Nat) : Prop where
  resolve : ∀ t file g,
    Traced r settings (resolveWith fuel t file) g (Enters r settings (.type t file))
  text : ∀ text file g P, (∀ t, Go.typeOfText (Text.trim text) = .ok t →
      ∀ id v, Enters r settings (.type t file) id v → P id v) →
    Traced r settings (textWith fuel text file) g P
  override : ∀ key file g P, (∀ t, settings.replacement? key = some t →
      ∀ id v, Enters r settings (.type t file) id v → P id v) →
    Traced r settings (overrideWith fuel key file) g P
  named : ∀ t file g, Traced r settings (namedWith fuel t file) g (Enters r settings (.type t file))
  symbol : ∀ id g, Traced r settings (symbolWith fuel id) g (Enters r settings (.symbol id))
  definition : ∀ id d g, g.registry.types[id]? = some d →
    settings.overrides.get? d.fullPath = none →
    Traced r settings (definitionWith fuel id d) g (Enters r settings (.symbol id))
  struct : ∀ fields file g,
    Traced r settings (structWith fuel fields file) g (Enters r settings (.fields fields file))
  field : ∀ parts f file g, g.BacksParts parts →
    Traced r settings (fieldWith fuel parts f file) g (Enters r settings (.field f file))
  namedField : ∀ parts f file g P, (Field.isHidden f = false → Field.customSchema? f = .ok none →
      ∀ id v, Enters r settings (.type f.type file) id v → P id v) →
    Traced r settings (namedFieldWith fuel parts f file) g P
  embedded : ∀ parts f file g, f.names = [] → g.BacksParts parts →
    Traced r settings (embeddedWith fuel parts f file) g (Enters r settings (.field f file))
  embeddedStruct : ∀ parts id d fields readOnly g P,
    r.types[id]? = some d → d.type = .struct fields → P id .embedding →
    (readOnly = true → ∀ i v, Enters r settings (.symbol id) i v → P i v) →
    Traced r settings (embeddedStructWith fuel parts id d fields readOnly) g P

section Step

variable {fuel : Nat} (ih : TracedWith r settings fuel)

include ih

theorem traced_symbolOf (t : TypeExpr) (file : FileId) (g : Resolver)
    (ht : settings.overrides.get? t.text = none) :
    Traced r settings (declaredType t file >>= symbolOf fuel t) g
      (Enters r settings (.type t file)) := by
  intro hg hset hstart
  refine traced_bind (keeps_declaredType t file) (traced_declaredType t file)
    (fun o g' hrun _ => ?_) hg hset hstart
  rw [runOn_declaredType] at hrun
  cases hrun
  cases hid : (Registry.declaredOf file t g.registry).1 with
  | none => exact traced_throw
  | some id =>
    refine traced_intro ((keepsWith fuel).symbol id _) fun _ _ hgain => ?_
    exact (ih.symbol id _).imp fun _ _ h => .declared ht ⟨g.registry, hstart, hgain, hid⟩ h

theorem traced_resolveWith (t : TypeExpr) (file : FileId) (g : Resolver) :
    Traced r settings (resolveWith (fuel + 1) t file) g (Enters r settings (.type t file)) := by
  refine traced_intro ((keepsWith (fuel + 1)).resolve t file g) fun hset _ _ => ?_
  cases t <;> rw [resolveWith]
  case ident name =>
    split
    · exact traced_builtinSchema name
    · exact ih.named _ file g
  case qualified package name => exact ih.named _ file g
  case generic base args =>
    refine traced_bind ((keepsWith fuel).override _ file g)
      (ih.override _ file g _ fun t ht id v h => .replaced ht h) fun o g' hrun _ => ?_
    cases o with
    | some s => exact traced_pure s
    | none => exact traced_symbolOf ih _ file g' (hset ▸ (get?_of_overrideWith hrun).1)
  case pointer elem => exact (ih.resolve elem file g).imp fun _ _ h => .pointer h
  case slice elem =>
    refine traced_bind ((keepsWith fuel).resolve elem file g) ?_ fun s g' _ _ => traced_pure _
    exact (ih.resolve elem file g).imp fun _ _ h => .slice h
  case array elem =>
    refine traced_bind ((keepsWith fuel).resolve elem file g) ?_ fun s g' _ _ => traced_pure _
    exact (ih.resolve elem file g).imp fun _ _ h => .array h
  case map key value =>
    refine traced_bind ((keepsWith fuel).resolve value file g) ?_ fun s g' _ _ => traced_pure _
    exact (ih.resolve value file g).imp fun _ _ h => .map h
  case interface methods embeds => exact traced_pure _
  case struct fields =>
    refine traced_bind ((keepsWith fuel).struct fields file g) ?_ fun p g' _ _ => traced_pure _
    exact (ih.struct fields file g).imp fun _ _ h => .struct h
  case resolved id => exact (ih.symbol id g).imp fun _ _ h => .resolved h
  case func | chan | tilde | union => exact traced_throw

theorem traced_symbolWith (id : TypeId) (g : Resolver) :
    Traced r settings (symbolWith (fuel + 1) id) g (Enters r settings (.symbol id)) := by
  refine traced_intro ((keepsWith (fuel + 1)).symbol id g) fun hset _ hgain => ?_
  rw [symbolWith]
  refine traced_get_bind ?_
  split
  · exact traced_throw
  · next d hd =>
    intro hg
    have hext := ((keepsWith fuel).override d.fullPath d.file g hg).1
    refine traced_bind ((keepsWith fuel).override _ d.file g)
      (ih.override _ d.file g _ fun t ht i v h => .replacedSymbol (hgain.grows hd) ht h)
      (fun o g' hrun _ => ?_) hg
    rw [hrun] at hext
    cases o with
    | some s => exact traced_pure s
    | none =>
      have hkept := hset ▸ (get?_of_overrideWith hrun).1
      have hdef := ih.definition id d g' (hext.registry.grows hd) hkept
      dsimp only
      split
      · split
        · exact traced_builtinSchema _
        · exact hdef
      · exact hdef

theorem traced_definitionWith (id : TypeId) (d : TypeDecl) (g : Resolver)
    (hd : g.registry.types[id]? = some d) (hkept : settings.overrides.get? d.fullPath = none) :
    Traced r settings (definitionWith (fuel + 1) id d) g (Enters r settings (.symbol id)) := by
  refine traced_intro ((keepsWith (fuel + 1)).definition id d g hd) fun _ _ hgain => ?_
  have hd' := hgain.grows hd
  rw [definitionWith]
  split
  · next halias => exact (ih.resolve _ _ g).imp fun _ _ h => .aliased hd' hkept halias h
  · next halias =>
    refine traced_get_bind ?_
    split
    · exact traced_pure _
    · next hfresh =>
      split
      · exact traced_pure _
      · next hout =>
        have hmem : id ∉ g.building := by simpa using hout
        have hown : d.isAlias = false := by simpa using halias
        refine traced_buildDefinition hd hfresh hmem (.symbol hd' hkept hown) ?_
        exact fun g' => (ih.resolve _ _ g').imp fun _ _ h => ⟨d, hd', h⟩

theorem traced_embeddedWith (parts : StructParts) (f : Go.Field) (file : FileId) (g : Resolver)
    (hnames : f.names = []) (hparts : g.BacksParts parts) :
    Traced r settings (embeddedWith (fuel + 1) parts f file) g
      (Enters r settings (.field f file)) := by
  refine traced_intro ((keepsWith (fuel + 1)).embedded parts f file g hparts)
    fun hset hstart _ => ?_
  rw [embeddedWith]
  split
  · exact traced_pure parts
  · next hidden =>
    have hshown : Field.isHidden f = false := by simpa using hidden
    refine traced_get_bind ?_
    split
    · exact ih.namedField parts f file g _ fun hf hc _ _ h =>
        .typed ⟨hf, hc, .inl hnames⟩ h
    · next hname =>
      intro hg
      have hext := (keeps_declaredType f.type.target file hg).1
      refine traced_bind (keeps_declaredType _ file) (traced_declaredType _ file)
        (fun o g' hrun _ => ?_) hg
      rw [hrun] at hext
      have hparts' := hext.backsParts hparts
      rw [runOn_declaredType] at hrun
      obtain ⟨ho, rfl⟩ := Prod.mk.inj hrun
      cases o with
      | none => exact traced_throw
      | some id =>
        refine traced_get_bind ?_
        split
        · exact traced_throw
        · next d hd =>
          split
          · next fields htype =>
            have hkeeps := (keepsWith fuel).embeddedStruct parts id d fields
              (Field.isReadOnly f) _ hparts'
            refine traced_intro hkeeps fun _ _ hgain => ?_
            have hd' := hgain.grows hd
            have hembeds : Field.Embeds r settings f file id := ⟨hnames, hshown,
              by simpa [hset] using hname, ⟨g.registry, hstart, hgain, Except.ok.inj ho⟩,
              d, fields, hd', htype⟩
            exact ih.embeddedStruct parts id d fields _ _ _ hd' htype
              (.embedded hembeds) fun hro _ _ h => .kept hembeds hro h
          · exact ih.namedField parts _ file _ _ fun hf hc _ _ h =>
              .typed ⟨hf, hc, .inl hnames⟩ h

theorem traced_embedFields (parts : StructParts) (id : TypeId) (d : TypeDecl)
    (fields : List Go.Field) (readOnly : Bool) (g : Resolver) (P : TypeId → Entry → Prop)
    (hd : r.types[id]? = some d) (htype : d.type = .struct fields) (hid : P id .embedding) :
    Traced r settings (embedFields parts id readOnly (structWith fuel fields d.file)) g P := by
  refine traced_get_bind ?_
  split
  · next hin =>
    -- the struct is one that is being built, so the trail ends here
    intro _ _ _ chain g' hrun _
    cases hrun
    refine ⟨[], P, id, .here P, hid, ?_, ?_⟩
    · simpa using hin
    · rw [List.append_nil]
      rfl
  · next hout =>
    have hmem : id ∉ g.building := by simpa using hout
    refine traced_bind (keeps_passThrough hmem fun g' => (keepsWith fuel).struct fields d.file g')
      (traced_passThrough hid fun g' => (ih.struct fields d.file g').imp fun _ _ h => ?_)
      fun inner g' _ _ => traced_pure _
    refine ⟨d, hd, ?_⟩
    rw [htype]
    exact .struct h

theorem TracedWith.next : TracedWith r settings (fuel + 1) where
  resolve := traced_resolveWith ih
  symbol := traced_symbolWith ih
  definition := traced_definitionWith ih
  embedded := traced_embeddedWith ih
  text text file g P hP := by
    rw [textWith]
    split
    · next t ht => exact (ih.resolve t file g).imp (hP t ht)
    · exact traced_throw
  override key file g P hP := by
    refine traced_intro ((keepsWith (fuel + 1)).override key file g) fun hset _ _ => ?_
    rw [overrideWith]
    refine traced_get_bind ?_
    split
    · exact traced_pure _
    · next text htext =>
      split
      · exact traced_throw
      refine traced_bind ((keepsWith fuel).text text file g) (ih.text text file g P ?_)
        fun s g' _ _ => traced_pure _
      intro t ht
      apply hP
      rw [hset] at htext
      simp [Settings.replacement?, htext, ht, Except.toOption]
  named t file g := by
    refine traced_intro ((keepsWith (fuel + 1)).named t file g) fun hset _ _ => ?_
    rw [namedWith]
    refine traced_bind ((keepsWith fuel).override _ file g)
      (ih.override _ file g _ fun t ht id v h => .replaced ht h) fun o g' hrun _ => ?_
    cases o with
    | some s => exact traced_pure s
    | none =>
      refine traced_get_bind ?_
      split
      · exact traced_pure _
      · exact traced_symbolOf ih t file g' (hset ▸ (get?_of_overrideWith hrun).1)
  struct fields file g := by
    rw [structWith]
    refine traced_bind (φ := BacksParts) ?_ ?_ fun p g' _ _ => traced_pure _
    · exact keeps_iff_obeys.2 (obeys_foldlM fields (fun p f _ g' _ hp =>
        keeps_iff_obeys.1 ((keepsWith fuel).field p f file g' hp)) StructParts.allRefs_empty)
    · refine traced_foldlM fields (fun p f g' hp => (keepsWith fuel).field p f file g' hp) ?_
        StructParts.allRefs_empty
      exact fun p f hf g' hp => (ih.field p f file g' hp).imp fun _ _ h => .field hf h
  field parts f file g hparts := by
    rw [fieldWith]
    split
    · next hnames => exact ih.embedded parts f file g (by simpa using hnames) hparts
    refine traced_foldlM _ (fun p name g' hp => (keepsWith fuel).namedField p _ file g' hp) ?_
      hparts
    intro p name hname g' _
    obtain ⟨hmem, hexported⟩ := List.mem_filter.1 hname
    exact ih.namedField p _ file g' _ fun hf hc _ _ h =>
      .typed ⟨hf, hc, .inr ⟨name, hmem, hexported⟩⟩ h
  namedField parts f file g P hP := by
    rw [namedFieldWith_succ]
    exact traced_fieldPart parts fun hf hc => (ih.resolve f.type file g).imp (hP hf hc)
  embeddedStruct parts id d fields readOnly g P hd htype hid hkept := by
    rw [embeddedStructWith]
    by_cases hro : readOnly = true
    · rw [if_pos hro]
      refine traced_bind ((keepsWith fuel).symbol id g) ((ih.symbol id g).imp (hkept hro)) ?_
      intro s g' _ _
      exact traced_embedFields ih _ id d fields readOnly g' P hd htype hid
    · rw [if_neg hro]
      exact traced_embedFields ih parts id d fields readOnly g P hd htype hid

end Step

/-- **Every function that resolves types is traced**, whatever the number of steps. -/
theorem tracedWith (r : Filling) (settings : Settings) (fuel : Nat) :
    TracedWith r settings fuel := by
  induction fuel with
  | zero =>
    constructor <;> intros <;>
      simp only [resolveWith, textWith, overrideWith, namedWith, symbolWith, definitionWith,
        structWith, fieldWith, namedFieldWith, embeddedWith, embeddedStructWith] <;>
      exact traced_throw
  | succ fuel ih => exact ih.next

/-! ### The circle -/

end Resolver

namespace Trail

variable {r : Filling} {settings : Settings} {P Q : TypeId → Entry → Prop} {path : List TypeId}

theorem suffix (ht : Trail r settings P path Q) (hid : id ∈ path) :
    ∃ rest, path.dropWhile (· != id) = id :: rest ∧
      Trail r settings (Leads r settings id) rest Q := by
  induction ht with
  | here P => cases hid
  | @enter P Q i v path h ht ih =>
    by_cases hi : i = id
    · subst hi
      exact ⟨path, by simp, ht⟩
    · obtain ⟨rest, hrest, htail⟩ := ih ((List.mem_cons.1 hid).resolve_left (Ne.symm hi))
      exact ⟨rest, by simpa [hi] using hrest, htail⟩

/-- Each type on the trail leads to the next one, and the last to what may be entered at the end. -/
theorem isChain (ht : Trail r settings (Leads r settings id) path Q) :
    (id :: path).IsChain (fun i j => ∃ v, Leads r settings i j v) ∧
      ∃ last, (id :: path).getLast? = some last ∧ Q = Leads r settings last := by
  induction path generalizing id with
  | nil =>
    cases ht
    exact ⟨.singleton id, id, rfl, rfl⟩
  | cons i path ih =>
    cases ht with
    | enter h ht =>
      obtain ⟨hchain, last, hlast, hQ⟩ := ih ht
      exact ⟨.cons_cons ⟨_, h⟩ hchain, last, by rwa [List.getLast?_cons_cons], hQ⟩

end Trail

namespace Resolver

/-- The error with which a request fails. -/
def refusal? (g : Resolver) (q : Request) : Option DocError :=
  let errorOf : Except DocError Schema → Option DocError
    | .ok _ => none
    | .error e => some e
  match q with
  | .type t file => errorOf ((resolve t file).runOn g).1
  | .text text file => errorOf ((resolveText text file).runOn g).1
  | .symbol id => errorOf ((resolveSymbol id).runOn g).1
  | .instantiate _ _ _ => none

open Resolving

variable {g : Resolver} {chain : List String}

theorem closes_refusal (hg : g.Sound) {start : Registry} (hstart : start.Gains g.registry)
    {q : Request} (h : g.refusal? q = some (.recursiveStruct chain)) :
    ∃ P, Closes ⟨(g.answer q).registry, start⟩ g.settings P g.building (g.answer q).nameOf
      chain := by
  have hclose : ∀ {x : Resolving Schema} {P : TypeId → Entry → Prop},
      Traced ⟨(x.runOn g).2.registry, start⟩ g.settings x g P →
      (match (x.runOn g).1 with
        | .ok _ => none
        | .error e => some e) = some (DocError.recursiveStruct chain) →
      ∃ P, Closes ⟨(x.runOn g).2.registry, start⟩ g.settings P g.building (x.runOn g).2.nameOf
        chain := by
    intro x P hx hout
    rcases hrun : x.runOn g with ⟨e | s, g'⟩
    all_goals rw [hrun] at hout hx
    · cases hout
      exact ⟨P, hx hg rfl hstart chain g' hrun (Registry.Gains.refl _)⟩
    · cases hout
  cases q with
  | type t file => exact hclose (traced_get_bind ((tracedWith _ _ _).resolve t file g)) h
  | text text file =>
    exact hclose (traced_get_bind ((tracedWith _ _ _).text text file g (fun _ _ => True)
      fun _ _ _ _ _ => trivial)) h
  | symbol id => exact hclose (traced_get_bind ((tracedWith _ _ _).symbol id g)) h
  | instantiate => cases h

/-- **A struct that cannot be embedded lies on a circle of types.**  After any requests, the chain
of the error leads from a type back to it; each type of the chain leads to the next one, by a field
of any kind, and the last one embeds the first.  Where no struct is embedded in itself, directly or
through others, one of the steps is a reference that embeds nothing. -/
theorem recursiveStruct_is_circle (r : Registry) (settings : Settings) (earlier : List Request)
    (q : Request) (chain : List String)
    (h : ((fresh r settings).after earlier).refusal? q = some (.recursiveStruct chain)) :
    let final := ((fresh r settings).after earlier).answer q
    let embeds := fun i j => Leads ⟨final.registry, r⟩ settings i j .embedding
    ∃ first rest last, chain = (first :: rest ++ [first]).map final.nameOf ∧
      (first :: rest).IsChain (fun i j => ∃ v, Leads ⟨final.registry, r⟩ settings i j v) ∧
      (first :: rest).getLast? = some last ∧ embeds last first ∧
      ((∀ i, ¬Relation.TransGen embeds i i) → ¬(first :: rest).IsChain embeds) := by
  intro final embeds
  obtain ⟨hext, hsound⟩ := (sound_fresh r settings).after earlier
  obtain ⟨P, path, Q, first, htrail, hQ, hmem, hchain⟩ := closes_refusal hsound hext.registry h
  have hidle : ((fresh r settings).after earlier).building = [] := hext.building
  rw [hidle, List.nil_append] at hmem hchain
  rw [hext.settings] at htrail
  obtain ⟨rest, hrest, htail⟩ := htrail.suffix hmem
  obtain ⟨hlinks, last, hlast, rfl⟩ := htail.isChain
  refine ⟨first, rest, last, by rw [hchain, hrest], hlinks, hlast, hQ, fun hacyclic hall => ?_⟩
  rw [List.getLast?_eq_some_getLast (List.cons_ne_nil first rest)] at hlast
  have hto := List.relationReflTransGen_of_exists_isChain_cons rest hall (Option.some.inj hlast)
  exact hacyclic first (.tail' hto hQ)

end Resolver

theorem Filling.Finds.lookupType? {r : Filling} (h : r.Finds file (.ident name) id)
    (hn : isPlainName name = true) : (r.lookupType? name file).map Prod.fst = some id := by
  obtain ⟨r₀, -, hgain, hid⟩ := h
  rw [Registry.declaredOf, TypeExpr.text, Registry.findType_plain hn] at hgain hid
  rw [hgain.lookupType? hn]
  exact hid

/-- A type that is not looked up stands for no declared one. -/
theorem Filling.not_finds {r : Filling} {t : TypeExpr}
    (ht : ∀ r₀, (Registry.declaredOf file t r₀).1 = none) : ¬r.Finds file t id := by
  rintro ⟨r₀, -, -, hid⟩
  rw [ht r₀] at hid
  cases hid

theorem Enters.of_pointer {r : Filling} {v : Entry}
    (h : Enters r {} (.type (.pointer elem) file) id v) : Enters r {} (.type elem file) id v := by
  cases h with
  | replaced ht => cases ht
  | declared _ hi => exact (Filling.not_finds (fun _ => rfl) hi).elim
  | pointer h => exact h

theorem Enters.of_slice {r : Filling} {v : Entry}
    (h : Enters r {} (.type (.slice elem) file) id v) : Enters r {} (.type elem file) id v := by
  cases h with
  | replaced ht => cases ht
  | declared _ hi => exact (Filling.not_finds (fun _ => rfl) hi).elim
  | slice h => exact h

theorem Enters.of_struct {r : Filling} {fs : List Go.Field} {v : Entry}
    (h : Enters r {} (.type (.struct fs) file) id v) :
    ∃ f ∈ fs, Enters r {} (.field f file) id v := by
  cases h with
  | replaced ht => cases ht
  | declared _ hi => exact (Filling.not_finds (fun _ => rfl) hi).elim
  | struct h =>
    cases h with
    | field hf h => exact ⟨_, hf, h⟩

/-- Without replacements and aliases, a named type is entered by reference only. -/
theorem Enters.eq_reference {r : Filling} {v : Entry}
    (halias : ∀ (i : TypeId) (d : TypeDecl), r.types[i]? = some d → d.isAlias = false)
    (h : Enters r {} (.type (.ident name) file) id v) : v = .reference := by
  cases h with
  | replaced ht => cases ht
  | declared _ _ h =>
    cases h with
    | replacedSymbol _ ht => cases ht
    | aliased hd _ h => cases (halias _ _ hd).symm.trans h
    | symbol => rfl

namespace Resolver

/-- Two structs, `A` with a field of type `[]B` and `B` that embeds `A`. -/
def sliceCircle : Registry :=
  let bs : Go.Field := ⟨["Bs"], .slice (.ident "B"), none, none, none⟩
  let embedded : Go.Field := ⟨[], .ident "A", none, none, none⟩
  let a : Go.Decl := .type ⟨"A", [], false, .struct [bs], none, none, 0⟩
  let b : Go.Decl := .type ⟨"B", [], false, .struct [embedded], none, none, 0⟩
  let web : SourceUnit := ⟨"web.go", "app/web", .all, ⟨"web", [], [a, b], []⟩⟩
  (({} : Registry).index web).2.parseTypes

/-- The state in which `A` has been asked for. -/
def sliceCircleAsked : Resolver := ((fresh sliceCircle {}).after []).answer (.symbol 0)

/-- The registry of that state. -/
def sliceCircleFilling : Filling := ⟨sliceCircleAsked.registry, sliceCircle⟩

theorem types_sliceCircleAsked (hd : sliceCircleAsked.registry.types[i]? = some d) :
    d.isAlias = false ∧
      ((i = 0 ∧ d.type = .struct [⟨["Bs"], .slice (.ident "B"), none, none, none⟩]) ∨
        (i = 1 ∧ d.file = 0 ∧ d.type = .struct [⟨[], .ident "A", none, none, none⟩])) := by
  have hsize : sliceCircleAsked.registry.types.size = 2 := by decide +kernel
  have hlt : i < 2 := hsize ▸ (Array.getElem?_eq_some_iff.1 hd).1
  obtain ⟨hext, -⟩ := (sound_fresh sliceCircle {}).answer (.symbol 0)
  have hkept : ∀ d', sliceCircle.types[i]? = some d' → d' = d := fun d' hd' =>
    Option.some.inj ((hext.registry.grows hd').symm.trans hd)
  have hfirst : sliceCircle.types[0]?.map (fun d => (d.isAlias, d.type)) =
      some (false, .struct [⟨["Bs"], .slice (.ident "B"), none, none, none⟩]) := by cbv
  have hsecond : sliceCircle.types[1]?.map (fun d => (d.isAlias, d.file, d.type)) =
      some (false, 0, .struct [⟨[], .ident "A", none, none, none⟩]) := by cbv
  obtain rfl | rfl := Nat.le_one_iff_eq_zero_or_eq_one.1 (Nat.lt_succ_iff.1 hlt)
  · obtain ⟨d', hd', hfields⟩ := Option.map_eq_some_iff.1 hfirst
    obtain rfl := hkept d' hd'
    obtain ⟨halias, htype⟩ := Prod.mk.inj hfields
    exact ⟨halias, .inl ⟨rfl, htype⟩⟩
  · obtain ⟨d', hd', hfields⟩ := Option.map_eq_some_iff.1 hsecond
    obtain rfl := hkept d' hd'
    obtain ⟨halias, hfields⟩ := Prod.mk.inj hfields
    exact ⟨halias, .inr ⟨rfl, Prod.mk.inj hfields⟩⟩

theorem embeds_sliceCircleAsked {j : TypeId} (h : Leads sliceCircleFilling {} i j .embedding) :
    i = 1 ∧ j = 0 := by
  have halias : ∀ (i : TypeId) (d : TypeDecl), sliceCircleAsked.registry.types[i]? = some d →
      d.isAlias = false :=
    fun i d hd => (types_sliceCircleAsked hd).1
  have hlookup : (sliceCircleAsked.registry.lookupType? "A" 0).map Prod.fst = some 0 := by
    decide +kernel
  obtain ⟨d, hd, h⟩ := h
  rcases (types_sliceCircleAsked hd).2 with ⟨rfl, htype⟩ | ⟨rfl, hfile, htype⟩
  · rw [htype] at h
    obtain ⟨f, hf, h⟩ := h.of_struct
    obtain rfl := List.mem_singleton.1 hf
    cases h with
    | typed _ h => cases h.of_slice.eq_reference halias
    | embedded hf | kept hf => cases hf.unnamed
  · rw [htype, hfile] at h
    obtain ⟨f, hf, h⟩ := h.of_struct
    obtain rfl := List.mem_singleton.1 hf
    cases h with
    | typed _ h => cases h.eq_reference halias
    | embedded hf =>
      have hfound := hf.found.lookupType? (by decide)
      exact ⟨rfl, Option.some.inj (hfound.symm.trans hlookup)⟩
    | kept _ hro => exact absurd hro (by decide +kernel)

set_option maxRecDepth 100000 in
/-- Neither struct is embedded in itself, and yet `A` is refused. -/
theorem recursiveStruct_is_circle_slice :
    let embeds := fun i j => Leads sliceCircleFilling {} i j .embedding
    (∀ i, ¬Relation.TransGen embeds i i) ∧
      ((fresh sliceCircle {}).after []).refusal? (.symbol 0) =
        some (.recursiveStruct ["web.A", "web.B", "web.A"]) ∧
      ∃ first rest last,
        ["web.A", "web.B", "web.A"] = (first :: rest ++ [first]).map sliceCircleAsked.nameOf ∧
        (first :: rest).getLast? = some last ∧ embeds last first ∧
        ¬(first :: rest).IsChain embeds := by
  intro embeds
  have hacyclic : ∀ i, ¬Relation.TransGen embeds i i := by
    intro i hi
    obtain ⟨_, hfirst, -⟩ := Relation.TransGen.head'_iff.1 hi
    obtain ⟨_, -, hlast⟩ := Relation.TransGen.tail'_iff.1 hi
    cases (embeds_sliceCircleAsked hfirst).1.symm.trans (embeds_sliceCircleAsked hlast).2
  have hrefused : ((fresh sliceCircle {}).after []).refusal? (.symbol 0) =
      some (.recursiveStruct ["web.A", "web.B", "web.A"]) := by decide +kernel
  obtain ⟨first, rest, last, hchain, -, hlast, hembeds, hstep⟩ :=
    recursiveStruct_is_circle sliceCircle {} [] (.symbol 0) _ hrefused
  exact ⟨hacyclic, hrefused, first, rest, last, hchain, hlast, hembeds, hstep hacyclic⟩

end Resolver

end GoApiDoc
