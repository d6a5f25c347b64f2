/-
Numbers stay in range while types are resolved.

The resolver keeps numbers of types: those being built, those with a definition, those that have
claimed a name.  It reads a type by its number where a type is bound to a declared one, where a name
has been looked up and where a struct is embedded, and it reads each type in a file with a number.
From a registry that has arisen all these numbers belong to something, whatever is asked.  So the
branches for a number without a type are never taken: when a type cannot be resolved, the error is
about a type that is written somewhere and names nothing.

* `Registry.numbers_in_range` — **every number belongs to something, in every run**.
-/

import GoApiDoc.Proofs.WellFormed
import GoApiDoc.Proofs.Growth

set_option autoImplicit false

namespace GoApiDoc

open Go (TypeId TypeExpr)

variable {t : TypeExpr} {r s : Registry} {d : TypeDecl} {e : DocError} {file : FileId}

/-! ### Types that are met -/

theorem Go.TypeExpr.Within.inside {n : Nat} {t' : TypeExpr} (h : t.Within n) (ht : t' ∈ t.inside) :
    t'.Within n := by
  cases t with
  | pointer elem | slice elem | array elem =>
    obtain rfl := List.mem_singleton.1 ht
    exact h
  | map key value =>
    obtain rfl := List.mem_singleton.1 ht
    exact fun id hid => h id (List.mem_append_right _ hid)
  | struct fields =>
    obtain ⟨f, hf, rfl⟩ := List.mem_map.1 ht
    exact h.field hf
  | _ => cases ht

namespace Request

mutual

/-- The registries that a request can lead to, by looking up types that it meets. -/
inductive Reaches (r : Registry) (settings : Settings) (q : Request) : Registry → Prop
  | start : Reaches r settings q r
  | lookUp {s : Registry} {t : TypeExpr} {file : FileId} (hs : Reaches r settings q s)
      (ht : Meets r settings q t file) : Reaches r settings q (s.declaredOf file t).2

/-- The types that a request can lead to, each with the file in which it is read: what is asked for,
right-hand sides of declarations and of instances that have been added, replacements, and what is
inside these. -/
inductive Meets (r : Registry) (settings : Settings) (q : Request) : TypeExpr → FileId → Prop
  | asked {t : TypeExpr} {file : FileId} (hq : q = .type t file) : Meets r settings q t file
  | read {text : String} {t : TypeExpr} {file : FileId} (hq : q = .text text file)
      (ht : Go.typeOfText (Text.trim text) = .ok t) : Meets r settings q t file
  | declared {s : Registry} {d : TypeDecl} (hs : Reaches r settings q s) (hd : d ∈ s.types) :
      Meets r settings q d.type d.file
  | replacement {key text : String} {t : TypeExpr} {file : FileId}
      (hkey : settings.overrides.get? key = some text)
      (ht : Go.typeOfText (Text.trim text) = .ok t) (hfile : file < r.files.size) :
      Meets r settings q t file
  | inside {t t' : TypeExpr} {file : FileId} (h : Meets r settings q t file)
      (ht : t' ∈ t.inside) : Meets r settings q t' file

end

/-- Why a type is refused under a name: a text, asked for or a replacement, is no type, or a type
that is met on the way names nothing. -/
inductive NotFound (r : Registry) (settings : Settings) (q : Request) (name : String) : Prop
  | text {text : String}
      (h : (∃ file, q = .text text file) ∨ ∃ key, settings.overrides.get? key = some text)
      (hread : ∀ t, Go.typeOfText (Text.trim text) ≠ .ok t) (hname : name = Text.trim text)
  | type {t : TypeExpr} {file : FileId} {s : Registry} (ht : Meets r settings q t file)
      (hs : Reaches r settings q s) (hnone : (s.declaredOf file t).1 = none) (hname : name = t.text)

theorem Reaches.gains {settings : Settings} {q : Request} (h : q.Reaches r settings s) :
    r.Gains s := by
  -- nothing is claimed of the types
  refine @Reaches.rec r settings q (fun s _ => r.Gains s) (fun _ _ _ => True) (.refl r) ?_
    (fun _ => trivial) (fun _ _ => trivial) (fun _ _ _ => trivial) (fun _ _ _ => trivial)
    (fun _ _ _ => trivial) s h
  exact fun _ _ hs _ => hs.trans (Registry.gains_declaredOf _ _ _)

/-- The numbers of a request belong to something. -/
def Fits (r : Registry) : Request → Prop
  | .type t file => t.Within r.types.size ∧ file < r.files.size
  | .text _ file => file < r.files.size
  | .symbol id => id < r.types.size
  | .instantiate generic args file =>
    generic < r.types.size ∧ (∀ a ∈ args, a.Within r.types.size) ∧ file < r.files.size

end Request

/-- The numbers in the state belong to types. -/
structure Resolver.InRange (g : Resolver) : Prop where
  arises : g.registry.Arises
  building : ∀ id ∈ g.building, id < g.registry.types.size
  parsed : ∀ e ∈ g.parsed, e.1 < g.registry.types.size
  names : ∀ e ∈ g.names, e.2 < g.registry.types.size
  leftOpen : ∀ id ∈ g.leftOpen, id < g.registry.types.size

theorem Resolver.InRange.gains {g : Resolver} (h : g.InRange) (hs : s.Arises)
    (hg : g.registry.Gains s) : ({ g with registry := s } : Resolver).InRange where
  arises := hs
  building id hid := Nat.lt_of_lt_of_le (h.building id hid) hg.size_le
  parsed e he := Nat.lt_of_lt_of_le (h.parsed e he) hg.size_le
  names e he := Nat.lt_of_lt_of_le (h.names e he) hg.size_le
  leftOpen id hid := Nat.lt_of_lt_of_le (h.leftOpen id hid) hg.size_le

/-! ### The judgement -/

namespace Resolving

section

variable (r : Registry) (settings : Settings) (q : Request)

/-- A type that is met and whose numbers belong to something. -/
structure Placed (s : Registry) (t : TypeExpr) (file : FileId) : Prop where
  met : q.Meets r settings t file
  within : t.Within s.types.size
  file : file < s.files.size

/-- A state in range that the request can lead to. -/
structure Underway (g : Resolver) : Prop where
  range : g.InRange
  reached : q.Reaches r settings g.registry
  settings : g.settings = settings

/-- States on the way of a request, where a type that is refused is not found. -/
def way : Frame where
  Inv := Underway r settings q
  Later g g' := g.registry.Gains g'.registry
  Admits e := ∀ name, e = .unresolvedType name → q.NotFound r settings name
  refl _ := .refl _
  trans h h' := h.trans h'

end

variable {r : Registry} {settings : Settings} {q : Request} {α : Type} {g : Resolver}
  {x : Resolving α}

namespace Placed

variable {s s' : Registry} {t t' : TypeExpr} {file : FileId}

theorem gains (h : Placed r settings q s t file) (hs : s.Gains s') :
    Placed r settings q s' t file :=
  ⟨h.met, h.within.mono hs.size_le, by rw [hs.files]; exact h.file⟩

theorem inside (h : Placed r settings q s t file) (ht : t' ∈ t.inside) :
    Placed r settings q s t' file :=
  ⟨.inside h.met ht, h.within.inside ht, h.file⟩

theorem declared (hs : s.Arises) (hr : q.Reaches r settings s) {id : TypeId}
    (hd : s.types[id]? = some d) : Placed r settings q s d.type d.file := by
  have hmem := Array.mem_of_getElem? hd
  have hfits := hs.wellFormed.types d hmem
  exact ⟨.declared hr hmem, hfits.type, hfits.file⟩

end Placed

/-- The computation stays on the way, whatever its value. -/
abbrev Stays (r : Registry) (settings : Settings) (q : Request) (x : Resolving α) (g : Resolver) :
    Prop :=
  Obeys (way r settings q) x g fun _ _ => True

theorem admits_text {text : String} {e : Go.SourceError}
    (h : (∃ file, q = .text text file) ∨ ∃ key, settings.overrides.get? key = some text)
    (he : Go.typeOfText (Text.trim text) = .error e) :
    (way r settings q).Admits (.unresolvedType (Text.trim text)) := by
  intro name hname
  refine .text h (fun t ht => ?_) (DocError.unresolvedType.inj hname).symm
  cases he.symm.trans ht

theorem admits_other (h : ∀ name, e ≠ .unresolvedType name) : (way r settings q).Admits e :=
  fun name hname => absurd hname (h name)

/-- A change of the state that leaves its registry and settings alone. -/
theorem stays_modify {f : Resolver → Resolver} (hreg : (f g).registry = g.registry)
    (hsettings : (f g).settings = g.settings) (hf : g.InRange → (f g).InRange) :
    Stays r settings q (modify f) g := by
  refine obeys_modify fun hg => ⟨?_, hf hg.range, ?_, hsettings.trans hg.settings⟩
  · change g.registry.Gains (f g).registry
    exact hreg ▸ .refl _
  · exact hreg ▸ hg.reached

theorem stays_whileBuilding {id : TypeId} (hid : id < g.registry.types.size)
    (hx : Stays r settings q x (g.enter id)) : Stays r settings q (whileBuilding id x) g := by
  intro hg
  have henter : (g.enter id).InRange := by
    refine ⟨hg.range.arises, fun i hi => ?_, hg.range.parsed, hg.range.names, hg.range.leftOpen⟩
    rcases List.mem_append.1 hi with hi | hi
    · exact hg.range.building i hi
    · exact List.mem_singleton.1 hi ▸ hid
  obtain ⟨hgains, ⟨hrange, hreached, hset⟩, -, herr⟩ := hx ⟨henter, hg.reached, hg.settings⟩
  rw [runOn_whileBuilding]
  refine ⟨hgains, ⟨⟨hrange.arises, fun i hi => ?_, hrange.parsed, hrange.names, hrange.leftOpen⟩,
    hreached, hset⟩, fun _ _ => trivial, herr⟩
  exact hrange.building i (List.mem_of_mem_dropLast hi)

end Resolving

/-! ### The parts of the functions -/

namespace Resolver

open Resolving

variable {r : Registry} {settings : Settings} {q : Request} {g : Resolver}

theorem declaredOf_arises (hs : s.Arises) (file : FileId) (ht : t.Within s.types.size) :
    (s.declaredOf file t).2.Arises := by
  unfold Registry.declaredOf
  split
  · exact hs
  · split
    · exact hs.instantiate _ file fun a ha => ht.arg ha
    · exact hs
  · exact hs.findType _ file
  · exact hs.findType _ file
  · exact hs

theorem lt_of_declaredOf (hs : s.Arises) (ht : t.Within s.types.size) {id : TypeId}
    (hid : (s.declaredOf file t).1 = some id) : id < (s.declaredOf file t).2.types.size := by
  have hlt : ∀ {s' : Registry}, (∃ d, s'.types[id]? = some d) → id < s'.types.size := by
    rintro s' ⟨d, hd⟩
    exact (Array.getElem?_eq_some_iff.1 hd).1
  have hi := hs.wellIndexed
  unfold Registry.declaredOf at hid ⊢
  split at hid
  · next id' => exact Option.some.inj hid ▸ ht id' (List.mem_singleton_self _)
  · split at hid
    · exact hlt (hi.types_of_instantiateWith hid)
    · cases hid
  · exact hlt (hi.types_of_findTypeWith hid)
  · exact hlt (hi.types_of_findTypeWith hid)
  · cases hid

/-- A type is looked up: the answer belongs to a type, or the type is not found. -/
theorem obeys_declaredType (ht : Placed r settings q g.registry t file) :
    Obeys (way r settings q) (declaredType t file) g fun g' o =>
      (∀ id, o = some id → id < g'.registry.types.size) ∧
        (o = none → (way r settings q).Admits (.unresolvedType t.text)) := by
  intro hg
  rw [runOn_declaredType]
  have hgains := Registry.gains_declaredOf file t g.registry
  have harises := hg.range.arises
  refine ⟨hgains, ⟨hg.range.gains (declaredOf_arises harises file ht.within) hgains,
    hg.reached.lookUp ht.met, hg.settings⟩, ?_, ?_⟩
  · rintro o ⟨⟩
    refine ⟨fun id hid => lt_of_declaredOf harises ht.within hid, fun hnone name hname => ?_⟩
    exact .type ht.met hg.reached hnone (DocError.unresolvedType.inj hname).symm
  · intro e he
    cases he

theorem stays_claimName {id : TypeId} (hid : id < g.registry.types.size) (d : TypeDecl) :
    Stays r settings q (claimName id d) g := by
  unfold claimName
  refine obeys_get_bind fun _ => ?_
  split
  · split
    · exact obeys_pure trivial
    · exact obeys_throw (admits_other fun _ => DocError.noConfusion)
  · refine stays_modify rfl rfl fun hg => ⟨hg.arises, hg.building, hg.parsed,
      Table.forall_mem_insert hid hg.names, hg.leftOpen⟩

theorem stays_leaveOpen {id : TypeId} (hid : id < g.registry.types.size) :
    Stays r settings q (leaveOpen id) g :=
  stays_modify rfl rfl fun hg => ⟨hg.arises, hg.building, hg.parsed, hg.names,
    List.forall_mem_cons.2 ⟨hid, hg.leftOpen⟩⟩

theorem stays_buildDefinition {id : TypeId} {body : Resolving Schema}
    (hid : id < g.registry.types.size)
    (hbody : ∀ g', g.registry.Gains g'.registry → Stays r settings q body g') :
    Stays r settings q (buildDefinition id d body) g := by
  unfold buildDefinition
  refine obeys_bind (stays_claimName hid d) fun _ g₁ h₁ _ => ?_
  have hid₁ := Nat.lt_of_lt_of_le hid h₁.size_le
  refine obeys_bind (obeys_outcome (stays_whileBuilding hid₁ (hbody _ h₁))) fun o g₂ h₂ ho => ?_
  have hid₂ := Nat.lt_of_lt_of_le hid₁ h₂.size_le
  cases o with
  | ok s =>
    refine obeys_bind (φ := fun _ _ => True) (stays_modify rfl rfl fun hg => ?_)
      fun _ _ _ _ => obeys_pure trivial
    exact ⟨hg.arises, hg.building, List.forall_mem_cons.2 ⟨hid₂, hg.parsed⟩, hg.names, hg.leftOpen⟩
  | error e =>
    have hrelease : Stays r settings q (releaseName id d.typeName) g₂ := by
      refine obeys_bind (stays_modify rfl rfl fun hg => ?_) fun _ g₃ h₃ _ =>
        stays_leaveOpen (Nat.lt_of_lt_of_le hid₂ h₃.size_le)
      exact ⟨hg.arises, hg.building, hg.parsed,
        fun e he => hg.names e (Table.mem_of_mem_erase he), hg.leftOpen⟩
    exact obeys_bind hrelease fun _ _ _ _ => obeys_throw (ho.2 e rfl)

theorem stays_passThrough {id : TypeId} {fields : Resolving StructParts}
    (hid : id < g.registry.types.size)
    (hfields : ∀ g', g.registry.Gains g'.registry → Stays r settings q fields g') :
    Stays r settings q (passThrough id fields) g := by
  unfold passThrough
  refine obeys_bind (stays_leaveOpen hid) fun _ g' hg' _ => ?_
  exact stays_whileBuilding (Nat.lt_of_lt_of_le hid hg'.size_le) (hfields _ hg')

end Resolver

/-! ### The discipline -/

/-- Types that are met, and numbers of types and files that are there. -/
def Resolving.bounds (r : Registry) (settings : Settings) (q : Request) : Discipline where
  toFrame := way r settings q
  IsSchema _ _ := True
  IsParts _ _ := True
  IsType g t file := Placed r settings q g.registry t file
  IsField g f file := Placed r settings q g.registry f.type file
  IsFile g file := file < g.registry.files.size
  IsId g id := id < g.registry.types.size
  IsDecl g id d := id < g.registry.types.size ∧ Placed r settings q g.registry d.type d.file
  typeLater h ht := ht.gains h
  fieldLater h hf := hf.gains h
  idLater h hid := Nat.lt_of_lt_of_le hid h.size_le
  declLater h hd := ⟨Nat.lt_of_lt_of_le hd.1 h.size_le, hd.2.gains h⟩
  error := admits_other
  file ht := ht.file
  inside ht hin := ht.inside hin
  field ht _ hf := ht.inside (List.mem_map_of_mem hf)
  fieldType := id
  renamed hf _ := hf
  bound ht := ht.within _ (List.mem_singleton_self _)
  -- the number belongs to a type, so that reading it cannot fail
  missing _ hid hnone := absurd (Array.getElem?_eq_none_iff.1 hnone) (Nat.not_le.2 hid)
  declared hg hid hd := ⟨hid, .declared hg.range.arises hg.reached hd⟩
  rightSide hd := hd.2
  lookUp := Resolver.obeys_declaredType
  replacement {g file key text} hg hfile hkey := by
    rw [hg.settings] at hkey
    refine ⟨fun t ht => ⟨.replacement hkey ht (hg.reached.gains.files ▸ hfile), ?_, hfile⟩, ?_⟩
    · exact TypeExpr.within_of_numbers (Go.unnumbered_typeOfText ht).numbers_eq_nil
    · exact fun e he => admits_text (.inr ⟨key, hkey⟩) he
  build hd _ _ hbody := Resolver.stays_buildDefinition hd.1 fun g' hg' => hbody g' (hd.2.gains hg')
  pass hid _ hfields hx := Resolver.stays_passThrough hid fun g' hg' =>
    hx g' fun f hf => (hfields f hf).gains hg'

namespace Resolver

open Resolving

variable {r : Registry} {settings : Settings} {q : Request} {g : Resolver}

/-! ### Requests -/

theorem InRange.of_stays (hg : g.InRange) {α : Type} {x : Resolving α}
    (hx : Stays g.registry g.settings q x g) : (x.runOn g).2.InRange ∧
      ∀ name, (x.runOn g).1 = .error (.unresolvedType name) →
        q.NotFound g.registry g.settings name := by
  obtain ⟨-, hway, -, herr⟩ := hx ⟨hg, .start, rfl⟩
  exact ⟨hway.range, fun name hname => herr _ hname name rfl⟩

theorem eq_error_of_some {o : Except DocError Schema}
    (h : (match o with | .ok _ => none | .error e => some e) = some e) : o = .error e := by
  cases o with
  | ok s => cases h
  | error e' => exact congrArg _ (Option.some.inj h)

/-- **One request**: the state stays in range, and a type is refused only because it is not found. -/
theorem InRange.answer (hg : g.InRange) (hq : q.Fits g.registry) :
    (g.answer q).InRange ∧ ∀ name, g.refusal? q = some (.unresolvedType name) →
      q.NotFound g.registry g.settings name := by
  cases q with
  | type t file =>
    obtain ⟨hrange, herr⟩ := hg.of_stays (q := .type t file) (x := Resolver.resolve t file)
      (obeys_get_bind fun _ => (obeysWith (bounds ..) _).resolve ⟨.asked rfl, hq.1, hq.2⟩)
    exact ⟨hrange, fun name hname => herr name (eq_error_of_some hname)⟩
  | text text file =>
    obtain ⟨hrange, herr⟩ := hg.of_stays (q := .text text file) (x := resolveText text file)
      (obeys_resolveText (D := bounds ..) ⟨fun t ht => ⟨.read rfl ht,
        TypeExpr.within_of_numbers (Go.unnumbered_typeOfText ht).numbers_eq_nil, hq⟩,
        fun e he => admits_text (.inl ⟨file, rfl⟩) he⟩)
    exact ⟨hrange, fun name hname => herr name (eq_error_of_some hname)⟩
  | symbol id =>
    obtain ⟨hrange, herr⟩ := hg.of_stays (q := .symbol id) (x := resolveSymbol id)
      (obeys_get_bind fun _ => (obeysWith (bounds ..) _).symbol hq)
    exact ⟨hrange, fun name hname => herr name (eq_error_of_some hname)⟩
  | instantiate generic args file =>
    refine ⟨hg.gains (hg.arises.instantiate generic file hq.2.1)
      (Registry.gains_instantiate _ _ _ _), fun name hname => ?_⟩
    cases hname

/-- Each request fits the registry at its time. -/
def Fit (g : Resolver) : List Request → Prop
  | [] => True
  | q :: qs => q.Fits g.registry ∧ (g.answer q).Fit qs

theorem InRange.after (hg : g.InRange) {qs : List Request} (hqs : g.Fit qs) :
    (g.after qs).InRange := by
  induction qs generalizing g with
  | nil => exact hg
  | cons q qs ih => exact ih (hg.answer hqs.1).1 hqs.2

theorem inRange_fresh (h : r.Arises) (settings : Settings) : (fresh r settings).InRange := by
  refine ⟨h, ?_, ?_, ?_, ?_⟩
  all_goals exact List.forall_mem_nil _

end Resolver

/-! ### Answers -/

namespace Registry

/-- The numbers that the operations of a registry answer belong to something. -/
structure AnswersFit (r : Registry) : Prop where
  file : ∀ path id, r.fileId? path = some id → id < r.files.size
  const : ∀ path name id, r.findConst? path name = some id → id < r.consts.size
  type : ∀ name file id args, r.lookupType? name file = some (id, args) → id < r.types.size
  find : ∀ name file id, (r.findType name file).1 = some id →
    id < (r.findType name file).2.types.size
  instantiate : ∀ generic args file id, (r.instantiate generic args file).1 = some id →
    id < (r.instantiate generic args file).2.types.size
  instantiateText : ∀ generic args file id, (r.instantiateText generic args file).1 = some id →
    id < (r.instantiateText generic args file).2.types.size
  pending : ∀ e ∈ r.foldPending, e.1 < r.consts.size ∧ ∀ v ∈ e.2, v.type.Within r.types.size
  package : ∀ path, ∀ e ∈ r.foldPackage path,
    e.1 < r.consts.size ∧ ∀ v ∈ e.2, v.type.Within r.types.size

theorem Arises.answersFit (h : r.Arises) : r.AnswersFit := by
  have hi := h.wellIndexed
  have hformed := h.wellFormed
  have hlt : ∀ {s : Registry} {id : TypeId}, (∃ d, s.types[id]? = some d) → id < s.types.size := by
    rintro s id ⟨d, hd⟩
    exact (Array.getElem?_eq_some_iff.1 hd).1
  -- a constant of a package and its value
  have hvalue : ∀ path p, (path, p) ∈ r.packages → ∀ id ∈ p.constOrder, id < r.consts.size ∧
      ∀ v ∈ r.foldOne id, v.type.Within r.types.size := fun path p hp id hid =>
    ⟨(hformed.packages _ hp).order id hid, fun v hv => hformed.within_foldOne hi hv⟩
  refine ⟨?_, ?_, ?_, ?_, ?_, ?_, ?_, ?_⟩
  · intro path id hid
    exact (Array.findIdx?_eq_some_iff_findIdx_eq.1 hid).1
  · intro path name id hid
    unfold findConst? at hid
    split at hid
    · next p hp => exact (hformed.packages _ (Table.mem_of_get? hp)).consts _ (Table.mem_of_get? hid)
    · cases hid
  · exact fun name file id args hid => hi.lt_of_lookupType? hid
  · exact fun name file id hid => hlt (hi.types_of_findTypeWith hid)
  · exact fun generic args file id hid => hlt (hi.types_of_instantiateWith hid)
  · exact fun generic args file id hid => hlt (hi.types_of_instantiateWith hid)
  · intro e he
    rw [foldPending_eq_map] at he
    obtain ⟨id, hid, rfl⟩ := List.mem_map.1 he
    obtain ⟨p, hp, hid⟩ := List.mem_flatMap.1 (List.mem_filter.1 hid).1
    obtain ⟨entry, hentry, rfl⟩ := List.mem_map.1 hp
    exact hvalue entry.1 entry.2 hentry id hid
  · intro path e he
    cases hp : r.packages.get? path with
    | none =>
      rw [foldPackage, hp] at he
      cases he
    | some p =>
      rw [foldPackage_eq hp] at he
      obtain ⟨id, hid, rfl⟩ := List.mem_map.1 he
      exact hvalue path p (Table.mem_of_get? hp) id hid

/-- **Every number belongs to something, in every run.**  In a registry that has arisen by reading
files, collecting declarations, looking up names and making instances, every number that is stored
belongs to a file, a type or a constant, packages list types under their names, and instances are
listed under theirs; the answers of all operations are such numbers.  Resolving types from it, in any
sequence of requests, keeps every number of the state in range, and a type is refused only if it is
written and names nothing, never for a number without a type. -/
theorem numbers_in_range {r : Registry} (h : r.Arises) :
    r.WellFormed ∧ r.AnswersFit ∧
      ∀ (settings : Settings) (earlier : List Request), (Resolver.fresh r settings).Fit earlier →
        let g := (Resolver.fresh r settings).after earlier
        g.InRange ∧ g.registry.WellFormed ∧
          ∀ q : Request, q.Fits g.registry → (g.answer q).InRange ∧
            ∀ name, g.refusal? q = some (.unresolvedType name) →
              q.NotFound g.registry g.settings name := by
  refine ⟨h.wellFormed, h.answersFit, fun settings earlier hfit => ?_⟩
  have hg := (Resolver.inRange_fresh h settings).after hfit
  exact ⟨hg, hg.arises.wellFormed, fun q hq => hg.answer hq⟩

/-- A package with a constant, a generic struct, and a struct with a field of a type that is declared
nowhere. -/
def shelf : Registry :=
  match ({} : Registry).addFile "example.com/shelf" "/shelf/shelf.go" .all
    ("package shelf\n\ntype Kind int\n\nconst Book Kind = 1\n\n" ++
      "type Box[T any] struct \x7b\n\tItem T\n\x7d\n\n" ++
      "type Shelf struct \x7b\n\tBoxes []Box[Shelf]\n\tOwner Person\n\x7d\n") with
  | .ok (_, r) => r.parseTypes
  | .error _ => {}

theorem arises_shelf : shelf.Arises := by
  unfold shelf
  split
  · next hf => exact (Arises.addFile (.empty none) hf).parseTypes
  · exact .empty none

set_option maxRecDepth 100000 in
/-- The struct leads to an instance, which leads back to it, and then to the type that is not
found. -/
theorem numbers_in_range_shelf :
    shelf.types.size = 3 ∧ shelf.consts.size = 1 ∧ shelf.WellFormed ∧
      (Resolver.fresh shelf {}).refusal? (.text "Shelf" 0) = some (.unresolvedType "Person") ∧
      (Request.text "Shelf" 0).NotFound shelf {} "Person" := by
  obtain ⟨hformed, -, hrun⟩ := numbers_in_range arises_shelf
  have hfile : 0 < shelf.files.size := by decide +kernel
  have hrefused : (Resolver.fresh shelf {}).refusal? (.text "Shelf" 0) =
      some (.unresolvedType "Person") := by decide +kernel
  obtain ⟨-, -, hanswer⟩ := hrun {} [] trivial
  exact ⟨by decide +kernel, by decide +kernel, hformed, hrefused,
    (hanswer (.text "Shelf" 0) hfile).2 "Person" hrefused⟩

end Registry

end GoApiDoc
