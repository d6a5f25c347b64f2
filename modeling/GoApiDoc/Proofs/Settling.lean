/-
Resolving types from steady states.

From a steady state, and with orderly circles, every function that resolves types leaves a steady
state, unless it fails for good.  Whether it yields a value or leaves the type out is known from the
declarations.  References in what it yields lead to definitions and to types on circles.

* `Resolver.settlesWith` — **every function that resolves types settles**.
-/

import GoApiDoc.Proofs.Growth
import GoApiDoc.Proofs.Steady

set_option autoImplicit false

namespace GoApiDoc

open Go (TypeId TypeExpr)

variable {e : DocError} {id : TypeId} {d : TypeDecl} {parts : StructParts} {x : Resolving Schema}

/-! ### Errors that leave a field out -/

/-- The error leaves a field out of its struct. -/
inductive DocError.IsLeftOut (settings : Settings) : DocError → Prop
  | skipped (type : String) : IsLeftOut settings (.skippedField type)
  | unsupported (h : settings.strict = false) (type : String) :
      IsLeftOut settings (.unsupportedField type)

theorem DocError.OfTag.not_isLeftOut {settings : Settings} (h : e.OfTag) :
    ¬e.IsLeftOut settings := by
  intro he
  cases h with
  | malformed | mismatch => cases he

namespace Resolver

variable {g : Resolver} {parts : StructParts} {f : Go.Field} {property : String}

theorem runOn_addResolved_leftOut (he : e.IsLeftOut g.settings) :
    Resolving.runOn (addResolved parts f property (.error e)) g = (.ok parts, g) := by
  unfold addResolved
  rw [Resolving.runOn_get_bind]
  cases he with
  | skipped type => rfl
  | unsupported h type =>
    rw [h]
    rfl

theorem runOn_addResolved_error (he : ¬e.IsLeftOut g.settings) :
    Resolving.runOn (addResolved parts f property (.error e)) g = (.error e, g) := by
  unfold addResolved
  rw [Resolving.runOn_get_bind]
  cases e with
  | skippedField type => exact absurd (.skipped type) he
  | unsupportedField type =>
    dsimp only
    split
    · rfl
    · next h => exact absurd (.unsupported (by simpa using h) type) he
  | _ => rfl

theorem runOn_addResolved_ok (s : Schema) :
    Resolving.runOn (addResolved parts f property (.ok s)) g =
      ((g.complement f s).map fun t =>
        parts.addProperty property t (Field.isRequired g.settings.requiredByDefault f), g) := by
  unfold addResolved
  rw [Resolving.runOn_get_bind]
  dsimp only
  cases g.complement f s with
  | ok t | error e => rfl

end Resolver

/-! ### The judgement -/

namespace Resolving

open Resolver (Steady Linked Onward)

variable {α β : Type} {r : Filling} {settings : Settings} {g : Resolver} {x : Resolving α}
  {P P' : TypeId → Entry → Prop} {F F' : Prop} {φ φ' : Resolver → α → Prop}
  {ψ : Resolver → β → Prop}

/-- From a steady state the computation leaves a steady one.  If it yields a value, that satisfies
the condition, and `F` does not hold; if it fails with an error that leaves a field out, `F`
does. -/
def Settles (r : Filling) (settings : Settings) (x : Resolving α) (g : Resolver)
    (P : TypeId → Entry → Prop) (F : Prop) (φ : Resolver → α → Prop) : Prop :=
  Steady r settings g → Linked r settings g P → ∀ o g', x.runOn g = (o, g') → g'.registry.Gains r →
    (∀ a, o = .ok a → Onward r settings g g' ∧ ¬F ∧ φ g' a) ∧
      ∀ e, o = .error e → e.IsLeftOut settings → Onward r settings g g' ∧ F

theorem Settles.imp (h : Settles r settings x g P F φ) (hP : ∀ id v, P id v → P' id v)
    (hF : F ↔ F') (hφ : ∀ g' a, φ g' a → φ' g' a) : Settles r settings x g P' F' φ' := by
  intro hg hlinked o g' hrun hgain
  obtain ⟨hok, herror⟩ := h hg (hlinked.imp hP) o g' hrun hgain
  refine ⟨fun a ha => ?_, fun e he hout => ?_⟩
  · obtain ⟨hon, hnot, hval⟩ := hok a ha
    exact ⟨hon, fun hfails => hnot (hF.2 hfails), hφ g' a hval⟩
  · obtain ⟨hon, hfails⟩ := herror e he hout
    exact ⟨hon, hF.1 hfails⟩

theorem Settles.value (h : Settles r settings x g P F φ) (hφ : ∀ g' a, φ g' a → φ' g' a) :
    Settles r settings x g P F φ' := h.imp (fun _ _ h => h) Iff.rfl hφ

theorem Settles.fails (h : Settles r settings x g P F φ) (hF : F ↔ F') :
    Settles r settings x g P F' φ := h.imp (fun _ _ h => h) hF fun _ _ h => h

theorem Settles.entry (h : Settles r settings x g P F φ) (hP : ∀ id v, P id v → P' id v) :
    Settles r settings x g P' F φ := h.imp hP Iff.rfl fun _ _ h => h

/-- What is read enters no other types than those of the site, and it is left out with the site. -/
abbrev SettlesAt (r : Filling) (settings : Settings) (x : Resolving α) (g : Resolver) (site : Site)
    (φ : Resolver → α → Prop) : Prop :=
  Settles r settings x g (Enters r settings site) (Fails r settings site) φ

/-- What is known of the start may be used. -/
theorem settles_intro (h : Steady r settings g → Linked r settings g P →
    Settles r settings x g P F φ) : Settles r settings x g P F φ :=
  fun hg hlinked => h hg hlinked hg hlinked

theorem settles_pure {a : α} (hF : ¬F) (h : φ g a) : Settles r settings (pure a) g P F φ := by
  intro hg _ o g' hrun _
  cases hrun
  refine ⟨fun b hb => ?_, fun e he => nomatch he⟩
  cases hb
  exact ⟨hg.onward_refl, hF, h⟩

/-- A computation that fails where it should be left out. -/
theorem settles_throw (hF : F) : Settles r settings (throw e : Resolving α) g P F φ := by
  intro hg _ o g' hrun _
  cases hrun
  exact ⟨(fun _ hb => nomatch hb), fun _ _ _ => ⟨hg.onward_refl, hF⟩⟩

/-- Nothing is said of a computation that fails for good. -/
theorem settles_error {g' : Resolver} (hrun : x.runOn g = (.error e, g'))
    (he : ¬e.IsLeftOut settings) : Settles r settings x g P F φ := by
  intro _ _ o g₁ hrun' _
  cases hrun.symm.trans hrun'
  refine ⟨(fun _ hb => nomatch hb), fun e' he' hout => ?_⟩
  cases he'
  exact absurd hout he

theorem settles_fatal (he : ¬e.IsLeftOut settings := by rintro ⟨⟩) :
    Settles r settings (throw e : Resolving α) g P F φ :=
  settles_error (runOn_throw e g) he

theorem settles_bind {f : α → Resolving β} (hx : Settles r settings x g P F' φ)
    (hF : F' → F) (hadd : ∀ a, Enlarges (f a))
    (hf : ∀ a g₁, x.runOn g = (.ok a, g₁) → Onward r settings g g₁ → ¬F' → φ g₁ a →
      Settles r settings (f a) g₁ P F ψ) : Settles r settings (x >>= f) g P F ψ := by
  intro hg hlinked o g' hrun hgain
  rcases hfirst : x.runOn g with ⟨e | a, g₁⟩
  · cases (runOn_bind_error f hfirst).symm.trans hrun
    obtain ⟨-, herror⟩ := hx hg hlinked _ _ hfirst hgain
    refine ⟨(fun _ hb => nomatch hb), fun e' he' hout => ?_⟩
    cases he'
    obtain ⟨hon, hfails⟩ := herror e rfl hout
    exact ⟨hon, hF hfails⟩
  · rw [runOn_bind_ok f hfirst] at hrun
    -- the instances that are made later are not in the way of what is known at the end
    have hgain₁ : g₁.registry.Gains r := by
      have hlater := hadd a g₁
      rw [hrun] at hlater
      exact hlater.trans hgain
    obtain ⟨hon, hnot, hval⟩ := (hx hg hlinked _ _ hfirst hgain₁).1 a rfl
    have hrest := hf a g₁ hfirst hon hnot hval hon.steady
      (hlinked.of_building hon.ext.building) o g' hrun hgain
    refine ⟨fun b hb => ?_, fun e he hout => ?_⟩
    · obtain ⟨hon', hend⟩ := hrest.1 b hb
      exact ⟨hon.trans hon', hend⟩
    · obtain ⟨hon', hend⟩ := hrest.2 e he hout
      exact ⟨hon.trans hon', hend⟩

theorem settles_get_bind {f : Resolver → Resolving β} (hf : Settles r settings (f g) g P F ψ) :
    Settles r settings (get >>= f) g P F ψ := hf

/-- A value is changed at the end. -/
theorem settles_map {f : α → β} (hx : Settles r settings x g P F φ)
    (hf : ∀ g' a, φ g' a → ψ g' (f a)) : Settles r settings (x >>= fun a => pure (f a)) g P F ψ :=
  settles_bind hx id enlarges_pure fun a g' _ _ hnot ha =>
    settles_pure hnot (hf g' a ha)

theorem settles_foldlM {γ : Type} {f : α → γ → Resolving α} {G : γ → Prop} (l : List γ)
    (hadd : ∀ a c, Enlarges (f a c))
    (hf : ∀ c ∈ l, ∀ a g', φ g' a → Settles r settings (f a c) g' P (G c) φ) {a : α}
    (ha : φ g a) : Settles r settings (l.foldlM f a) g P (∃ c ∈ l, G c) φ := by
  induction l generalizing g a with
  | nil => exact settles_pure (fun ⟨_, hc, _⟩ => nomatch hc) ha
  | cons c l ih =>
    rw [List.foldlM_cons]
    refine settles_bind (hf c (.head _) a g ha) (fun hc => ⟨c, .head _, hc⟩)
      (fun a => enlarges_foldlM l hadd a) fun b g' _ _ hnot hb => ?_
    refine (ih (fun d hd => hf d (.tail c hd)) hb).fails ?_
    constructor
    · rintro ⟨d, hd, hfails⟩
      exact ⟨d, .tail c hd, hfails⟩
    · rintro ⟨d, hd, hfails⟩
      rcases List.mem_cons.1 hd with rfl | hd
      · exact absurd hfails hnot
      · exact ⟨d, hd, hfails⟩

end Resolving

/-! ### Entering types -/

namespace Resolver

open Resolving

variable {r : Filling} {settings : Settings} {g g' : Resolver} {P : TypeId → Entry → Prop}
  {F : Prop} {p : StructParts}

/-- All references of the schema lead to types that may be referred to. -/
abbrev Vouches (r : Filling) (settings : Settings) (g : Resolver) (s : Schema) : Prop :=
  s.AllRefs (g.Holds r settings)

/-- All references of the parts of a struct lead to types that may be referred to. -/
abbrev VouchesParts (r : Filling) (settings : Settings) (g : Resolver) (p : StructParts) : Prop :=
  p.AllRefs (g.Holds r settings)

/-- The parts have no further ones that are kept by reference. -/
abbrev Extending (r : Filling) (settings : Settings) (parts : StructParts) (g : Resolver)
    (p : StructParts) : Prop :=
  g.VouchesParts r settings p ∧ p.composed = parts.composed

/-- The parts have further ones that are kept by reference only under the condition. -/
abbrev Composing (r : Filling) (settings : Settings) (parts : StructParts) (C : Prop) (g : Resolver)
    (p : StructParts) : Prop :=
  g.VouchesParts r settings p ∧ (p.composed ≠ [] → parts.composed ≠ [] ∨ C)

theorem Extending.composing (h : Extending r settings parts g p) (C : Prop) :
    Composing r settings parts C g p := ⟨h.1, fun hne => .inl (h.2 ▸ hne)⟩

theorem Has.vouches_ref (hd : r.types[id]? = some d) (h : g.Has r settings id) :
    g.Vouches r settings (Schema.ref d.typeName) :=
  Schema.allRefs_ref ⟨id, d, hd, rfl, h⟩

theorem Onward.vouchesParts (h : Onward r settings g g')
    (hp : g.VouchesParts r settings p) : g'.VouchesParts r settings p :=
  hp.imp fun _ href => h.ext.passes.holds href

/-- **Building a definition.** -/
theorem settles_buildDefinition (ho : Orderly r settings) {m : Nat}
    (hd : g.registry.types[id]? = some d) (hfresh : g.parsed.lookup id = none)
    (hout : id ∉ g.building) (hid : P id .reference)
    (hbody : ∀ g', Settles r settings (resolveWith m d.type d.file) g' (Leads r settings id)
      (Fails r settings (.symbol id)) fun g' s =>
        g'.Vouches r settings s ∧ (Circular r settings id → s.IsObject)) :
    Settles r settings (buildDefinition id d (resolveWith m d.type d.file)) g P
      (Fails r settings (.symbol id)) fun g' s =>
        s = Schema.ref d.typeName ∧ g'.Has r settings id := by
  intro hg hlinked o g' hrun hgain
  rcases runOn_buildDefinition hg.sound hfresh hout _ with ⟨e, hrefused⟩ | ⟨hn, hbuild⟩
  · cases hrefused.symm.trans hrun
    refine ⟨fun _ hb => (by cases hb), fun e he hleft => ?_⟩
    cases he
    cases hleft
  · rw [hbuild] at hrun
    have hentered := hg.claim_enter hd hn
    have hlinked' : ((g.claim id d.typeName).enter id).Linked r settings (Leads r settings id) :=
      (hlinked.enter ho hid).of_building rfl
    rcases hend : (resolveWith m d.type d.file).runOn ((g.claim id d.typeName).enter id) with
      ⟨e | s, g₁⟩
    all_goals rw [hend] at hrun
    · cases hrun
      refine ⟨fun _ hb => (by cases hb), fun e' he hleft => ?_⟩
      cases he
      obtain ⟨hon, hfails⟩ := (hbody _ hentered hlinked' _ _ hend hgain).2 e rfl hleft
      have hid' : ¬Circular r settings id := fun hc => ho.not_fails hc hfails
      exact ⟨Steady.onward_release hd hn hfresh hid' hon, hfails⟩
    · cases hrun
      obtain ⟨hon, hnot, hs, hobject⟩ := (hbody _ hentered hlinked' _ _ hend hgain).1 s rfl
      refine ⟨fun t ht => ?_, fun e he => by cases he⟩
      cases ht
      have hdefine := hg.onward_define hd hn hfresh hout hlinked' hend hon hnot hs hobject
      exact ⟨hdefine, hnot, rfl, .inl ⟨_, lookup_store_self _⟩⟩

/-- **Going through a struct.** -/
theorem settles_passThrough (ho : Orderly r settings)
    {fields : Resolving StructParts} {C : Prop} (hout : id ∉ g.building) (hid : P id .embedding)
    (hfields : ∀ g', Settles r settings fields g' (Leads r settings id) F fun g' p =>
      g'.VouchesParts r settings p ∧ (p.composed ≠ [] → C)) :
    Settles r settings (passThrough id fields) g P F fun g' p =>
      g'.VouchesParts r settings p ∧ (p.composed ≠ [] → C) := by
  intro hg hlinked o g' hrun hgain
  unfold passThrough at hrun
  rw [runOn_bind_ok _ (runOn_leaveOpen id g), runOn_whileBuilding] at hrun
  have hid' := hlinked.apart hid
  have hlinked' : ((g.noteOpen id).enter id).Linked r settings (Leads r settings id) :=
    (hlinked.enter ho hid).of_building rfl
  cases hrunFields : runOn fields ((g.noteOpen id).enter id) with
  | mk o₁ g₁ =>
    have hrun' : (o₁, g₁.leave) = (o, g') := by
      have hsame := congrArg (fun q : Except DocError StructParts × Resolver => (q.1, q.2.leave))
        hrunFields
      exact hsame.symm.trans hrun
    cases hrun'
    obtain ⟨hok, herror⟩ := hfields _ (hg.noteOpen_enter hid') hlinked' _ _ hrunFields hgain
    refine ⟨fun p hp => ?_, fun e he hleft => ?_⟩
    · obtain ⟨hon, hnot, hparts, hcomposed⟩ := hok p hp
      refine ⟨hg.onward_leave hout hid' hon, hnot, hparts.imp fun _ href => ?_, hcomposed⟩
      exact (passes_leave hon.ext rfl ⟨fun _ _ hs => hs, fun _ _ hn => hn⟩
        fun hc => absurd hc hid').holds href
    · obtain ⟨hon, hfails⟩ := herror e he hleft
      exact ⟨hg.onward_leave hout hid' hon, hfails⟩

/-! ### Leaves -/

theorem settles_builtinSchema (name : String) :
    Settles r settings (builtinSchema name) g P (Schema.ofBuiltin? name = none)
      (Vouches r settings) := by
  unfold builtinSchema
  split
  · next s hs => exact settles_pure (by simp [hs]) (Schema.allRefs_ofBuiltin hs)
  · next hs => exact settles_throw hs

theorem settles_declaredType (t : TypeExpr) (file : FileId) :
    Settles r settings (declaredType t file) g P False fun _ o =>
      ∀ id, o = some id → r.Finds file t id := by
  intro hg _ o g' hrun hgain
  rw [runOn_declaredType] at hrun
  cases hrun
  refine ⟨fun o ho => ?_, fun e he => nomatch he⟩
  cases ho
  refine ⟨hg.onward_gains (Registry.gains_declaredOf file t g.registry) hgain, not_false, ?_⟩
  exact fun id hid => ⟨g.registry, hg.started, hgain, hid⟩

theorem isTime_eq {r r' : Registry} (h : r.Gains r') (t : TypeExpr) (file : FileId) :
    isTime r' t file = isTime r t file := by
  unfold isTime
  split
  · rw [h.packageOf?]
  · rfl

theorem settles_addResolved (hparts : g.VouchesParts r settings parts) (f : Go.Field)
    (property : String) {s : Schema} (hs : g.Vouches r settings s) :
    Settles r settings (addResolved parts f property (.ok s)) g P False
      (Extending r settings parts) := by
  have hrun : (addResolved parts f property (.ok s)).runOn g = _ := runOn_addResolved_ok s
  cases ht : g.complement f s with
  | error e =>
    rw [ht] at hrun
    rcases complement_eq_error ht with he | rfl
    · exact settles_error hrun he.not_isLeftOut
    · exact settles_error hrun fun he => by cases he
  | ok t =>
    rw [ht] at hrun
    intro hg _ o g' hrun' _
    cases hrun.symm.trans hrun'
    refine ⟨fun p hp => ?_, fun e he => nomatch he⟩
    cases hp
    have hparts' := hparts.addProperty (Field.allRefs_complement hs (complement_eq_ok ht)) property
      (Field.isRequired g.settings.requiredByDefault f)
    exact ⟨hg.onward_refl, not_false, hparts', rfl⟩

theorem settles_outcome_addResolved (hparts : g.VouchesParts r settings parts) (f : Go.Field)
    (property : String) (hk : Keeps x g Backs)
    (hx : Settles r settings x g P F (Vouches r settings)) :
    Settles r settings (do addResolved parts f property (← outcome x)) g P False
      (Extending r settings parts) := by
  intro hg hlinked o g' hrun hgain
  rw [runOn_bind_ok _ (runOn_outcome _ g)] at hrun
  have hext := (hk hg.sound).1
  cases hrunX : x.runOn g with
  | mk o₁ g₁ =>
    rw [hrunX] at hrun hext
    have hgain₁ : g₁.registry.Gains r := by
      have hlater := enlarges_addResolved parts f property o₁ g₁
      rw [hrun] at hlater
      exact hlater.trans hgain
    obtain ⟨hok, herror⟩ := hx hg hlinked _ _ hrunX hgain₁
    have hset : g₁.settings = settings := hext.settings.trans hg.configured
    cases o₁ with
    | ok s =>
      obtain ⟨hon, -, hs⟩ := hok s rfl
      have hadded := settles_addResolved (hon.vouchesParts hparts) f property hs
        hon.steady (hlinked.of_building hon.ext.building) o g' hrun hgain
      refine ⟨fun p hp => ?_, fun e he hleft => (hadded.2 e he hleft).2.elim⟩
      obtain ⟨hon', hend⟩ := hadded.1 p hp
      exact ⟨hon.trans hon', hend⟩
    | error e =>
      by_cases hleft : e.IsLeftOut settings
      · obtain ⟨hon, -⟩ := herror e rfl hleft
        cases (runOn_addResolved_leftOut (hset ▸ hleft)).symm.trans hrun
        refine ⟨fun p hp => ?_, fun e he => nomatch he⟩
        cases hp
        exact ⟨hon, not_false, hon.vouchesParts hparts, rfl⟩
      · cases (runOn_addResolved_error (hset ▸ hleft)).symm.trans hrun
        refine ⟨(fun _ hb => nomatch hb), fun e' he' hleft' => ?_⟩
        cases he'
        exact absurd hleft' hleft

theorem settles_fieldPart (hparts : g.VouchesParts r settings parts)
    (f : Go.Field) (hk : Keeps x g Backs)
    (hx : Field.isHidden f = false → Field.customSchema? f = .ok none →
      Settles r settings x g P F (Vouches r settings)) :
    Settles r settings (fieldPart parts f x) g P False (Extending r settings parts) := by
  unfold fieldPart
  split
  · exact settles_pure not_false ⟨hparts, rfl⟩
  · next hidden =>
    refine settles_get_bind ?_
    split
    · exact settles_pure not_false ⟨hparts, rfl⟩
    · next property _ =>
      cases hc : Field.customSchema? f with
      | error e =>
        exact settles_error rfl (Field.tagFails_customSchema? f e hc).not_isLeftOut
      | ok o =>
        cases o with
        | some s =>
          exact settles_addResolved hparts f property (Field.allRefs_customSchema? hc)
        | none =>
          exact settles_outcome_addResolved hparts f property hk (hx (by simpa using hidden) hc)

/-! ### The recursion -/

/-- What is known of the value of an override: there is one if and only if the settings have one. -/
def OverrideOutcome (r : Filling) (settings : Settings) (key : String) (g : Resolver) :
    Option Schema → Prop
  | none => settings.overrides.get? key = none
  | some s => settings.overrides.get? key ≠ none ∧ g.Vouches r settings s

/-- The laws of the functions that resolve types, for a given number of steps. -/
structure SettlesWith (r : Filling) (settings : Settings) (fuel : Nat) : Prop where
  resolve : ∀ t file g, SettlesAt r settings (resolveWith fuel t file) g (.type t file) fun g' s =>
    g'.Vouches r settings s ∧
      ∀ fs, t = .struct fs → ¬Composes r settings (.fields fs file) → s.IsObject
  text : ∀ text file g P F, (∀ t, Go.typeOfText (Text.trim text) = .ok t →
      (∀ id v, Enters r settings (.type t file) id v → P id v) ∧
        (Fails r settings (.type t file) ↔ F)) →
    Settles r settings (textWith fuel text file) g P F (Vouches r settings)
  override : ∀ key file g P, (∀ t, settings.replacement? key = some t →
      ∀ id v, Enters r settings (.type t file) id v → P id v) →
    Settles r settings (overrideWith fuel key file) g P (OverrideFails r settings key file)
      (OverrideOutcome r settings key)
  named : ∀ t file g, t.isNamed = true →
    SettlesAt r settings (namedWith fuel t file) g (.type t file) (Vouches r settings)
  symbol : ∀ id g, SettlesAt r settings (symbolWith fuel id) g (.symbol id) (Vouches r settings)
  definition : ∀ id d g, g.registry.types[id]? = some d →
    settings.overrides.get? d.fullPath = none →
    SettlesAt r settings (definitionWith fuel id d) g (.symbol id) fun g' s =>
      g'.Vouches r settings s ∧
        (d.isAlias = false → s = Schema.ref d.typeName ∧ g'.Has r settings id)
  struct : ∀ fields file g,
    SettlesAt r settings (structWith fuel fields file) g (.fields fields file) fun g' p =>
      g'.VouchesParts r settings p ∧ (p.composed ≠ [] → Composes r settings (.fields fields file))
  field : ∀ parts f file g, g.VouchesParts r settings parts →
    SettlesAt r settings (fieldWith fuel parts f file) g (.field f file)
      (Composing r settings parts (Composes r settings (.field f file)))
  namedField : ∀ parts f file g P, g.VouchesParts r settings parts →
    (Field.isHidden f = false → Field.customSchema? f = .ok none →
      ∀ id v, Enters r settings (.type f.type file) id v → P id v) →
    Settles r settings (namedFieldWith fuel parts f file) g P False (Extending r settings parts)
  embedded : ∀ parts f file g, f.names = [] → g.VouchesParts r settings parts →
    SettlesAt r settings (embeddedWith fuel parts f file) g (.field f file)
      (Composing r settings parts (Composes r settings (.field f file)))
  embeddedStruct : ∀ parts id d fields readOnly g P, g.VouchesParts r settings parts →
    r.types[id]? = some d → d.type = .struct fields → P id .embedding →
    (readOnly = true → ∀ i v, Enters r settings (.symbol id) i v → P i v) →
    Settles r settings (embeddedStructWith fuel parts id d fields readOnly) g P
      (readOnly = true ∧ Fails r settings (.symbol id) ∨ Fails r settings (.fields fields d.file))
      (Composing r settings parts (readOnly = true ∨ Composes r settings (.fields fields d.file)))

/-- A type is the one that the settings put in its place, or what is read otherwise. -/
theorem settles_override {fuel : Nat} {key : String} {file : FileId} {F' : Prop}
    (hover : Settles r settings (overrideWith fuel key file) g P
      (OverrideFails r settings key file) (OverrideOutcome r settings key))
    (hF : F ↔ OverrideFails r settings key file ∨ settings.overrides.get? key = none ∧ F')
    (hadd : Enlarges x) (hx : ∀ g', Onward r settings g g' →
      settings.overrides.get? key = none → Settles r settings x g' P F' (Vouches r settings)) :
    Settles r settings
      (do match ← overrideWith fuel key file with
        | some s => return s
        | none => x) g P F (Vouches r settings) := by
  refine settles_bind hover (fun h => hF.2 (.inl h)) ?_ fun o g' _ hon hnot hkey => ?_
  · rintro (_ | s)
    · exact hadd
    · exact enlarges_pure s
  · cases o with
    | some s =>
      refine settles_pure (fun h => ?_) hkey.2
      rcases hF.1 h with h | ⟨hnone, -⟩
      · exact hnot h
      · exact hkey.1 hnone
    | none =>
      refine (hx g' hon hkey).fails ⟨fun h => hF.2 (.inr ⟨hkey, h⟩), fun h => ?_⟩
      rcases hF.1 h with h | ⟨-, h⟩
      · exact absurd hkey h.get?_ne_none
      · exact h

section Step

variable {fuel : Nat} (ih : SettlesWith r settings fuel)

include ih

theorem settles_symbolWith (id : TypeId) (g : Resolver) :
    SettlesAt r settings (symbolWith (fuel + 1) id) g (.symbol id) (Vouches r settings) := by
  refine settles_intro fun hg _ => ?_
  rw [symbolWith]
  refine settles_get_bind ?_
  split
  · exact settles_fatal
  · next d hd =>
    have hd' := hg.registry.grows hd
    refine settles_override (ih.override _ d.file g _ fun t ht i v h => .replacedSymbol hd' ht h)
      (fails_symbol_iff hd') ?_ fun g' hon hkept => ?_
    · split
      · split
        · exact enlarges_builtinSchema _
        · exact (enlargesWith fuel).definition id d
      · exact (enlargesWith fuel).definition id d
    · have hdefinition := (ih.definition id d g' (hon.ext.registry.grows hd) hkept).imp
        (fun _ _ h => h) (fails_symbol_iff_of_kept hd' hkept) fun _ _ h => h.1
      split
      · next name htype =>
        split
        · next hbuiltin =>
          refine (settles_builtinSchema name).fails ?_
          rw [htype, fails_builtin_iff (Bool.and_eq_true_iff.1 hbuiltin).1]
        · exact hdefinition
      · exact hdefinition

variable (ho : Orderly r settings)

include ho

/-- A name that the settings do not replace stands for a declared type. -/
theorem settles_symbolOf {t : TypeExpr} (file : FileId) (g : Resolver)
    (hkept : settings.overrides.get? t.text = none) (htime : isTime r t file = false) :
    Settles r settings (declaredType t file >>= symbolOf fuel t) g (Enters r settings (.type t file))
      (isTime r t file = false ∧ ∃ id, r.Finds file t id ∧ Fails r settings (.symbol id))
      (Vouches r settings) := by
  refine settles_bind (settles_declaredType t file) False.elim
    (enlarges_symbolOf fuel t) fun o g' _ _ _ hfound => ?_
  cases o with
  | none => exact settles_fatal
  | some id =>
    have hid := hfound id rfl
    refine (ih.symbol id g').imp (fun _ _ h => .declared hkept hid h)
      ⟨fun h => ⟨htime, id, hid, h⟩, ?_⟩ fun _ _ h => h
    rintro ⟨-, id', hid', h⟩
    cases ho.certain hid hid'
    exact h

theorem settles_resolveWith (t : TypeExpr) (file : FileId) (g : Resolver) :
    SettlesAt r settings (resolveWith (fuel + 1) t file) g (.type t file) fun g' s =>
      g'.Vouches r settings s ∧
        ∀ fs, t = .struct fs → ¬Composes r settings (.fields fs file) → s.IsObject := by
  cases t <;> rw [resolveWith]
  case ident name =>
    split
    · next hname =>
      exact (settles_builtinSchema name).imp (fun _ _ h => h) (fails_builtin_iff hname).symm
        fun _ _ h => ⟨h, by rintro _ ⟨⟩⟩
    · next hname =>
      exact (ih.named _ file g (by simpa [TypeExpr.isNamed] using hname)).value
        fun _ _ h => ⟨h, by rintro _ ⟨⟩⟩
  case qualified package name =>
    exact (ih.named _ file g rfl).value fun _ _ h => ⟨h, by rintro _ ⟨⟩⟩
  case generic base args =>
    refine (settles_override (ih.override _ file g _ fun t ht id v h => .replaced ht h)
      (fails_named_iff rfl) ?_ fun g' _ hkept => settles_symbolOf ih ho file g' hkept rfl).value
      fun _ _ h => ⟨h, by rintro _ ⟨⟩⟩
    exact enlarges_bind (enlarges_declaredType _ file) (enlarges_symbolOf fuel _)
  case pointer elem =>
    exact (ih.resolve elem file g).imp (fun _ _ h => .pointer h) (fails_part_iff rfl).symm
      fun _ _ h => ⟨h.1, by rintro _ ⟨⟩⟩
  case slice elem =>
    refine settles_map ((ih.resolve elem file g).imp (fun _ _ h => .slice h)
      (fails_part_iff rfl).symm fun _ _ h => h) fun _ _ h => ⟨Schema.allRefs_array h.1, by rintro _ ⟨⟩⟩
  case array elem =>
    refine settles_map ((ih.resolve elem file g).imp (fun _ _ h => .array h)
      (fails_part_iff rfl).symm fun _ _ h => h) fun _ _ h => ⟨Schema.allRefs_array h.1, by rintro _ ⟨⟩⟩
  case map key value =>
    refine settles_map ((ih.resolve value file g).imp (fun _ _ h => .map h)
      (fails_part_iff rfl).symm fun _ _ h => h) fun _ _ h => ⟨Schema.allRefs_map h.1, by rintro _ ⟨⟩⟩
  case interface methods embeds =>
    exact settles_pure not_fails_interface ⟨Schema.allRefs_any, by rintro _ ⟨⟩⟩
  case struct fields =>
    refine settles_map ((ih.struct fields file g).imp (fun _ _ h => .struct h)
      (fails_part_iff rfl).symm fun _ _ h => h) fun g' p h => ⟨h.1.toSchema, fun fs hfs hplain => ?_⟩
    cases hfs
    exact StructParts.isObject_toSchema (by_contra fun hne => hplain (h.2 hne))
  case resolved id =>
    exact (ih.symbol id g).imp (fun _ _ h => .resolved h) (fails_part_iff rfl).symm
      fun _ _ h => ⟨h, by rintro _ ⟨⟩⟩
  case func | chan | tilde | union => exact settles_throw (.unsupported rfl)

theorem settles_namedWith (t : TypeExpr) (file : FileId) (g : Resolver) (ht : t.isNamed = true) :
    SettlesAt r settings (namedWith (fuel + 1) t file) g (.type t file) (Vouches r settings) := by
  rw [namedWith]
  refine settles_override (ih.override _ file g _ fun t ht id v h => .replaced ht h)
    (fails_named_iff ht) ?_ fun g' hon hkept => ?_
  · refine enlarges_get_bind fun g' => ?_
    split
    · exact enlarges_pure _
    · exact enlarges_bind (enlarges_declaredType _ file) (enlarges_symbolOf fuel _)
  · refine settles_get_bind ?_
    rw [← isTime_eq hon.steady.registry]
    split
    · next htime =>
      refine settles_pure (fun h => ?_) (Schema.allRefs_of_leaf rfl rfl rfl rfl rfl)
      cases htime.symm.trans h.1
    · next htime => exact settles_symbolOf ih ho file g' hkept (by simpa using htime)

theorem settles_definitionWith (id : TypeId) (d : TypeDecl) (g : Resolver)
    (hd : g.registry.types[id]? = some d) (hkept : settings.overrides.get? d.fullPath = none) :
    SettlesAt r settings (definitionWith (fuel + 1) id d) g (.symbol id) fun g' s =>
      g'.Vouches r settings s ∧
        (d.isAlias = false → s = Schema.ref d.typeName ∧ g'.Has r settings id) := by
  refine settles_intro fun hg hlinked => ?_
  have hd' := hg.registry.grows hd
  rw [definitionWith]
  split
  · next halias =>
    refine (ih.resolve _ _ g).imp (fun _ _ h => .aliased hd' hkept halias h)
      (fails_symbol_iff_of_kept hd' hkept).symm fun _ _ h => ⟨h.1, fun hown => ?_⟩
    cases halias.symm.trans hown
  · next halias =>
    have hown : d.isAlias = false := by simpa using halias
    refine settles_get_bind ?_
    split
    · next n hn =>
      obtain rfl := hg.name_of_lookup hn hd'
      have hhas : g.Has r settings id := .inl ⟨_, hn⟩
      exact settles_pure (hg.sane hn) ⟨hhas.vouches_ref hd', fun _ => ⟨rfl, hhas⟩⟩
    · next hfresh =>
      split
      · next hin =>
        -- the type is met again while it is being built, so it is on a circle
        have hmem : id ∈ g.building := by simpa using hin
        have hc := hlinked.circular (.symbol hd' hkept hown) hmem
        have hhas : g.Has r settings id := .inr ⟨hmem, hc⟩
        exact settles_pure (ho.not_fails hc) ⟨hhas.vouches_ref hd', fun _ => ⟨rfl, hhas⟩⟩
      · next hout =>
        have hmem : id ∉ g.building := by simpa using hout
        refine (settles_buildDefinition ho hd hfresh hmem (.symbol hd' hkept hown) fun g₁ =>
          (ih.resolve _ _ g₁).imp (fun _ _ h => ⟨d, hd', h⟩)
            (fails_symbol_iff_of_kept hd' hkept).symm fun _ _ h => ⟨h.1, fun hc => ?_⟩).value
          fun g₁ s h => ?_
        · obtain ⟨d₁, fs, hd₁, htype, hplain⟩ := ho.struct hc
          cases hd'.symm.trans hd₁
          exact h.2 fs htype hplain
        · exact ⟨h.1 ▸ h.2.vouches_ref hd', fun _ => h⟩

theorem settles_embeddedWith (parts : StructParts) (f : Go.Field) (file : FileId) (g : Resolver)
    (hnames : f.names = []) (hparts : g.VouchesParts r settings parts) :
    SettlesAt r settings (embeddedWith (fuel + 1) parts f file) g (.field f file)
      (Composing r settings parts (Composes r settings (.field f file))) := by
  refine settles_intro fun hg _ => ?_
  rw [embeddedWith]
  split
  · next hidden =>
    refine settles_pure (not_fails_field fun id hf => ?_) ⟨hparts, .inl⟩
    cases hidden.symm.trans hf.shown
  · next hidden =>
    have hshown : Field.isHidden f = false := by simpa using hidden
    refine settles_get_bind ?_
    rw [hg.configured]
    split
    · next hname =>
      refine (ih.namedField parts f file g _ hparts fun hf hc _ _ h =>
        .typed ⟨hf, hc, .inl hnames⟩ h).imp (fun _ _ h => h) ?_
        fun _ _ h => h.composing _
      refine ⟨False.elim, fun h => (not_fails_field (fun id hf => ?_) h).elim⟩
      rw [hf.untagged] at hname
      cases hname
    · next hname =>
      have huntagged : Field.propertyName? settings.naming f = none := by simpa using hname
      refine settles_bind (settles_declaredType _ file) False.elim
        (enlarges_embeddedOf fuel parts f file)
        fun o g' _ hon _ hfound => ?_
      cases o with
      | none => exact settles_fatal
      | some id =>
        refine settles_get_bind ?_
        split
        · exact settles_fatal
        · next d hd =>
          have hd' := hon.steady.registry.grows hd
          have hparts' := hon.vouchesParts hparts
          split
          · next fields htype =>
            have hembeds : Field.Embeds r settings f file id :=
              ⟨hnames, hshown, huntagged, hfound id rfl, d, fields, hd', htype⟩
            refine (ih.embeddedStruct parts id d fields _ g' _ hparts' hd' htype
              (.embedded hembeds) fun hro _ _ h => .kept hembeds hro h).imp
              (fun _ _ h => h) (fails_field_iff ho hembeds hd' htype).symm
              fun _ _ h => ⟨h.1, fun hne => (h.2 hne).imp_right ?_⟩
            rintro (hro | h)
            · exact .kept hembeds hro
            · exact .inside hembeds hd' htype h
          · next hother =>
            refine (ih.namedField parts _ file g' _ hparts' fun hf hc _ _ h =>
              .typed ⟨hf, hc, .inl hnames⟩ h).imp (fun _ _ h => h) ?_
              fun _ _ h => h.composing _
            refine ⟨False.elim, fun h => (not_fails_field (fun id' hf => ?_) h).elim⟩
            obtain ⟨d₁, fs, hd₁, htype⟩ := hf.struct
            cases ho.certain (hfound id rfl) hf.found
            cases hd'.symm.trans hd₁
            exact hother fs htype

theorem settles_embedFields {fields : List Go.Field} (readOnly : Bool)
    (hparts : g.VouchesParts r settings parts) (hd : r.types[id]? = some d) (htype : d.type = .struct fields) (hid : P id .embedding) :
    Settles r settings (embedFields parts id readOnly (structWith fuel fields d.file)) g P
      (Fails r settings (.fields fields d.file))
      (Composing r settings parts (Composes r settings (.fields fields d.file))) := by
  refine settles_get_bind ?_
  split
  · exact settles_fatal
  · next hout =>
    have hmem : id ∉ g.building := by simpa using hout
    refine settles_bind (settles_passThrough ho hmem hid fun g' =>
      (ih.struct fields d.file g').imp (fun _ _ h => ⟨d, hd, htype ▸ .struct h⟩) Iff.rfl
        fun _ _ h => h) (fun h => h) enlarges_pure
      fun inner g' _ hon hnot hinner => ?_
    have hparts' := hon.vouchesParts hparts
    refine settles_pure hnot ?_
    split
    · exact ⟨hparts'.embedReadOnly hinner.1, .inl⟩
    refine ⟨hparts'.embed hinner.1, fun hne => ?_⟩
    by_cases hempty : parts.composed = []
    · refine .inr (hinner.2 fun hnil => hne ?_)
      change parts.composed ++ inner.composed = []
      rw [hempty, hnil]
      rfl
    · exact .inl hempty

theorem SettlesWith.next : SettlesWith r settings (fuel + 1) where
  resolve := settles_resolveWith ih ho
  named := settles_namedWith ih ho
  symbol := settles_symbolWith ih
  definition := settles_definitionWith ih ho
  embedded := settles_embeddedWith ih ho
  text text file g P F h := by
    rw [textWith]
    split
    · next t ht =>
      obtain ⟨hP, hF⟩ := h t ht
      exact (ih.resolve t file g).imp hP hF fun _ _ h => h.1
    · exact settles_fatal
  override key file g P hP := by
    refine settles_intro fun hg _ => ?_
    rw [overrideWith]
    refine settles_get_bind ?_
    rw [hg.configured]
    split
    · next hnone => exact settles_pure (fun h => h.get?_ne_none hnone) hnone
    · next text htext =>
      split
      · next hempty => exact settles_throw (.inl ⟨text, htext, hempty⟩)
      · next hempty =>
        refine settles_map (ih.text text file g P _ fun t ht => ?_) fun g' s hs => ?_
        · have hr : settings.replacement? key = some t := by
            simp [Settings.replacement?, htext, ht, Except.toOption]
          refine ⟨hP t hr, fun h => .inr ⟨t, hr, h⟩, ?_⟩
          rintro (⟨text', htext', hempty'⟩ | ⟨t', hr', h⟩)
          · cases htext.symm.trans htext'
            exact absurd hempty' hempty
          · cases hr.symm.trans hr'
            exact h
        · exact ⟨by simp [htext], hs⟩
  struct fields file g := by
    rw [structWith]
    refine settles_map (φ := fun g' p => g'.VouchesParts r settings p ∧
      (p.composed ≠ [] → Composes r settings (.fields fields file))) ?_ fun _ _ h => h
    refine (settles_foldlM fields (fun p f => (enlargesWith fuel).field p f file)
      (fun f hf p g' hp => (ih.field p f file g' hp.1).imp (fun _ _ h => .field hf h) Iff.rfl
        fun _ _ h => ⟨h.1, fun hne => ?_⟩) ⟨StructParts.allRefs_empty, fun h => absurd rfl h⟩).imp
      (fun _ _ h => h) fails_fields_iff.symm fun _ _ h => h
    exact (h.2 hne).elim hp.2 (.field hf)
  field parts f file g hparts := by
    rw [fieldWith]
    split
    · next hnames => exact ih.embedded parts f file g (by simpa using hnames) hparts
    · next hnames =>
      refine (settles_foldlM (G := fun _ => False) (φ := Extending r settings parts) _
        (fun p name => (enlargesWith fuel).namedField p _ file) (fun name hname p g' hp => ?_)
        ⟨hparts, rfl⟩).imp (fun _ _ h => h) ?_ fun _ _ h => h.composing _
      · obtain ⟨hmem, hexported⟩ := List.mem_filter.1 hname
        refine (ih.namedField p _ file g' _ hp.1 fun hf hc _ _ h =>
          .typed ⟨hf, hc, .inr ⟨name, hmem, hexported⟩⟩ h).value ?_
        exact fun _ _ h => ⟨h.1, h.2.trans hp.2⟩
      · refine ⟨by rintro ⟨_, _, h⟩; exact h.elim, fun h =>
          (not_fails_field (fun id hf => ?_) h).elim⟩
        rw [hf.unnamed] at hnames
        exact hnames rfl
  namedField parts f file g P hparts hP := by
    rw [namedFieldWith_succ]
    exact settles_fieldPart hparts f ((keepsWith fuel).resolve f.type file g) fun hf hc =>
      (ih.resolve f.type file g).imp (hP hf hc) Iff.rfl fun _ _ h => h.1
  embeddedStruct parts id d fields readOnly g P hparts hd htype hid hkept := by
    rw [embeddedStructWith]
    by_cases hro : readOnly = true
    · rw [if_pos hro]
      refine settles_bind ((ih.symbol id g).entry (hkept hro))
        (fun h => .inl ⟨hro, h⟩) (fun s => enlarges_bind (enlarges_pure _) fun parts =>
          enlarges_embedFields fuel parts id d fields readOnly)
        fun s g' _ hon hnot hs => ?_
      refine (settles_embedFields ih ho readOnly ((hon.vouchesParts hparts).compose hs) hd htype
        hid).imp (fun _ _ h => h) ?_ fun _ _ h => ⟨h.1, fun _ => .inr (.inl hro)⟩
      exact ⟨.inr, fun h => h.resolve_left fun h => hnot h.2⟩
    · rw [if_neg hro]
      refine (settles_embedFields ih ho readOnly hparts hd htype hid).imp (fun _ _ h => h) ?_
        fun _ _ h => ⟨h.1, fun hne => (h.2 hne).imp_right .inr⟩
      exact ⟨.inr, fun h => h.resolve_left fun h => hro h.1⟩

end Step

/-- **Every function that resolves types settles**, whatever the number of steps. -/
theorem settlesWith (ho : Orderly r settings) (fuel : Nat) : SettlesWith r settings fuel := by
  induction fuel with
  | zero =>
    constructor <;> intros <;>
      simp only [resolveWith, textWith, overrideWith, namedWith, symbolWith, definitionWith,
        structWith, fieldWith, namedFieldWith, embeddedWith, embeddedStructWith] <;>
      exact settles_fatal
  | succ fuel ih => exact ih.next ho

end Resolver

end GoApiDoc
