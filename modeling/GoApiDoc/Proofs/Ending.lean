/-
Resolving a type ends.

The functions that resolve types go from types to declarations and back, and only two things stop
them: a type that is being built is not entered again, and a type with a definition is referred to.
So between two types that are entered the parts of one declaration are gone through, and the types
that can still be entered become fewer.  This bounds the number of steps.

What remains are the type paths of properties, which go through the definitions made so far.  They
end unless these are a circle, and as definitions are anchored in the declarations, that takes a
shared name.

* `Resolver.endsWith` — **every function that resolves types ends**;
* `Resolver.resolve_ends` — **resolving ends after any requests, unless a name is shared**.
-/

import Mathlib.Algebra.Order.BigOperators.Group.List
import Mathlib.Tactic.Linarith
import GoApiDoc.Proofs.Anchoring
import GoApiDoc.Proofs.Struct

set_option autoImplicit false

namespace GoApiDoc

open Go (TypeId TypeExpr)
open Relation (ReflTransGen TransGen)

variable {f : Go.Field} {fields : List Go.Field} {n fuel : Nat} {e : DocError} {other : TypeId}
  {s : Schema} {parts : StructParts}

/-! ### Steps -/

namespace Go.TypeExpr

theorem weight_pos (t : TypeExpr) : 0 < t.weight := by
  cases t <;> simp [weight]

theorem weight_lt_fieldWeights (h : f ∈ fields) : f.type.weight < fieldWeights fields := by
  induction fields with
  | nil => cases h
  | cons f' fields ih =>
    rw [fieldWeights]
    rcases List.mem_cons.1 h with rfl | h
    · omega
    · have hlt := ih h
      omega

end Go.TypeExpr

namespace Registry

variable {r : Registry} {building : List TypeId} {id : TypeId} {d : TypeDecl}

/-- The size of all declarations. -/
def declaredWeight (r : Registry) : Nat :=
  (r.types.toList.map fun d => d.type.weight).foldl (· + ·) 0

/-- The number of types that can still be entered. -/
def room (r : Registry) (building : List TypeId) : Nat :=
  ((Finset.range r.types.size).filter (· ∉ building)).card

/-- The steps for all types that can still be entered, and some more. -/
def need (r : Registry) (building : List TypeId) (more : Nat) : Nat :=
  r.room building * (5 * r.declaredWeight + 10) + more

theorem weight_le_declaredWeight (hd : r.types[id]? = some d) :
    d.type.weight ≤ r.declaredWeight := by
  rw [declaredWeight, ← List.sum_eq_foldl_nat]
  refine List.le_sum_of_mem (List.mem_map_of_mem ?_)
  exact Array.mem_toList_iff.2 (Array.mem_of_getElem? hd)

theorem room_enter (hd : r.types[id]? = some d) (hout : id ∉ building) :
    r.room (building ++ [id]) < r.room building := by
  refine Finset.card_lt_card (Finset.ssubset_iff_subset_ne.2 ⟨fun other h => ?_, fun heq => ?_⟩)
  · obtain ⟨hlt, hother⟩ := Finset.mem_filter.1 h
    exact Finset.mem_filter.2 ⟨hlt, fun hb => hother (List.mem_append_left _ hb)⟩
  have hlt : id < r.types.size := (Array.getElem?_eq_some_iff.1 hd).1
  have hmem : id ∈ (Finset.range r.types.size).filter (· ∉ building) :=
    Finset.mem_filter.2 ⟨Finset.mem_range.2 hlt, hout⟩
  rw [← heq] at hmem
  exact (Finset.mem_filter.1 hmem).2 (List.mem_append_right _ (.head _))

/-- **Entering a type** makes the steps for its declaration available. -/
theorem need_enter (hd : r.types[id]? = some d) (hout : id ∉ building) :
    r.need (building ++ [id]) (5 * d.type.weight + 10) ≤ r.need building 0 := by
  have hweight := weight_le_declaredWeight hd
  have hmul : (r.room (building ++ [id]) + 1) * (5 * r.declaredWeight + 10) ≤
      r.room building * (5 * r.declaredWeight + 10) :=
    Nat.mul_le_mul_right _ (room_enter hd hout)
  rw [Nat.succ_mul] at hmul
  simp only [need]
  omega

theorem need_of_succ {m : Nat} (hmn : m < n) (h : r.need building n ≤ fuel + 1) :
    r.need building m ≤ fuel := by
  simp only [need] at h ⊢
  omega

theorem le_of_need (h : r.need building n ≤ fuel) : n ≤ fuel := by
  simp only [need] at h
  omega

theorem room_le_size (r : Registry) (building : List TypeId) : r.room building ≤ r.types.size := by
  rw [room]
  exact (Finset.card_filter_le _ _).trans_eq (Finset.card_range _)

end Registry

theorem Resolver.need_le_fuelFor (g : Resolver) (building : List TypeId) (size : Nat) :
    g.registry.need building (5 * size + 10) ≤ g.fuelFor size := by
  have hroom := g.registry.room_le_size building
  obtain ⟨replaced, hfuel⟩ : ∃ replaced, g.fuelFor size = 16 * (g.registry.types.size + 2) *
      (g.registry.declaredWeight + replaced + size + 8) := ⟨_, rfl⟩
  rw [hfuel, Registry.need]
  generalize g.registry.declaredWeight = w
  generalize g.registry.types.size = n at hroom ⊢
  have hmul : g.registry.room building * (5 * w + 10) ≤ n * (5 * w + 10) :=
    Nat.mul_le_mul_right _ hroom
  nlinarith [Nat.zero_le (n * w), Nat.zero_le (n * replaced), Nat.zero_le (n * size)]

/-! ### The judgement -/

namespace Resolving

variable {α β γ : Type} {r : Registry} {settings : Settings} {enough more : Prop} {g : Resolver}
  {x : Resolving α} {φ φ' : Resolver → α → Prop} {ψ : Resolver → β → Prop}

/-- From an anchored state the computation leaves an anchored one that extends it, also when it
fails, and its value satisfies the condition.  With enough steps it ends, unless definitions are a
circle. -/
def Ends (r : Registry) (settings : Settings) (enough : Prop) (x : Resolving α) (g : Resolver)
    (φ : Resolver → α → Prop) : Prop :=
  g.Anchored r settings → g.Extends (x.runOn g).2 ∧ (x.runOn g).2.Anchored r settings ∧
    (∀ a, (x.runOn g).1 = .ok a → φ (x.runOn g).2 a) ∧
    (enough → Finished (x.runOn g) ∨ (x.runOn g).2.Loops)

/-- Whether an error is the want of steps is told by the error. -/
theorem Finished.error {g' : Resolver}
    (h : Finished ((.error e, g) : Except DocError α × Resolver)) :
    Finished ((.error e, g') : Except DocError β × Resolver) := by
  intro hend
  exact h (congrArg Except.error (Except.error.inj hend))

theorem ends_of_anchored (h : g.Anchored r settings → Ends r settings enough x g φ) :
    Ends r settings enough x g φ := fun hg => h hg hg

theorem ends_pure {a : α} (h : φ g a) : Ends r settings enough (pure a) g φ := by
  intro hg
  exact ⟨.refl g, hg, fun b hb => Except.ok.inj hb ▸ h, fun _ => .inl (finished_of_ok rfl)⟩

theorem ends_throw (he : e ≠ .endless := by rintro ⟨⟩) :
    Ends r settings enough (throw e : Resolving α) g φ := by
  intro hg
  refine ⟨.refl g, hg, fun b hb => ?_, fun _ => .inl fun h => he ?_⟩
  · cases hb
  · exact Except.error.inj h

/-- Without steps there are not enough of them. -/
theorem ends_endless (h : ¬enough) : Ends r settings enough (throw .endless : Resolving α) g φ := by
  intro hg
  refine ⟨.refl g, hg, fun b hb => ?_, fun he => absurd he h⟩
  cases hb

theorem Ends.imp (h : Ends r settings enough x g φ) (henough : more → enough)
    (hφ : ∀ g' a, g.Extends g' → φ g' a → φ' g' a) : Ends r settings more x g φ' := by
  intro hg
  obtain ⟨hext, hanchored, hval, hend⟩ := h hg
  exact ⟨hext, hanchored, fun a ha => hφ _ a hext (hval a ha), fun hm => hend (henough hm)⟩

theorem Ends.mono (h : Ends r settings enough x g φ) (henough : more → enough) :
    Ends r settings more x g φ := h.imp henough fun _ _ _ hφ => hφ

theorem ends_bind {f : α → Resolving β} (hx : Ends r settings enough x g φ)
    (hf : ∀ a g', g.Extends g' → φ g' a → Ends r settings enough (f a) g' ψ) :
    Ends r settings enough (x >>= f) g ψ := by
  intro hg
  obtain ⟨hext, hanchored, hval, hend⟩ := hx hg
  rcases hrun : runOn x g with ⟨e | a, g'⟩
  all_goals rw [hrun] at hext hanchored hval hend
  · rw [runOn_bind_error f hrun]
    exact ⟨hext, hanchored, fun b hb => (by cases hb), fun he =>
      (hend he).imp_left Finished.error⟩
  · rw [runOn_bind_ok f hrun]
    obtain ⟨hext', hanchored', hval', hend'⟩ := hf a g' hext (hval a rfl) hanchored
    exact ⟨hext.trans hext', hanchored', hval', hend'⟩

theorem ends_get_bind {f : Resolver → Resolving β} (hf : Ends r settings enough (f g) g ψ) :
    Ends r settings enough (get >>= f) g ψ := hf

theorem ends_outcome (hx : Ends r settings enough x g φ) :
    Ends r settings enough (outcome x) g fun g' o =>
      (∀ a, o = .ok a → φ g' a) ∧ (enough → o ≠ .error .endless ∨ g'.Loops) := by
  intro hg
  obtain ⟨hext, hanchored, hval, hend⟩ := hx hg
  refine ⟨hext, hanchored, fun o ho => ?_, fun _ => .inl (finished_of_ok rfl)⟩
  obtain rfl := Except.ok.inj ho
  exact ⟨hval, hend⟩

theorem ends_foldlM {f : α → γ → Resolving α} {κ : γ → Prop} (l : List γ)
    (hf : ∀ a, ∀ c ∈ l, ∀ g', g.Extends g' → φ g' a →
      Ends r settings enough (f a c) g' fun g'' b => φ g'' b ∧ κ c) {a : α} (ha : φ g a) :
    Ends r settings enough (l.foldlM f a) g fun g' b => φ g' b ∧ ∀ c ∈ l, κ c := by
  induction l generalizing g a with
  | nil => exact ends_pure ⟨ha, fun c hc => by cases hc⟩
  | cons c l ih =>
    rw [List.foldlM_cons]
    refine ends_bind (hf a c (.head _) g (.refl g) ha) ?_
    rintro b g' hext ⟨hb, hc⟩
    refine (ih (fun a c' hc' g'' hext' => hf a c' (.tail _ hc') g''
      (hext.trans hext')) hb).imp (fun h => h) ?_
    rintro g'' b' - ⟨hb', hl⟩
    exact ⟨hb', List.forall_mem_cons.2 ⟨hc, hl⟩⟩

end Resolving

/-! ### What is known of schemas -/

/-- What is known of the schema of a type that was resolved while some types were being built. -/
structure Schema.LeadsFrom (r : Registry) (naming : Naming) (t : TypeExpr) (file : FileId)
    (building : List TypeId) (g : Resolver) (s : Schema) : Prop where
  straight : s.Straight
  head : ∀ n, s.head? = some n → ∃ other, r.Heads naming t file other ∧ g.Tracks other n
  apart : ∀ fields, t = .struct fields → ∀ other, r.Reaches naming fields file other →
    other ∉ building

/-- What is known of the schema of a declared type. -/
structure Schema.LeadsTo (r : Registry) (id : TypeId) (g : Resolver) (s : Schema) : Prop where
  straight : s.Straight
  head : ∀ n, s.head? = some n → g.Tracks id n
  refers : r.IsStruct id → s.refName?.isSome

/-- The parts that are kept by reference are of certain structs. -/
def StructParts.Keep (kept : TypeId → Prop) (g : Resolver) (p : StructParts) : Prop :=
  ∀ c ∈ p.composed, ∃ n other, c.refName? = some n ∧ kept other ∧ g.Tracks other n

section Known

variable {r : Registry} {naming : Naming} {t : TypeExpr} {file : FileId} {building : List TypeId}
  {g g' : Resolver} {s : Schema} {id : TypeId} {n : String} {kept kept' : TypeId → Prop}
  {p : StructParts}

theorem Schema.refName?_ref (n : String) : (Schema.ref n).refName? = some n :=
  Schema.refName?_of_reference rfl

theorem Schema.leadsTo_ref (h : g.Tracks id n) : (Schema.ref n).LeadsTo r id g := by
  refine ⟨Schema.straight_of_refName? ?_, fun n' hn' => ?_, fun _ => ?_⟩
  · rw [Schema.refName?_ref]
    rfl
  · rw [Schema.head?_of_refName? (Schema.refName?_ref n)] at hn'
    exact Option.some.inj hn' ▸ h
  · rw [Schema.refName?_ref]
    rfl

/-- A name leads where the type that it stands for leads. -/
theorem Schema.LeadsTo.leadsFrom (h : s.LeadsTo r id g) (ht : t.target = t)
    (hid : r.declared? file t = some id) : s.LeadsFrom r naming t file building g := by
  refine ⟨h.straight, fun n hn => ⟨id, .name (by rw [ht]; exact hid), h.head n hn⟩, ?_⟩
  rintro fields rfl
  cases hid

theorem Registry.Heads.pointer (h : r.Heads naming t file other) :
    r.Heads naming (.pointer t) file other := by
  cases h with
  | name hname => exact .name hname
  | embedded ht hreach => exact .embedded ht hreach

/-- A schema that leads to no definition. -/
theorem Schema.leadsFrom_of_none (hs : s.Straight) (hhead : s.head? = none)
    (ht : ∀ fields, t ≠ .struct fields) : s.LeadsFrom r naming t file building g := by
  refine ⟨hs, fun n hn => ?_, fun fields h => absurd h (ht fields)⟩
  cases hhead.symm.trans hn

theorem StructParts.Keep.imp (h : p.Keep kept g) (hext : g.Extends g')
    (hkept : ∀ other, kept other → kept' other) : p.Keep kept' g' := by
  intro c hc
  obtain ⟨n, other, hn, hother, htracks⟩ := h c hc
  exact ⟨n, other, hn, hkept other hother, hext.tracks htracks⟩

theorem StructParts.Keep.leadsFrom (h : p.Keep (r.Reaches naming fields file) g)
    (hapart : ∀ other, r.Reaches naming fields file other → other ∉ building) :
    p.toSchema.LeadsFrom r naming (.struct fields) file building g := by
  have hsame : ∀ fields', TypeExpr.struct fields = .struct fields' →
      ∀ other, r.Reaches naming fields' file other → other ∉ building := by
    rintro fields' ⟨rfl⟩
    exact hapart
  unfold StructParts.toSchema
  cases hc : p.composed with
  | nil => exact ⟨Schema.straight_of_leaf rfl rfl rfl, fun n hn => (by cases hn), hsame⟩
  | cons c composed =>
    obtain ⟨n, other, hn, hother, htracks⟩ := h c (by rw [hc]; exact .head _)
    have hall : ∀ parts : List Schema, parts.head? = some c →
        (Schema.combined parts).LeadsFrom r naming (.struct fields) file building g := by
      intro parts hparts
      refine ⟨.mk (fun _ _ c' hc' => ?_) fun _ i hi => (by cases hi), fun n' hn' => ?_, hsame⟩
      · cases hparts.symm.trans hc'
        rw [hn]
        rfl
      · have hhead : (Schema.combined parts).head? = parts.head?.bind Schema.refName? := rfl
        rw [hhead, hparts, Option.bind_some, hn] at hn'
        exact ⟨other, .embedded rfl hother, Option.some.inj hn' ▸ htracks⟩
    dsimp only
    split
    · exact hall _ rfl
    · exact hall _ rfl

end Known

/-! ### Entering types -/

namespace Resolver

open Resolving

variable {r : Registry} {settings : Settings} {enough : Prop} {g : Resolver} {id : TypeId}

/-- **Building a definition.**  The type that is built is on the way, so its right-hand side does
not embed it. -/
theorem ends_buildDefinition {d : TypeDecl} {body : Resolving Schema}
    (hd : r.types[id]? = some d) (hfresh : g.parsed.lookup id = none) (hout : id ∉ g.building)
    (hkeeps : Keeps (buildDefinition id d body) g Backs)
    (hbody : Ends r settings enough body ((g.claim id d.typeName).enter id)
      (Schema.LeadsFrom r settings.naming d.type d.file (g.building ++ [id]))) :
    Ends r settings enough (buildDefinition id d body) g (Schema.LeadsTo r id) := by
  intro hg
  have hid : g.HasName id d.typeName := ⟨d, by rw [hg.registry_eq]; exact hd, rfl⟩
  obtain ⟨hext, hsound, -⟩ := hkeeps hg.sound
  rcases runOn_buildDefinition hg.sound hfresh hout body with ⟨e, hrun⟩ | ⟨hn, hrun⟩
  · rw [hrun]
    exact ⟨.refl g, hg, fun s hs => (by cases hs), fun _ => .inl fun h => (by cases h)⟩
  obtain ⟨hext₁, hg₁, hval, hend⟩ := hbody (hg.claim_enter hid hn)
  rw [hrun] at hext hsound ⊢
  rcases hends : body.runOn ((g.claim id d.typeName).enter id) with ⟨e | s, g₁⟩
  all_goals rw [hends] at hext hsound hext₁ hg₁ hval hend
  · exact ⟨hext, hg₁.release hfresh hext₁ hsound, fun s hs => (by cases hs), fun he =>
      (hend he).imp_left Finished.error⟩
  · have halike := Schema.alike_ofDecl d s
    have hs := hval s rfl
    have hapart : ¬TransGen (r.Embeds settings.naming) id id := by
      intro hcircle
      obtain ⟨_, ⟨d', fields, _, hd', ht, -, -⟩, -⟩ := TransGen.head'_iff.1 hcircle
      cases hd.symm.trans hd'
      exact hs.apart fields ht id (Registry.reaches_of_transGen_embeds hd ht hcircle)
        (List.mem_append_right _ (.head _))
    refine ⟨hext, hg₁.define hid hfresh hext₁ hsound (halike.straight hs.straight) ?_
      hapart, fun s' hs' => ?_, fun _ => .inl (finished_of_ok rfl)⟩
    · intro n hn'
      obtain ⟨other, hheads, htracks⟩ := hs.head n (halike.head?_eq ▸ hn')
      exact ⟨other, ⟨d, hd, hheads⟩, htracks⟩
    · obtain rfl := Except.ok.inj hs'
      exact Schema.leadsTo_ref ⟨hext.hasName hid, .inl (lookup_store_self _)⟩

/-- **Going through a struct.** -/
theorem ends_passThrough {fields : Resolving StructParts} {φ ψ : Resolver → StructParts → Prop}
    (hkeeps : Keeps (passThrough id fields) g BacksParts)
    (hfields : Ends r settings enough fields ((g.noteOpen id).enter id) φ)
    (hψ : ∀ g' p, ((g.noteOpen id).enter id).Extends g' → id ∈ g'.leftOpen → φ g' p →
      ψ g'.leave p) : Ends r settings enough (passThrough id fields) g ψ := by
  intro hg
  obtain ⟨hext, hsound, -⟩ := hkeeps hg.sound
  obtain ⟨hext₁, hg₁, hval, hend⟩ := hfields (hg.enter_open id)
  have hopen := hext₁.leftOpen (.head _)
  have hrun : (passThrough id fields).runOn g =
      ((fields.runOn ((g.noteOpen id).enter id)).1,
        (fields.runOn ((g.noteOpen id).enter id)).2.leave) := by
    rw [passThrough, runOn_bind_ok _ (runOn_leaveOpen id g), runOn_whileBuilding]
    rfl
  rw [hrun] at hext hsound ⊢
  exact ⟨hext, hg₁.leave hext₁ hsound hopen, fun p hp => hψ _ p hext₁ hopen (hval p hp), hend⟩

/-! ### Leaves -/

variable {t : TypeExpr} {file : FileId} {kept : TypeId → Prop}

theorem ends_builtinSchema (name : String) :
    Ends r settings enough (builtinSchema name) g fun _ s => s.Straight ∧ s.head? = none := by
  unfold builtinSchema
  split
  · next s hs => exact ends_pure (Schema.straight_builtin hs)
  · exact ends_throw

theorem ends_overrideWith (hover : settings.overrides = []) (fuel : Nat) (key : String)
    (file : FileId) :
    Ends r settings (0 < fuel) (overrideWith fuel key file) g fun g' o => g' = g ∧ o = none := by
  cases fuel with
  | zero =>
    rw [overrideWith]
    exact ends_endless (Nat.lt_irrefl 0)
  | succ fuel =>
    intro hg
    rw [runOn_overrideWith (by rw [hg.settings_eq]; exact hover)]
    refine ⟨.refl g, hg, fun o ho => ⟨rfl, (Except.ok.inj ho).symm⟩, fun _ => ?_⟩
    exact .inl (finished_of_ok rfl)

theorem ends_declaredType (hplain : r.Plain) (t : TypeExpr) (file : FileId) :
    Ends r settings enough (declaredType t file) g fun g' o => g' = g ∧ o = r.declared? file t := by
  intro hg
  have hrun : (declaredType t file).runOn g = (.ok (r.declared? file t), g) := by
    rw [runOn_declaredType, hg.registry_eq, hplain.declaredOf, ← hg.registry_eq]
  rw [hrun]
  refine ⟨.refl g, hg, fun o ho => ⟨rfl, (Except.ok.inj ho).symm⟩, fun _ => ?_⟩
  exact .inl (finished_of_ok rfl)

theorem straight_customSchema {words : List String} (h : Field.customSchema words = .ok s) :
    s.Straight := by
  fun_induction Field.customSchema words generalizing s with
  | case1 | case2 | case4 | case9 => cases h
  | case3 rest _ ih => exact ih h
  | case5 rest _ ih =>
    obtain ⟨s', hs', rfl⟩ := map_eq_ok_iff.1 h
    exact Schema.straight_array (ih hs')
  | case6 | case8 => exact Except.ok.inj h ▸ Schema.straight_of_leaf rfl rfl rfl
  | case7 rest _ ih =>
    obtain ⟨s', hs', rfl⟩ := map_eq_ok_iff.1 h
    exact Schema.straight_map (ih hs')

theorem straight_customSchema? (h : Field.customSchema? f = .ok (some s)) : s.Straight := by
  unfold Field.customSchema? at h
  dsimp only at h
  split at h
  · cases h
  · obtain ⟨s', hs', heq⟩ := map_eq_ok_iff.1 h
    exact Option.some.inj heq ▸ straight_customSchema hs'

/-- **Adding a property** ends because the type path of its schema does. -/
theorem ends_addResolved (hparts : parts.Keep kept g) (f : Go.Field)
    (property : String) {resolved : Except DocError Schema}
    (hstraight : ∀ s, resolved = .ok s → s.Straight)
    (hend : enough → resolved ≠ .error .endless ∨ g.Loops) :
    Ends r settings enough (addResolved parts f property resolved) g (StructParts.Keep kept) := by
  unfold addResolved
  refine ends_get_bind ?_
  split
  · next s =>
    refine ends_bind (φ := fun g' _ => g' = g) ?_ ?_
    · intro hg
      rw [runOn_ofResult]
      refine ⟨.refl g, hg, fun _ _ => rfl, fun _ => ?_⟩
      by_cases hloops : g.Loops
      · exact .inr hloops
      left
      intro hendless
      obtain ⟨types, htypes⟩ := Option.isSome_iff_exists.1
        (hg.typePath?_isSome hloops (hstraight s rfl) 2)
      have herror : Field.complement f s types = .error .endless := by
        change g.complement f s = .error .endless at hendless
        rwa [complement, htypes] at hendless
      cases Field.tagFails_complement f s types _ herror
    · rintro s' g' - rfl
      exact ends_pure hparts
  · exact ends_pure hparts
  · split
    · exact ends_throw
    · exact ends_pure hparts
  · next e _ _ =>
    intro hg
    exact ⟨.refl g, hg, fun p hp => (by cases hp), fun he =>
      (hend he).imp_left (.error (g := g))⟩

theorem ends_fieldPart (hparts : parts.Keep kept g) (f : Go.Field)
    {x : Resolving Schema} {φ : Resolver → Schema → Prop}
    (hx : ∀ g', g.Extends g' → Ends r settings enough x g' φ) (hφ : ∀ g' s, φ g' s → s.Straight) :
    Ends r settings enough (fieldPart parts f x) g (StructParts.Keep kept) := by
  unfold fieldPart
  split
  · exact ends_pure hparts
  refine ends_get_bind ?_
  split
  · exact ends_pure hparts
  · next property _ =>
    refine ends_bind (φ := fun g' o => ∀ s, o = some s → s.Straight) ?_ ?_
    · intro hg
      rw [runOn_ofResult]
      refine ⟨.refl g, hg, fun o ho s hs => ?_, fun _ => .inl fun h => ?_⟩
      · subst hs
        exact straight_customSchema? ho
      · cases Field.tagFails_customSchema? f _ h
    · intro o g' hext ho
      have hparts' := hparts.imp hext fun _ h => h
      cases o with
      | some s =>
        refine ends_addResolved hparts' f property (fun s' hs' => ?_) fun _ => .inl ?_
        · exact Except.ok.inj hs' ▸ ho s rfl
        · intro h
          cases h
      | none =>
        refine ends_bind (ends_outcome (hx g' hext)) ?_
        rintro o g'' hext' ⟨hval, hend⟩
        refine ends_addResolved (hparts'.imp hext' fun _ h => h) f property ?_ hend
        exact fun s hs => hφ g'' s (hval s hs)

/-! ### The recursion -/

/-- The steps that suffice for the functions that resolve types, and what is known of their
values. -/
structure EndsWith (r : Registry) (settings : Settings) (fuel : Nat) : Prop where
  resolve : ∀ t file g, Ends r settings (r.need g.building (5 * t.weight + 10) ≤ fuel)
    (resolveWith fuel t file) g (Schema.LeadsFrom r settings.naming t file g.building)
  named : ∀ t file g, t.target = t → Ends r settings (r.need g.building 3 ≤ fuel)
    (namedWith fuel t file) g (Schema.LeadsFrom r settings.naming t file g.building)
  symbol : ∀ id g, Ends r settings (r.need g.building 2 ≤ fuel) (symbolWith fuel id) g
    (Schema.LeadsTo r id)
  definition : ∀ id d g, r.types[id]? = some d → Ends r settings (r.need g.building 1 ≤ fuel)
    (definitionWith fuel id d) g (Schema.LeadsTo r id)
  struct : ∀ fields file g, Ends r settings
    (r.need g.building (5 * TypeExpr.fieldWeights fields + 14) ≤ fuel)
    (structWith fuel fields file) g fun g' p =>
      p.Keep (r.Reaches settings.naming fields file) g' ∧
        ∀ other, r.Reaches settings.naming fields file other → other ∉ g.building
  field : ∀ kept parts f file g, StructParts.Keep kept g parts →
    (∀ other, r.Takes settings.naming f file other → kept other) →
    Ends r settings (r.need g.building (5 * f.type.weight + 13) ≤ fuel)
      (fieldWith fuel parts f file) g fun g' p =>
        p.Keep kept g' ∧ ∀ other, r.Takes settings.naming f file other → other ∉ g.building
  namedField : ∀ kept parts f file g, StructParts.Keep kept g parts →
    Ends r settings (r.need g.building (5 * f.type.weight + 11) ≤ fuel)
      (namedFieldWith fuel parts f file) g (StructParts.Keep kept)
  embedded : ∀ kept parts f file g, f.names = [] → StructParts.Keep kept g parts →
    (∀ other, r.Takes settings.naming f file other → kept other) →
    Ends r settings (r.need g.building (5 * f.type.weight + 12) ≤ fuel)
      (embeddedWith fuel parts f file) g fun g' p =>
        p.Keep kept g' ∧ ∀ other, r.Takes settings.naming f file other → other ∉ g.building
  embeddedStruct : ∀ kept parts id d fields readOnly g, r.types[id]? = some d →
    d.type = .struct fields → StructParts.Keep kept g parts →
    (∀ other, ReflTransGen (r.Embeds settings.naming) id other → kept other) →
    Ends r settings (r.need g.building 3 ≤ fuel)
      (embeddedStructWith fuel parts id d fields readOnly) g fun g' p =>
        p.Keep kept g' ∧
          ∀ other, ReflTransGen (r.Embeds settings.naming) id other → other ∉ g.building

section Step

variable {fuel : Nat} (ih : EndsWith r settings fuel)

include ih

theorem ends_embedFields (kept : TypeId → Prop) (parts : StructParts) (id : TypeId) (d : TypeDecl)
    (fields : List Go.Field) (readOnly : Bool) (g : Resolver) (hd : r.types[id]? = some d)
    (ht : d.type = .struct fields) (hparts : parts.Keep kept g)
    (hkept : ∀ other, ReflTransGen (r.Embeds settings.naming) id other → kept other) :
    Ends r settings (r.need g.building 1 ≤ fuel)
      (embedFields parts id readOnly (structWith fuel fields d.file)) g fun g' p =>
        p.Keep kept g' ∧
          ∀ other, ReflTransGen (r.Embeds settings.naming) id other → other ∉ g.building := by
  refine ends_get_bind ?_
  split
  · exact ends_throw
  · next hin =>
    have hout : id ∉ g.building := by simpa using hin
    have hkeeps : Keeps (passThrough id (structWith fuel fields d.file)) g BacksParts :=
      keeps_passThrough hout fun g' => (keepsWith fuel).struct fields d.file g'
    refine ends_bind (ends_passThrough
      (ψ := fun g' p => p.Keep kept g' ∧ ∀ other,
        ReflTransGen (r.Embeds settings.naming) id other → other ∉ g.building)
      hkeeps ((ih.struct fields d.file ((g.noteOpen id).enter id)).mono ?_) ?_) ?_
    · intro h
      have henter := Registry.need_enter hd hout
      change r.need (g.building ++ [id]) _ ≤ fuel
      simp only [Registry.need, ht, TypeExpr.weight] at h henter ⊢
      omega
    · rintro g' p hext hopen ⟨hp, hapart⟩
      constructor
      · intro c hc
        obtain ⟨n, other, hn, hother, htracks⟩ := hp c hc
        have hembeds := Registry.transGen_embeds_of_reaches hd ht hother
        exact ⟨n, other, hn, hkept other hembeds.to_reflTransGen, htracks.leave hext hopen⟩
      · intro other hpath
        rcases Relation.reflTransGen_iff_eq_or_transGen.1 hpath with rfl | hpath
        · exact hout
        · have hreach := Registry.reaches_of_transGen_embeds hd ht hpath
          exact fun hb => hapart other hreach (List.mem_append_left _ hb)
    · rintro inner g' hext ⟨hinner, hapart⟩
      have hparts' := hparts.imp hext fun _ h => h
      refine ends_pure ⟨?_, hapart⟩
      split
      · exact hparts'
      · intro c hc
        rcases List.mem_append.1 hc with hc | hc
        · exact hparts' c hc
        · exact hinner c hc

theorem ends_symbolWith (hover : settings.overrides = []) (id : TypeId) (g : Resolver) :
    Ends r settings (r.need g.building 2 ≤ fuel + 1) (symbolWith (fuel + 1) id) g
      (Schema.LeadsTo r id) := by
  refine ends_of_anchored fun hg => ?_
  rw [symbolWith]
  refine ends_get_bind ?_
  rw [hg.registry_eq]
  cases hd : r.types[id]? with
  | none => exact ends_throw
  | some d =>
    have hdef := (ih.definition id d g hd).mono (Registry.need_of_succ Nat.one_lt_two)
    refine ends_bind ((ends_overrideWith hover fuel d.fullPath d.file).mono ?_) ?_
    · exact fun h => Registry.le_of_need (Registry.need_of_succ Nat.one_lt_two h)
    rintro o g' - ⟨rfl, rfl⟩
    dsimp only
    split
    · next name ht =>
      split
      · refine (ends_builtinSchema name).imp (fun h => h) ?_
        rintro g'' s - ⟨hs, hhead⟩
        refine ⟨hs, fun n hn => ?_, ?_⟩
        · cases hhead.symm.trans hn
        · rintro ⟨d', fields, hd', ht'⟩
          cases hd.symm.trans hd'
          cases ht.symm.trans ht'
      · exact hdef
    · exact hdef

variable (hplain : r.Plain)

include hplain

theorem ends_symbolOf (t : TypeExpr) (file : FileId) (g : Resolver) (ht : t.target = t) :
    Ends r settings (r.need g.building 2 ≤ fuel) (declaredType t file >>= symbolOf fuel t) g
      (Schema.LeadsFrom r settings.naming t file g.building) := by
  refine ends_bind (ends_declaredType hplain t file) ?_
  rintro o g' - ⟨rfl, rfl⟩
  cases hid : r.declared? file t with
  | none => exact ends_throw
  | some id => exact (ih.symbol id g').imp (fun h => h) fun g'' s _ hs => hs.leadsFrom ht hid

theorem ends_definitionWith (id : TypeId) (d : TypeDecl) (g : Resolver)
    (hd : r.types[id]? = some d) :
    Ends r settings (r.need g.building 1 ≤ fuel + 1) (definitionWith (fuel + 1) id d) g
      (Schema.LeadsTo r id) := by
  refine ends_of_anchored fun hg => ?_
  have hd' : g.registry.types[id]? = some d := by rw [hg.registry_eq]; exact hd
  rw [definitionWith, hplain.aliases hd, if_neg Bool.false_ne_true]
  refine ends_get_bind ?_
  split
  · next name hname =>
    refine ends_pure (Schema.leadsTo_ref ⟨?_, .inl hname⟩)
    exact hg.sound.named (hg.sound.parsed hname).1
  · next hfresh =>
    split
    · next hin =>
      have hmem : id ∈ g.building := by simpa using hin
      exact ends_pure (Schema.leadsTo_ref ⟨⟨d, hd', rfl⟩, .inr (.inl hmem)⟩)
    · next hout =>
      have hmem : id ∉ g.building := by simpa using hout
      refine ends_buildDefinition hd hfresh hmem ?_ ((ih.resolve d.type d.file _).mono ?_)
      · exact keeps_buildDefinition hd' hfresh hmem fun g' => (keepsWith fuel).resolve _ _ g'
      · intro h
        exact (Registry.need_enter hd hmem).trans (Registry.need_of_succ Nat.zero_lt_one h)

theorem ends_embeddedWith (kept : TypeId → Prop) (parts : StructParts) (f : Go.Field)
    (file : FileId) (g : Resolver) (hnames : f.names = []) (hparts : parts.Keep kept g)
    (htakes : ∀ other, r.Takes settings.naming f file other → kept other) :
    Ends r settings (r.need g.building (5 * f.type.weight + 12) ≤ fuel + 1)
      (embeddedWith (fuel + 1) parts f file) g fun g' p =>
        p.Keep kept g' ∧ ∀ other, r.Takes settings.naming f file other → other ∉ g.building := by
  refine ends_of_anchored fun hg => ?_
  rw [embeddedWith]
  split
  · next hhidden =>
    refine ends_pure ⟨hparts, ?_⟩
    rintro other ⟨first, hfirst, -⟩
    cases hfirst.shown.symm.trans hhidden
  · next hshown =>
    refine ends_get_bind ?_
    rw [hg.settings_eq]
    split
    · next htagged =>
      refine (ih.namedField kept parts f file g hparts).imp (Registry.need_of_succ (by omega)) ?_
      intro g' p _ hp
      refine ⟨hp, ?_⟩
      rintro other ⟨first, hfirst, -⟩
      rw [hfirst.untagged] at htagged
      cases htagged
    · next huntagged =>
      refine ends_bind (ends_declaredType hplain _ file) ?_
      rintro o g' - ⟨rfl, rfl⟩
      cases hid : r.declared? file f.type.target with
      | none => exact ends_throw
      | some id =>
        refine ends_get_bind ?_
        rw [hg.registry_eq]
        cases hd : r.types[id]? with
        | none => exact ends_throw
        | some d =>
          dsimp only
          have hunique : ∀ {first : TypeId},
              Field.Promotes r settings.naming f file first → first = id := fun hfirst =>
            Option.some.inj (hfirst.found.symm.trans hid)
          split
          · next fields ht =>
            have hpromotes : Field.Promotes r settings.naming f file id :=
              ⟨hnames, by simpa using hshown, by simpa using huntagged, hid, ⟨d, fields, hd, ht⟩⟩
            refine (ih.embeddedStruct kept parts id d fields _ g' hd ht hparts ?_).imp
              (Registry.need_of_succ (by omega)) ?_
            · exact fun other hother => htakes other ⟨id, hpromotes, hother⟩
            rintro g'' p - ⟨hp, hapart⟩
            refine ⟨hp, ?_⟩
            rintro other ⟨first, hfirst, hpath⟩
            obtain rfl := hunique hfirst
            exact hapart other hpath
          · next hno =>
            refine (ih.namedField kept parts { f with names := [d.name] } file g' hparts).imp
              (Registry.need_of_succ (by dsimp only; omega)) ?_
            intro g'' p _ hp
            refine ⟨hp, ?_⟩
            rintro other ⟨first, hfirst, -⟩
            obtain rfl := hunique hfirst
            obtain ⟨d', fields, hd', ht⟩ := hfirst.struct
            cases hd.symm.trans hd'
            exact absurd ht (hno fields)

variable (hover : settings.overrides = [])

include hover

theorem ends_resolveWith (t : TypeExpr) (file : FileId) (g : Resolver) :
    Ends r settings (r.need g.building (5 * t.weight + 10) ≤ fuel + 1)
      (resolveWith (fuel + 1) t file) g (Schema.LeadsFrom r settings.naming t file g.building) := by
  have hpos := t.weight_pos
  cases t <;> rw [resolveWith]
  case ident name =>
    split
    · refine (ends_builtinSchema name).imp (fun h => h) ?_
      rintro g' s - ⟨hs, hhead⟩
      exact Schema.leadsFrom_of_none hs hhead fun fields h => by cases h
    · exact (ih.named _ file g rfl).mono (Registry.need_of_succ (by omega))
  case qualified package name =>
    exact (ih.named _ file g rfl).mono (Registry.need_of_succ (by omega))
  case generic base args =>
    refine ends_bind ((ends_overrideWith hover fuel _ file).mono ?_) ?_
    · exact fun h => Registry.le_of_need (Registry.need_of_succ (m := 1) (by omega) h)
    rintro o g' - ⟨rfl, rfl⟩
    exact (ends_symbolOf ih hplain _ file g' rfl).mono (Registry.need_of_succ (by omega))
  case pointer elem =>
    refine (ih.resolve elem file g).imp ?_ fun g' s _ hs => ?_
    · exact Registry.need_of_succ (by simp only [TypeExpr.weight]; omega)
    · refine ⟨hs.straight, fun n hn => ?_, fun fields h => by cases h⟩
      obtain ⟨other, hheads, htracks⟩ := hs.head n hn
      exact ⟨other, hheads.pointer, htracks⟩
  case slice elem | array elem =>
    refine ends_bind ((ih.resolve elem file g).mono ?_) fun s g' _ hs => ends_pure ?_
    · exact Registry.need_of_succ (by simp only [TypeExpr.weight]; omega)
    · exact Schema.leadsFrom_of_none (Schema.straight_array hs.straight) rfl fun _ h => by cases h
  case map key value =>
    refine ends_bind ((ih.resolve value file g).mono ?_) fun s g' _ hs => ends_pure ?_
    · exact Registry.need_of_succ (by simp only [TypeExpr.weight]; omega)
    · exact Schema.leadsFrom_of_none (Schema.straight_map hs.straight) rfl fun _ h => by cases h
  case interface methods embeds =>
    exact ends_pure (Schema.leadsFrom_of_none (Schema.straight_of_leaf rfl rfl rfl) rfl
      fun _ h => by cases h)
  case struct fields =>
    refine ends_bind ((ih.struct fields file g).mono ?_) ?_
    · exact Registry.need_of_succ (by simp only [TypeExpr.weight]; omega)
    · rintro p g' - ⟨hkeep, hapart⟩
      exact ends_pure (hkeep.leadsFrom hapart)
  case resolved id =>
    refine (ih.symbol id g).imp (Registry.need_of_succ (by omega)) fun g' s _ hs => ?_
    exact hs.leadsFrom rfl rfl
  case func | chan | tilde | union => exact ends_throw

theorem EndsWith.next : EndsWith r settings (fuel + 1) where
  resolve := ends_resolveWith ih hplain hover
  symbol := ends_symbolWith ih hover
  definition := ends_definitionWith ih hplain
  embedded := ends_embeddedWith ih hplain
  named t file g ht := by
    rw [namedWith]
    refine ends_bind ((ends_overrideWith hover fuel t.text file).mono ?_) ?_
    · exact fun h => Registry.le_of_need (Registry.need_of_succ (m := 1) (by omega) h)
    rintro o g' - ⟨rfl, rfl⟩
    refine ends_get_bind ?_
    split
    · next htime =>
      refine ends_pure (Schema.leadsFrom_of_none (Schema.straight_of_leaf rfl rfl rfl) rfl ?_)
      rintro fields rfl
      cases htime
    · exact (ends_symbolOf ih hplain t file g' ht).mono (Registry.need_of_succ (by omega))
  struct fields file g := by
    rw [structWith]
    refine ends_bind (ends_foldlM
      (φ := fun g' p => p.Keep (r.Reaches settings.naming fields file) g')
      (κ := fun f => ∀ other, r.Takes settings.naming f file other → other ∉ g.building)
      fields ?_ ?_) ?_
    · intro parts f hf g' hext hparts
      have hlt := TypeExpr.weight_lt_fieldWeights hf
      have hfield := ih.field _ parts f file g' hparts fun other hother => ⟨f, hf, hother⟩
      rw [hext.building] at hfield
      exact hfield.mono (Registry.need_of_succ (by omega))
    · intro c hc
      cases hc
    · rintro p g' - ⟨hkeep, hapart⟩
      refine ends_pure ⟨hkeep, ?_⟩
      rintro other ⟨f, hf, hother⟩
      exact hapart f hf other hother
  field kept parts f file g hparts htakes := by
    rw [fieldWith]
    split
    · next hnames =>
      have hnone : f.names = [] := by simpa using hnames
      exact (ih.embedded kept parts f file g hnone hparts htakes).mono
        (Registry.need_of_succ (by omega))
    · next hnames =>
      refine (ends_foldlM (φ := fun g' p => p.Keep kept g') (κ := fun _ => True) _ ?_
        hparts).imp (fun h => h) ?_
      · intro p name _ g' hext hp
        have hfield := ih.namedField kept p { f with names := [name] } file g' hp
        rw [hext.building] at hfield
        exact hfield.imp (Registry.need_of_succ (by dsimp only; omega)) fun _ _ _ hp' =>
          ⟨hp', trivial⟩
      · rintro g' p - ⟨hp, -⟩
        refine ⟨hp, ?_⟩
        -- a field with names embeds nothing
        rintro other ⟨first, hfirst, -⟩
        exact absurd (by rw [hfirst.unnamed]; rfl) hnames
  namedField kept parts f file g hparts := by
    rw [namedFieldWith_succ]
    refine ends_fieldPart hparts f (φ := Schema.LeadsFrom r settings.naming f.type file g.building)
      (fun g' hext => ?_) fun _ _ hs => hs.straight
    have hresolve := ih.resolve f.type file g'
    rw [hext.building] at hresolve
    exact hresolve.mono (Registry.need_of_succ (by omega))
  embeddedStruct kept parts id d fields readOnly g hd ht hparts hkept := by
    rw [embeddedStructWith_succ]
    by_cases hro : readOnly = true
    · rw [if_pos hro]
      refine ends_bind ((ih.symbol id g).mono (Registry.need_of_succ (by omega))) ?_
      intro s g' hext hs
      obtain ⟨n, hn⟩ := Option.isSome_iff_exists.1 (hs.refers ⟨d, fields, hd, ht⟩)
      have hcomposed :
          StructParts.Keep kept g' { parts with composed := parts.composed ++ [s] } := by
        intro c hc
        rcases List.mem_append.1 hc with hc | hc
        · exact (hparts.imp hext fun _ h => h) c hc
        · obtain rfl := List.mem_singleton.1 hc
          exact ⟨n, id, hn, hkept id .refl, hs.head n (Schema.head?_of_refName? hn)⟩
      rw [pure_bind]
      have hrest := ends_embedFields ih kept _ id d fields readOnly g' hd ht hcomposed hkept
      rw [hext.building] at hrest
      exact hrest.mono (Registry.need_of_succ (by omega))
    · rw [if_neg hro, pure_bind]
      exact (ends_embedFields ih kept parts id d fields readOnly g hd ht hparts hkept).mono
        (Registry.need_of_succ (by omega))

end Step

/-- **Every function that resolves types ends** with enough steps, unless definitions are a
circle. -/
theorem endsWith (hplain : r.Plain) (hover : settings.overrides = []) (fuel : Nat) :
    EndsWith r settings fuel := by
  induction fuel with
  | zero =>
    have hnone : ∀ {building : List TypeId} {n : Nat}, 0 < n → ¬r.need building n ≤ 0 :=
      fun hpos h => Nat.not_lt_zero _ (hpos.trans_le (Registry.le_of_need h))
    constructor <;> intros <;>
      simp only [resolveWith, namedWith, symbolWith, definitionWith, structWith, fieldWith,
        namedFieldWith, embeddedWith, embeddedStructWith] <;>
      exact ends_endless (hnone (by omega))
  | succ fuel ih => exact ih.next hplain hover

/-! ### Requests -/

theorem Anchored.answer (hplain : r.Plain) (hover : settings.overrides = [])
    (hg : g.Anchored r settings) (q : Request) : (g.answer q).Anchored r settings := by
  have hends := endsWith hplain hover
  cases q with
  | type t file => exact ((hends _).resolve t file g hg).2.1
  | symbol id => exact ((hends _).symbol id g hg).2.1
  | text text file =>
    change ((textWith (g.fuelFor text.length) text file).runOn g).2.Anchored r settings
    cases g.fuelFor text.length with
    | zero =>
      rw [textWith]
      exact hg
    | succ fuel =>
      rw [textWith]
      split
      · exact ((hends _).resolve _ file g hg).2.1
      · exact hg
  | instantiate generic args file =>
    have hsame : g.answer (.instantiate generic args file) = g := by
      rw [Resolver.answer, hg.registry_eq, hplain.instantiate, ← hg.registry_eq]
    rw [hsame]
    exact hg

theorem Anchored.after (hplain : r.Plain) (hover : settings.overrides = [])
    (hg : g.Anchored r settings) (requests : List Request) :
    (g.after requests).Anchored r settings := by
  induction requests generalizing g with
  | nil => exact hg
  | cons q requests ih => exact ih (hg.answer hplain hover q)

/-- **Resolving ends, after any requests.**  For declarations without aliases and type parameters,
without overrides, and without a circle of right-hand sides that are names, resolving a type yields
a schema or an error, however the structs, slices, maps and embedded fields lead back; and more
steps yield the same.  The only exception is a circle of definitions, one of which has the name of another
type that was entered and left without a definition. -/
theorem resolve_ends (hplain : r.Plain) (hover : settings.overrides = [])
    (hrenames : ∀ id, ¬TransGen r.Renames id id) (earlier : List Request) (t : TypeExpr)
    (file : FileId) :
    let g := (fresh r settings).after earlier
    let run := (resolve t file).runOn g
    (Finished run ∧ ∀ n, g.fuelFor t.weight ≤ n → (resolveWith n t file).runOn g = run) ∨
      run.2.Loops ∧ run.2.Shared := by
  intro g run
  have hg : g.Anchored r settings := (anchored_fresh r settings).after hplain hover earlier
  obtain ⟨-, hanchored, -, hend⟩ :=
    (endsWith hplain hover (g.fuelFor t.weight)).resolve t file g hg
  have henough := g.need_le_fuelFor g.building t.weight
  rw [hg.registry_eq] at henough
  refine (hend henough).imp (fun hfinished => ⟨hfinished, fun n hn => ?_⟩) fun hloops => ?_
  · exact refines_resolveWith_le hn t file g hfinished
  · exact ⟨hloops, hanchored.shared_of_loops hrenames hloops⟩

/-- A struct `Node` with a field of the type `Link`, which is another name of it; a type `Copy` that
takes the definition name of `Node`; a struct that embeds `Node`, and one with a field of the type
`Link`. -/
def links : Registry :=
  let named : Go.CommentGroup := ⟨["// @name Item"], 0, 0⟩
  let link : Go.Field := ⟨["Next"], .ident "Link", none, none, none⟩
  let node : Go.Field := ⟨[], .ident "Node", none, none, none⟩
  (({} : Registry).index ⟨"m.go", "example.com/m", .all, ⟨"m", [],
    [.type ⟨"Node", [], false, .struct [link], none, some named, 0⟩,
      .type ⟨"Link", [], false, .ident "Node", none, none, 0⟩,
      .type ⟨"Copy", [], false, .ident "Link", none, some named, 0⟩,
      .type ⟨"Leaf", [], false, .struct [node], none, none, 0⟩,
      .type ⟨"Head", [], false, .struct [link], none, none, 0⟩], []⟩⟩).2.parseTypes

/-- The request for a declared type by its name. -/
def askLinks (name : String) : Request := .type (.ident name) 0

set_option maxRecDepth 100000 in
theorem plain_links : links.Plain := by
  have hall : (links.types.toList.all fun d => !d.isAlias && d.params.isEmpty) = true := by
    decide +kernel
  have hmem : ∀ {id : TypeId} {d : TypeDecl}, links.types[id]? = some d →
      d.isAlias = false ∧ d.params = [] := by
    intro id d hd
    simpa using List.all_eq_true.1 hall d (Array.mem_toList_iff.2 (Array.mem_of_getElem? hd))
  exact ⟨fun _ _ hd => (hmem hd).1, fun _ _ hd => (hmem hd).2⟩

set_option maxRecDepth 100000 in
theorem renames_links (h : links.Renames id other) : other < id := by
  have hall : ((List.range links.types.size).all fun id =>
      ((links.types[id]?.bind fun d => links.declared? d.file d.type.target).all (· < id))) =
      true := by
    decide +kernel
  obtain ⟨d, hd, hother⟩ := h
  have hlt : id < links.types.size := (Array.getElem?_eq_some_iff.1 hd).1
  have hid := List.all_eq_true.1 hall id (List.mem_range.2 hlt)
  rw [hd, Option.bind_some, hother] at hid
  simpa using hid

theorem not_circle_links (id : TypeId) : ¬TransGen links.Renames id id := by
  have hlt : ∀ {id other : TypeId}, TransGen links.Renames id other → other < id := by
    intro id other h
    induction h with
    | single h => exact renames_links h
    | tail _ hlast ih => exact (renames_links hlast).trans ih
  exact fun h => Nat.lt_irrefl id (hlt h)

set_option maxRecDepth 100000 in
/-- The struct that embeds `Node` is resolved, though `Node` leads back to itself.  `Link` then
refers to `Node` by its name, which has no definition yet; once `Copy` has taken the name, there is
no end to the type path of `Link`. -/
theorem resolve_ends_links :
    let leaf := (resolve (.ident "Leaf") 0).runOn (fresh links {})
    let head := (resolve (.ident "Head") 0).runOn
      ((fresh links {}).after [askLinks "Leaf", askLinks "Copy"])
    links.Plain ∧ (∀ id, ¬TransGen links.Renames id id) ∧
      (Finished leaf ∧ ∀ n, (fresh links {}).fuelFor 1 ≤ n →
        (resolveWith n (.ident "Leaf") 0).runOn (fresh links {}) = leaf) ∧
      ¬Finished head ∧ head.2.Loops ∧ head.2.Shared := by
  intro leaf head
  have hover : ({} : Settings).overrides = [] := rfl
  have hleaf := resolve_ends plain_links hover not_circle_links [] (.ident "Leaf") 0
  have hhead := resolve_ends plain_links hover not_circle_links
    [askLinks "Leaf", askLinks "Copy"] (.ident "Head") 0
  have hall : (leaf.2.leftOpen.all fun id => leaf.2.parsed.all fun e =>
      e.2 != leaf.2.nameOf id) = true := by decide +kernel
  have hendless : (head.1.map fun _ => ()) = .error .endless := by decide +kernel
  refine ⟨plain_links, not_circle_links, hleaf.resolve_right ?_, ?_⟩
  · rintro ⟨-, hshared⟩
    obtain ⟨id, hopen, e, he, -, hname⟩ := hshared.exists_mem
    have hne := List.all_eq_true.1 (List.all_eq_true.1 hall id hopen) e he
    exact bne_iff_ne.1 hne hname
  · have hnot : ¬Finished head := by
      intro hfinished
      cases hrun : head.1 with
      | ok s =>
        rw [hrun] at hendless
        cases hendless
      | error e =>
        rw [hrun] at hendless
        exact hfinished (hrun.trans (congrArg Except.error (Except.error.inj hendless)))
    exact ⟨hnot, hhead.resolve_left fun h => hnot h.1⟩

end Resolver

end GoApiDoc
