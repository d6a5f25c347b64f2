/-
Type paths through the definitions.

The type path of a schema decides how the tag of a field is read, and it is followed through the
definitions there are at that time.  In a steady state it does not change any more: the definitions
on the way are there, and a type that is still being built is an object.  So it is the same in every
state that has these definitions, also if the types have other numbers there.

* `Resolver.Steady.typePath?_eq` — **the type path in a steady state is that in any state it fits**.
-/

import GoApiDoc.Proofs.Renumbering
import GoApiDoc.Proofs.Steady

set_option autoImplicit false

namespace GoApiDoc

open Go (TypeId TypeExpr)

variable {s : Schema} {steps : Nat} {name : String}

/-! ### Sizes -/

theorem Schema.sum_weight_le {w : String → Nat} {t : Table Schema} {names : List String}
    (hnames : names.Nodup) (h : ∀ n ∈ names, ∃ s, t.get? n = some s ∧ w n = s.weight) :
    (names.map fun n => w n + 1).sum ≤ propertyWeight t + t.length := by
  induction t generalizing names with
  | nil =>
    cases names with
    | nil => exact Nat.zero_le _
    | cons n names =>
      obtain ⟨s, hs, -⟩ := h n (.head _)
      cases hs
  | cons e t ih =>
    obtain ⟨k, v⟩ := e
    -- the name of the first entry is taken out, and the others are found in the rest
    have hrest := ih (hnames.erase k) fun n hn => by
      obtain ⟨hne, hmem⟩ := hnames.mem_erase_iff.1 hn
      obtain ⟨s, hs, hw⟩ := h n hmem
      rw [Table.get?, if_neg hne] at hs
      exact ⟨s, hs, hw⟩
    rw [propertyWeight, List.length_cons]
    by_cases hk : k ∈ names
    · obtain ⟨s, hs, hw⟩ := h k hk
      rw [Table.get?, if_pos rfl] at hs
      cases hs
      have hsum := ((List.perm_cons_erase hk).map fun n => w n + 1).sum_nat
      rw [List.map_cons, List.sum_cons] at hsum
      omega
    · rw [List.erase_of_not_mem hk] at hrest
      omega

theorem Schema.IsObject.typePathFrom (h : s.IsObject) (definitions : Table Schema)
    (made : String → Bool) (fuel depth : Nat) :
    Schema.typePathFrom definitions made (fuel + 1) (depth + 1) s = some ["object"] := by
  have hnone : s.refName? = none := by
    rw [Schema.refName?, h.reference]
    rfl
  rw [Schema.typePathFrom, hnone]
  rw [h.type, h.items, h.additional]
  rfl

namespace Resolver

variable {σ : Equiv.Perm TypeId} {r r' : Filling} {settings : Settings} {g g' g'' : Resolver}

/-! ### States with other numbers -/

/-- The definitions of one state are definitions of the other, and of the same types up to their
numbers. -/
structure WithinBy (σ : Equiv.Perm TypeId) (g g' : Resolver) : Prop where
  definitions : ∀ ⦃n : String⦄ ⦃s : Schema⦄, g.definitions.get? n = some s →
    g'.definitions.get? n = some s
  parsed : ∀ ⦃id : TypeId⦄ ⦃n : String⦄, g.parsed.lookup id = some n →
    g'.parsed.lookup (σ id) = some n

theorem Within.withinBy (h : g.Within g') : g.WithinBy (.refl TypeId) g' :=
  ⟨h.definitions, h.parsed⟩

/-- The other state has the definitions of this one, and those of the types on circles that are
being built. -/
structure Fits (σ : Equiv.Perm TypeId) (r : Filling) (settings : Settings) (g g' : Resolver) :
    Prop where
  within : g.WithinBy σ g'
  covers : ∀ id ∈ g.building, Circular r settings id → ∃ n, g'.parsed.lookup (σ id) = some n

/-! ### Following references -/

/-- Steps that suffice to follow the references to these definitions. -/
def followSteps (g : Resolver) (l : List (TypeId × String)) : Nat :=
  (l.map fun e => ((g.definitions.get? e.2).map Schema.weight).getD 0 + 1).sum

/-- The type path of a reference is the same in both states. -/
def SamePath (g g' : Resolver) (steps : Nat) (name : String) : Prop :=
  ∀ depth fuel fuel', steps ≤ fuel → steps ≤ fuel' →
    Schema.typePathFrom g.definitions g.isBeingBuilt fuel depth (Schema.ref name) =
      Schema.typePathFrom g'.definitions g'.isBeingBuilt fuel' depth (Schema.ref name)

theorem SamePath.mono {steps' : Nat} (h : SamePath g g' steps name) (hle : steps ≤ steps') :
    SamePath g g' steps' name :=
  fun depth fuel fuel' hfuel hfuel' => h depth fuel fuel' (hle.trans hfuel) (hle.trans hfuel')

/-- One step follows a reference to its definition. -/
theorem typePathFrom_ref {definitions : Table Schema} (made : String → Bool)
    (hs : definitions.get? name = some s) (fuel depth : Nat) :
    Schema.typePathFrom definitions made (fuel + 1) (depth + 1) (Schema.ref name) =
      Schema.typePathFrom definitions made fuel (depth + 1) s := by
  rw [Schema.typePathFrom, Schema.refName?_of_reference (s := Schema.ref name) rfl]
  dsimp only
  rw [hs]

/-- Both states have the definition, and the references in it have the same type paths. -/
theorem samePath_of_definition (hs : g.definitions.get? name = some s)
    (hs' : g'.definitions.get? name = some s)
    (h : s.AllRefs fun ref => ∃ n, ref = Schema.definitionsPath ++ n ∧ SamePath g g' steps n) :
    SamePath g g' (s.weight + 1 + steps) name := by
  rintro (_ | depth) fuel fuel' hfuel hfuel'
  · obtain ⟨fuel, rfl⟩ := Nat.exists_eq_add_of_le' (show 1 ≤ fuel by omega)
    obtain ⟨fuel', rfl⟩ := Nat.exists_eq_add_of_le' (show 1 ≤ fuel' by omega)
    rw [Schema.typePathFrom, Schema.typePathFrom]
  · obtain ⟨fuel, rfl⟩ := Nat.exists_eq_add_of_le' (show 1 ≤ fuel by omega)
    obtain ⟨fuel', rfl⟩ := Nat.exists_eq_add_of_le' (show 1 ≤ fuel' by omega)
    rw [typePathFrom_ref _ hs, typePathFrom_ref _ hs']
    exact h.typePathFrom_eq (by omega) (by omega) _

/-- In both states a type on a circle is an object, whether it has its definition or is still being
built. -/
theorem samePath_of_circular (hσ : r.Renumbers σ settings r') (hg : Steady r settings g)
    (hg' : Steady r' settings g') (hfits : g.Fits σ r settings g') {id : TypeId} {d : TypeDecl}
    (hd : r.types[id]? = some d) (hc : Circular r settings id) (hhas : g.Has r settings id) :
    SamePath g g' 2 d.typeName := by
  have hdefined : ∀ {r : Filling} {g : Resolver} {id : TypeId} {d : TypeDecl} {n : String},
      Steady r settings g → r.types[id]? = some d → Circular r settings id →
      g.parsed.lookup id = some n → ∃ s, g.definitions.get? d.typeName = some s ∧ s.IsObject := by
    intro r g id d n hg hd hc hn
    obtain ⟨s, hs⟩ := Table.mem_keys_iff.1 (hg.sound.parsed hn).2
    exact ⟨s, hg.name_of_lookup hn hd ▸ hs, hg.objects hc hn hs⟩
  have hobject : ∀ {g : Resolver}, (∃ s, g.definitions.get? d.typeName = some s ∧ s.IsObject) →
      ∀ fuel depth, Schema.typePathFrom g.definitions g.isBeingBuilt (fuel + 2) (depth + 1)
        (.ref d.typeName) = some ["object"] := by
    rintro g ⟨s, hs, hs'⟩ fuel depth
    rw [typePathFrom_ref _ hs, hs'.typePathFrom]
  intro depth fuel fuel' hfuel hfuel'
  obtain ⟨fuel, rfl⟩ := Nat.exists_eq_add_of_le' hfuel
  obtain ⟨fuel', rfl⟩ := Nat.exists_eq_add_of_le' hfuel'
  cases depth with
  | zero => rw [Schema.typePathFrom, Schema.typePathFrom]
  | succ depth =>
    cases hn : g.parsed.lookup id with
    | some n =>
      obtain ⟨s, hs, hs'⟩ := hdefined hg hd hc hn
      rw [hobject ⟨s, hs, hs'⟩, hobject ⟨s, hfits.within.definitions hs, hs'⟩]
    | none =>
      have hin : id ∈ g.building := by
        rcases hhas with ⟨n, hn'⟩ | ⟨hin, -⟩
        · cases hn.symm.trans hn'
        · exact hin
      obtain ⟨n, hn'⟩ := hfits.covers id hin hc
      obtain ⟨d', hd', hname⟩ := hg.hasName_of_building hin hc hd
      have hbuilt : g.isBeingBuilt d.typeName = true := by
        refine List.any_eq_true.2 ⟨id, hin, ?_⟩
        simp [nameOf, hd', hname]
      have hdefined' := hdefined hg' (hσ.types_some hd) (hσ.circular hc) hn'
      rw [hobject hdefined', Schema.typePathFrom,
        Schema.refName?_of_reference (s := Schema.ref d.typeName) rfl]
      dsimp only
      rw [hg.get?_of_building hin hc hd hn]
      rw [hbuilt]
      rfl

/-- **References to definitions have the same type paths**, by induction on the time at which the
definitions were made. -/
theorem samePath_of_mem (hσ : r.Renumbers σ settings r') (hg : Steady r settings g)
    (hg' : Steady r' settings g') (hfits : g.Fits σ r settings g') {l : List (TypeId × String)}
    (hl : g.Grounded r settings l) {e : TypeId × String} (he : e ∈ l) :
    SamePath g g' (g.followSteps l + 2) e.2 := by
  induction l generalizing e with
  | nil => cases he
  | cons e' earlier ih =>
    obtain ⟨⟨s, hs, hrefs⟩, hearlier⟩ := hl
    have hsteps : g.followSteps (e' :: earlier) = s.weight + 1 + g.followSteps earlier := by
      simp [followSteps, hs]
    rcases List.mem_cons.1 he with rfl | he
    · rw [hsteps, Nat.add_assoc]
      refine samePath_of_definition hs (hfits.within.definitions hs) (hrefs.imp ?_)
      rintro ref ⟨id, d, hd, rfl, hmem | ⟨hc, hhas⟩⟩
      · exact ⟨d.typeName, rfl, ih hearlier hmem⟩
      · exact ⟨d.typeName, rfl, (samePath_of_circular hσ hg hg' hfits hd hc hhas).mono (by omega)⟩
    · exact (ih hearlier he).mono (by omega)

theorem Steady.followSteps_le (hg : Steady r settings g) (hwithin : g.WithinBy σ g') :
    g.followSteps g.parsed ≤ Schema.propertyWeight g'.definitions + g'.definitions.length := by
  have hsum := Schema.sum_weight_le (t := g'.definitions)
    (w := fun n => ((g.definitions.get? n).map Schema.weight).getD 0) hg.distinct fun n hn => by
      obtain ⟨s, hs⟩ := Table.mem_keys_iff.1 (mem_keys_of_grounded hg.grounded hn)
      exact ⟨s, hwithin.definitions hs, by simp [hs]⟩
  rwa [List.map_map] at hsum

/-- **The type path in a steady state is that in any state it fits.** -/
theorem Steady.typePath?_eq (hσ : r.Renumbers σ settings r') (hg : Steady r settings g)
    (hg' : Steady r' settings g') (hfits : g.Fits σ r settings g')
    (hs : s.AllRefs (g.Holds r settings)) (depth : Nat) :
    g.typePath? (depth + 1) s = g'.typePath? (depth + 1) s := by
  have hrefs : s.AllRefs fun ref => ∃ n, ref = Schema.definitionsPath ++ n ∧
      SamePath g g' (g.followSteps g.parsed + 2) n := by
    refine hs.imp ?_
    rintro ref ⟨id, d, hd, rfl, hhas⟩
    refine ⟨d.typeName, rfl, ?_⟩
    rcases hhas with ⟨n, hn⟩ | ⟨hin, hc⟩
    · obtain rfl := hg.name_of_lookup hn hd
      obtain ⟨_, _, hparsed, -⟩ := List.lookup_eq_some_iff.1 hn
      have hmem : (id, d.typeName) ∈ g.parsed :=
        hparsed ▸ List.mem_append_right _ (.head _)
      exact samePath_of_mem hσ hg hg' hfits hg.grounded hmem
    · exact (samePath_of_circular hσ hg hg' hfits hd hc (.inr ⟨hin, hc⟩)).mono (by omega)
  -- the steps of a type path suffice for the schema and for all definitions
  have henough : ∀ {m k : Nat}, g.followSteps g.parsed ≤ m + k →
      s.weight + (g.followSteps g.parsed + 2) ≤ (depth + 1 + 1) * (s.weight + m + k + 1) :=
    fun {m k} hle =>
      calc s.weight + (g.followSteps g.parsed + 2)
        _ ≤ 2 * (s.weight + m + k + 1) := by omega
        _ ≤ (depth + 1 + 1) * (s.weight + m + k + 1) := Nat.mul_le_mul_right _ (by omega)
  exact hrefs.typePathFrom_eq (henough (hg.followSteps_le (Within.refl g).withinBy))
    (henough (hg.followSteps_le hfits.within)) _

end Resolver

end GoApiDoc
