/-
Where the type path of a schema ends.

The type path goes through references, and through the first of several combined schemas, without
becoming shorter.  So it ends only because definitions do not refer to each other in a circle: then
the definitions that can still be met become fewer with each one that is met, and the number of
steps that `Schema.typePathIn` allows for is never used up.

* `Schema.typePathIn_isSome` — **without circles of definitions every type path ends**.
-/

import Mathlib.Data.Finset.Card
import Mathlib.Logic.Relation
import GoApiDoc.Proofs.Shape
import GoApiDoc.Proofs.Typing

set_option autoImplicit false

namespace GoApiDoc.Schema

open Relation (ReflTransGen TransGen)

/-! ### The first definition -/

/-- The definition that the type path of a schema goes through first. -/
def head? (s : Schema) : Option String :=
  match s.refName? with
  | some name => some name
  | none => if s.type.isSome then none else s.allOf.head?.bind refName?

/-- Wherever the type path meets combined schemas, the first of them is a reference. -/
inductive Straight : Schema → Prop
  | mk {s : Schema}
      (first : s.refName? = none → s.type = none → ∀ c ∈ s.allOf.head?, c.refName?.isSome)
      (inner : s.refName? = none → ∀ i, (s.items <|> s.additional) = some i → Straight i) :
      Straight s

variable {s : Schema} {name : String} {s' : Schema}

theorem head?_of_refName? (h : s.refName? = some name) : s.head? = some name := by
  rw [head?, h]

theorem straight_of_refName? (h : s.refName?.isSome) : s.Straight := by
  refine .mk (fun hr => ?_) fun hr => ?_
  all_goals
    rw [hr] at h
    cases h

/-- A schema that is not combined. -/
theorem straight_of_single (ha : s.allOf = [])
    (hi : ∀ i, (s.items <|> s.additional) = some i → i.Straight) : s.Straight := by
  refine .mk (fun _ _ c hc => ?_) fun _ => hi
  rw [ha] at hc
  cases hc

theorem straight_of_leaf (ha : s.allOf = []) (hi : s.items = none) (hv : s.additional = none) :
    s.Straight := by
  refine straight_of_single ha fun i h => ?_
  rw [hi, hv] at h
  cases h

theorem straight_array (h : s.Straight) : (array s).Straight := by
  refine straight_of_single rfl fun i hi => ?_
  cases hi
  exact h

theorem straight_map (h : s.Straight) : (map s).Straight := by
  refine straight_of_single rfl fun i hi => ?_
  cases hi
  exact h

theorem straight_builtin (h : ofBuiltin? name = some s) : s.Straight ∧ s.head? = none := by
  unfold ofBuiltin? at h
  split at h <;> cases h
  all_goals exact ⟨straight_of_leaf rfl rfl rfl, rfl⟩

theorem Alike.head?_eq (h : s.Alike s') : s'.head? = s.head? := by
  rw [head?, head?, refName?, refName?, h.reference, h.type, h.allOf]

theorem Alike.straight (h : s.Alike s') (hs : s.Straight) : s'.Straight := by
  have hr : s'.refName? = s.refName? := by rw [refName?, refName?, h.reference]
  obtain ⟨hfirst, hinner⟩ := hs
  refine .mk ?_ ?_
  · rw [hr, h.type, h.allOf]
    exact hfirst
  · rw [hr, h.items, h.additional]
    exact hinner

theorem alike_ofDecl (d : TypeDecl) (s : Schema) : s.Alike (ofDecl d s) := by
  have henums : s.Alike (s.addEnums d.enums) := by
    unfold addEnums
    split <;> exact ⟨rfl, rfl, rfl, rfl, rfl⟩
  unfold ofDecl
  split
  · dsimp only
    split
    · exact henums.trans ⟨rfl, rfl, rfl, rfl, rfl⟩
    · exact henums
  · exact henums

/-! ### From definition to definition -/

variable {definitions : Table Schema} {n n' : String}

/-- The type path goes from one definition to the other. -/
def Follows (definitions : Table Schema) (n n' : String) : Prop :=
  ∃ s, definitions.get? n = some s ∧ s.head? = some n'

open Classical in
/-- The number of definitions that a type path can meet from a name on. -/
noncomputable def rank (definitions : Table Schema) (n : String) : Nat :=
  (definitions.keys.toFinset.filter (ReflTransGen (Follows definitions) n)).card

/-- The number of definitions that the type path of a schema can meet. -/
noncomputable def headRank (definitions : Table Schema) (s : Schema) : Nat :=
  (s.head?.map (rank definitions)).getD 0

theorem rank_le_length (definitions : Table Schema) (n : String) :
    rank definitions n ≤ definitions.length := by
  classical
  calc rank definitions n ≤ definitions.keys.toFinset.card := Finset.card_filter_le _ _
    _ ≤ definitions.keys.length := List.toFinset_card_le _
    _ = definitions.length := by rw [Table.keys, List.length_map]

theorem headRank_le_length (definitions : Table Schema) (s : Schema) :
    headRank definitions s ≤ definitions.length := by
  cases hs : s.head? with
  | none => simp [headRank, hs]
  | some n => simpa [headRank, hs] using rank_le_length definitions n

/-- **Each definition that is met leaves fewer to meet.** -/
theorem headRank_lt_rank (hacyclic : ∀ n, ¬TransGen (Follows definitions) n n)
    (h : definitions.get? n = some s) : headRank definitions s < rank definitions n := by
  classical
  have hkey : n ∈ definitions.keys.toFinset :=
    List.mem_toFinset.2 (Table.mem_keys_iff.2 ⟨s, h⟩)
  have hself : n ∈ definitions.keys.toFinset.filter (ReflTransGen (Follows definitions) n) :=
    Finset.mem_filter.2 ⟨hkey, .refl⟩
  cases hs : s.head? with
  | none =>
    rw [headRank, hs]
    exact Finset.card_pos.2 ⟨n, hself⟩
  | some n' =>
    have hfollows : Follows definitions n n' := ⟨s, h, hs⟩
    rw [headRank, hs]
    change rank definitions n' < rank definitions n
    refine Finset.card_lt_card (Finset.ssubset_iff_subset_ne.2 ⟨fun m hm => ?_, fun heq => ?_⟩)
    · obtain ⟨hkey', hreach⟩ := Finset.mem_filter.1 hm
      exact Finset.mem_filter.2 ⟨hkey', .head hfollows hreach⟩
    · -- the definition itself is met again only on a circle
      rw [← heq] at hself
      exact hacyclic n (.head' hfollows (Finset.mem_filter.1 hself).2)

/-! ### The end of the type path -/

/-- A step for a reference, and two for a combined schema. -/
def layers (s : Schema) : Nat := if s.refName?.isSome then 1 else 2

theorem layers_le_two (s : Schema) : s.layers ≤ 2 := by
  unfold layers
  split <;> omega

variable {isBeingMade : String → Bool}

/-- **The steps that suffice**: two for every definition that can be met before the next type, and
two for the schema itself. -/
theorem typePathFrom_isSome (hacyclic : ∀ n, ¬TransGen (Follows definitions) n n)
    (hdefs : ∀ n s, definitions.get? n = some s → s.Straight) (fuel : Nat) :
    ∀ depth (s : Schema), s.Straight →
      depth * (2 * definitions.length + 2) + 2 * headRank definitions s + s.layers ≤ fuel →
      (typePathFrom definitions isBeingMade fuel depth s).isSome := by
  -- every recursive call has one step less, whatever it goes into
  induction fuel with
  | zero =>
    intro depth s _ hfuel
    have hlayers : 0 < s.layers := by
      unfold layers
      split <;> omega
    omega
  | succ fuel ih =>
    intro depth s hs hfuel
    cases depth with
    | zero => rfl
    | succ depth =>
      obtain ⟨hfirst, hinner⟩ := hs
      rw [typePathFrom]
      cases hr : s.refName? with
      | some name =>
        have hrank : headRank definitions s = rank definitions name := by
          rw [headRank, head?_of_refName? hr]
          rfl
        have hlayers : s.layers = 1 := by simp [layers, hr]
        dsimp only
        cases hd : definitions.get? name with
        | none => rfl
        | some target =>
          have hlt := headRank_lt_rank hacyclic hd
          have htwo := layers_le_two target
          exact ih _ target (hdefs name target hd) (by omega)
      | none =>
        have hlayers : s.layers = 2 := by simp [layers, hr]
        dsimp only
        cases ht : s.type with
        | none =>
          dsimp only
          cases ha : s.allOf with
          | nil => rfl
          | cons first more =>
            have hsome := hfirst hr ht first (by rw [ha]; rfl)
            have hrank : headRank definitions first = headRank definitions s := by
              obtain ⟨name, hname⟩ := Option.isSome_iff_exists.1 hsome
              have hhead : s.head? = first.refName? := by
                rw [head?, hr, ht, ha]
                rfl
              rw [headRank, headRank, hhead, head?_of_refName? hname, hname]
            have hone : first.layers = 1 := by simp [layers, hsome]
            exact ih _ first (straight_of_refName? hsome) (by omega)
        | some type =>
          dsimp only
          cases hi : (s.items <|> s.additional) with
          | none => rfl
          | some inner =>
            have hle := headRank_le_length definitions inner
            have htwo := layers_le_two inner
            rw [Option.isSome_map]
            refine ih depth inner (hinner hr inner hi) ?_
            rw [Nat.succ_mul depth] at hfuel
            omega

theorem weight_pos (s : Schema) : 0 < s.weight := by
  cases s
  rw [weight]
  omega

theorem length_le_propertyWeight (entries : List (String × Schema)) :
    entries.length ≤ propertyWeight entries := by
  induction entries with
  | nil => exact Nat.zero_le _
  | cons e entries ih =>
    have hpos := e.2.weight_pos
    rw [propertyWeight, List.length_cons]
    omega

/-- **Without circles of definitions every type path ends.** -/
theorem typePathIn_isSome (hacyclic : ∀ n, ¬TransGen (Follows definitions) n n)
    (hdefs : ∀ n s, definitions.get? n = some s → s.Straight) (hs : s.Straight) (depth : Nat) :
    (s.typePathIn definitions isBeingMade depth).isSome := by
  refine typePathFrom_isSome hacyclic hdefs _ depth s hs ?_
  have hrank := headRank_le_length definitions s
  have hlayers := s.layers_le_two
  have hpos := s.weight_pos
  have hlength := length_le_propertyWeight definitions
  calc depth * (2 * definitions.length + 2) + 2 * headRank definitions s + s.layers
      ≤ (depth + 1) * (2 * definitions.length + 2) := by
        rw [Nat.succ_mul depth]
        omega
    _ ≤ (depth + 1) * (s.weight + propertyWeight definitions + definitions.length + 1) :=
        Nat.mul_le_mul_left _ (by omega)

end GoApiDoc.Schema
