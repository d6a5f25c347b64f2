/-
Constraints that a tag gives, and values that fit them.

A bound belongs to numbers, a length to strings, and a listed value to the type it is listed for.
When the tag of a field is read, its entries are checked against the types of the values and of their
items.

* `Field.Constraints.checked_ofTag` — **the constraints of a tag are checked**.
-/

import GoApiDoc.Proofs.Member
import GoApiDoc.Proofs.Shape

set_option autoImplicit false

namespace GoApiDoc

variable {rest : List String} {v : Json} {s : Schema} {isMax : Bool} {key : String}

/-! ### The kinds of values -/

namespace Json

/-- The types whose values are told apart. -/
def kinds : List String := Schema.simpleTypes ++ ["array", "object"]

/-- The types of a value. -/
def typeNames : Json → List String
  | null => []
  | bool _ => ["boolean"]
  | int _ => ["integer", "number"]
  | double _ => ["number"]
  | str _ => ["string"]
  | arr _ => ["array"]
  | obj _ => ["object"]

/-- The items of an array or the values of an object. -/
def parts : Json → List Json
  | arr items => items
  | obj members => members.map (·.2)
  | _ => []

/-- The value has the first type of a path and its parts have the types behind it.  A type such as
`any` says nothing about a value, and neither does a path that ends. -/
def HasKind : List String → Json → Prop
  | [], _ => True
  | type :: rest, v => type ∈ kinds → type ∈ v.typeNames ∧ ∀ part ∈ v.parts, HasKind rest part

theorem hasKind_arr {vs : List Json} (h : ∀ v ∈ vs, HasKind rest v) :
    HasKind ("array" :: rest) (arr vs) :=
  fun _ => ⟨List.mem_singleton_self _, h⟩

theorem hasKind_obj {ms : List (String × Json)} (h : ∀ m ∈ ms, HasKind rest m.2) :
    HasKind ("object" :: rest) (obj ms) := by
  refine fun _ => ⟨List.mem_singleton_self _, fun part hpart => ?_⟩
  obtain ⟨m, hm, rfl⟩ := List.mem_map.1 hpart
  exact h m hm

/-- Only texts are of the type of texts. -/
theorem hasKind_string_iff : HasKind ("string" :: rest) v ↔ v.typeNames = ["string"] := by
  have hkind : "string" ∈ kinds := by decide
  cases v <;> simp [HasKind, hkind, typeNames, parts]

/-- A value of a simple type. -/
structure IsSimple (type : String) (v : Json) : Prop where
  simple : type ∈ Schema.simpleTypes
  named : type ∈ v.typeNames
  whole : v.parts = []

theorem IsSimple.hasKind {type : String} (h : IsSimple type v) (rest : List String) :
    HasKind (type :: rest) v := by
  refine fun _ => ⟨h.named, fun part hpart => ?_⟩
  rw [h.whole] at hpart
  cases hpart

end Json

/-! ### Constraints that fit -/

namespace Schema

namespace Facts

/-- The keywords about single values: bounds, lengths, and values that are listed. -/
def demands (n : Facts) : Facts :=
  { maximum := n.maximum, minimum := n.minimum, multipleOf := n.multipleOf
    maxLength := n.maxLength, minLength := n.minLength, enumValues := n.enumValues
    defaultValue := n.defaultValue, exampleValue := n.exampleValue }

/-- There is a bound for numbers. -/
def HasBounds (n : Facts) : Prop :=
  n.maximum.isSome ∨ n.minimum.isSome ∨ n.multipleOf.isSome

/-- There is a bound for the length of strings. -/
def HasLengths (n : Facts) : Prop := n.maxLength.isSome ∨ n.minLength.isSome

/-- The keywords fit a schema with the types on a path. -/
structure Suit (n : Facts) (types : List String) : Prop where
  bounds : n.HasBounds → Field.isNumeric (types.headD "") = true
  lengths : n.HasLengths → types.headD "" = "string"
  enums : ∀ v ∈ n.enumValues, v.HasKind types
  missing : ∀ v ∈ n.defaultValue, v.HasKind types
  sample : ∀ v ∈ n.exampleValue, v.HasKind types

variable {n n' : Facts} {types : List String}

theorem suit_congr (h : n.demands = n'.demands) : n.Suit types ↔ n'.Suit types := by
  have hdemands : ∀ m : Facts, m.Suit types ↔ m.demands.Suit types := fun m =>
    ⟨fun h => ⟨h.bounds, h.lengths, h.enums, h.missing, h.sample⟩,
      fun h => ⟨h.bounds, h.lengths, h.enums, h.missing, h.sample⟩⟩
  rw [hdemands n, hdemands n', h]

/-- Constraints, a default and an example fit if each of them does. -/
theorem suit_iff {missing sample : Option Json} (hmissing : n'.defaultValue = none)
    (hsample : n'.exampleValue = none)
    (h : n.demands = { n'.demands with defaultValue := missing, exampleValue := sample }) :
    n.Suit types ↔ n'.Suit types ∧ (∀ v ∈ missing, v.HasKind types) ∧
      ∀ v ∈ sample, v.HasKind types := by
  have hall : n.demands = ({ n' with defaultValue := missing, exampleValue := sample } :
    Facts).demands := h
  rw [suit_congr hall]
  constructor
  · intro hs
    refine ⟨⟨hs.bounds, hs.lengths, hs.enums, ?_, ?_⟩, hs.missing, hs.sample⟩
    · simp [hmissing]
    · simp [hsample]
  · rintro ⟨hs, hm, hx⟩
    exact ⟨hs.bounds, hs.lengths, hs.enums, hm, hx⟩

/-- Nothing is demanded, so it fits. -/
theorem suit_of_demands (h : n.demands = {}) : n.Suit types := by
  have hempty : n.demands = ({} : Facts).demands := h
  refine (suit_congr hempty).2 ⟨fun hb => ?_, fun hl => ?_, fun v hv => ?_, fun v hv => ?_,
    fun v hv => ?_⟩
  · simp [HasBounds] at hb
  · simp [HasLengths] at hl
  · cases hv
  · cases hv
  · cases hv

end Facts

theorem Resolved.demands (h : s.Resolved) : s.toFacts.demands = {} := by
  cases h with
  | struct p =>
    unfold StructParts.toSchema
    split <;> rfl
  | any | simple | ref | array | map => rfl

theorem Resolved.of_items {i : Schema} (h : s.Resolved) (hi : s.items = some i) : i.Resolved := by
  cases h with
  | array h =>
    cases hi
    exact h
  | struct p =>
    unfold StructParts.toSchema at hi
    split at hi <;> cases hi
  | any | simple | ref | map => cases hi

end Schema

/-! ### Reading a tag -/

namespace Field

open Go (Field)

variable {type itemType value constraint : String} {v : Json}

/-- A value that is read is of the type it was read for. -/
theorem isSimple_valueOf (h : valueOf type value constraint = .ok v) : v.IsSimple type := by
  unfold valueOf at h
  dsimp only at h
  split at h
  · cases h
    exact ⟨by decide, List.mem_singleton_self _, rfl⟩
  · cases hn : Number.readInt64? value with
    | none =>
      rw [hn] at h
      cases h
    | some n =>
      rw [hn] at h
      cases h
      exact ⟨by decide, .head _, rfl⟩
  · cases hx : (Number.readDouble? value).filter Double.isFinite with
    | none =>
      rw [hx] at h
      cases h
    | some x =>
      rw [hx] at h
      cases h
      exact ⟨by decide, .head _, rfl⟩
  · cases hb : readBool? value with
    | none =>
      rw [hb] at h
      cases h
    | some b =>
      rw [hb] at h
      cases h
      exact ⟨by decide, .head _, rfl⟩
  · cases h

/-- An example for an item is of a simple type, since a list of lists has no type for its items. -/
theorem hasKind_exampleItem (h : exampleItem type value = .ok v) (rest : List String) :
    v.HasKind (type :: rest) := by
  unfold exampleItem at h
  split at h
  · obtain ⟨vs, hvs, rfl⟩ := map_eq_ok_iff.1 h
    refine Json.hasKind_arr (forall_mem_of_mapM (fun _ w hw => ?_) hvs)
    cases hw
  · cases h
  · exact (isSimple_valueOf h).hasKind rest

/-- The types behind the first one say nothing more than the type of the items. -/
theorem hasKind_of_items (h : ∀ more, v.HasKind (rest.headD "" :: more)) : v.HasKind rest := by
  cases rest with
  | nil => trivial
  | cons type more => exact h more

theorem hasKind_exampleOf (hitem : type = "array" ∨ type = "object" → itemType = rest.headD "")
    (h : exampleOf type itemType value = .ok v) : v.HasKind (type :: rest) := by
  unfold exampleOf at h
  split at h
  · obtain ⟨vs, hvs, rfl⟩ := map_eq_ok_iff.1 h
    rw [hitem (.inl rfl)] at hvs
    exact Json.hasKind_arr (forall_mem_of_mapM
      (fun _ _ hw => hasKind_of_items (hasKind_exampleItem hw)) hvs)
  · split at h
    · cases h
    · obtain ⟨pairs, hpairs, rfl⟩ := map_eq_ok_iff.1 h
      rw [hitem (.inr rfl)] at hpairs
      have hmem : ∀ e ∈ pairs, e.2.HasKind rest := by
        refine forall_mem_of_mapM (fun pair e he => ?_) hpairs
        unfold examplePair at he
        split at he
        · obtain ⟨w, hw, rfl⟩ := map_eq_ok_iff.1 he
          exact hasKind_of_items (hasKind_exampleItem hw)
        · cases he
      refine Json.hasKind_obj fun e he => ?_
      rcases Table.mem_extend he with he | he
      · cases he
      · exact hmem e he
  · exact (isSimple_valueOf h).hasKind rest

namespace Constraints

/-- The keywords for the constraints on single values. -/
def facts (c : Constraints) : Schema.Facts :=
  { maximum := c.maximum, minimum := c.minimum, multipleOf := c.multipleOf
    maxLength := c.maxLength, minLength := c.minLength, enumValues := c.enums }

/-- What is checked when a tag is read: there are bounds only if the values or the items are numbers,
lengths only if they are strings, and the admitted values are of the type of the elements. -/
structure Checked (c : Constraints) : Prop where
  bounds : c.facts.HasBounds → c.hasNumbers = true
  lengths : c.facts.HasLengths → c.hasStrings = true
  enums : ∀ v ∈ c.enums, v.IsSimple c.elementType

/-- The constraints are on values of the same types. -/
structure SameTypes (c c' : Constraints) : Prop where
  type : c'.type = c.type
  itemType : c'.itemType = c.itemType

variable {c c' : Constraints} {tag : String}

theorem SameTypes.refl (c : Constraints) : c.SameTypes c := ⟨rfl, rfl⟩

theorem SameTypes.trans {c₁ c₂ c₃ : Constraints} (h : c₁.SameTypes c₂) (h' : c₂.SameTypes c₃) :
    c₁.SameTypes c₃ :=
  ⟨h'.type.trans h.type, h'.itemType.trans h.itemType⟩

theorem hasNumbers_of_type (h : isNumeric c.type = true) : c.hasNumbers = true := by
  rw [hasNumbers, h, Bool.true_or]

theorem hasStrings_of_type (h : c.type = "string") : c.hasStrings = true := by
  rw [hasStrings, h]
  rfl

/-- A rule with a bound sets it for numbers, for the length of strings or for that of arrays. -/
theorem addBound_cases (h : c.addBound value isMax = .ok c') :
    (isNumeric c.type = true ∧ ∃ x,
        c' = if isMax then { c with maximum := some x } else { c with minimum := some x }) ∨
      (c.type = "string" ∧ ∃ n,
        c' = if isMax then { c with maxLength := some n } else { c with minLength := some n }) ∨
      (∃ n, c' = if isMax then { c with maxItems := some n } else { c with minItems := some n }) ∨
      c' = c := by
  unfold addBound at h
  dsimp only at h
  split at h
  iterate 2
    · next htype =>
      split at h
      · next x _ => exact .inl ⟨by rw [htype]; rfl, x, (Except.ok.inj h).symm⟩
      · cases h
  · next htype =>
    split at h
    · next n _ => exact .inr (.inl ⟨htype, n, (Except.ok.inj h).symm⟩)
    · cases h
  · split at h
    · next n _ => exact .inr (.inr (.inl ⟨n, (Except.ok.inj h).symm⟩))
    · cases h
  · exact .inr (.inr (.inr (Except.ok.inj h).symm))

theorem Checked.addBound (hc : c.Checked) (h : c.addBound value isMax = .ok c') :
    c'.Checked ∧ c.SameTypes c' := by
  obtain ⟨htype, x, rfl⟩ | ⟨htype, n, rfl⟩ | ⟨n, rfl⟩ | rfl := addBound_cases h
  · have hnumbers := hasNumbers_of_type htype
    cases isMax <;> exact ⟨⟨fun _ => hnumbers, hc.lengths, hc.enums⟩, rfl, rfl⟩
  · have hstrings := hasStrings_of_type htype
    cases isMax <;> exact ⟨⟨hc.bounds, fun _ => hstrings, hc.enums⟩, rfl, rfl⟩
  · cases isMax <;> exact ⟨⟨hc.bounds, hc.lengths, hc.enums⟩, rfl, rfl⟩
  · exact ⟨hc, .refl _⟩

theorem Checked.addRuleList {rules : List String} (hc : c.Checked)
    (h : c.addRuleList rules = .ok c') : c'.Checked ∧ c.SameTypes c' := by
  induction rules generalizing c with
  | nil =>
    cases h
    exact ⟨hc, .refl _⟩
  | cons rule rules ih =>
    have hstep : ∀ c₁ : Constraints, c₁.Checked ∧ c.SameTypes c₁ →
        c₁.addRuleList rules = .ok c' → c'.Checked ∧ c.SameTypes c' := by
      intro c₁ hc₁ h
      obtain ⟨hc', hsame⟩ := ih hc₁.1 h
      exact ⟨hc', hc₁.2.trans hsame⟩
    have hbound : ∀ {value : String} {isMax : Bool},
        (c.addBound value isMax >>= fun c₁ => c₁.addRuleList rules) = .ok c' →
        c'.Checked ∧ c.SameTypes c' := by
      intro value isMax h
      obtain ⟨c₁, h₁, h⟩ := bind_eq_ok_iff.1 h
      exact hstep c₁ (hc.addBound h₁) h
    rw [Constraints.addRuleList] at h
    dsimp only at h
    split at h
    iterate 4
      · exact hbound h
    · split at h
      · obtain ⟨enums, henums, h⟩ := bind_eq_ok_iff.1 h
        have hsimple : ∀ v ∈ enums, v.IsSimple c.elementType :=
          forall_mem_of_mapM (fun _ _ => isSimple_valueOf) henums
        exact hstep { c with enums := enums } ⟨⟨hc.bounds, hc.lengths, hsimple⟩, rfl, rfl⟩ h
      · exact ih hc h
    · cases h
      exact ⟨hc, .refl _⟩
    · exact ih hc h

theorem Checked.addRules {rules : String} (hc : c.Checked) (h : c.addRules rules = .ok c') :
    c'.Checked ∧ c.SameTypes c' := by
  unfold Constraints.addRules at h
  split at h
  · cases h
    exact ⟨hc, .refl _⟩
  · exact hc.addRuleList h

theorem Checked.addEnums (hc : c.Checked) (h : c.addEnums tag = .ok c') :
    c'.Checked ∧ c.SameTypes c' := by
  unfold Constraints.addEnums at h
  dsimp only at h
  split at h
  · cases h
    exact ⟨hc, .refl _⟩
  · obtain ⟨enums, henums, rfl⟩ := map_eq_ok_iff.1 h
    refine ⟨⟨hc.bounds, hc.lengths, ?_⟩, rfl, rfl⟩
    exact forall_mem_of_mapM (fun _ _ => isSimple_valueOf) henums

theorem Checked.numberFor {old o : Option Double} (hold : old.isSome → c.hasNumbers = true)
    (h : c.numberFor tag key old = .ok o) : o.isSome → c.hasNumbers = true := by
  unfold Constraints.numberFor at h
  split at h
  · cases h
    exact hold
  · split at h
    · next hnumbers => exact fun _ => hnumbers
    · cases h

theorem Checked.lengthFor {old o : Option Int} (hold : old.isSome → c.hasStrings = true)
    (h : c.lengthFor tag key old = .ok o) : o.isSome → c.hasStrings = true := by
  unfold Constraints.lengthFor at h
  split at h
  · cases h
    exact hold
  · split at h
    · next hstrings => exact fun _ => hstrings
    · cases h

/-- **Reading a tag checks what it asks for.** -/
theorem checked_ofTag (h : ofTag tag type rest = .ok c) :
    c.Checked ∧ c.type = type ∧
      c.itemType = if type = "array" ∨ type = "object" then rest.headD "" else "" := by
  unfold ofTag at h
  dsimp only at h
  obtain ⟨c₁, h₁, h⟩ := bind_eq_ok_iff.1 h
  obtain ⟨c₂, h₂, h⟩ := bind_eq_ok_iff.1 h
  obtain ⟨c₃, h₃, h⟩ := bind_eq_ok_iff.1 h
  obtain ⟨maximum, hmaximum, h⟩ := bind_eq_ok_iff.1 h
  obtain ⟨minimum, hminimum, h⟩ := bind_eq_ok_iff.1 h
  obtain ⟨multipleOf, hmultipleOf, h⟩ := bind_eq_ok_iff.1 h
  obtain ⟨maxLength, hmaxLength, h⟩ := bind_eq_ok_iff.1 h
  obtain ⟨minLength, hminLength, h⟩ := bind_eq_ok_iff.1 h
  cases h
  obtain ⟨hc₁, hs₁⟩ := Checked.addRules ⟨by simp [facts, Schema.Facts.HasBounds],
    by simp [facts, Schema.Facts.HasLengths], List.forall_mem_nil _⟩ h₁
  obtain ⟨hc₂, hs₂⟩ := hc₁.addRules h₂
  obtain ⟨hc₃, hs₃⟩ := hc₂.addEnums h₃
  have hsame := (hs₁.trans hs₂).trans hs₃
  refine ⟨⟨fun hb => ?_, fun hl => ?_, hc₃.enums⟩, hsame.type, hsame.itemType⟩
  · rcases hb with hb | hb | hb
    · exact Checked.numberFor (fun h => hc₃.bounds (.inl h)) hmaximum hb
    · exact Checked.numberFor (fun h => hc₃.bounds (.inr (.inl h))) hminimum hb
    · exact Checked.numberFor (fun h => hc₃.bounds (.inr (.inr h))) hmultipleOf hb
  · rcases hl with hl | hl
    · exact Checked.lengthFor (fun h => hc₃.lengths (.inl h)) hmaxLength hl
    · exact Checked.lengthFor (fun h => hc₃.lengths (.inr h)) hminLength hl

end Constraints

end Field

end GoApiDoc
