/-
Where the constraints of a tag are put.

What the tag of a field asks for is written to the schema of the field or, for an array, to the schema
of the items.  Reading the tag checks its entries against the types on the path, but not against the
place where they end up, so in four cases they do not fit: the schema of numbers that are written as
strings, an example for a list that is taken as the text of one, the bounds for the values of a map,
and items that a combination of schemas does not list.

* `Resolver.suits_complement_iff` — **what a tag adds fits, except in the four cases**.
-/

import GoApiDoc.Proofs.Constraint
import GoApiDoc.Proofs.SilentTag
import GoApiDoc.Proofs.Typing

set_option autoImplicit false

namespace GoApiDoc

open Go (TypeExpr)

/-! ### Schemas without constraints -/

namespace Schema

/-- The schema is no reference, tells its items exactly if it is an array, and demands nothing of
single values. -/
structure Bare (s : Schema) : Prop where
  reference : s.reference = none
  items_iff : s.items.isSome ↔ s.type = some "array"
  demands : s.toFacts.demands = {}
  itemDemands : (s.items.getD {}).toFacts.demands = {}

variable {s : Schema}

theorem Resolved.bare (h : s.Resolved) (href : s.reference = none) : s.Bare := by
  refine ⟨href, h.items_iff, h.demands, ?_⟩
  cases hitems : s.items with
  | none => rfl
  | some i => exact (h.of_items hitems).demands

theorem Bare.items_eq_none (h : s.Bare) (hne : s.type ≠ some "array") : s.items = none := by
  have hsome : ¬ s.items.isSome := fun hi => hne (h.items_iff.1 hi)
  simpa using hsome

theorem Bare.describe (h : s.Bare) (f : Go.Field) : (Field.describe f s).Bare :=
  ⟨h.reference, h.items_iff, h.demands, h.itemDemands⟩

end Schema

/-! ### Writing the constraints -/

namespace Field

open Go (Field)

/-- The schema `s'` is `s` with further members, or with further members of the items that a type
has. -/
structure Kept (first : String) (s s' : Schema) : Prop where
  reference : s'.reference = s.reference
  type : s'.type = s.type
  allOf : s'.allOf = s.allOf
  additional : s'.additional = s.additional
  demands : s'.toFacts.demands = s.toFacts.demands
  items : (s.items.getD {}).Alike (s'.items.getD {})
  itemDemands : (s'.items.getD {}).toFacts.demands = (s.items.getD {}).toFacts.demands
  other : first ≠ "array" → s'.items = s.items

/-- The schema `s'` is `s` with constraints, a default and an example: all of them in the schema, or
the constraints in that of the items of an array. -/
structure Written (c : Constraints) (missing sample : Option Json) (s s' : Schema) : Prop where
  reference : s'.reference = s.reference
  type : s'.type = s.type
  allOf : s'.allOf = s.allOf
  additional : s'.additional = s.additional
  array : c.type = "array" →
    s'.toFacts.demands = { defaultValue := missing, exampleValue := sample } ∧
      ∃ i, s'.items = some i ∧ (s.items.getD {}).Alike i ∧ i.toFacts.demands = c.facts
  other : c.type ≠ "array" → s'.items = s.items ∧
    s'.toFacts.demands = { c.facts with defaultValue := missing, exampleValue := sample }

variable {f : Field} {tag : String} {c : Constraints} {s s₁ s' : Schema}

theorem demands_constrainElement {e : Schema} (he : e.toFacts.demands = {}) :
    (constrainElement tag c e).toFacts.demands = c.facts := by
  have hmaximum : e.maximum = none := congrArg Schema.Facts.maximum he
  have hminimum : e.minimum = none := congrArg Schema.Facts.minimum he
  have hmultiple : e.multipleOf = none := congrArg Schema.Facts.multipleOf he
  have hmax : e.maxLength = none := congrArg Schema.Facts.maxLength he
  have hmin : e.minLength = none := congrArg Schema.Facts.minLength he
  have henums : e.enumValues = [] := congrArg Schema.Facts.enumValues he
  have hmissing : e.defaultValue = none := congrArg Schema.Facts.defaultValue he
  have hsample : e.exampleValue = none := congrArg Schema.Facts.exampleValue he
  simp [constrainElement, Schema.Facts.demands, Constraints.facts, hmaximum, hminimum, hmultiple,
    hmax, hmin, henums, hmissing, hsample]

theorem kept_addEnumNames (h : addEnumNames tag c s = .ok s₁) : Kept c.type s s₁ := by
  have hself : Kept c.type s s :=
    ⟨rfl, rfl, rfl, rfl, rfl, ⟨rfl, rfl, rfl, rfl, rfl⟩, rfl, fun _ => rfl⟩
  unfold addEnumNames at h
  dsimp only at h
  split at h
  · cases h
    exact hself
  split at h
  · cases h
    unfold onElement
    split
    · next harray =>
      exact ⟨rfl, rfl, rfl, rfl, rfl, ⟨rfl, rfl, rfl, rfl, rfl⟩, rfl, fun h => absurd harray h⟩
    · exact ⟨rfl, rfl, rfl, rfl, rfl, ⟨rfl, rfl, rfl, rfl, rfl⟩, rfl, fun _ => rfl⟩
  · cases h

theorem alike_constrainElement (e : Schema) : e.Alike (constrainElement tag c e) :=
  ⟨rfl, rfl, rfl, rfl, rfl⟩

theorem Kept.addExtensions (h : Kept c.type s s₁) : Kept c.type s (addExtensions tag s₁) := by
  have halike : s₁.Alike (Field.addExtensions tag s₁) := ⟨rfl, rfl, rfl, rfl, rfl⟩
  refine ⟨halike.reference.trans h.reference, halike.type.trans h.type,
    halike.allOf.trans h.allOf, halike.additional.trans h.additional, h.demands, ?_, ?_,
    fun hne => halike.items.trans (h.other hne)⟩
  · rw [halike.items]
    exact h.items
  · rw [halike.items]
    exact h.itemDemands

theorem Kept.constrain (h : Kept c.type s s₁) (hs : s.toFacts.demands = {})
    (hi : (s.items.getD {}).toFacts.demands = {}) : Written c none none s (constrain tag c s₁) := by
  have hs₁ : s₁.toFacts.demands = {} := h.demands.trans hs
  unfold Field.constrain onElement
  by_cases harray : c.type = "array"
  · rw [if_pos harray, if_pos harray]
    refine ⟨h.reference, h.type, h.allOf, h.additional, fun _ => ⟨hs₁, _, rfl, ?_, ?_⟩,
      fun hne => absurd harray hne⟩
    · exact h.items.trans (alike_constrainElement _)
    · exact demands_constrainElement (h.itemDemands.trans hi)
  · rw [if_neg harray, if_neg harray]
    have halike : s₁.Alike (constrainElement tag c s₁) := alike_constrainElement s₁
    exact ⟨halike.reference.trans h.reference, halike.type.trans h.type,
      halike.allOf.trans h.allOf, halike.additional.trans h.additional,
      fun h => absurd h harray,
      fun _ => ⟨halike.items.trans (h.other harray), demands_constrainElement hs₁⟩⟩

variable {missing sample : Option Json}

theorem Written.withDefault (h : Written c none sample s s₁) (v : Json) :
    Written c (some v) sample s { s₁ with defaultValue := some v } := by
  have hdemands : ({ s₁ with defaultValue := some v } : Schema).toFacts.demands =
      { s₁.toFacts.demands with defaultValue := some v } := rfl
  refine ⟨h.reference, h.type, h.allOf, h.additional, fun harray => ⟨?_, (h.array harray).2⟩,
    fun hne => ⟨(h.other hne).1, ?_⟩⟩
  · rw [hdemands, (h.array harray).1]
  · rw [hdemands, (h.other hne).2]

theorem Written.withExample (h : Written c missing none s s₁) (sample : Option Json)
    (readOnly : Bool) : Written c missing sample s
      { s₁ with exampleValue := sample <|> s₁.exampleValue, readOnly := readOnly } := by
  have hnone : s₁.exampleValue = none := by
    by_cases harray : c.type = "array"
    · exact congrArg Schema.Facts.exampleValue (h.array harray).1
    · exact congrArg Schema.Facts.exampleValue (h.other harray).2
  have hdemands : ({ s₁ with exampleValue := sample <|> s₁.exampleValue, readOnly := readOnly } :
      Schema).toFacts.demands = { s₁.toFacts.demands with exampleValue := sample } := by
    rw [hnone]
    cases sample with
    | none | some v => rfl
  refine ⟨h.reference, h.type, h.allOf, h.additional, fun harray => ⟨?_, (h.array harray).2⟩,
    fun hne => ⟨(h.other hne).1, ?_⟩⟩
  · rw [hdemands, (h.array harray).1]
  · rw [hdemands, (h.other hne).2]

variable {types : List String}

theorem Written.suit_array_iff (h : Written c missing sample s s') (harray : c.type = "array") :
    s'.toFacts.Suit types ↔ (∀ v ∈ missing, v.HasKind types) ∧ ∀ v ∈ sample, v.HasKind types := by
  have hdemands : s'.toFacts.demands =
      { ({} : Schema.Facts).demands with defaultValue := missing, exampleValue := sample } :=
    (h.array harray).1
  rw [Schema.Facts.suit_iff rfl rfl hdemands, and_iff_right (Schema.Facts.suit_of_demands rfl)]

theorem Written.suit_other_iff (h : Written c missing sample s s') (hne : c.type ≠ "array") :
    s'.toFacts.Suit types ↔ c.facts.Suit types ∧ (∀ v ∈ missing, v.HasKind types) ∧
      ∀ v ∈ sample, v.HasKind types := by
  have hdemands : s'.toFacts.demands =
      { c.facts.demands with defaultValue := missing, exampleValue := sample } := (h.other hne).2
  exact Schema.Facts.suit_iff rfl rfl hdemands

/-- Writing what a tag asks for puts the constraints in their place. -/
theorem written_of_write {zero : Option String} (hs : s.toFacts.demands = {})
    (hi : (s.items.getD {}).toFacts.demands = {}) (h : write f tag zero c s = .ok s') :
    ∃ missing sample, Written c missing sample s s' ∧
      (∀ v ∈ missing, ∃ value, defaultOf c value = .ok v) ∧
      exampleFor tag (isStringEncoded f) (zero.map .str) c = .ok sample := by
  unfold write at h
  obtain ⟨s₁, h₁, h⟩ := bind_eq_ok_iff.1 h
  obtain ⟨s₂, h₂, h⟩ := bind_eq_ok_iff.1 h
  obtain ⟨sample, hsample, h⟩ := bind_eq_ok_iff.1 h
  cases h
  have hwritten : Written c none none s (constrain tag c (addExtensions tag s₁)) :=
    (kept_addEnumNames h₁).addExtensions.constrain hs hi
  unfold addDefault at h₂
  dsimp only at h₂
  split at h₂
  · cases h₂
    exact ⟨none, sample, hwritten.withExample sample _, by simp, hsample⟩
  · obtain ⟨v, hv, rfl⟩ := map_eq_ok_iff.1 h₂
    refine ⟨some v, sample, (hwritten.withDefault v).withExample sample _, ?_, hsample⟩
    rintro w ⟨⟩
    exact ⟨_, hv⟩

/-! ### What does not fit -/

/-- The tag asks for something that is written to a schema it does not fit. -/
inductive Misplaced (f : Field) (tag : String) (s : Schema) (c : Constraints) : Prop
  /-- Bounds or admitted values of numbers or truth values that are written as strings. -/
  | encoded (hf : isStringEncoded f = true) (htype : c.type ∈ ["integer", "number", "boolean"])
      (h : c.facts.HasBounds ∨ c.enums ≠ []) : Misplaced f tag s c
  /-- An example for a list or a map, taken as the text that it would be written as. -/
  | sample (hf : isStringEncoded f = true) (htype : c.type = "array" ∨ c.type = "object")
      (h : (Tag.lookup? tag "example").isSome) : Misplaced f tag s c
  /-- Bounds and lengths for the values of a map, written to the map. -/
  | values (htype : c.type = "object") (h : c.facts.HasBounds ∨ c.facts.HasLengths) :
      Misplaced f tag s c
  /-- Bounds and lengths for items that stand elsewhere. -/
  | items (htype : c.type = "array") (hs : s.type = none)
      (h : c.facts.HasBounds ∨ c.facts.HasLengths) : Misplaced f tag s c

theorem encodedZero?_isSome_iff {type : String} :
    (encodedZero? type).isSome ↔ type ∈ Schema.simpleTypes := by
  unfold encodedZero?
  split
  · decide
  · decide
  · decide
  · decide
  · next h₁ h₂ h₃ h₄ => simpa [Schema.simpleTypes] using ⟨h₁, h₂, h₃, h₄⟩

namespace Constraints

/-- What is asked of values of a simple type fits them. -/
theorem Checked.suit_simple (hc : c.Checked) (htype : c.type ≠ "array") (hitem : c.itemType = "")
    (rest : List String) : c.facts.Suit (c.type :: rest) := by
  refine ⟨fun hb => ?_, fun hl => ?_, fun v hv => ?_, by simp [facts], by simp [facts]⟩
  · have hnumbers := hc.bounds hb
    rw [hasNumbers, hitem] at hnumbers
    simpa [isNumeric] using hnumbers
  · have hstrings := hc.lengths hl
    rw [hasStrings, hitem] at hstrings
    simpa using hstrings
  · have hsimple := hc.enums v hv
    rw [elementType, if_neg htype] at hsimple
    exact hsimple.hasKind rest

theorem Checked.suit_items (hc : c.Checked) {rest : List String} (htype : c.type = "array")
    (hitem : c.itemType = rest.headD "") : c.facts.Suit rest := by
  refine ⟨fun hb => ?_, fun hl => ?_, fun v hv => ?_, by simp [facts], by simp [facts]⟩
  · have hnumbers := hc.bounds hb
    rw [hasNumbers, htype, hitem] at hnumbers
    simpa [isNumeric] using hnumbers
  · have hstrings := hc.lengths hl
    rw [hasStrings, htype, hitem] at hstrings
    simpa using hstrings
  · have hsimple := hc.enums v hv
    rw [elementType, if_pos htype, hitem] at hsimple
    exact hasKind_of_items hsimple.hasKind

/-- What is asked of values that are written as strings fits those unless it is about numbers or
truth values. -/
theorem Checked.suit_string_iff (hc : c.Checked) (htype : c.type ∈ Schema.simpleTypes)
    (hitem : c.itemType = "") : c.facts.Suit ["string"] ↔
      ¬ (c.type ∈ ["integer", "number", "boolean"] ∧ (c.facts.HasBounds ∨ c.enums ≠ [])) := by
  have harray : c.type ≠ "array" := by
    intro h
    rw [h] at htype
    exact absurd htype (by decide)
  have hsuit := hc.suit_simple harray hitem []
  constructor
  · rintro h ⟨hother, hb | he⟩
    · have hnumeric := h.bounds hb
      exact absurd hnumeric (by decide)
    · obtain ⟨v, hv⟩ := List.exists_mem_of_ne_nil c.enums he
      have hstring := Json.hasKind_string_iff.1 (h.enums v hv)
      have hnamed := (hc.enums v hv).named
      rw [elementType, if_neg harray, hstring, List.mem_singleton] at hnamed
      rw [hnamed] at hother
      exact absurd hother (by decide)
  · intro h
    by_cases hstring : c.type = "string"
    · rwa [hstring] at hsuit
    have hother : c.type ∈ ["integer", "number", "boolean"] := by
      simpa [Schema.simpleTypes, hstring] using htype
    have hnone : c.enums = [] := by
      by_contra he
      exact h ⟨hother, .inr he⟩
    refine ⟨fun hb => absurd ⟨hother, .inl hb⟩ h, fun hl => absurd (hsuit.lengths hl) hstring,
      fun v hv => ?_, by simp [facts], by simp [facts]⟩
    have hmem : v ∈ c.enums := hv
    rw [hnone] at hmem
    cases hmem

end Constraints

end Field

namespace Resolver

/-- The constraints of a schema and of the schema of its items fit their types. -/
def Suits (g : Resolver) (s : Schema) : Prop :=
  (∀ types, g.TypesOf 2 s types → s.toFacts.Suit types) ∧
    ∀ i, s.items = some i → ∀ types, g.TypesOf 1 i types → i.toFacts.Suit types

variable {g : Resolver} {s i : Schema} {types inner : List String}

theorem suits_iff_of_none (h : g.TypesOf 2 s types) (hi : s.items = none) :
    g.Suits s ↔ s.toFacts.Suit types := by
  refine ⟨fun hfits => hfits.1 types h, fun hsuit => ⟨fun types' h' => ?_, fun i hsome => ?_⟩⟩
  · rwa [h.unique h']
  · cases hi.symm.trans hsome

theorem suits_iff_of_some (h : g.TypesOf 2 s types) (hi : s.items = some i)
    (hinner : g.TypesOf 1 i inner) : g.Suits s ↔ s.toFacts.Suit types ∧ i.toFacts.Suit inner := by
  refine ⟨fun hfits => ⟨hfits.1 types h, hfits.2 i hi inner hinner⟩, ?_⟩
  rintro ⟨hsuit, hsuit'⟩
  refine ⟨fun types' h' => ?_, fun i' hsome inner' h' => ?_⟩
  · rwa [h.unique h']
  · cases hi.symm.trans hsome
    rwa [hinner.unique h']

end Resolver

namespace Field

open Go (Field)

variable {g : Resolver} {f : Field} {tag : String} {c : Constraints} {s s' : Schema}
  {rest : List String}

theorem hasKind_defaultOf {value : String} {v : Json} (h : defaultOf c value = .ok v)
    (hitem : c.type = "array" → c.itemType = rest.headD "") : v.HasKind (c.type :: rest) := by
  unfold defaultOf at h
  split at h
  · next harray =>
    obtain ⟨vs, hvs, rfl⟩ := map_eq_ok_iff.1 h
    rw [harray]
    refine Json.hasKind_arr (forall_mem_of_mapM (fun _ w hw => hasKind_of_items fun more => ?_) hvs)
    rw [← hitem harray]
    exact (isSimple_valueOf hw).hasKind more
  · exact (isSimple_valueOf h).hasKind rest

theorem suits_encoded_iff {zero : String} {description : Option String} (hc : c.Checked)
    (hf : isStringEncoded f = true) (htype : c.type ∈ Schema.simpleTypes) (hitem : c.itemType = "")
    (h : write f tag (some zero) { c with type := "string" }
      { Schema.ofType "string" with description := description } = .ok s') :
    g.Suits s' ↔ ¬ Misplaced f tag s c := by
  obtain ⟨missing, sample, hwritten, hmissing, hsample⟩ := written_of_write rfl rfl h
  have hne : ({ c with type := "string" } : Constraints).type ≠ "array" :=
    show "string" ≠ "array" by decide
  have hitems := (hwritten.other hne).1
  have htypes : g.TypesOf 2 s' ["string"] := by
    refine .leaf ?_ hwritten.type ?_
    · rw [Schema.refName?, hwritten.reference]
      rfl
    · rw [hitems, hwritten.additional]
      rfl
  have hstring : ∀ v ∈ missing, v.HasKind ["string"] := by
    intro v hv
    obtain ⟨value, hvalue⟩ := hmissing v hv
    exact hasKind_defaultOf hvalue (by simp)
  have hexample : ∀ v ∈ sample, v.HasKind ["string"] := by
    intro v hv
    unfold exampleFor at hsample
    rw [hf] at hsample
    split at hsample
    · cases hsample
      cases hv
      exact Json.hasKind_string_iff.2 rfl
    · cases hsample
      cases hv
      exact Json.hasKind_string_iff.2 rfl
  have hsuit : s'.toFacts.Suit ["string"] ↔ c.facts.Suit ["string"] := by
    rw [hwritten.suit_other_iff hne, and_iff_left ⟨hstring, hexample⟩]
    rfl
  rw [Resolver.suits_iff_of_none htypes hitems, hsuit, hc.suit_string_iff htype hitem]
  refine not_congr ⟨fun h => .encoded hf h.1 h.2, fun h => ?_⟩
  cases h with
  | encoded _ hother hasked => exact ⟨hother, hasked⟩
  | sample _ hother => 
    rcases hother with hother | hother <;> rw [hother] at htype <;> exact absurd htype (by decide)
  | values hother | items hother => rw [hother] at htype; exact absurd htype (by decide)

theorem hasKind_exampleFor_iff {sample : Option Json}
    (hitem : c.type = "array" ∨ c.type = "object" → c.itemType = rest.headD "")
    (hf : isStringEncoded f = true → c.type ∉ Schema.simpleTypes)
    (h : exampleFor tag (isStringEncoded f) none c = .ok sample) :
    (∀ v ∈ sample, v.HasKind (c.type :: rest)) ↔
      ¬ (isStringEncoded f = true ∧ (c.type = "array" ∨ c.type = "object") ∧
        (Tag.lookup? tag "example").isSome) := by
  unfold exampleFor at h
  split at h
  · next hnone =>
    cases h
    simp [hnone]
  · next value hvalue =>
    split at h
    · next hencoded =>
      cases h
      have hstring : c.type ≠ "string" := by
        intro heq
        exact hf hencoded (heq ▸ by decide)
      have hkinds : c.type ∈ Json.kinds ↔ c.type = "array" ∨ c.type = "object" := by
        have hsimple := hf hencoded
        simp only [Json.kinds, List.mem_append]
        simp [hsimple]
      simp [hencoded, hvalue, Json.HasKind, Json.typeNames, Json.parts, hstring, hkinds]
    · next hplain =>
      obtain ⟨v, hv, rfl⟩ := map_eq_ok_iff.1 h
      have hkind := hasKind_exampleOf hitem hv
      simp [hplain, hkind]

/-- Apart from values that are written as strings there are three cases. -/
theorem misplaced_iff (hf : isStringEncoded f = true → c.type ∉ Schema.simpleTypes) :
    Misplaced f tag s c ↔ (isStringEncoded f = true ∧ (c.type = "array" ∨ c.type = "object") ∧
        (Tag.lookup? tag "example").isSome) ∨
      (c.type = "object" ∧ (c.facts.HasBounds ∨ c.facts.HasLengths)) ∨
      (c.type = "array" ∧ s.type = none ∧ (c.facts.HasBounds ∨ c.facts.HasLengths)) := by
  constructor
  · intro h
    cases h with
    | encoded hencoded htype =>
      have hsimple : c.type ∈ Schema.simpleTypes := by
        simp only [List.mem_cons] at htype
        simp only [Schema.simpleTypes, List.mem_cons]
        exact .inr htype
      exact absurd hsimple (hf hencoded)
    | sample hencoded htype h => exact .inl ⟨hencoded, htype, h⟩
    | values htype h => exact .inr (.inl ⟨htype, h⟩)
    | items htype hs h => exact .inr (.inr ⟨htype, hs, h⟩)
  · rintro (⟨hencoded, htype, h⟩ | ⟨htype, h⟩ | ⟨htype, hs, h⟩)
    · exact .sample hencoded htype h
    · exact .values htype h
    · exact .items htype hs h

theorem Constraints.Checked.suit_other_iff (hc : c.Checked) (hne : c.type ≠ "array")
    (hitem : c.type ≠ "object" → c.itemType = "") : c.facts.Suit (c.type :: rest) ↔
      ¬ (c.type = "object" ∧ (c.facts.HasBounds ∨ c.facts.HasLengths)) := by
  by_cases hobject : c.type = "object"
  · constructor
    · rintro h ⟨-, hb | hl⟩
      · have hnumeric : isNumeric c.type = true := h.bounds hb
        rw [hobject] at hnumeric
        exact absurd hnumeric (by decide)
      · have hstring : c.type = "string" := h.lengths hl
        rw [hobject] at hstring
        exact absurd hstring (by decide)
    · intro h
      refine ⟨fun hb => absurd ⟨hobject, .inl hb⟩ h, fun hl => absurd ⟨hobject, .inr hl⟩ h,
        fun v hv => ?_, by simp [facts], by simp [facts]⟩
      have hsimple := hc.enums v hv
      rw [elementType, if_neg hne] at hsimple
      exact hsimple.hasKind rest
  · exact iff_of_true (hc.suit_simple hne (hitem hobject) rest) fun h => hobject h.1

theorem Constraints.suit_any_iff :
    c.facts.Suit ["any"] ↔ ¬ (c.facts.HasBounds ∨ c.facts.HasLengths) := by
  constructor
  · rintro h (hb | hl)
    · exact absurd (h.bounds hb) (by decide)
    · exact absurd (h.lengths hl) (by decide)
  · intro h
    have hany : "any" ∉ Json.kinds := by decide
    exact ⟨fun hb => absurd (.inl hb) h, fun hl => absurd (.inr hl) h,
      fun v _ hmem => absurd hmem hany, by simp [facts], by simp [facts]⟩

section Plain

variable {missing sample : Option Json}

theorem Written.suits_other_iff (h : Written c missing sample s s') (hs : s.Bare)
    (htypes : g.TypesOf 2 s (c.type :: rest)) (hne : c.type ≠ "array") :
    g.Suits s' ↔ c.facts.Suit (c.type :: rest) ∧ (∀ v ∈ missing, v.HasKind (c.type :: rest)) ∧
      ∀ v ∈ sample, v.HasKind (c.type :: rest) := by
  have hitems := (h.other hne).1
  have htypes' : g.TypesOf 2 s' (c.type :: rest) :=
    htypes.of_alike ⟨h.reference, h.type, h.allOf, hitems, h.additional⟩
  have hnone : s.items = none := by
    refine hs.items_eq_none fun harray => ?_
    rcases htypes.of_typed hs.reference harray with ⟨_, _, -, -, heq⟩ | ⟨-, heq⟩
    · exact hne (List.cons.inj heq).1
    · exact hne (List.cons.inj heq).1
  rw [Resolver.suits_iff_of_none htypes' (hitems.trans hnone), h.suit_other_iff hne]

theorem Written.suits_array_iff (h : Written c missing sample s s') (hs : s.Bare)
    (htypes : g.TypesOf 2 s (c.type :: rest)) (hc : c.Checked) (harray : c.type = "array")
    (hitem : c.itemType = rest.headD "") :
    g.Suits s' ↔ ((∀ v ∈ missing, v.HasKind (c.type :: rest)) ∧
        ∀ v ∈ sample, v.HasKind (c.type :: rest)) ∧
      ¬ (s.type = none ∧ (c.facts.HasBounds ∨ c.facts.HasLengths)) := by
  obtain ⟨-, i', hi', halike, hdemands⟩ := h.array harray
  have hfacts : ∀ types, i'.toFacts.Suit types ↔ c.facts.Suit types := fun types =>
    Schema.Facts.suit_congr hdemands
  cases htype : s.type with
  | none =>
    -- The items are new, so nothing is known of their type.
    have hnone : s.items = none := hs.items_eq_none (by simp [htype])
    have htypes' : g.TypesOf 2 s' (c.type :: rest) :=
      htypes.congr h.reference h.type h.allOf (by rw [htype]; exact fun h => by cases h)
    have hany : g.TypesOf 1 i' ["any"] := by
      rw [hnone] at halike
      exact .any (by rw [Schema.refName?, halike.reference]; rfl) halike.type halike.allOf
    rw [Resolver.suits_iff_of_some htypes' hi' hany, h.suit_array_iff harray, hfacts,
      Constraints.suit_any_iff]
    simp
  | some type =>
    -- The items that there are keep their types.
    have hfirst : type = "array" := by
      rcases htypes.of_typed hs.reference htype with ⟨_, _, -, -, heq⟩ | ⟨-, heq⟩
      · exact (List.cons.inj heq).1.symm.trans harray
      · exact (List.cons.inj heq).1.symm.trans harray
    obtain ⟨i, hi⟩ := Option.isSome_iff_exists.1 (hs.items_iff.2 (hfirst ▸ htype))
    rw [hi, Option.getD_some] at halike
    have hinner : g.TypesOf 1 i rest := by
      rcases htypes.of_typed hs.reference htype with ⟨i₁, rest₁, hi₁, h₁, heq⟩ | ⟨hnone, -⟩
      · rw [hi] at hi₁
        cases hi₁
        rwa [(List.cons.inj heq).2]
      · rw [hi] at hnone
        cases hnone
    have htypes' : g.TypesOf 2 s' (c.type :: rest) := by
      refine htypes.congr h.reference h.type h.allOf fun _ => ?_
      rw [hi, hi']
      exact .some fun _ _ h => h.of_alike halike
    have hsuit : c.facts.Suit rest := hc.suit_items harray hitem
    rw [Resolver.suits_iff_of_some htypes' hi' (hinner.of_alike halike), h.suit_array_iff harray,
      hfacts, and_iff_left hsuit]
    simp

theorem suits_plain_iff (hs : s.Bare) (htypes : g.TypesOf 2 s (c.type :: rest)) (hc : c.Checked)
    (hitem : c.itemType = if c.type = "array" ∨ c.type = "object" then rest.headD "" else "")
    (hf : isStringEncoded f = true → c.type ∉ Schema.simpleTypes)
    (h : write f tag none c s = .ok s') : g.Suits s' ↔ ¬ Misplaced f tag s c := by
  have hparts : c.type = "array" ∨ c.type = "object" → c.itemType = rest.headD "" := by
    intro h
    rwa [if_pos h] at hitem
  obtain ⟨missing, sample, hwritten, hmissing, hsample⟩ :=
    written_of_write hs.demands hs.itemDemands h
  have hdefault : ∀ v ∈ missing, v.HasKind (c.type :: rest) := by
    intro v hv
    obtain ⟨value, hvalue⟩ := hmissing v hv
    exact hasKind_defaultOf hvalue fun harray => hparts (.inl harray)
  have hexample := hasKind_exampleFor_iff hparts hf hsample
  rw [misplaced_iff hf, not_or, not_or]
  by_cases harray : c.type = "array"
  · rw [hwritten.suits_array_iff hs htypes hc harray (hparts (.inl harray)),
      and_iff_right hdefault, hexample]
    simp [harray]
  · have hempty : c.type ≠ "object" → c.itemType = "" := by
      intro hobject
      rwa [if_neg (by simp [harray, hobject])] at hitem
    rw [hwritten.suits_other_iff hs htypes harray, and_iff_right hdefault, hexample,
      hc.suit_other_iff harray hempty]
    simp [harray, and_comm]

end Plain

theorem suits_writeEncoded_iff (hs : s.Bare) (htypes : g.TypesOf 2 s (c.type :: rest))
    (hc : c.Checked)
    (hitem : c.itemType = if c.type = "array" ∨ c.type = "object" then rest.headD "" else "")
    (h : writeEncoded f tag c (describe f s) = .ok s') : g.Suits s' ↔ ¬ Misplaced f tag s c := by
  unfold writeEncoded at h
  split at h
  · next zero hzero =>
    have hf : isStringEncoded f = true := by
      by_contra hplain
      cases (if_neg hplain).symm.trans hzero
    rw [if_pos hf] at hzero
    have htype : c.type ∈ Schema.simpleTypes := encodedZero?_isSome_iff.1 (by rw [hzero]; rfl)
    have hempty : c.itemType = "" := by
      have hparts : ¬ (c.type = "array" ∨ c.type = "object") := by
        rintro (h | h) <;> rw [h] at htype <;> exact absurd htype (by decide)
      rwa [if_neg hparts] at hitem
    exact suits_encoded_iff hc hf htype hempty h
  · next hzero =>
    have hf : isStringEncoded f = true → c.type ∉ Schema.simpleTypes := by
      intro hf htype
      rw [if_pos hf] at hzero
      have hsome := encodedZero?_isSome_iff.2 htype
      rw [hzero] at hsome
      cases hsome
    have htypes' : g.TypesOf 2 (describe f s) (c.type :: rest) :=
      htypes.of_alike ⟨rfl, rfl, rfl, rfl, rfl⟩
    rw [suits_plain_iff (hs.describe f) htypes' hc hitem hf h, misplaced_iff hf, misplaced_iff hf]
    rfl

end Field

namespace Resolver

variable {g : Resolver} {f : Go.Field} {s s' : Schema}

/-- What a field adds is read along the types of the schema. -/
theorem complementPlain_of_complement (href : s.reference = none) (h : g.complement f s = .ok s') :
    ∃ type rest, g.TypesOf 2 s (type :: rest) ∧ Field.complementPlain f s type rest = .ok s' := by
  unfold complement at h
  split at h
  · next types hpath =>
    have htypes := typesOf_of_typePathFrom hpath
    cases types with
    | nil => cases h
    | cons type rest =>
      rw [Field.complement, href] at h
      exact ⟨type, rest, htypes, h⟩
  · cases h

/-- **What a tag adds fits, except in the four cases**: if the tag of a field can be read along the
types of a schema that is no reference, the bounds are on numbers, the lengths on strings, and the
listed values on schemas of their types, exactly if nothing is misplaced. -/
theorem suits_complement_iff {t : TypeExpr} {file : FileId} {g₀ g₁ : Resolver}
    (hrun : (resolve t file).runOn g₀ = (.ok s, g₁)) (href : s.reference = none)
    (h : g.complement f s = .ok s') :
    g.Suits s' ↔ ¬ ∃ tag type rest c, f.tag = some tag ∧ g.TypesOf 2 s (type :: rest) ∧
      Field.Constraints.ofTag tag type rest = .ok c ∧ Field.Misplaced f tag s c := by
  have hbare : s.Bare := (resolved_of_resolve hrun).bare href
  obtain ⟨type, rest, htypes, h⟩ := complementPlain_of_complement href h
  cases htag : f.tag with
  | none =>
    have hs' : s' = Field.describe f s := by
      rw [Field.complementPlain, htag] at h
      exact (Except.ok.inj h).symm
    refine iff_of_true ⟨fun types _ => ?_, fun i hi types _ => ?_⟩ ?_
    · exact hs' ▸ Schema.Facts.suit_of_demands hbare.demands
    · have hdemands := (hbare.describe f).itemDemands
      rw [← hs', hi] at hdemands
      exact Schema.Facts.suit_of_demands hdemands
    · rintro ⟨tag, _, _, _, hsome, -⟩
      cases hsome
  | some tag =>
    rw [Field.complementPlain_eq htag] at h
    obtain ⟨c, hread, hwrite⟩ := bind_eq_ok_iff.1 h
    obtain ⟨hc, rfl, hitem⟩ := Field.Constraints.checked_ofTag hread
    rw [Field.suits_writeEncoded_iff hbare htypes hc hitem hwrite]
    refine not_congr ⟨fun hm => ⟨tag, c.type, rest, c, rfl, htypes, hread, hm⟩, ?_⟩
    rintro ⟨tag', type', rest', c', htag', htypes', hread', hm⟩
    cases htag'
    cases htypes.unique htypes'
    cases hread.symm.trans hread'
    exact hm

/-- A field for numbers under names, with the tag `maximum:"5"`. -/
def scoresField : Go.Field :=
  ⟨["Scores"], .map (.ident "string") (.ident "int"), some "maximum:\"5\"", none, none⟩

set_option maxRecDepth 100000 in
/-- The bound for the values of a map is written to the map, where it does not fit. -/
theorem suits_complement_iff_scores :
    let g := fresh {} {}
    ∃ s s', ((resolve scoresField.type 0).runOn g).1 = .ok s ∧
      g.complement scoresField s = .ok s' ∧ s'.type = some "object" ∧ s'.maximum.isSome ∧
      ¬ g.Suits s' := by
  intro g
  have hread : ((resolve scoresField.type 0).runOn g).1.toOption.map (fun s =>
      (s.reference, g.typePath? 2 s, (g.complement scoresField s).toOption.map fun s' =>
        (s'.type, s'.maximum.isSome))) =
      some (none, some ["object", "integer"], some (some "object", true)) := by decide +kernel
  have hmaximum : (Field.Constraints.ofTag "maximum:\"5\"" "object" ["integer"]).toOption.map
      (fun c => c.maximum.isSome) = some true := by decide +kernel
  obtain ⟨s, hs, hread⟩ := Option.map_eq_some_iff.1 hread
  obtain ⟨href, hread⟩ := Prod.mk.inj hread
  obtain ⟨htypes, hread⟩ := Prod.mk.inj hread
  obtain ⟨s', hs', hread⟩ := Option.map_eq_some_iff.1 hread
  obtain ⟨htype, hbound⟩ := Prod.mk.inj hread
  obtain ⟨c, hc, hsome⟩ := Option.map_eq_some_iff.1 hmaximum
  have hrun : (resolve scoresField.type 0).runOn g =
    (.ok s, ((resolve scoresField.type 0).runOn g).2) := Prod.ext (eq_ok_of_toOption hs) rfl
  have hcomplement := eq_ok_of_toOption hs'
  refine ⟨s, s', eq_ok_of_toOption hs, hcomplement, htype, hbound, ?_⟩
  rw [suits_complement_iff hrun href hcomplement, not_not]
  have htag := eq_ok_of_toOption hc
  have hobject : c.type = "object" := (Field.Constraints.checked_ofTag htag).2.1
  exact ⟨_, _, _, c, rfl, typesOf_of_typePathFrom htypes, htag, .values hobject (.inl (.inl hsome))⟩

end Resolver

end GoApiDoc
