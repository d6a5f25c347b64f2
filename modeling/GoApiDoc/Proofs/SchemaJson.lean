/-
Schemas read back from JSON.

A schema is written as an object: each keyword that is present is a member, and the further members
follow.  As a value the object has its members in the order of their names, not in the order in which
they are written.  So reading is followed member by member in any order: when some names have been
read, the schema read so far has the keywords with these names and no others.

* `Schema.ofJson?_toJson` — **a schema is read back from its JSON value**.
-/

import Mathlib
import GoApiDoc.Proofs.Table
import GoApiDoc.Proofs.Text
import GoApiDoc.Schema.Json

set_option autoImplicit false

namespace GoApiDoc

variable {b : Bool} {v : Json} {name : String} {ms : List (String × Json)} {t : Schema}

/-! ### The order of members -/

namespace Json

theorem canonicalItems_eq (vs : List Json) : canonicalItems vs = vs.map canonical := by
  induction vs with
  | nil => rfl
  | cons v vs ih => rw [canonicalItems, ih, List.map_cons]

theorem canonicalMembers_eq (ms : List (String × Json)) :
    canonicalMembers ms = Table.mapValues canonical ms := by
  induction ms with
  | nil => rfl
  | cons m ms ih =>
    obtain ⟨k, v⟩ := m
    rw [canonicalMembers, ih]
    rfl

/-- A change of values that rearranges the members of objects and leaves canonical values and tables
as they are. -/
structure Rearranging (f : Json → Json) : Prop where
  value : ∀ v, v.canonical = v → f v = v
  items : ∀ vs, f (.arr vs) = .arr (vs.map f)
  members : ∀ ms, (Table.keys ms).Nodup →
    ∃ ms', f (.obj ms) = .obj ms' ∧ ms'.Perm (Table.mapValues f ms)
  table : ∀ ms, Table.Sorted ms → f (.obj ms) = .obj (Table.mapValues f ms)

theorem rearranging_id : Rearranging id where
  value _ _ := rfl
  items vs := by simp
  members ms _ := ⟨ms, rfl, by simp [Table.mapValues]⟩
  table ms _ := by simp [Table.mapValues]

theorem rearranging_canonical : Rearranging canonical where
  value _ h := h
  items vs := by rw [canonical, canonicalItems_eq]
  members ms h := by
    refine ⟨_, by rw [canonical, canonicalMembers_eq], Table.perm_ofEntries ?_⟩
    rwa [Table.keys_mapValues]
  table ms h := by
    rw [canonical, canonicalMembers_eq, Table.ofEntries_eq_self (Table.sorted_mapValues _ h)]

end Json

/-! ### Parts of schemas -/

namespace Schema

/-- The keywords with a name of the list; the further members are those of the table. -/
def Facts.part (f : Facts) (K : List String) (E : Table Json) : Facts where
  reference := if "$ref" ∈ K then f.reference else none
  type := if "type" ∈ K then f.type else none
  format := if "format" ∈ K then f.format else none
  title := if "title" ∈ K then f.title else none
  description := if "description" ∈ K then f.description else none
  defaultValue := if "default" ∈ K then f.defaultValue else none
  exampleValue := if "example" ∈ K then f.exampleValue else none
  enumValues := if "enum" ∈ K then f.enumValues else []
  maximum := if "maximum" ∈ K then f.maximum else none
  minimum := if "minimum" ∈ K then f.minimum else none
  multipleOf := if "multipleOf" ∈ K then f.multipleOf else none
  maxLength := if "maxLength" ∈ K then f.maxLength else none
  minLength := if "minLength" ∈ K then f.minLength else none
  pattern := if "pattern" ∈ K then f.pattern else none
  maxItems := if "maxItems" ∈ K then f.maxItems else none
  minItems := if "minItems" ∈ K then f.minItems else none
  readOnly := if "readOnly" ∈ K then f.readOnly else false
  required := if "required" ∈ K then f.required else []
  extensions := E

/-- The schema with the keywords that have a name of the list; the further members are those of the
table. -/
def part (s : Schema) (K : List String) (E : Table Json) : Schema where
  toFacts := s.toFacts.part K E
  items := if "items" ∈ K then s.items else none
  allOf := if "allOf" ∈ K then s.allOf else []
  properties := if "properties" ∈ K then s.properties else []
  additional := if "additionalProperties" ∈ K then s.additional else none

/-! ### Members -/

section Members

variable {α : Type} {r : Json → Json} {name : String} {P : String × Json → Prop}

theorem mapValues_append (ms ms' : List (String × Json)) :
    Table.mapValues r (ms ++ ms') = Table.mapValues r ms ++ Table.mapValues r ms' :=
  List.map_append

theorem forall_mem_optional {g : α → Json} {x : Option α} :
    (∀ m ∈ Table.mapValues r (Json.optional name g x), P m) ↔
      ∀ a, x = some a → P (name, r (g a)) := by
  cases x with
  | none | some a => simp [Json.optional, Table.mapValues]

theorem forall_mem_unlessEmpty {g : List α → Json} {x : List α} :
    (∀ m ∈ Table.mapValues r (Json.unlessEmpty name g x), P m) ↔ x ≠ [] → P (name, r (g x)) := by
  cases x with
  | nil | cons a x => simp [Json.unlessEmpty, Table.mapValues]

theorem forall_mem_whenTrue : (∀ m ∈ Table.mapValues r (Json.whenTrue name b), P m) ↔
      (b = true → P (name, r (.bool true))) := by
  cases b with
  | false | true => simp [Json.whenTrue, Table.mapValues]

theorem optionMember_eq (x : Option Schema) : optionMember name x = Json.optional name toJson x := by
  cases x <;> rfl

end Members

/-- The values that a schema holds and does not interpret. -/
def Facts.values (f : Facts) : List Json :=
  f.defaultValue.toList ++ f.exampleValue.toList ++ f.enumValues ++ f.extensions.values

/-- The keywords hold nothing that is lost in JSON.  The last three conditions are about the values
themselves: tables are in order, values have sorted members and finite numbers, and lengths are
integers of 64 bits. -/
structure Facts.Writable (f : Facts) : Prop where
  vendor : ∀ e ∈ f.extensions, Text.hasPrefix "x-" e.1 = true
  defaultValue : f.defaultValue ≠ some .null
  exampleValue : f.exampleValue ≠ some .null
  finite : ∀ x, f.maximum = some x ∨ f.minimum = some x ∨ f.multipleOf = some x → x.isFinite = true
  sorted : f.extensions.Sorted
  canonical : ∀ v ∈ f.values, v.canonical = v
  lengths : ∀ i, f.maxLength = some i ∨ f.minLength = some i ∨ f.maxItems = some i ∨
    f.minItems = some i → -(2 ^ 63) ≤ i ∧ i < 2 ^ 63

variable {f : Facts} {r : Json → Json} {K : List String} {E : Table Json}

theorem readOption_some (h : v ≠ .null) : readOption some v = some (some v) := by
  cases v with
  | null => exact absurd rfl h
  | _ => rfl

/-- **Each member of the keywords is read as the keyword with its name.** -/
theorem Facts.addMember_part (hf : f.Writable) (hr : Json.Rearranging r) :
    ∀ m ∈ Table.mapValues r f.members,
      (f.part K E).addMember m.1 m.2 = some (f.part (m.1 :: K) E) := by
  simp only [Facts.members, mapValues_append, List.forall_mem_append, forall_mem_optional,
    forall_mem_unlessEmpty, forall_mem_whenTrue, and_assoc]
  refine ⟨?reference, ?type, ?format, ?title, ?description, ?defaultValue, ?exampleValue, ?enumValues,
    ?maximum, ?minimum, ?multipleOf, ?maxLength, ?minLength, ?pattern, ?maxItems, ?minItems, ?readOnly⟩
  case reference | type | format | title | description | pattern =>
    intro a ha
    rw [hr.value _ rfl]
    simp [addMember, readStr, readOption, Json.str?, part, ha]
  case defaultValue =>
    intro a ha
    have hread := readOption_some fun h => hf.defaultValue (h ▸ ha)
    rw [id, hr.value _ (hf.canonical a (by simp [values, ha]))]
    simp [addMember, hread, part, ha]
  case exampleValue =>
    intro a ha
    have hread := readOption_some fun h => hf.exampleValue (h ▸ ha)
    rw [id, hr.value _ (hf.canonical a (by simp [values, ha]))]
    simp [addMember, hread, part, ha]
  case enumValues =>
    intro _
    have hmap : f.enumValues.map r = f.enumValues :=
      (List.map_congr_left fun v hv => hr.value v (hf.canonical v (by simp [values, hv]))).trans
        (List.map_id _)
    rw [hr.items, hmap]
    simp [addMember, part]
  case maximum | minimum | multipleOf =>
    intro a ha
    have hfinite : (Json.double a).canonical = .double a := if_pos (hf.finite a (by simp [ha]))
    rw [hr.value _ hfinite]
    simp [addMember, readNumber, readOption, part, ha]
  case maxLength | minLength | maxItems | minItems =>
    intro a ha
    have hrange : -(Int.pow 2 63) ≤ a ∧ a < Int.pow 2 63 := hf.lengths a (by simp [ha])
    rw [hr.value _ rfl]
    simp only [addMember, readInt, readOption, if_pos hrange, Option.map_some]
    simp [part, ha]
  case readOnly =>
    intro ha
    rw [hr.value _ rfl]
    simp [addMember, part, ha]

/-! ### Keywords and further members -/

/-- The names of the keywords that are written before the schemas in a schema. -/
def factKeywords : List String :=
  ["$ref", "type", "format", "title", "description", "default", "example", "enum", "maximum",
    "minimum", "multipleOf", "maxLength", "minLength", "pattern", "maxItems", "minItems", "readOnly"]

/-- The names of the keywords, in the order in which they are written. -/
def keywords : List String :=
  factKeywords ++ ["items", "allOf", "properties", "additionalProperties", "required"]

theorem Facts.mem_factKeywords : ∀ m ∈ Table.mapValues r f.members, m.1 ∈ factKeywords := by
  simp only [members, mapValues_append, List.forall_mem_append, forall_mem_optional,
    forall_mem_unlessEmpty, forall_mem_whenTrue]
  simp [factKeywords]

/-- No extension is named like a keyword. -/
theorem ne_of_mem_keywords {key : String} (hname : Text.hasPrefix "x-" name = true)
    (hkey : key ∈ keywords) : key ≠ name := by
  have hall : ∀ key ∈ keywords, Text.hasPrefix "x-" key = false := by decide +kernel
  rintro rfl
  rw [hall key hkey] at hname
  cases hname

theorem Facts.addMember_vendor (hname : Text.hasPrefix "x-" name = true) (v : Json) :
    (f.part K E).addMember name v = some (f.part (name :: K) (E.insert name v)) := by
  have hne : ∀ key ∈ keywords, key ≠ name := fun key hkey => ne_of_mem_keywords hname hkey
  simp only [keywords, factKeywords, List.cons_append, List.nil_append, List.forall_mem_cons] at hne
  unfold addMember
  split
  case h_19 => simp [part, hne]
  all_goals exact absurd hname (by decide)

section Names

variable {α : Type} (name : String)

theorem keys_append (ms ms' : List (String × Json)) :
    Table.keys (ms ++ ms') = Table.keys ms ++ Table.keys ms' :=
  List.map_append

theorem keys_optional (g : α → Json) (x : Option α) :
    (Table.keys (Json.optional name g x)).Sublist [name] := by
  cases x with
  | none => exact List.nil_sublist _
  | some a => exact List.Sublist.refl _

theorem keys_unlessEmpty (g : List α → Json) (x : List α) :
    (Table.keys (Json.unlessEmpty name g x)).Sublist [name] := by
  cases x with
  | nil => exact List.nil_sublist _
  | cons a x => exact List.Sublist.refl _

theorem keys_whenTrue (b : Bool) : (Table.keys (Json.whenTrue name b)).Sublist [name] := by
  cases b with
  | false => exact List.nil_sublist _
  | true => exact List.Sublist.refl _

end Names

/-- The members for the keywords. -/
def keywordMembers (s : Schema) : List (String × Json) :=
  s.toFacts.members ++ Json.optional "items" toJson s.items ++
    Json.unlessEmpty "allOf" .arr (listJson s.allOf) ++
    Json.unlessEmpty "properties" .obj (propertyMembers s.properties) ++
    Json.optional "additionalProperties" toJson s.additional ++
    Json.unlessEmpty "required" Json.strs s.required

theorem toJson_eq (s : Schema) : s.toJson = .obj (s.keywordMembers ++ s.extensions) := by
  obtain ⟨facts, items, allOf, properties, additional⟩ := s
  rw [toJson, optionMember_eq, optionMember_eq]
  rfl

theorem keys_keywordMembers (s : Schema) : (Table.keys s.keywordMembers).Sublist keywords := by
  have htexts := (keys_optional "$ref" .str s.reference).append (keys_optional "type" .str s.type)
    |>.append (keys_optional "format" .str s.format)
    |>.append (keys_optional "title" .str s.title)
    |>.append (keys_optional "description" .str s.description)
  have hvalues := htexts.append (keys_optional "default" id s.defaultValue)
    |>.append (keys_optional "example" id s.exampleValue)
    |>.append (keys_unlessEmpty "enum" .arr s.enumValues)
  have hbounds := hvalues.append (keys_optional "maximum" .double s.maximum)
    |>.append (keys_optional "minimum" .double s.minimum)
    |>.append (keys_optional "multipleOf" .double s.multipleOf)
    |>.append (keys_optional "maxLength" .int s.maxLength)
    |>.append (keys_optional "minLength" .int s.minLength)
    |>.append (keys_optional "pattern" .str s.pattern)
    |>.append (keys_optional "maxItems" .int s.maxItems)
    |>.append (keys_optional "minItems" .int s.minItems)
  have hnested := hbounds.append (keys_whenTrue "readOnly" s.readOnly)
    |>.append (keys_optional "items" toJson s.items)
    |>.append (keys_unlessEmpty "allOf" .arr (listJson s.allOf))
    |>.append (keys_unlessEmpty "properties" .obj (propertyMembers s.properties))
    |>.append (keys_optional "additionalProperties" toJson s.additional)
    |>.append (keys_unlessEmpty "required" Json.strs s.required)
  simp only [keywordMembers, Facts.members, keys_append]
  exact hnested

/-! ### Schemas at every depth -/

/-- The schema and all schemas in it hold nothing that is lost in JSON, and their properties are in
order. -/
inductive Writable : Schema → Prop where
  | mk {s : Schema} (hfacts : s.toFacts.Writable) (hsorted : Table.Sorted s.properties)
    (hitems : ∀ t, s.items = some t → Writable t) (hallOf : ∀ t ∈ s.allOf, Writable t)
    (hproperties : ∀ e ∈ s.properties, Writable e.2)
    (hadditional : ∀ t, s.additional = some t → Writable t) : Writable s

variable {s : Schema} {α : Type}

theorem listJson_eq (ss : List Schema) : listJson ss = ss.map toJson := by
  induction ss with
  | nil => rfl
  | cons s ss ih => rw [listJson, ih, List.map_cons]

theorem propertyMembers_eq (ps : List (String × Schema)) :
    propertyMembers ps = Table.mapValues toJson ps := by
  induction ps with
  | nil => rfl
  | cons e ps ih =>
    obtain ⟨name, s⟩ := e
    rw [propertyMembers, ih]
    rfl

theorem nodup_keys_members (hfacts : s.toFacts.Writable) :
    (Table.keys (s.keywordMembers ++ s.extensions)).Nodup := by
  have hkeywords : keywords.Nodup := by decide +kernel
  rw [keys_append, List.nodup_append]
  refine ⟨hkeywords.sublist (keys_keywordMembers s), Table.nodup_keys hfacts.sorted, ?_⟩
  intro key hkey name hname
  obtain ⟨e, he, rfl⟩ := List.mem_map.1 hname
  exact ne_of_mem_keywords (hfacts.vendor e he) ((keys_keywordMembers s).subset hkey)

/-- The member is read: it is passed, and the part read so far grows by it. -/
def ReadsMember (s : Schema) (m : String × Json) : Prop :=
  ∀ K E ms, addMembers (s.part K E) (m :: ms) =
    addMembers (s.part (m.1 :: K) (if Text.hasPrefix "x-" m.1 then E.insert m.1 m.2 else E)) ms

/-- The keywords whose values are schemas. -/
def nestedKeywords : List String := ["items", "additionalProperties", "allOf", "properties"]

theorem addMembers_of_addMember (hname : name ∉ nestedKeywords)
    (h : s.toFacts.addMember name v = some f) :
    addMembers s ((name, v) :: ms) = addMembers { s with toFacts := f } ms := by
  simp only [nestedKeywords, List.mem_cons, List.not_mem_nil, or_false, not_or] at hname
  rw [addMembers]
  · rw [h]
  all_goals simp_all

/-- A keyword without schemas leaves the schemas as they are. -/
theorem part_cons (hname : name ∉ nestedKeywords) {E' : Table Json} :
    { s.part K E with toFacts := s.toFacts.part (name :: K) E' } = s.part (name :: K) E' := by
  simp only [nestedKeywords, List.mem_cons, List.not_mem_nil, or_false, not_or, ← ne_eq] at hname
  simp [part, hname.1.symm, hname.2.1.symm, hname.2.2.1.symm, hname.2.2.2.symm]

theorem Facts.part_cons (hname : name ∈ nestedKeywords) : f.part (name :: K) E = f.part K E := by
  simp only [nestedKeywords, List.mem_cons, List.not_mem_nil, or_false] at hname
  rcases hname with rfl | rfl | rfl | rfl <;> simp [Facts.part]

theorem not_vendor_of_mem_keywords (hname : name ∈ keywords) : ¬Text.hasPrefix "x-" name = true :=
  fun h => ne_of_mem_keywords h hname rfl

theorem readsMember_of_fact (hname : name ∈ keywords) (hnested : name ∉ nestedKeywords)
    (h : ∀ K E, (s.toFacts.part K E).addMember name v = some (s.toFacts.part (name :: K) E)) :
    ReadsMember s (name, v) := by
  intro K E ms
  rw [addMembers_of_addMember hnested (h K E), part_cons hnested,
    if_neg (not_vendor_of_mem_keywords hname)]

theorem readsMember_vendor (hname : Text.hasPrefix "x-" name = true) (v : Json) :
    ReadsMember s (name, v) := by
  intro K E ms
  have hnested : name ∉ nestedKeywords := by
    intro hmem
    have hsub : nestedKeywords ⊆ keywords := by decide
    exact not_vendor_of_mem_keywords (hsub hmem) hname
  rw [addMembers_of_addMember hnested (Facts.addMember_vendor hname v), part_cons hnested,
    if_pos hname]

theorem readsMember_of_nested (hname : name ∈ nestedKeywords)
    (h : ∀ K E ms, addMembers (s.part K E) ((name, v) :: ms) =
      addMembers { s.part (name :: K) E with toFacts := s.toFacts.part K E } ms) :
    ReadsMember s (name, v) := by
  intro K E ms
  have hsub : nestedKeywords ⊆ keywords := by decide
  have hpart : s.toFacts.part K E = (s.part (name :: K) E).toFacts := (Facts.part_cons hname).symm
  rw [h, hpart, if_neg (not_vendor_of_mem_keywords (hsub hname))]
  rfl

theorem readStrs_strs (items : List String) : readStrs (Json.strs items) = some items := by
  rw [Json.strs, readStrs]
  induction items with
  | nil => rfl
  | cons item items ih => simp [Json.str?, ih]

theorem readsMember_required (hr : Json.Rearranging r) :
    ReadsMember s ("required", r (Json.strs s.required)) := by
  have hcanonical : (Json.strs s.required).canonical = Json.strs s.required := by
    rw [Json.strs, Json.canonical, Json.canonicalItems_eq, List.map_map]
    rfl
  rw [hr.value _ hcanonical]
  refine readsMember_of_fact (by decide) (by decide) fun K E => ?_
  simp only [Facts.addMember, readStrs_strs]
  simp [Facts.part]

/-! ### Nested schemas -/

/-- The schema is read back from its value with members in any order. -/
def ReadsBack (r : Json → Json) (s : Schema) : Prop :=
  ∃ ms, r s.toJson = .obj ms ∧ addMembers {} ms = some s

theorem ReadsBack.ofJson?_eq (h : ReadsBack r s) : ofJson? (r s.toJson) = some s := by
  obtain ⟨ms, hobj, hread⟩ := h
  rw [hobj, ofJson?, hread]

theorem ofItems?_map {ss : List Schema} (h : ∀ t ∈ ss, ReadsBack r t) :
    ofItems? ((ss.map toJson).map r) = some ss := by
  induction ss with
  | nil => rfl
  | cons t ss ih =>
    have ht := (h t (.head _)).ofJson?_eq
    have hss := ih fun u hu => h u (.tail _ hu)
    simp only [List.map_cons, ofItems?, ht, hss]

theorem ofProperties?_mapValues {ps : List (String × Schema)} (h : ∀ e ∈ ps, ReadsBack r e.2) :
    ofProperties? (Table.mapValues r (Table.mapValues toJson ps)) = some ps := by
  induction ps with
  | nil => rfl
  | cons e ps ih =>
    have he := (h e (.head _)).ofJson?_eq
    have hps := ih fun e' he' => h e' (.tail _ he')
    simp only [Table.mapValues, List.map_cons, ofProperties?, he] at hps ⊢
    rw [hps]

theorem readsMember_items (ht : ReadsBack r t) (hitems : s.items = some t) :
    ReadsMember s ("items", r t.toJson) := by
  obtain ⟨ms', hobj, hread⟩ := ht
  refine readsMember_of_nested (by decide) fun K E ms => ?_
  simp [hobj, addMembers, ofJson?, hread, part, hitems]

theorem readsMember_additional (ht : ReadsBack r t) (hadditional : s.additional = some t) :
    ReadsMember s ("additionalProperties", r t.toJson) := by
  obtain ⟨ms', hobj, hread⟩ := ht
  refine readsMember_of_nested (by decide) fun K E ms => ?_
  simp [hobj, addMembers, ofJson?, hread, part, hadditional]

theorem readsMember_allOf (hr : Json.Rearranging r) (h : ∀ t ∈ s.allOf, ReadsBack r t) :
    ReadsMember s ("allOf", r (.arr (listJson s.allOf))) := by
  refine readsMember_of_nested (by decide) fun K E ms => ?_
  rw [hr.items, listJson_eq, addMembers, ofItems?_map h]
  simp [part]

theorem readsMember_properties (hr : Json.Rearranging r) (hsorted : Table.Sorted s.properties)
    (h : ∀ e ∈ s.properties, ReadsBack r e.2) :
    ReadsMember s ("properties", r (.obj (propertyMembers s.properties))) := by
  refine readsMember_of_nested (by decide) fun K E ms => ?_
  rw [propertyMembers_eq, hr.table _ (Table.sorted_mapValues _ hsorted)]
  simp [addMembers, ofProperties?_mapValues h, part]

/-! ### Whole schemas -/

/-- **Each member of a schema is read**, given that the schemas in it are read back. -/
theorem readsMember_of_mem (hr : Json.Rearranging r) (hfacts : s.toFacts.Writable)
    (hsorted : Table.Sorted s.properties) (hitems : ∀ t, s.items = some t → ReadsBack r t)
    (hallOf : ∀ t ∈ s.allOf, ReadsBack r t) (hproperties : ∀ e ∈ s.properties, ReadsBack r e.2)
    (hadditional : ∀ t, s.additional = some t → ReadsBack r t) :
    ∀ m ∈ Table.mapValues r (s.keywordMembers ++ s.extensions), ReadsMember s m := by
  simp only [keywordMembers, mapValues_append, List.forall_mem_append, forall_mem_optional,
    forall_mem_unlessEmpty, and_assoc]
  refine ⟨?facts, fun t ht => readsMember_items (hitems t ht) ht, fun _ => readsMember_allOf hr hallOf,
    fun _ => readsMember_properties hr hsorted hproperties,
    fun t ht => readsMember_additional (hadditional t ht) ht, fun _ => readsMember_required hr,
    ?extensions⟩
  case facts =>
    intro m hm
    have hkeywords : ∀ name ∈ factKeywords, name ∈ keywords ∧ name ∉ nestedKeywords := by
      decide +kernel
    obtain ⟨hname, hnested⟩ := hkeywords m.1 (Facts.mem_factKeywords m hm)
    exact readsMember_of_fact hname hnested fun K E => Facts.addMember_part hfacts hr m hm
  case extensions =>
    intro m hm
    obtain ⟨e, he, rfl⟩ := List.mem_map.1 hm
    exact readsMember_vendor (hfacts.vendor e he) _

/-- **Reading members completes a part.** -/
theorem addMembers_part (h : ∀ m ∈ ms, ReadsMember s m) :
    addMembers (s.part K E) ms = some (s.part ((Table.keys ms).reverse ++ K)
      (E.extend (ms.filter fun m => Text.hasPrefix "x-" m.1))) := by
  induction ms generalizing K E with
  | nil => rfl
  | cons m ms ih =>
    rw [h m List.mem_cons_self, ih fun m' hm' => h m' (List.mem_cons_of_mem _ hm')]
    by_cases hm : Text.hasPrefix "x-" m.1 = true
    · simp [hm, Table.keys, Table.extend]
    · simp [hm, Table.keys]

theorem ite_optional {g : α → Json} {x : Option α}
    (h : ∀ m ∈ Json.optional name g x, m.1 ∈ K) : (if name ∈ K then x else none) = x := by
  cases x with
  | none => simp
  | some a => exact if_pos (h _ (.head _))

theorem ite_unlessEmpty {β : Type} {g : List α → Json} {x : List α} {y : List β}
    (h : ∀ m ∈ Json.unlessEmpty name g x, m.1 ∈ K) (hy : x = [] → y = []) :
    (if name ∈ K then y else []) = y := by
  cases x with
  | nil => simp [hy rfl]
  | cons a x => exact if_pos (h _ (.head _))

theorem ite_whenTrue (h : ∀ m ∈ Json.whenTrue name b, m.1 ∈ K) :
    (if name ∈ K then b else false) = b := by
  cases b with
  | false => simp
  | true => exact if_pos (h _ (.head _))

theorem part_eq_self (h : ∀ m ∈ s.keywordMembers, m.1 ∈ K) : s.part K s.extensions = s := by
  simp only [keywordMembers, Facts.members, List.forall_mem_append, and_assoc] at h
  obtain ⟨href, htype, hformat, htitle, hdescription, hdefault, hexample, henum, hmaximum, hminimum,
    hmultiple, hmaxLength, hminLength, hpattern, hmaxItems, hminItems, hreadOnly, hitems, hallOf,
    hproperties, hadditional, hrequired⟩ := h
  have hallOf' := ite_unlessEmpty (y := s.allOf) hallOf (by simp [listJson_eq])
  have hproperties' := ite_unlessEmpty (y := s.properties) hproperties
    (by simp [propertyMembers_eq, Table.mapValues])
  simp only [part, Facts.part, ite_optional href, ite_optional htype, ite_optional hformat,
    ite_optional htitle, ite_optional hdescription, ite_optional hdefault, ite_optional hexample,
    ite_unlessEmpty henum id, ite_optional hmaximum, ite_optional hminimum, ite_optional hmultiple,
    ite_optional hmaxLength, ite_optional hminLength, ite_optional hpattern, ite_optional hmaxItems,
    ite_optional hminItems, ite_whenTrue hreadOnly, ite_optional hitems, hallOf', hproperties',
    ite_optional hadditional, ite_unlessEmpty hrequired id]
  obtain ⟨facts, items, allOf, properties, additional⟩ := s
  rfl

theorem filter_members (hr : Json.Rearranging r) (hfacts : s.toFacts.Writable) :
    (Table.mapValues r (s.keywordMembers ++ s.extensions)).filter
      (fun m => Text.hasPrefix "x-" m.1) = s.extensions := by
  have hkeywords : (Table.mapValues r s.keywordMembers).filter
      (fun m => Text.hasPrefix "x-" m.1) = [] := by
    refine List.filter_eq_nil_iff.2 fun m hm => ?_
    have hkey := Table.mem_keys_of_mem hm
    rw [Table.keys_mapValues] at hkey
    exact not_vendor_of_mem_keywords ((keys_keywordMembers s).subset hkey)
  have hextensions : Table.mapValues r s.extensions = s.extensions := by
    refine (List.map_congr_left fun e he => ?_).trans (List.map_id _)
    have hvalue : e.2 ∈ s.toFacts.values := by
      simp only [Facts.values, List.mem_append]
      exact .inr (List.mem_map.2 ⟨e, he, rfl⟩)
    rw [hr.value _ (hfacts.canonical _ hvalue)]
    rfl
  rw [mapValues_append, List.filter_append, hkeywords, hextensions, List.nil_append]
  exact List.filter_eq_self.2 hfacts.vendor

theorem Writable.readsBack (hr : Json.Rearranging r) (h : s.Writable) : ReadsBack r s := by
  induction h with
  | @mk s hfacts hsorted hitems hallOf hproperties hadditional ihitems ihallOf ihproperties
      ihadditional =>
    obtain ⟨ms, hobj, hperm⟩ := hr.members _ (nodup_keys_members hfacts)
    refine ⟨ms, by rw [toJson_eq, hobj], ?_⟩
    have hreads : ∀ m ∈ ms, ReadsMember s m := fun m hm =>
      readsMember_of_mem hr hfacts hsorted ihitems ihallOf ihproperties ihadditional m
        (hperm.mem_iff.1 hm)
    have hextend : Table.extend [] (ms.filter fun m => Text.hasPrefix "x-" m.1) =
        s.extensions := by
      have hfilter := hperm.filter fun m => Text.hasPrefix "x-" m.1
      rw [filter_members hr hfacts] at hfilter
      have hnodup : (Table.keys (ms.filter fun m => Text.hasPrefix "x-" m.1)).Nodup :=
        (hfilter.map _).nodup_iff.2 (Table.nodup_keys hfacts.sorted)
      exact Table.eq_of_perm ((Table.perm_ofEntries hnodup).trans hfilter)
        (Table.sorted_extend .nil _) hfacts.sorted
    have hkeys : ∀ m ∈ s.keywordMembers, m.1 ∈ (Table.keys ms).reverse ++ [] := by
      intro m hm
      have hkey : m.1 ∈ Table.keys (Table.mapValues r (s.keywordMembers ++ s.extensions)) := by
        rw [Table.keys_mapValues]
        exact Table.mem_keys_of_mem (List.mem_append_left _ hm)
      rw [List.append_nil, List.mem_reverse]
      exact (hperm.map _).mem_iff.2 hkey
    have hstart : ({} : Schema) = s.part [] [] := by simp [part, Facts.part]
    rw [hstart, addMembers_part hreads, hextend, part_eq_self hkeys]

/-- **A schema is read back from its JSON**, as it is written and as the value that it denotes. -/
theorem ofJson?_toJson (h : s.Writable) :
    ofJson? s.toJson = some s ∧ ofJson? s.toJson.canonical = some s :=
  ⟨(h.readsBack Json.rearranging_id).ofJson?_eq, (h.readsBack Json.rearranging_canonical).ofJson?_eq⟩

/-- An object with an extension and a property: an array of at most ten references, with a default
value. -/
theorem ofJson?_toJson_nested :
    let list : Schema := { array (ref "Item") with
      defaultValue := some (.arr []), maximum := some (Double.ofInt 5), maxItems := some 10 }
    let s : Schema := { object with
      properties := [("list", list)], required := ["list"]
      extensions := [("x-order", .obj [("a", .int 1)])] }
    s.Writable ∧ ofJson? s.toJson = some s ∧ ofJson? s.toJson.canonical = some s := by
  intro list s
  have href : (ref "Item").Writable := by
    refine .mk ?_ .nil ?_ ?_ ?_ ?_
    · constructor <;> simp [ref, Facts.values, Table.Sorted, Table.values]
    all_goals simp [ref]
  have hlist : list.Writable := by
    refine .mk ?_ .nil ?_ ?_ ?_ ?_
    · have hfinite : (Double.ofInt 5).isFinite = true := by decide +kernel
      constructor <;>
        simp [list, array, Facts.values, Table.Sorted, Table.values, Json.canonical,
          Json.canonicalItems, hfinite]
    · simpa [list, array] using href
    all_goals simp [list, array]
  have hs : s.Writable := by
    refine .mk ?_ (by simp [s, Table.Sorted]) ?_ ?_ ?_ ?_
    · have hvendor : Text.hasPrefix "x-" "x-order" = true := by decide +kernel
      constructor <;>
        simp [s, object, ofType, Facts.values, Table.Sorted, Table.values, Json.canonical,
          Json.canonicalMembers, Table.ofEntries, Table.extend, Table.insert, hvendor]
    · simp [s, object, ofType]
    · simp [s, object, ofType]
    · simpa [s] using hlist
    · simp [s, object, ofType]
  exact ⟨hs, ofJson?_toJson hs⟩

end Schema

end GoApiDoc
