/-
Members of objects.

An object of a document has members with fixed names, which stand there if they have a value, and
further members behind them.  It names no member twice if the fixed names differ, the further
members are a table, and no name of that table is one of a member before it.

* `Json.Fixed.distinct_further_iff` — **the object of them with further members**.
-/

import GoApiDoc.Json.Reader
import GoApiDoc.Proofs.Outcome
import GoApiDoc.Proofs.SchemaJson

set_option autoImplicit false

namespace GoApiDoc

variable {t : Table Json} {v : Json} {word : String} {α : Type}

/-! ### Values that name no member twice -/

namespace Json

mutual

/-- In every object each name belongs to one member only. -/
def Distinct : Json → Prop
  | null | bool _ | int _ | double _ | str _ => True
  | arr items => DistinctItems items
  | obj members => (Table.keys members).Nodup ∧ DistinctMembers members

/-- The items of an array name no member twice. -/
def DistinctItems : List Json → Prop
  | [] => True
  | v :: vs => v.Distinct ∧ DistinctItems vs

/-- The values of members name no member twice. -/
def DistinctMembers : List (String × Json) → Prop
  | [] => True
  | (_, v) :: ms => v.Distinct ∧ DistinctMembers ms

end

mutual

/-- Whether a value names a member twice is decided by recursion. -/
def decideDistinct : ∀ v : Json, Decidable v.Distinct
  | null | bool _ | int _ | double _ | str _ => .isTrue trivial
  | arr items => decideItems items
  | obj members =>
    have : Decidable (DistinctMembers members) := decideMembers members
    inferInstanceAs (Decidable ((Table.keys members).Nodup ∧ DistinctMembers members))

/-- The same for the items of an array. -/
def decideItems : ∀ vs : List Json, Decidable (DistinctItems vs)
  | [] => .isTrue trivial
  | v :: vs =>
    have : Decidable v.Distinct := decideDistinct v
    have : Decidable (DistinctItems vs) := decideItems vs
    inferInstanceAs (Decidable (v.Distinct ∧ DistinctItems vs))

/-- The same for the values of members. -/
def decideMembers : ∀ ms : List (String × Json), Decidable (DistinctMembers ms)
  | [] => .isTrue trivial
  | (_, v) :: ms =>
    have : Decidable v.Distinct := decideDistinct v
    have : Decidable (DistinctMembers ms) := decideMembers ms
    inferInstanceAs (Decidable (v.Distinct ∧ DistinctMembers ms))

end

instance (v : Json) : Decidable v.Distinct := decideDistinct v

theorem distinct_arr_iff {items : List Json} : (arr items).Distinct ↔ ∀ v ∈ items, v.Distinct := by
  rw [Distinct]
  induction items with
  | nil => simp [DistinctItems]
  | cons v vs ih => simp [DistinctItems, ih]

theorem distinct_obj_iff {members : List (String × Json)} :
    (obj members).Distinct ↔ (Table.keys members).Nodup ∧ ∀ m ∈ members, m.2.Distinct := by
  have hvalues : DistinctMembers members ↔ ∀ m ∈ members, m.2.Distinct := by
    induction members with
    | nil => simp [DistinctMembers]
    | cons m ms ih => rw [DistinctMembers, ih, List.forall_mem_cons]
  rw [Distinct, hvalues]

theorem distinct_arr_map_iff {f : α → Json} {l : List α} :
    (arr (l.map f)).Distinct ↔ ∀ a ∈ l, (f a).Distinct := by
  rw [distinct_arr_iff, List.forall_mem_map]

theorem distinct_strs (texts : List String) : (strs texts).Distinct :=
  distinct_arr_map_iff.2 fun _ _ => trivial

theorem distinct_mapValues_iff {f : α → Json} {t : Table α} (hsorted : t.Sorted) :
    (obj (t.mapValues f)).Distinct ↔ ∀ e ∈ t, (f e.2).Distinct := by
  have hkeys := Table.nodup_keys (Table.sorted_mapValues f hsorted)
  rw [distinct_obj_iff, Table.mapValues, List.forall_mem_map]
  exact and_iff_right hkeys

theorem distinct_ofEntries {entries : List (String × Json)} (h : ∀ e ∈ entries, e.2.Distinct) :
    (obj (Table.ofEntries entries)).Distinct := by
  have hkeys := Table.nodup_keys (Table.sorted_extend List.Pairwise.nil entries)
  refine distinct_obj_iff.2 ⟨hkeys, fun e he => ?_⟩
  rcases Table.mem_extend he with he | he
  · cases he
  · exact h e he

mutual

/-- **A canonical value names no member twice.** -/
theorem distinct_canonical : ∀ v : Json, v.canonical.Distinct
  | null | bool _ | int _ | str _ => trivial
  | double x => by
    rw [canonical]
    split
    · trivial
    · trivial
  | arr items => distinct_arr_iff.2 (distinct_canonicalItems items)
  | obj members => distinct_ofEntries (distinct_canonicalMembers members)

theorem distinct_canonicalItems : ∀ vs : List Json, ∀ v ∈ canonicalItems vs, v.Distinct
  | [] => List.forall_mem_nil _
  | v :: vs => List.forall_mem_cons.2 ⟨distinct_canonical v, distinct_canonicalItems vs⟩

theorem distinct_canonicalMembers :
    ∀ ms : List (String × Json), ∀ m ∈ canonicalMembers ms, m.2.Distinct
  | [] => List.forall_mem_nil _
  | (_, v) :: ms => List.forall_mem_cons.2 ⟨distinct_canonical v, distinct_canonicalMembers ms⟩

end

theorem distinct_parse? {text : String} (h : parse? text = some v) : v.Distinct := by
  unfold parse? at h
  dsimp only at h
  split at h
  · split at h
    · exact Option.some.inj h ▸ distinct_canonical _
    · cases h
  · cases h

theorem distinct_ofText (text : String) : (ofText text).Distinct := by
  rw [ofText]
  cases h : parse? text with
  | none => trivial
  | some v => exact distinct_parse? h

end Json

/-! ### Further members -/

/-- The name begins with `x-`, in letters of either case. -/
def IsVendor (key : String) : Prop := Text.hasPrefix "x-" (Text.asciiLower key) = true

instance (key : String) : Decidable (IsVendor key) :=
  inferInstanceAs (Decidable (Text.hasPrefix "x-" (Text.asciiLower key) = true))

/-- A word that begins with `@x-` is the sign for annotations and such a name. -/
theorem exists_isVendor (h : Text.hasPrefix "@x-" (Text.asciiLower word) = true) :
    ∃ c cs, word.toList = '@' :: c :: cs ∧ c ≠ '@' ∧ IsVendor (String.ofList (c :: cs)) := by
  rw [Text.hasPrefix_iff, Text.asciiLower, String.toList_ofList, String.toList_ofList] at h
  obtain ⟨rest, hrest⟩ := h
  obtain ⟨at', cs, hword, hat, hcs⟩ := List.map_eq_cons_iff.1 hrest.symm
  obtain ⟨c, tail, rfl, hc, htail⟩ := List.map_eq_cons_iff.1 hcs
  obtain rfl := Text.toLower_eq_at hat
  refine ⟨c, tail, hword, ?_, ?_⟩
  · rintro rfl
    exact absurd hc (by decide)
  · rw [IsVendor, Text.hasPrefix_iff, Text.asciiLower]
    simp only [String.toList_ofList, List.map_cons, hc, htail]
    exact ⟨rest, rfl⟩

theorem isVendor_trimStartOf (h : Text.hasPrefix "@x-" (Text.asciiLower word) = true) :
    IsVendor (Text.trimStartOf '@' word) := by
  obtain ⟨c, cs, hword, hc, hvendor⟩ := exists_isVendor h
  rw [Text.trimStartOf, hword, Text.dropLeading, List.dropWhile_cons_of_pos (by decide),
    List.dropWhile_cons_of_neg (by simpa using hc)]
  exact hvendor

theorem isVendor_drop (h : Text.hasPrefix "@x-" (Text.asciiLower word) = true) :
    IsVendor (String.ofList (word.toList.drop 1)) := by
  obtain ⟨c, cs, hword, -, hvendor⟩ := exists_isVendor h
  rw [hword]
  exact hvendor

/-- A table of further members: the names satisfy the condition, and the values name no member
twice. -/
structure FurtherMembers (K : String → Prop) (t : Table Json) : Prop where
  keys : ∀ key ∈ t.keys, K key
  sorted : t.Sorted
  values : ∀ e ∈ t, e.2.Distinct

namespace FurtherMembers

variable {K : String → Prop} {t t' : Table Json}

theorem nil : FurtherMembers K [] :=
  ⟨List.forall_mem_nil _, List.Pairwise.nil, List.forall_mem_nil _⟩

theorem insert (h : FurtherMembers K t) {key : String} (hkey : K key) (hv : v.Distinct) :
    FurtherMembers K (t.insert key v) := by
  refine ⟨List.forall_mem_map.2 ?_, Table.sorted_insert h.sorted,
    Table.forall_mem_insert hv h.values⟩
  exact Table.forall_mem_insert hkey fun e he => h.keys _ (Table.mem_keys_of_mem he)

theorem extend (h : FurtherMembers K t) (h' : FurtherMembers K t') :
    FurtherMembers K (t.extend t') := by
  refine ⟨fun k hk => ?_, Table.sorted_extend h.sorted t', fun e he => ?_⟩
  · obtain ⟨e, he, rfl⟩ := List.mem_map.1 hk
    exact (Table.mem_extend he).elim (fun he => h.keys _ (Table.mem_keys_of_mem he))
      fun he => h'.keys _ (Table.mem_keys_of_mem he)
  · exact (Table.mem_extend he).elim (h.values e) (h'.values e)

/-- The members listed in a text are strings and truth values. -/
theorem of_extensionsOf (list : String) (hK : ∀ key ∈ (Field.extensionsOf list).keys, K key) :
    FurtherMembers K (Field.extensionsOf list) := by
  refine ⟨hK, Table.sorted_extend List.Pairwise.nil _, fun e he => ?_⟩
  rcases Table.mem_extend he with he | he
  · cases he
  obtain ⟨entry, -, rfl⟩ := List.mem_map.1 he
  unfold Field.extensionOf
  split
  · trivial
  · split
    · trivial
    · trivial

end FurtherMembers

/-! ### Members with fixed names -/

namespace Json

/-- Members with names from a list, in its order, whose values name no member twice if and only if
the condition holds. -/
structure Fixed (names : List String) (C : Prop) (ms : List (String × Json)) : Prop where
  keys : (Table.keys ms).Sublist names
  values : (∀ m ∈ ms, m.2.Distinct) ↔ C

section Fixed

variable {α : Type} {names names' : List String} {C C' : Prop} {ms ms' : List (String × Json)}
  (name : String)

theorem fixed_single (h : v.Distinct ↔ C) : Fixed [name] C [(name, v)] :=
  ⟨List.Sublist.refl _, List.forall_mem_singleton.trans h⟩

theorem fixed_optional {f : α → Json} {x : Option α}
    (h : (∀ a, x = some a → (f a).Distinct) ↔ C) : Fixed [name] C (optional name f x) := by
  cases x with
  | none => exact ⟨List.nil_sublist _, by simpa [optional] using h⟩
  | some a => exact fixed_single name (by simpa using h)

theorem fixed_unlessEmpty {f : List α → Json} {x : List α}
    (h : (f x).Distinct ↔ C) (hnil : (f []).Distinct) : Fixed [name] C (unlessEmpty name f x) := by
  cases x with
  | nil => exact ⟨List.nil_sublist _, iff_of_true (List.forall_mem_nil _) (h.1 hnil)⟩
  | cons a x => exact fixed_single name h

/-- A text. -/
theorem fixed_str (name text : String) : Fixed [name] True [(name, .str text)] :=
  fixed_single name (iff_of_true trivial trivial)

/-- A mark that may be missing. -/
theorem fixed_whenTrue (b : Bool) : Fixed [name] True (whenTrue name b) := by
  cases b with
  | false => exact ⟨List.nil_sublist _, iff_of_true (List.forall_mem_nil _) trivial⟩
  | true => exact fixed_single name (iff_of_true trivial trivial)

/-- A text that may be missing. -/
theorem fixed_text (x : Option String) : Fixed [name] True (optional name .str x) :=
  fixed_optional name (iff_of_true (fun _ _ => trivial) trivial)

/-- A number that may be missing. -/
theorem fixed_double (x : Option Double) : Fixed [name] True (optional name .double x) :=
  fixed_optional name (iff_of_true (fun _ _ => trivial) trivial)

/-- An integer that may be missing. -/
theorem fixed_int (x : Option Int) : Fixed [name] True (optional name .int x) :=
  fixed_optional name (iff_of_true (fun _ _ => trivial) trivial)

/-- A list of texts that may be empty. -/
theorem fixed_strs (x : List String) : Fixed [name] True (unlessEmpty name strs x) :=
  fixed_unlessEmpty name (iff_of_true (distinct_strs x) trivial) (distinct_strs [])

theorem Fixed.append (h : Fixed names C ms) (h' : Fixed names' C' ms') :
    Fixed (names ++ names') (C ∧ C') (ms ++ ms') := by
  refine ⟨?_, List.forall_mem_append.trans (and_congr h.values h'.values)⟩
  rw [Schema.keys_append]
  exact h.keys.append h'.keys

/-- Members that ask for nothing. -/
theorem Fixed.plain (h : Fixed names C ms) (h' : Fixed names' True ms') :
    Fixed (names ++ names') C (ms ++ ms') := by
  simpa only [and_true] using h.append h'

theorem Fixed.distinct_iff (h : Fixed names C ms) (hnames : names.Nodup) : (obj ms).Distinct ↔ C :=
  distinct_obj_iff.trans ((and_iff_right (hnames.sublist h.keys)).trans h.values)

/-- **An object** of members with fixed names and further members: none of these may have the name
of one that is there. -/
theorem Fixed.distinct_further_iff (h : Fixed names C ms) (hnames : names.Nodup) {K : String → Prop}
    (ht : FurtherMembers K t) :
    (obj (ms ++ t)).Distinct ↔ (∀ key ∈ t.keys, key ∉ Table.keys ms) ∧ C := by
  rw [distinct_obj_iff, List.forall_mem_append, h.values, and_iff_left ht.values,
    Schema.keys_append, List.nodup_append, and_iff_right (hnames.sublist h.keys),
    and_iff_right (Table.nodup_keys ht.sorted)]
  refine and_congr_left' ⟨fun hne key hkey hmem => hne key hmem key hkey rfl, ?_⟩
  rintro hfree key hmem _ hkey rfl
  exact hfree key hkey hmem

/-- Names that begin with `x-` are no fixed names. -/
theorem Fixed.distinct_vendor_iff (h : Fixed names C ms) (hnames : names.Nodup)
    (hfixed : ∀ name ∈ names, ¬ IsVendor name) (ht : FurtherMembers IsVendor t) :
    (obj (ms ++ t)).Distinct ↔ C := by
  rw [h.distinct_further_iff hnames ht]
  refine and_iff_right fun key hkey hmem => ?_
  exact hfixed key (h.keys.subset hmem) (ht.keys key hkey)

end Fixed

end Json

/-! ### Values that tags write -/

theorem forall_mem_of_mapM {ε β : Type} {f : α → Except ε β} {P : β → Prop}
    (hf : ∀ a b, f a = .ok b → P b) {l : List α} {bs : List β} (h : l.mapM f = .ok bs) :
    ∀ b ∈ bs, P b := by
  induction l generalizing bs with
  | nil =>
    cases h
    exact List.forall_mem_nil _
  | cons a l ih =>
    rw [List.mapM_cons] at h
    obtain ⟨b, hb, h⟩ := bind_eq_ok_iff.1 h
    obtain ⟨bs', hbs', h⟩ := bind_eq_ok_iff.1 h
    cases h
    exact List.forall_mem_cons.2 ⟨hf a b hb, ih hbs'⟩

namespace Field

variable {type itemType value constraint : String} {v : Json} {c : Constraints}

theorem distinct_checked {f : α → Json} (hf : ∀ a, (f a).Distinct) {o : Option α}
    {e : DocError} (h : (match o.map f with
      | some v => Except.ok v
      | none => .error e) = Except.ok v) : v.Distinct := by
  cases o with
  | none => cases h
  | some a => exact Except.ok.inj h ▸ hf a

/-- A value of a simple type is no object. -/
theorem distinct_valueOf (h : valueOf type value constraint = .ok v) : v.Distinct := by
  unfold valueOf at h
  dsimp only at h
  split at h
  · exact Except.ok.inj h ▸ trivial
  · exact distinct_checked (f := Json.int) (fun _ => trivial) h
  · exact distinct_checked (f := Json.double) (fun _ => trivial) h
  · exact distinct_checked (f := Json.bool) (fun _ => trivial) h
  · cases h

theorem distinct_listOf {f : String → Except DocError Json} {vs : List Json}
    (hf : ∀ a v, f a = .ok v → v.Distinct) (h : listOf f value = .ok vs) : (Json.arr vs).Distinct :=
  Json.distinct_arr_iff.2 (forall_mem_of_mapM hf h)

theorem distinct_exampleItem (h : exampleItem type value = .ok v) : v.Distinct := by
  unfold exampleItem at h
  split at h
  · obtain ⟨vs, hvs, rfl⟩ := map_eq_ok_iff.1 h
    exact distinct_listOf (fun _ _ => distinct_valueOf) hvs
  · cases h
  · exact distinct_valueOf h

theorem distinct_exampleOf (h : exampleOf type itemType value = .ok v) : v.Distinct := by
  unfold exampleOf at h
  split at h
  · obtain ⟨vs, hvs, rfl⟩ := map_eq_ok_iff.1 h
    exact distinct_listOf (fun _ _ => distinct_exampleItem) hvs
  · split at h
    · cases h
    · obtain ⟨pairs, hpairs, rfl⟩ := map_eq_ok_iff.1 h
      refine Json.distinct_ofEntries (forall_mem_of_mapM (fun pair e he => ?_) hpairs)
      unfold examplePair at he
      split at he
      · obtain ⟨w, hw, rfl⟩ := map_eq_ok_iff.1 he
        exact distinct_exampleItem hw
      · cases he
  · exact distinct_valueOf h

theorem distinct_exampleFor {tag : String} {encoded : Bool} {zero : Option Json}
    {o : Option Json} (hzero : ∀ v ∈ zero, v.Distinct)
    (h : exampleFor tag encoded zero c = .ok o) : ∀ v ∈ o, v.Distinct := by
  unfold exampleFor at h
  split at h
  · exact Except.ok.inj h ▸ hzero
  split at h
  · cases h
    rintro v ⟨⟩
    trivial
  · obtain ⟨w, hw, rfl⟩ := map_eq_ok_iff.1 h
    rintro v ⟨⟩
    exact distinct_exampleOf hw

theorem distinct_defaultOf (h : defaultOf c value = .ok v) : v.Distinct := by
  unfold defaultOf at h
  split at h
  · obtain ⟨vs, hvs, rfl⟩ := map_eq_ok_iff.1 h
    exact distinct_listOf (fun _ _ => distinct_valueOf) hvs
  · exact distinct_valueOf h

namespace Constraints

variable {c c' : Constraints} {tag : String}

/-- The admitted values name no member twice. -/
def Distinct (c : Constraints) : Prop := ∀ v ∈ c.enums, v.Distinct

theorem enums_addBound {isMax : Bool} (h : c.addBound value isMax = .ok c') :
    c'.enums = c.enums := by
  unfold addBound at h
  dsimp only at h
  split at h
  case h_5 =>
    cases h
    rfl
  all_goals
    split at h
    · cases h
      split
      · rfl
      · rfl
    · cases h

theorem Distinct.addRuleList {rules : List String} (hc : c.Distinct)
    (h : c.addRuleList rules = .ok c') : c'.Distinct := by
  have hbound : ∀ {c c₁ : Constraints} {value isMax}, c.Distinct →
      c.addBound value isMax = .ok c₁ → c₁.Distinct := by
    intro c c₁ value isMax hc h₁
    unfold Distinct
    rw [enums_addBound h₁]
    exact hc
  induction rules generalizing c with
  | nil => exact Except.ok.inj h ▸ hc
  | cons rule rules ih =>
    rw [Constraints.addRuleList] at h
    dsimp only at h
    split at h
    iterate 4
      · obtain ⟨c₁, h₁, h⟩ := bind_eq_ok_iff.1 h
        exact ih (hbound hc h₁) h
    · split at h
      · obtain ⟨enums, henums, h⟩ := bind_eq_ok_iff.1 h
        exact ih (forall_mem_of_mapM (fun _ _ => distinct_valueOf) henums) h
      · exact ih hc h
    · exact Except.ok.inj h ▸ hc
    · exact ih hc h

theorem Distinct.addRules {rules : String} (hc : c.Distinct) (h : c.addRules rules = .ok c') :
    c'.Distinct := by
  unfold Constraints.addRules at h
  split at h
  · exact Except.ok.inj h ▸ hc
  · exact hc.addRuleList h

theorem Distinct.addEnums (hc : c.Distinct) (h : c.addEnums tag = .ok c') : c'.Distinct := by
  unfold Constraints.addEnums at h
  dsimp only at h
  split at h
  · exact Except.ok.inj h ▸ hc
  · obtain ⟨enums, henums, rfl⟩ := map_eq_ok_iff.1 h
    exact forall_mem_of_mapM (fun _ _ => distinct_valueOf) henums

theorem distinct_ofTag {rest : List String} (h : ofTag tag type rest = .ok c) : c.Distinct := by
  unfold ofTag at h
  obtain ⟨c₁, h₁, h⟩ := bind_eq_ok_iff.1 h
  obtain ⟨c₂, h₂, h⟩ := bind_eq_ok_iff.1 h
  obtain ⟨c₃, h₃, h⟩ := bind_eq_ok_iff.1 h
  obtain ⟨_, -, h⟩ := bind_eq_ok_iff.1 h
  obtain ⟨_, -, h⟩ := bind_eq_ok_iff.1 h
  obtain ⟨_, -, h⟩ := bind_eq_ok_iff.1 h
  obtain ⟨_, -, h⟩ := bind_eq_ok_iff.1 h
  obtain ⟨_, -, h⟩ := bind_eq_ok_iff.1 h
  cases h
  have hbinding : c₁.Distinct := by
    refine Distinct.addRules ?_ h₁
    exact List.forall_mem_nil _
  have henums : c₃.Distinct := (hbinding.addRules h₂).addEnums h₃
  exact henums

end Constraints

end Field

end GoApiDoc
