/-
Composite types at any depth.

A type of an annotation is taken apart by what it begins with: a pair of square brackets, the key of
a map, a name with braces behind it.  Inside the braces the fields are cut at commas that stand
outside brackets of all kinds.  For types that are written as trees these steps agree with the tree,
however deep it is, since each part closes the brackets it opens.

* `TypeTree.annotatedSchema?_text` — **a composite type means what it says**.
-/

import GoApiDoc.Operation.Composite
import GoApiDoc.Proofs.Outcome
import GoApiDoc.Proofs.Splitting
import GoApiDoc.Proofs.Text
import GoApiDoc.Registry.Collect

set_option autoImplicit false

namespace GoApiDoc

/-! ### Trees -/

/-- A name: words with points between them. -/
structure Word where
  chars : List Char
  isWord : ∀ c ∈ chars, Text.isWord c = true ∨ c = '.'

/-- A name of a type, which is none of the words for no value and for any. -/
structure TypeName extends Word where
  ne_nil : chars ≠ []
  not_reserved : String.ofList chars ≠ "nil" ∧ String.ofList chars ≠ "any"

mutual

/-- A type as an annotation writes it. -/
inductive TypeTree
  | name (n : TypeName)
  | array (elem : TypeTree)
  | map (key : Word) (value : TypeTree)
  | combined (base : TypeName) (fields : FieldTrees)

/-- The fields behind a name, at least one. -/
inductive FieldTrees
  | one (key : Word) (value : TypeTree)
  | more (key : Word) (value : TypeTree) (rest : FieldTrees)

end

def Word.text (w : Word) : String := String.ofList w.chars

mutual

def TypeTree.chars : TypeTree → List Char
  | .name n => n.chars
  | .array elem => '[' :: ']' :: elem.chars
  | .map key value => 'm' :: 'a' :: 'p' :: '[' :: (key.chars ++ ']' :: value.chars)
  | .combined base fields => base.chars ++ '{' :: (fields.chars ++ ['}'])

def FieldTrees.chars : FieldTrees → List Char
  | .one key value => key.chars ++ '=' :: value.chars
  | .more key value rest => key.chars ++ '=' :: (value.chars ++ ',' :: rest.chars)

end

def TypeTree.text (t : TypeTree) : String := String.ofList t.chars

/-! ### Characters -/

theorem Word.notMem (w : Word) {d : Char} (h : ¬(Text.isWord d = true ∨ d = '.')) :
    d ∉ w.chars := fun hmem => h (w.isWord d hmem)

theorem Word.isBlank_chars (w : Word) : ∀ c ∈ w.chars, Text.isBlank c = false := by
  intro c hc
  rcases w.isWord c hc with h | rfl
  · exact Text.isBlank_of_isWord h
  · rfl

mutual

theorem TypeTree.isBlank_chars : ∀ t : TypeTree, ∀ c ∈ t.chars, Text.isBlank c = false
  | .name n => n.isBlank_chars
  | .array elem => by
    simp only [TypeTree.chars, List.forall_mem_cons]
    exact ⟨rfl, rfl, elem.isBlank_chars⟩
  | .map key value => by
    simp only [TypeTree.chars, List.forall_mem_cons, List.forall_mem_append]
    exact ⟨rfl, rfl, rfl, rfl, key.isBlank_chars, rfl, value.isBlank_chars⟩
  | .combined base fields => by
    simp only [TypeTree.chars, List.forall_mem_cons, List.forall_mem_append]
    exact ⟨base.isBlank_chars, rfl, fields.isBlank_chars, rfl, by simp⟩

theorem FieldTrees.isBlank_chars : ∀ fs : FieldTrees, ∀ c ∈ fs.chars, Text.isBlank c = false
  | .one key value => by
    simp only [FieldTrees.chars, List.forall_mem_cons, List.forall_mem_append]
    exact ⟨key.isBlank_chars, rfl, value.isBlank_chars⟩
  | .more key value rest => by
    simp only [FieldTrees.chars, List.forall_mem_cons, List.forall_mem_append]
    exact ⟨key.isBlank_chars, rfl, value.isBlank_chars, rfl, rest.isBlank_chars⟩

end

/-! ### Commas -/

theorem Word.passed (w : Word) (depth : Int) : Text.Passed ',' depth w.chars := by
  refine Text.passed_of_forall fun c hc hsign => w.notMem ?_ hc
  simp only [List.mem_cons, List.not_mem_nil, or_false] at hsign
  rcases hsign with rfl | rfl | rfl | rfl | rfl | rfl | rfl <;> decide

mutual

/-- The text of a type goes to one piece. -/
theorem TypeTree.passed : ∀ (t : TypeTree) {depth : Int}, 0 ≤ depth →
    Text.Passed ',' depth t.chars
  | .name n, depth, _ => n.passed depth
  | .array elem, depth, h => (Text.passed_nil.bracketed rfl rfl rfl).append (elem.passed h)
  | .map key value, depth, h => by
    have hmap : Text.Passed ',' depth ['m', 'a', 'p'] := Text.passed_of_forall (by simp)
    have hkey : Text.Passed ',' depth ('[' :: (key.chars ++ [']'])) :=
      (key.passed (depth + 1)).bracketed rfl rfl rfl
    simpa [TypeTree.chars] using (hmap.append hkey).append (value.passed h)
  | .combined base fields, depth, h =>
    (base.passed depth).append ((fields.passed (Int.lt_add_one_of_le h)).bracketed rfl rfl rfl)

theorem FieldTrees.passed : ∀ (fs : FieldTrees) {depth : Int}, 0 < depth →
    Text.Passed ',' depth fs.chars
  | .one key value, depth, h => key.passed_field value (Int.le_of_lt h)
  | .more key value rest, depth, h => by
    have hfirst := (key.passed_field value (Int.le_of_lt h)).append
      (Text.passed_delimiter rfl rfl h)
    simpa [FieldTrees.chars] using hfirst.append (rest.passed h)

theorem Word.passed_field (key : Word) (value : TypeTree) {depth : Int} (h : 0 ≤ depth) :
    Text.Passed ',' depth (key.chars ++ '=' :: value.chars) :=
  (key.passed depth).append ((Text.passed_singleton rfl rfl (by simp)).append (value.passed h))

end

/-! ### Reading -/

namespace Composite

/-- The words that are not names of types. -/
def plainWords : List String :=
  ["nil", "any", "interface\x7b\x7d", "int", "uint", "int8", "uint8", "int16", "uint16", "int32",
    "uint32", "int64", "uint64", "byte", "rune", "uintptr", "float32", "float64", "bool", "string",
    "integer", "number", "boolean"]

variable {text : String}

theorem mem_plainWords_of_isSimpleType
    (h : isSimpleType (simpleType text) = true) : text ∈ plainWords := by
  unfold simpleType at h
  split at h
  all_goals first
    | decide
    | simp only [isSimpleType, List.contains_iff_mem, List.mem_cons, List.not_mem_nil,
        or_false] at h
      rcases h with rfl | rfl | rfl | rfl <;> decide

theorem notMem_plainWords {cs : List Char} (h : '[' ∈ cs ∨ '=' ∈ cs) :
    String.ofList cs ∉ plainWords := by
  have hwords : ∀ w ∈ plainWords, '[' ∉ w.toList ∧ '=' ∉ w.toList := by decide
  intro hmem
  have hnone := hwords _ hmem
  rw [String.toList_ofList] at hnone
  exact h.elim hnone.1 hnone.2

theorem isAnyWord_eq_false (h : text ∉ plainWords) : isAnyWord text = false := by
  simp only [plainWords, List.mem_cons, not_or] at h
  simp [isAnyWord, h]

theorem closeBracket_word (w : Word) (rest : List Char) :
    closeBracket 0 (w.chars ++ ']' :: rest) = some (w.chars, rest) := by
  have hclose : ∀ cs : List Char, '[' ∉ cs → ']' ∉ cs →
      closeBracket 0 (cs ++ ']' :: rest) = some (cs, rest) := by
    intro cs hleft hright
    induction cs with
    | nil => rfl
    | cons c cs ih =>
      rw [List.mem_cons, not_or] at hleft hright
      rw [List.cons_append, closeBracket, ih hleft.2 hright.2]
      · rfl
      · exact Ne.symm hleft.1
      · exact fun _ => Ne.symm hright.1
      · exact fun _ _ => Ne.symm hright.1
  exact hclose _ (w.notMem (by decide)) (w.notMem (by decide))

theorem splitBraces?_combined (base : TypeName) {body : List Char} (hbody : '\n' ∉ body) :
    splitBraces? (base.chars ++ '{' :: (body ++ ['}'])) = some (base.chars, body) := by
  have hbase : ∀ c ∈ base.chars, isBaseChar c = true := by
    intro c hc
    rcases base.isWord c hc with h | rfl
    · simp [isBaseChar, h]
    · decide
  have hstop : isBaseChar '{' = false := by decide
  have htake : (base.chars ++ '{' :: (body ++ ['}'])).takeWhile isBaseChar = base.chars := by
    rw [List.takeWhile_append_of_pos hbase, List.takeWhile_cons_of_neg (by simp [hstop]),
      List.append_nil]
  have hdrop : (base.chars ++ '{' :: (body ++ ['}'])).dropWhile isBaseChar =
      '{' :: (body ++ ['}']) := by
    rw [List.dropWhile_append_of_pos hbase, List.dropWhile_cons_of_neg (by simp [hstop])]
  obtain ⟨c, cs, hchars⟩ := List.exists_cons_of_ne_nil base.ne_nil
  rw [splitBraces?, htake, hdrop, hchars]
  simp [dropBrace?, hbody]

/-- What a name is read as. -/
def ofName (n : TypeName) : Composite :=
  if isSimpleType (simpleType n.text) then .simple (simpleType n.text) else .named n.text

theorem isAnyWord_name (n : TypeName) : isAnyWord (String.ofList n.chars) = false := by
  have hempty : String.ofList n.chars ≠ "interface\x7b\x7d" := by
    rintro heq
    rw [← String.toList_inj, String.toList_ofList] at heq
    have hbrace : '{' ∉ n.chars := n.notMem (by decide)
    rw [heq] at hbrace
    simp at hbrace
  simp [isAnyWord, n.not_reserved.2, hempty]

theorem ofChars_name (fuel : Nat) (n : TypeName) : ofChars (fuel + 1) n.chars = ofName n := by
  have hopen : '[' ∉ n.chars := n.notMem (by decide)
  have hbrace : '{' ∉ n.chars := n.notMem (by decide)
  have hprefix : ∀ p : List Char, '[' ∈ p → Text.dropPrefix? p n.chars = none := by
    intro p hp
    rw [← List.append_nil n.chars]
    exact Text.dropPrefix?_eq_none hp hopen (by simp)
  have hcontains : n.chars.contains '{' = false := by simpa using hbrace
  rw [ofChars]
  simp only [Text.trimChars_of_forall n.isBlank_chars, n.not_reserved.1, isAnyWord_name n,
    hprefix "[]".toList (by simp), hprefix "map[".toList (by simp), hcontains, if_false,
    Bool.false_eq_true]
  rfl

theorem ofText_name (n : TypeName) : ofText n.text = ofName n := by
  rw [ofText, Word.text, String.toList_ofList, ofChars_name]

end Composite

mutual

/-- What a tree is read as. -/
def TypeTree.composite : TypeTree → Composite
  | .name n => Composite.ofName n
  | .array elem => .array elem.composite
  | .map _ value => .map value.composite
  | .combined base fields => .combined (Composite.ofName base) fields.composites

def FieldTrees.composites : FieldTrees → List (String × Composite)
  | .one key value => [(key.text, value.composite)]
  | .more key value rest => (key.text, value.composite) :: rest.composites

end

variable {t : TypeTree}

/-- What is not a name has a sign that no word has. -/
theorem TypeTree.notMem_plainWords (h : ∀ n, t ≠ .name n) :
    String.ofList t.chars ∉ Composite.plainWords := by
  refine Composite.notMem_plainWords ?_
  cases t with
  | name n => exact absurd rfl (h n)
  | array | map => simp [TypeTree.chars]
  | combined base fields => cases fields <;> simp [TypeTree.chars, FieldTrees.chars]

theorem TypeTree.isAnyWord_chars (t : TypeTree) :
    Composite.isAnyWord (String.ofList t.chars) = false := by
  cases t with
  | name n => exact Composite.isAnyWord_name n
  | array | map | combined =>
    exact Composite.isAnyWord_eq_false (TypeTree.notMem_plainWords (by rintro _ ⟨⟩))

theorem TypeTree.not_word (h : ∀ n, t ≠ .name n) :
    String.ofList t.chars ≠ "nil" ∧ isSimpleType (simpleType (String.ofList t.chars)) = false := by
  have hwords := TypeTree.notMem_plainWords h
  constructor
  · intro heq
    exact hwords (heq ▸ by decide)
  · rw [Bool.eq_false_iff]
    exact fun hs => hwords (Composite.mem_plainWords_of_isSimpleType hs)

theorem Composite.fieldTexts_cons (key : Word) (value : TypeTree) (rest : List (List Char)) :
    ((key.chars ++ '=' :: value.chars) :: rest).filterMap (fun field =>
      (Text.breakAt (· == '=') field).map fun f =>
        (String.ofList (Text.trimChars f.1), f.2.2)) =
      (key.text, value.chars) :: rest.filterMap (fun field =>
        (Text.breakAt (· == '=') field).map fun f =>
          (String.ofList (Text.trimChars f.1), f.2.2)) := by
  have hbreak := Text.breakAt_append (p := (· == '=')) (c := '=') value.chars
    (Text.beq_eq_false_of_notMem (key.notMem (by decide))) rfl
  simp [hbreak, Text.trimChars_of_forall key.isBlank_chars, Word.text]

mutual

/-- **The text of a tree is read as the tree.** -/
theorem TypeTree.ofChars_chars : ∀ (t : TypeTree) {fuel : Nat}, t.chars.length < fuel →
    Composite.ofChars fuel t.chars = t.composite
  | t, 0, h => absurd h (Nat.not_lt_zero _)
  | .name n, fuel + 1, _ => Composite.ofChars_name fuel n
  | .array elem, fuel + 1, h => by
    obtain ⟨hnil, hsimple⟩ := TypeTree.not_word (t := .array elem) (by rintro _ ⟨⟩)
    have hslice : Text.dropPrefix? "[]".toList (TypeTree.array elem).chars = some elem.chars := rfl
    have hlength : elem.chars.length < fuel := Nat.lt_of_succ_lt (Nat.lt_of_succ_lt_succ h)
    rw [Composite.ofChars]
    simp only [Text.trimChars_of_forall (TypeTree.array elem).isBlank_chars, hnil, hsimple,
      TypeTree.isAnyWord_chars, hslice, elem.ofChars_chars hlength, Bool.false_eq_true, if_false]
    rfl
  | .map key value, fuel + 1, h => by
    obtain ⟨hnil, hsimple⟩ := TypeTree.not_word (t := .map key value) (by rintro _ ⟨⟩)
    have hslice : Text.dropPrefix? "[]".toList (TypeTree.map key value).chars = none := rfl
    have hmap : Text.dropPrefix? "map[".toList (TypeTree.map key value).chars =
        some (key.chars ++ ']' :: value.chars) := rfl
    have hlength : value.chars.length < fuel := by
      simp only [TypeTree.chars, List.length_cons, List.length_append] at h
      omega
    rw [Composite.ofChars]
    simp only [Text.trimChars_of_forall (TypeTree.map key value).isBlank_chars, hnil, hsimple,
      TypeTree.isAnyWord_chars, hslice, hmap, Composite.closeBracket_word,
      Text.trimChars_of_forall value.isBlank_chars, value.ofChars_chars hlength,
      Bool.false_eq_true, if_false]
    rfl
  | .combined base fields, fuel + 1, h => by
    obtain ⟨hnil, hsimple⟩ := TypeTree.not_word (t := .combined base fields) (by rintro _ ⟨⟩)
    have hprefix : ∀ p : List Char, '[' ∈ p → '{' ∉ p →
        Text.dropPrefix? p (TypeTree.combined base fields).chars = none := by
      intro p hp hbrace
      refine Text.dropPrefix?_eq_none hp (base.notMem (by decide)) ?_
      rintro c ⟨⟩
      exact hbrace
    have hcontains : (TypeTree.combined base fields).chars.contains '{' = true := by
      simp [TypeTree.chars]
    have hsplit : Composite.splitBraces? (TypeTree.combined base fields).chars =
        some (base.chars, fields.chars) := by
      refine Composite.splitBraces?_combined base fun hmem => ?_
      cases fields.isBlank_chars _ hmem
    simp only [TypeTree.chars, List.length_cons, List.length_append] at h
    obtain ⟨fuel, rfl⟩ := Nat.exists_eq_add_of_le' (show 1 ≤ fuel by omega)
    rw [Composite.ofChars]
    simp only [Text.trimChars_of_forall (TypeTree.combined base fields).isBlank_chars, hnil,
      hsimple, TypeTree.isAnyWord_chars, hprefix "[]".toList (by simp) (by simp),
      hprefix "map[".toList (by simp) (by simp), hcontains, hsplit, Composite.ofChars_name,
      Bool.false_eq_true, if_false, if_true]
    have hfields : fields.chars.length ≤ fuel + 1 := by omega
    rw [TypeTree.composite, ← fields.fieldTexts_chars hfields]

theorem FieldTrees.fieldTexts_chars : ∀ (fs : FieldTrees) {fuel : Nat}, fs.chars.length ≤ fuel →
    (Composite.fieldTexts fs.chars).map (fun f => (f.1, Composite.ofChars fuel f.2)) = fs.composites
  | .one key value, fuel, h => by
    simp only [FieldTrees.chars, List.length_cons, List.length_append] at h
    rw [Composite.fieldTexts, FieldTrees.chars,
      (key.passed_field value (Int.le_refl 0)).splitNested_eq, Composite.fieldTexts_cons,
      List.map_cons, value.ofChars_chars (by omega)]
    rfl
  | .more key value rest, fuel, h => by
    have hsplit := (key.passed_field value (Int.le_refl 0)).splitNested_append rfl rfl rest.chars
    rw [List.append_assoc, List.cons_append] at hsplit
    simp only [FieldTrees.chars, List.length_cons, List.length_append] at h
    have hrest : rest.chars.length ≤ fuel := by omega
    rw [Composite.fieldTexts, FieldTrees.chars, hsplit, Composite.fieldTexts_cons, List.map_cons,
      value.ofChars_chars (by omega), FieldTrees.composites, ← rest.fieldTexts_chars hrest]
    rfl

end

theorem TypeTree.ofText_text (t : TypeTree) : Composite.ofText t.text = t.composite := by
  rw [Composite.ofText, text, String.toList_ofList, t.ofChars_chars]
  rw [← String.length_toList, String.toList_ofList]
  exact Nat.lt_succ_self _

/-! ### Meaning -/

mutual

/-- The schema of a tree, read off its structure. -/
def TypeTree.reading (file : FileId) : TypeTree → Resolving Schema
  | .name n => annotatedSchema file n.text
  | .array elem => do
    return Schema.array (← elem.reading file)
  | .map _ value => do
    return Schema.map (← value.reading file)
  | .combined base fields => do
    let s ← annotatedSchema file base.text
    let properties ← fields.readings file
    return Schema.combined [s, { type := some "object", properties := Table.ofEntries properties }]

/-- The schemas of the fields from the first to the last. -/
def FieldTrees.readings (file : FileId) : FieldTrees → Resolving (List (String × Schema))
  | .one key value => do
    return [(key.text, ← value.reading file)]
  | .more key value rest => do
    let s ← value.reading file
    return (key.text, s) :: (← rest.readings file)

end

mutual

/-- The names in a tree from the left to the right. -/
def TypeTree.names : TypeTree → List String
  | .name n => [n.text]
  | .array elem => elem.names
  | .map _ value => value.names
  | .combined base fields => base.text :: fields.names

def FieldTrees.names : FieldTrees → List String
  | .one _ value => value.names
  | .more _ value rest => value.names ++ rest.names

end

mutual

/-- Each name with fields that is met in the run from a state stands for a schema with a
reference. -/
def TypeTree.Referenced (file : FileId) : TypeTree → Resolver → Prop
  | .name _, _ => True
  | .array elem, g => elem.Referenced file g
  | .map _ value, g => value.Referenced file g
  | .combined base fields, g =>
    ∀ s g', (annotatedSchema file base.text).runOn g = (.ok s, g') →
      s.reference.isSome = true ∧ fields.Referenced file g'

def FieldTrees.Referenced (file : FileId) : FieldTrees → Resolver → Prop
  | .one _ value, g => value.Referenced file g
  | .more _ value rest, g => value.Referenced file g ∧
    ∀ s g', (value.reading file).runOn g = (.ok s, g') → rest.Referenced file g'

end

variable {g' : Resolver}

namespace Resolving

variable {α β : Type} {g : Resolver} {x : Resolving α} {f : α → Resolving β}

theorem runOn_bind_congr {f' : α → Resolving β}
    (h : ∀ a g', runOn x g = (.ok a, g') → runOn (f a) g' = runOn (f' a) g') :
    runOn (x >>= f) g = runOn (x >>= f') g := by
  rw [runOn_bind, runOn_bind]
  split
  · next hx => exact h _ _ hx
  · rfl

/-- A computation that always yields something in place of the same one without an option. -/
theorem runOn_bind_some {x : Resolving (Option α)} {y : Resolving α} {f : Option α → Resolving β}
    (h : runOn x g = runOn (y >>= fun a => pure (some a)) g) :
    runOn (x >>= f) g = runOn (y >>= fun a => f (some a)) g := by
  rw [runOn_bind, h, ← runOn_bind, bind_assoc]
  simp only [pure_bind]

/-- The state that a computation leaves if it does not fail. -/
def finalState (x : Resolving α) (g : Resolver) : Option Resolver :=
  match x.runOn g with
  | (.ok _, g') => some g'
  | (.error _, _) => none

theorem finalState_eq_some_iff : finalState x g = some g' ↔ ∃ a, x.runOn g = (.ok a, g') := by
  rw [finalState]
  generalize x.runOn g = p
  obtain ⟨r, g₁⟩ := p
  cases r <;> simp

theorem finalState_bind_pure (x : Resolving α) (f : α → β) :
    finalState (x >>= fun a => pure (f a)) = finalState x := by
  funext g
  rw [finalState, finalState, runOn_bind]
  generalize x.runOn g = p
  obtain ⟨r, g₁⟩ := p
  cases r <;> rfl

/-- What follows a computation starts from the state that is left. -/
theorem finalState_bind (x : Resolving α) {k : Resolver → Option Resolver}
    (h : ∀ a, finalState (f a) = k) : finalState (x >>= f) = fun g => (finalState x g).bind k := by
  funext g
  rw [finalState, finalState, runOn_bind]
  generalize x.runOn g = p
  obtain ⟨r, g₁⟩ := p
  cases r with
  | ok a => exact congrFun (h a) g₁
  | error e => rfl

end Resolving

section Meaning

variable {file : FileId} {properties : List (String × Schema)}

open Resolving

theorem TypeName.schema_ofName (n : TypeName) :
    (Composite.ofName n).schema file =
      (annotatedSchema file n.text >>= fun s => pure (some s)) := by
  rw [annotatedSchema, annotatedSchema?, Composite.ofText_name, Composite.ofName]
  split
  · rfl
  · rw [Composite.schema]
    simp

theorem FieldTrees.ne_nil_of_readings {fs : FieldTrees} {g : Resolver}
    (h : (fs.readings file).runOn g = (.ok properties, g')) : properties ≠ [] := by
  cases fs with
  | one key value =>
    rw [FieldTrees.readings] at h
    obtain ⟨s, g₁, -, h⟩ := runOn_bind_eq_ok h
    cases h
    exact List.cons_ne_nil _ _
  | more key value rest =>
    rw [FieldTrees.readings] at h
    obtain ⟨s, g₁, -, h⟩ := runOn_bind_eq_ok h
    obtain ⟨rest, g₂, -, h⟩ := runOn_bind_eq_ok h
    cases h
    exact List.cons_ne_nil _ _

theorem Table.extend_ne_nil {α : Type} (t : Table α) {entries : List (String × α)}
    (h : t ≠ [] ∨ entries ≠ []) : t.extend entries ≠ [] := by
  induction entries generalizing t with
  | nil => exact h.resolve_right (fun h => h rfl)
  | cons e entries ih =>
    refine ih _ (.inl fun hnil => ?_)
    have hget := Table.get?_insert e.1 e.1 e.2 t
    rw [show t.insert e.1 e.2 = [] from hnil, if_pos rfl] at hget
    cases hget

theorem Composite.combine_reference {s : Schema} (hs : s.reference.isSome = true) (hne : properties ≠ []) :
    combine s (Table.ofEntries properties) =
      Schema.combined [s, { type := some "object", properties := Table.ofEntries properties }] := by
  have hempty : (Table.ofEntries properties).isEmpty = false :=
    List.isEmpty_eq_false_iff.2 (Table.extend_ne_nil [] (.inr hne))
  have hnone : s.reference.isNone = false := by simpa using hs
  simp [combine, hempty, hnone]

mutual

/-- The schema of a tree is the one read off its structure. -/
theorem TypeTree.runOn_schema : ∀ (t : TypeTree) {g : Resolver}, t.Referenced file g →
    (t.composite.schema file).runOn g = (t.reading file >>= fun s => pure (some s)).runOn g
  | .name n, g, _ => by rw [TypeTree.composite, TypeTree.reading, n.schema_ofName]
  | .array elem, g, h => by
    rw [TypeTree.composite, TypeTree.reading, Composite.schema,
      runOn_bind_some (elem.runOn_schema h), bind_assoc]
    simp only [pure_bind, Option.getD_some]
  | .map key value, g, h => by
    rw [TypeTree.composite, TypeTree.reading, Composite.schema,
      runOn_bind_some (value.runOn_schema h), bind_assoc]
    simp only [pure_bind, Option.getD_some]
  | .combined base fields, g, h => by
    rw [TypeTree.composite, TypeTree.reading, Composite.schema, base.schema_ofName, bind_assoc,
      bind_assoc]
    refine runOn_bind_congr fun s g' hs => ?_
    obtain ⟨hreference, hfields⟩ := h s g' hs
    rw [pure_bind, runOn_bind, fields.runOn_fieldSchemas [] hfields, ← runOn_bind, bind_assoc, bind_assoc]
    refine runOn_bind_congr fun properties g'' hproperties => ?_
    simp only [pure_bind, Option.getD_some]
    rw [← Composite.combine_reference hreference (FieldTrees.ne_nil_of_readings hproperties)]
    rfl

theorem FieldTrees.runOn_fieldSchemas : ∀ (fs : FieldTrees) (t : Table Schema) {g : Resolver},
    fs.Referenced file g → (Composite.fieldSchemas file t fs.composites).runOn g =
      (fs.readings file >>= fun properties => pure (t.extend properties)).runOn g
  | .one key value, t, g, h => by
    rw [FieldTrees.composites, FieldTrees.readings, Composite.fieldSchemas,
      runOn_bind_some (value.runOn_schema h), bind_assoc]
    rfl
  | .more key value rest, t, g, h => by
    rw [FieldTrees.composites, FieldTrees.readings, Composite.fieldSchemas,
      runOn_bind_some (value.runOn_schema h.1), bind_assoc]
    refine runOn_bind_congr fun s g' hs => ?_
    rw [rest.runOn_fieldSchemas _ (h.2 s g' hs), bind_assoc]
    simp only [pure_bind]
    rfl

end

mutual

/-- A tree can be read exactly if all its names can, from the left to the right. -/
theorem TypeTree.finalState_reading : ∀ t : TypeTree, finalState (t.reading file) =
    finalState (t.names.mapM (annotatedSchema file))
  | .name n => by
    rw [TypeTree.names, TypeTree.reading, List.mapM_cons, List.mapM_nil]
    simp only [pure_bind, finalState_bind_pure]
  | .array elem => by rw [TypeTree.names, TypeTree.reading, finalState_bind_pure, elem.finalState_reading]
  | .map key value => by
    rw [TypeTree.names, TypeTree.reading, finalState_bind_pure, value.finalState_reading]
  | .combined base fields => by
    rw [TypeTree.names, TypeTree.reading, List.mapM_cons,
      finalState_bind _ fun _ => finalState_bind_pure _ _,
      finalState_bind _ fun _ => finalState_bind_pure _ _, fields.finalState_readings]

theorem FieldTrees.finalState_readings : ∀ fs : FieldTrees, finalState (fs.readings file) =
    finalState (fs.names.mapM (annotatedSchema file))
  | .one key value => by
    rw [FieldTrees.names, FieldTrees.readings, finalState_bind_pure, value.finalState_reading]
  | .more key value rest => by
    rw [FieldTrees.names, FieldTrees.readings, List.mapM_append,
      finalState_bind _ fun _ => finalState_bind_pure _ _,
      finalState_bind _ fun _ => finalState_bind_pure _ _, value.finalState_reading,
      rest.finalState_readings]

end

/-- **A composite type means what it says**, at any depth: if each name with fields that is met stands
for a reference, the text of a tree yields the schema read off the structure of the tree, and it does
so exactly if all names in it yield schemas, from the left to the right. -/
theorem TypeTree.annotatedSchema?_text (t : TypeTree) {g : Resolver} (h : t.Referenced file g) :
    (annotatedSchema? file t.text).runOn g = (some <$> t.reading file).runOn g ∧
      ∀ g', (∃ s, (annotatedSchema? file t.text).runOn g = (.ok s, g')) ↔
        ∃ ss, (t.names.mapM (annotatedSchema file)).runOn g = (.ok ss, g') := by
  have hrun : (annotatedSchema? file t.text).runOn g = (some <$> t.reading file).runOn g := by
    rw [annotatedSchema?, t.ofText_text, t.runOn_schema h, map_eq_pure_bind]
  refine ⟨hrun, fun g' => ?_⟩
  rw [hrun, ← finalState_eq_some_iff, ← finalState_eq_some_iff, map_eq_pure_bind,
    finalState_bind_pure, t.finalState_reading]

/-- A name with a field that is an array of the same name with a field. -/
theorem TypeTree.annotatedSchema?_text_nested :
    ∃ (t : TypeTree) (g : Resolver), t.text = "Box\x7bdata=[]Box\x7bn=int\x7d\x7d" ∧
      t.Referenced 0 g ∧ (annotatedSchema? 0 t.text).runOn g = (some <$> t.reading 0).runOn g := by
  let box : TypeName :=
    ⟨⟨['B', 'o', 'x'], by simp [Text.isWord]⟩, by simp, by decide, by decide⟩
  let int : TypeName :=
    ⟨⟨['i', 'n', 't'], by simp [Text.isWord]⟩, by simp, by decide, by decide⟩
  let t : TypeTree := .combined box (.one ⟨['d', 'a', 't', 'a'], by simp [Text.isWord]⟩
    (.array (.combined box (.one ⟨['n'], by simp [Text.isWord]⟩ (.name int)))))
  let g : Resolver := ⟨(({} : Registry).index ⟨"m.go", "m", .all, ⟨"m", [],
    [.type ⟨"Box", [], false, .struct [], none, none, 0⟩], []⟩⟩).2.parseTypes, {}, [], [], [], [], []⟩
  have hfound : ∀ {g s g'}, (annotatedSchema 0 box.text).runOn g = (.ok s, g') →
      ((annotatedSchema 0 box.text).runOn g).1.toOption.map (·.reference.isSome) = some true →
      s.reference.isSome = true ∧ g' = ((annotatedSchema 0 box.text).runOn g).2 := by
    intro g s g' hrun href
    rw [hrun] at href ⊢
    exact ⟨Option.some.inj href, rfl⟩
  have href : t.Referenced 0 g := by
    intro s g' hs
    obtain ⟨href, rfl⟩ := hfound hs (by decide +kernel)
    refine ⟨href, fun s g' hs => ?_⟩
    obtain ⟨href, rfl⟩ := hfound hs (by decide +kernel)
    exact ⟨href, trivial⟩
  exact ⟨t, g, by decide +kernel, href, (annotatedSchema?_text t href).1⟩

end Meaning

end GoApiDoc
