/-
Tags that say nothing about the schema.

A tag may do no more than name the property and tell whether it is required.  Reading it then leaves
the schema of the field as it is, with one exception: where the values are arrays, the constraints
of their items are written to the items of the schema, and a schema that does not list its items
gets empty ones.  A reference has none, and neither has a combination of schemas, so these gain
`items` from any tag; a reference is then wrapped like one that gains a constraint.

* `Resolver.complement_of_silent` — **a silent tag changes nothing but arrays whose items stand
  elsewhere**.
-/

import GoApiDoc.Proofs.Shape

set_option autoImplicit false

namespace GoApiDoc

open Go (TypeId TypeExpr)

variable {tag key : String} {s : Schema}

/-! ### Silent tags -/

/-- The keys that tell how a property is called and whether it is required. -/
def Tag.silentKeys : List String := ["json", "binding", "validate"]

/-- The rules that only tell whether a property is required, and the empty one. -/
def Tag.silentRules : List String := ["", "required", "optional"]

theorem Tag.lookup?_eq_none (h : ∀ e ∈ Tag.entries tag.toList, e.1 ≠ key.toList) :
    Tag.lookup? tag key = none := by
  have hfind : (Tag.entries tag.toList).find? (fun e => e.1 == key.toList) = none := by
    rw [List.find?_eq_none]
    intro e he
    simpa using h e he
  rw [Tag.lookup?, hfind]

namespace Field

open Go (Field)

/-- The field has no comments, and its tag only names the property and tells whether it is
required. -/
structure Silent (f : Field) (tag : String) : Prop where
  tagged : f.tag = some tag
  description : description? f = none
  keys : ∀ e ∈ Tag.entries tag.toList, String.ofList e.1 ∈ Tag.silentKeys
  plain : isStringEncoded f = false
  rules : ∀ key ∈ ["binding", "validate"], ∀ rule ∈ Text.split ',' (Tag.get tag key),
    Text.trim rule ∈ Tag.silentRules

namespace Constraints

theorem addRuleList_silent (c : Constraints) {rules : List String}
    (h : ∀ rule ∈ rules, Text.trim rule ∈ Tag.silentRules) : c.addRuleList rules = .ok c := by
  induction rules with
  | nil => rfl
  | cons rule rules ih =>
    have hrest := ih fun r hr => h r (.tail _ hr)
    have hrule : Text.trim rule = "" ∨ Text.trim rule = "required" ∨
        Text.trim rule = "optional" := by
      simpa [Tag.silentRules] using h rule (.head _)
    have hsplit : Text.splitOnce '=' (Text.trim rule) = none := by
      rcases hrule with h | h | h <;> rw [h] <;> rfl
    rw [addRuleList, hsplit]
    rcases hrule with h | h | h <;> rw [h] <;> exact hrest

theorem addRules_silent (c : Constraints) {list : String}
    (h : ∀ rule ∈ Text.split ',' list, Text.trim rule ∈ Tag.silentRules) :
    c.addRules list = .ok c := by
  unfold addRules
  split
  · rfl
  · exact addRuleList_silent c h

end Constraints

/-! ### What a tag writes -/

/-- Writes what a tag asks for into a schema, where `zero` stands for a missing value of a type that
is written as a string. -/
def write (f : Field) (tag : String) (zero : Option String) (c : Constraints) (s : Schema) :
    Except DocError Schema := do
  let s ← addEnumNames tag c s
  let s ← addDefault tag c (constrain tag c (addExtensions tag s))
  let sample ← exampleFor tag (isStringEncoded f) (zero.map .str) c
  return { s with
    exampleValue := sample <|> s.exampleValue
    readOnly := s.readOnly || isReadOnly f }

/-- The schema with the description of the field. -/
def describe (f : Field) (s : Schema) : Schema :=
  { s with description := description? f <|> s.description }

/-- Writes what a tag asks for, where values that are written as strings have the schema of strings
instead of that of their type. -/
def writeEncoded (f : Field) (tag : String) (c : Constraints) (s : Schema) :
    Except DocError Schema :=
  match if isStringEncoded f then encodedZero? c.type else none with
  | some zero => write f tag (some zero) { c with type := "string" }
      { Schema.ofType "string" with description := s.description }
  | none => write f tag none c s

theorem complementPlain_eq {f : Field} (htag : f.tag = some tag) (s : Schema) (type : String)
    (rest : List String) :
    complementPlain f s type rest =
      Constraints.ofTag tag type rest >>= fun c => writeEncoded f tag c (describe f s) := by
  rw [complementPlain, htag]
  dsimp only
  congr 1
  funext c
  rw [writeEncoded]
  split
  · next zero hzero =>
    rw [hzero]
    rfl
  · next hzero =>
    rw [hzero]
    rfl

namespace Silent

variable {f : Field} {tag : String}

theorem lookup? (h : Silent f tag) (hkey : key ∉ Tag.silentKeys) : Tag.lookup? tag key = none := by
  refine Tag.lookup?_eq_none fun e he heq => hkey ?_
  have hmem := h.keys e he
  rwa [heq, String.ofList_toList] at hmem

theorem get (h : Silent f tag) (hkey : key ∉ Tag.silentKeys) : Tag.get tag key = "" := by
  rw [Tag.get, h.lookup? hkey]
  rfl

theorem ofTag (h : Silent f tag) (type : String) (rest : List String) :
    Constraints.ofTag tag type rest = .ok
      { type := type, itemType := if type = "array" ∨ type = "object" then rest.headD "" else "" } := by
  have hbinding := h.rules "binding" (by simp)
  have hvalidate := h.rules "validate" (by simp)
  have hformat := h.lookup? (show "format" ∉ Tag.silentKeys by decide)
  have henums := h.get (show "enums" ∉ Tag.silentKeys by decide)
  have hmaximum := h.lookup? (show "maximum" ∉ Tag.silentKeys by decide)
  have hminimum := h.lookup? (show "minimum" ∉ Tag.silentKeys by decide)
  have hmultiple := h.lookup? (show "multipleOf" ∉ Tag.silentKeys by decide)
  have hmax := h.lookup? (show "maxLength" ∉ Tag.silentKeys by decide)
  have hmin := h.lookup? (show "minLength" ∉ Tag.silentKeys by decide)
  simp only [Constraints.ofTag, Constraints.addRules_silent _ hbinding,
    Constraints.addRules_silent _ hvalidate, Constraints.addEnums, Constraints.numberFor,
    Constraints.lengthFor, hformat, henums, hmaximum, hminimum, hmultiple, hmax, hmin, bind,
    Except.bind]
  rfl

theorem describe (h : Silent f tag) (s : Schema) : Field.describe f s = s := by
  rw [Field.describe, h.description]
  cases s
  rfl

theorem addExtensions (h : Silent f tag) (s : Schema) : Field.addExtensions tag s = s := by
  rw [Field.addExtensions, h.get (show "extensions" ∉ Tag.silentKeys by decide)]
  cases s
  rfl

theorem isReadOnly (h : Silent f tag) : Field.isReadOnly f = false := by
  rw [Field.isReadOnly, tagOf, h.tagged, Option.getD_some,
    h.get (show "readonly" ∉ Tag.silentKeys by decide)]
  rfl

/-- The schema of the items is kept, or an empty one put in its place. -/
theorem constrain (h : Silent f tag) (type itemType : String) (s : Schema) :
    Field.constrain tag { type := type, itemType := itemType } s =
      if type = "array" then { s with items := some (s.items.getD {}) } else s := by
  have helement : constrainElement tag { type := type, itemType := itemType } = id := by
    funext e
    rw [constrainElement, h.lookup? (show "pattern" ∉ Tag.silentKeys by decide)]
    cases e
    rfl
  rw [Field.constrain, helement, onElement]
  split
  · rfl
  · rfl

theorem complementPlain (h : Silent f tag) (s : Schema) (type : String) (rest : List String) :
    Field.complementPlain f s type rest =
      .ok (if type = "array" then { s with items := some (s.items.getD {}) } else s) := by
  have hnames := h.get (show "x-enum-varnames" ∉ Tag.silentKeys by decide)
  have hdefault := h.get (show "default" ∉ Tag.silentKeys by decide)
  have hexample := h.lookup? (show "example" ∉ Tag.silentKeys by decide)
  rw [complementPlain_eq h.tagged, h.ofTag, h.describe]
  change writeEncoded f tag _ s = _
  rw [writeEncoded, h.plain, if_neg Bool.false_ne_true]
  change write f tag none _ s = _
  rw [write, addEnumNames, hnames]
  change (addDefault tag _ _ >>= _) = _
  rw [h.addExtensions, h.constrain, addDefault, hdefault]
  change (exampleFor tag _ none _ >>= _) = _
  rw [exampleFor, hexample, h.isReadOnly]
  generalize (if type = "array" then { s with items := some (s.items.getD {}) } else s) = t
  cases t
  simp [bind, Except.bind, pure, Except.pure]

end Silent

end Field

/-! ### Schemas that gain items -/

namespace Schema

/-- The schema with empty items; a reference becomes a part of a schema that holds them. -/
def withEmptyItems (s : Schema) : Schema :=
  if s.reference.isSome then { items := some {}, allOf := [s] } else { s with items := some {} }

end Schema

/-! ### Fields -/

namespace Field

open Go (Field)

theorem Silent.complement {f : Field} (h : Silent f tag) (hs : s.Resolved) (type : String)
    (rest : List String) :
    Field.complement f s (type :: rest) =
      .ok (if type = "array" ∧ s.items = none then s.withEmptyItems else s) := by
  rw [Field.complement]
  split
  · next hr =>
    obtain ⟨name, rfl⟩ := hs.eq_ref hr
    rw [h.complementPlain]
    by_cases harray : type = "array"
    · subst harray
      rfl
    · have hempty : ({} : Schema).isEmpty = true := by decide
      simp [harray, bind, Except.bind, pure, Except.pure, hempty]
  · next hr =>
    rw [h.complementPlain]
    by_cases harray : type = "array"
    · subst harray
      cases hi : s.items with
      | none => simp [Schema.withEmptyItems, hr]
      | some t =>
        obtain ⟨facts, items, allOf, properties, additional⟩ := s
        obtain rfl : items = some t := hi
        simp
    · simp [harray]

end Field

/-- An array whose items stand elsewhere is one whose type stands elsewhere. -/
theorem Schema.Resolved.items_eq_none_iff (hs : s.Resolved) {g : Resolver} {rest : List String}
    (h : g.typePath? 2 s = some ("array" :: rest)) : s.items = none ↔ s.type = none := by
  constructor
  · intro hitems
    cases htype : s.type with
    | none => rfl
    | some type =>
      cases hr : s.reference with
      | some name =>
        obtain ⟨name, rfl⟩ := hs.eq_ref (by rw [hr]; rfl)
        cases htype
      | none =>
        have hhead := Schema.typePathFrom_head hr htype h
        have hsome : s.items.isSome := hs.items_iff.mpr (htype.trans hhead.symm)
        rw [hitems] at hsome
        cases hsome
  · intro htype
    have hne : ¬ s.items.isSome := by
      rw [hs.items_iff, htype]
      exact fun h => by cases h
    simpa using hne

/-- **A silent tag changes nothing but arrays whose items stand elsewhere**: the schema of a field
stays as it is, unless its values are arrays and it is a reference or a combination of schemas. -/
theorem Resolver.complement_of_silent {f : Go.Field} {tag : String} (hf : Field.Silent f tag)
    {t : TypeExpr} {file : FileId} {g₀ g₁ : Resolver} {s : Schema}
    (hrun : (resolve t file).runOn g₀ = (.ok s, g₁)) (g : Resolver)
    (hpath : g.typePath 2 s ≠ []) :
    g.complement f s =
      .ok (if (g.typePath 2 s).head? = some "array" ∧ s.type = none then s.withEmptyItems
        else s) := by
  have hs := resolved_of_resolve hrun
  obtain ⟨type, rest, htypes⟩ : ∃ type rest, g.typePath? 2 s = some (type :: rest) := by
    unfold Resolver.typePath at hpath
    cases htypes : g.typePath? 2 s with
    | none => exact absurd (by rw [htypes]; rfl) hpath
    | some types =>
      cases types with
      | nil => exact absurd (by rw [htypes]; rfl) hpath
      | cons type rest => exact ⟨type, rest, rfl⟩
  rw [Resolver.complement, Resolver.typePath, htypes]
  dsimp only [Option.getD_some, List.head?_cons]
  rw [hf.complement hs]
  by_cases harray : type = "array"
  · subst harray
    simp only [hs.items_eq_none_iff htypes, true_and]
  · simp [harray]

/-- A declared list of texts. -/
def roster : Registry :=
  let names : Go.Decl := .type ⟨"Names", [], false, .slice (.ident "string"), none, none, 0⟩
  (({} : Registry).index ⟨"app.go", "example.com/app", .all, ⟨"app", [], [names], []⟩⟩).2.parseTypes

/-- A field of that type whose tag names the property. -/
def namesField : Go.Field := ⟨["Names"], .ident "Names", some "json:\"names\"", none, none⟩

theorem silent_namesField : Field.Silent namesField "json:\"names\"" where
  tagged := rfl
  description := rfl
  keys := by decide +kernel
  plain := by decide +kernel
  rules := by decide +kernel

set_option maxRecDepth 100000 in
/-- The reference to the list is wrapped, with empty items beside it. -/
theorem complement_of_silent_roster :
    let g := ((Resolver.resolve (.ident "Names") 0).runOn (.fresh roster {})).2
    g.typePath 2 (.ref "app.Names") = ["array", "string"] ∧
      g.complement namesField (.ref "app.Names") =
        .ok { items := some {}, allOf := [.ref "app.Names"] } := by
  intro g
  have hrun : (Resolver.resolve (.ident "Names") 0).runOn (.fresh roster {}) =
      (.ok (.ref "app.Names"), g) := Resolver.resolve_eq_ref (by decide +kernel)
  have hpath : g.typePath 2 (.ref "app.Names") = ["array", "string"] := by decide +kernel
  refine ⟨hpath, ?_⟩
  rw [Resolver.complement_of_silent silent_namesField hrun g (by simp [hpath]), hpath]
  rfl

end GoApiDoc
