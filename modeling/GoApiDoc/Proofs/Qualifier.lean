/-
What a qualified name stands for in a file that imports its qualifier.

A name `models.Pet` is looked up in the package that the file imports as `models`.  The look-up does
not end there: if that package does not declare `Pet`, or is not indexed at all, the other readings
of the name are tried, among them the type `Pet` of any package that is called `models`.

* `Registry.lookup_keeps_import_unless_undeclared` — **the imported package comes first, and another
  package can only answer for a name that the imported one does not declare**.
-/

import GoApiDoc.Proofs.Text
import GoApiDoc.Proofs.WellIndexed

set_option autoImplicit false

namespace GoApiDoc

open Go (TypeId)

/-! ### Qualified names -/

theorem splitTypeArgs_append {base : String} (h : '[' ∉ base.toList) (args : String) :
    splitTypeArgs (base ++ "[" ++ args ++ "]") = (base, some args) := by
  have hsplit : Text.splitOnce '[' (base ++ "[" ++ args ++ "]") = some (base, args ++ "]") := by
    rw [String.append_assoc]
    exact Text.splitOnce_append h
  have hstrip : Text.stripSuffix "]" (args ++ "]") = some args := Text.stripSuffix_append args ']'
  simp [splitTypeArgs, hsplit, hstrip]

/-- A predeclared name is a word. -/
theorem isBuiltinType_eq_false {name : String} (h : '.' ∈ name.toList ∨ '[' ∈ name.toList) :
    isBuiltinType name = false := by
  have hbuiltin : ∀ b ∈ builtinTypes, '.' ∉ b.toList ∧ '[' ∉ b.toList := by decide
  rw [isBuiltinType, Bool.eq_false_iff, ne_eq, List.contains_iff_mem]
  exact fun hmem => h.elim (hbuiltin _ hmem).1 (hbuiltin _ hmem).2

/-- A character that neither ends a name nor cuts it. -/
def isNameChar (c : Char) : Bool := !(c == '/' || c == '[' || Text.isBlank c)

/-- A name behind a qualifier, with or without type arguments. -/
structure QualifiedName where
  qualifier : String
  name : String
  args : Option String
  qualifier_plain : ∀ c ∈ qualifier.toList, isNameChar c = true ∧ c ≠ '.'
  name_plain : ∀ c ∈ name.toList, isNameChar c = true

namespace QualifiedName

variable (n : QualifiedName)

/-- The qualifier and the name. -/
def base : String := n.qualifier ++ "." ++ n.name

/-- The name as it is written. -/
def text : String :=
  match n.args with
  | none => n.base
  | some args => n.base ++ "[" ++ args ++ "]"

theorem toList_base : n.base.toList = n.qualifier.toList ++ '.' :: n.name.toList := by
  simp [base]

theorem base_plain : ∀ c ∈ n.base.toList, isNameChar c = true := by
  intro c hc
  rw [toList_base, List.mem_append, List.mem_cons] at hc
  rcases hc with hc | rfl | hc
  · exact (n.qualifier_plain c hc).1
  · decide
  · exact n.name_plain c hc

theorem isBlank_of_base {n : QualifiedName} {c : Char} (hc : c ∈ n.base.toList) :
    Text.isBlank c = false := by
  have hplain := n.base_plain c hc
  simp only [isNameChar, Bool.not_eq_true', Bool.or_eq_false_iff] at hplain
  exact hplain.2

theorem notMem_base {d : Char} (hd : isNameChar d = false) : d ∉ n.base.toList := by
  intro hmem
  rw [n.base_plain d hmem] at hd
  cases hd

theorem splitOnce_base : Text.splitOnce '.' n.base = some (n.qualifier, n.name) :=
  Text.splitOnce_append fun hmem => (n.qualifier_plain _ hmem).2 rfl

theorem trim_text : Text.trim n.text = n.text := by
  have hstart : ∀ cs, Text.trimStart (n.base.toList ++ cs) = n.base.toList ++ cs := by
    intro cs
    -- the point keeps the qualified name from being empty
    obtain ⟨c, rest, hbase⟩ : ∃ c rest, n.base.toList = c :: rest := by
      rw [toList_base]
      cases n.qualifier.toList with
      | nil => exact ⟨_, _, rfl⟩
      | cons c rest => exact ⟨_, _, rfl⟩
    have hc : Text.isBlank c = false := isBlank_of_base (hbase ▸ List.mem_cons_self)
    rw [hbase, List.cons_append]
    exact List.dropWhile_cons_of_neg (by simp [hc])
  rw [Text.trim, ← String.toList_inj, String.toList_ofList, Text.trimChars, text]
  cases n.args with
  | none =>
    have htrim := hstart []
    rw [List.append_nil] at htrim
    rw [htrim]
    exact Text.dropTrailing_of_forall fun c hc => isBlank_of_base hc
  | some args =>
    have hlist : (n.base ++ "[" ++ args ++ "]").toList =
        n.base.toList ++ (('[' :: args.toList) ++ [']']) := by simp
    rw [hlist, hstart, ← List.append_assoc]
    exact Text.dropTrailing_append _ (by decide)

theorem splitTypeArgs_text : splitTypeArgs n.text = (n.base, n.args) := by
  have hopen : '[' ∉ n.base.toList := n.notMem_base (by decide)
  unfold text
  cases n.args with
  | none => simp [splitTypeArgs, Text.splitOnce_eq_none hopen]
  | some args => exact splitTypeArgs_append hopen args

theorem isBuiltinType_text : isBuiltinType n.text = false := by
  refine isBuiltinType_eq_false (.inl ?_)
  unfold text
  cases n.args <;> simp [toList_base]

/-- The readings of a qualified name beside that of an import: a name of the type in all files, a
type of the file's own package by the name of that package, a type in the body of a function, or a
type of some package with the qualifier as its name. -/
def StandsFor (r : Registry) (u : SourceUnit) (d : TypeDecl) : Prop :=
  d.GoesBy n.base ∨ d.instanceName = none ∧
    (d.packagePath = u.packagePath ∧ u.packageName = n.qualifier ∧ d.scopedName = n.name ∨
      d.packagePath = u.packagePath ∧ d.scopedName = n.base ∨
      ∃ p, r.packages.get? d.packagePath = some p ∧ p.name = n.qualifier ∧ d.scopedName = n.name)

end QualifiedName

/-! ### Look-up -/

namespace Registry

variable {r : Registry} {n : QualifiedName} {file : FileId} {u : SourceUnit}

theorem lookupType?_text (hu : r.files[file]? = some u) :
    r.lookupType? n.text file =
      (r.lookupQualified? u file n.qualifier n.name n.base).map fun id => (id, n.args) := by
  have hslash : '/' ∉ n.base.toList := n.notMem_base (by decide)
  have hbase : r.lookupBase? n.base file = r.lookupQualified? u file n.qualifier n.name n.base := by
    simp only [lookupBase?, hu, Text.splitLast_eq_none hslash, n.splitOnce_base]
  simp only [lookupType?, n.trim_text, n.isBuiltinType_text, n.splitTypeArgs_text, hbase,
    Bool.false_eq_true, if_false]

/-- Whatever is found beside the import is one of the other readings. -/
theorem standsFor_of_lookupQualified? (h : WellIndexed r) {id : TypeId}
    (himport : ((r.packageOf? n.qualifier file).bind fun path => r.typeIn? path n.name) = none)
    (hfound : r.lookupQualified? u file n.qualifier n.name n.base = some id) :
    ∃ d, r.core? id = some d ∧ n.StandsFor r u d := by
  rw [lookupQualified?, himport] at hfound
  simp only [Option.orElse_eq_orElse, Option.orElse_eq_or, Option.none_or,
    Option.or_eq_some_iff] at hfound
  rcases hfound with hown | ⟨-, hfunc | ⟨-, hshort | ⟨-, hscan⟩⟩⟩
  · split at hown
    · next hq =>
      obtain ⟨d, hd, hinst, hpath, hname⟩ := (h.declared _ _ _).1 hown
      exact ⟨d, hd, Or.inr ⟨hinst, Or.inl ⟨hpath, hq.symm, hname⟩⟩⟩
    · cases hown
  · obtain ⟨d, hd, hinst, hpath, hname⟩ := (h.declared _ _ _).1 hfunc
    exact ⟨d, hd, Or.inr ⟨hinst, Or.inr (Or.inl ⟨hpath, hname⟩)⟩⟩
  · obtain ⟨d, hd, hgoes⟩ := h.short n.base id
      (Table.mem_of_get? (Option.join_eq_some_iff.1 hshort))
    exact ⟨d, hd, Or.inl hgoes⟩
  · obtain ⟨path, p, hp, hq, d, hd, hinst, rfl, hname⟩ := h.declares_of_scan hscan
    exact ⟨d, hd, Or.inr ⟨hinst, Or.inr (Or.inr ⟨p, hp, hq, hname⟩)⟩⟩

theorem not_declares_of_lookupQualified? (h : WellIndexed r)
    (hfound : r.lookupQualified? u file n.qualifier n.name n.base = none) {path : String}
    {p : Package} (hp : r.packages.get? path = some p) (hq : p.name = n.qualifier) (id : TypeId) :
    ¬r.Declares path n.name id := by
  intro hd
  rw [lookupQualified?] at hfound
  simp only [Option.orElse_eq_orElse, Option.orElse_eq_or, Option.or_eq_none_iff] at hfound
  have hscan := List.findSome?_eq_none_iff.1 hfound.2.2.2.2 p <|
    List.mem_filter.2 ⟨List.mem_map.2 ⟨_, Table.mem_of_get? hp, rfl⟩, beq_iff_eq.2 hq⟩
  have hlisted := (h.declared path n.name id).2 hd
  rw [typeIn?, hp] at hlisted
  cases hscan.symm.trans hlisted

/-- In a file that imports the qualifier, a type that the imported package declares under the name is
what the name stands for.  Any other answer is one of the other readings, and is given only if the
imported package does not declare the name; and no answer is given only if, besides, no package with
the qualifier as its name declares it. -/
theorem lookup_keeps_import_unless_undeclared (hr : Reachable r) (n : QualifiedName) (file : FileId)
    (path : String) (himport : r.packageOf? n.qualifier file = some path) :
    (∀ id, r.Declares path n.name id → r.lookupType? n.text file = some (id, n.args)) ∧
    (∀ id args, r.lookupType? n.text file = some (id, args) → args = n.args ∧
      (r.Declares path n.name id ∨
        (∀ id', ¬r.Declares path n.name id') ∧
          ∃ u d, r.files[file]? = some u ∧ r.core? id = some d ∧ n.StandsFor r u d)) ∧
    (r.lookupType? n.text file = none →
      (∀ id, ¬r.Declares path n.name id) ∧
      ∀ path' p, r.packages.get? path' = some p → p.name = n.qualifier →
        ∀ id, ¬r.Declares path' n.name id) := by
  have h := hr.wellIndexed
  obtain ⟨u, hu⟩ : ∃ u, r.files[file]? = some u := by
    cases hfile : r.files[file]? with
    | none => simp [packageOf?, hfile] at himport
    | some u => exact ⟨u, rfl⟩
  have hfirst : ∀ id, r.Declares path n.name id →
      r.lookupQualified? u file n.qualifier n.name n.base = some id := by
    intro id hd
    rw [lookupQualified?, himport, Option.bind_some, (h.declared _ _ _).2 hd]
    rfl
  rw [lookupType?_text hu]
  refine ⟨fun id hd => by rw [hfirst id hd]; rfl, fun id args hfound => ?_, fun hnone => ?_⟩
  · obtain ⟨id', hid', heq⟩ := Option.map_eq_some_iff.1 hfound
    obtain ⟨rfl, rfl⟩ := Prod.mk.inj heq
    refine ⟨rfl, ?_⟩
    cases hlisted : r.typeIn? path n.name with
    | some id₀ =>
      have hd := (h.declared _ _ _).1 hlisted
      obtain rfl := Option.some.inj ((hfirst id₀ hd).symm.trans hid')
      exact Or.inl hd
    | none =>
      refine Or.inr ⟨fun id₀ hd => ?_, ?_⟩
      · cases hlisted.symm.trans ((h.declared _ _ _).2 hd)
      have hmissing : ((r.packageOf? n.qualifier file).bind
          fun path => r.typeIn? path n.name) = none := by
        rw [himport, Option.bind_some, hlisted]
      obtain ⟨d, hd, hstands⟩ := standsFor_of_lookupQualified? h hmissing hid'
      exact ⟨u, d, hu, hd, hstands⟩
  · have hnone := Option.map_eq_none_iff.1 hnone
    refine ⟨fun id hd => ?_, fun path' p hp hq id => ?_⟩
    · cases hnone.symm.trans (hfirst id hd)
    · exact not_declares_of_lookupQualified? h hnone hp hq id

/-- A package `models` with a type `Pet`, and a file that imports another package `models`, which is
not indexed. -/
def otherModels : Registry :=
  let pet : Go.Decl := .type ⟨"Pet", [], false, .struct [], none, none, 0⟩
  let models : SourceUnit := ⟨"pet.go", "app/models", .all, ⟨"models", [], [pet], []⟩⟩
  let main : SourceUnit := ⟨"main.go", "app", .all, ⟨"main", [⟨none, "ext/models"⟩], [], []⟩⟩
  ((({} : Registry).index models).2.parseTypes.index main).2.parseTypes

/-- The name `models.Pet`. -/
def modelsPet : QualifiedName where
  qualifier := "models"
  name := "Pet"
  args := none
  qualifier_plain := by
    have hall : ("models".toList.all fun c => isNameChar c && c != '.') = true := by decide
    intro c hc
    simpa using List.all_eq_true.1 hall c hc
  name_plain := List.all_eq_true.1 (by decide)

/-- The name stands for the type of the package that merely has the same name. -/
theorem lookup_keeps_import_unless_undeclared_other :
    Reachable otherModels ∧ otherModels.packageOf? "models" 1 = some "ext/models" ∧
    otherModels.lookupType? "models.Pet" 1 = some (0, none) ∧
    (∀ id, ¬otherModels.Declares "ext/models" "Pet" id) ∧
    ∃ d, otherModels.core? 0 = some d ∧ d.packagePath = "app/models" := by
  have hreach : Reachable otherModels := (((Reachable.empty none).index _).collect.index _).collect
  have himport : otherModels.packageOf? "models" 1 = some "ext/models" := by decide +kernel
  have hfound : otherModels.lookupType? "models.Pet" 1 = some (0, none) := by decide +kernel
  have hpath : (otherModels.core? 0).map (·.packagePath) = some "app/models" := by decide +kernel
  obtain ⟨d, hd, hdpath⟩ := Option.map_eq_some_iff.1 hpath
  obtain ⟨-, hanswer, -⟩ :=
    lookup_keeps_import_unless_undeclared hreach modelsPet 1 "ext/models" himport
  refine ⟨hreach, himport, hfound, ?_, d, hd, hdpath⟩
  obtain ⟨-, ⟨d', hd', -, hd'path, -⟩ | ⟨hmissing, -⟩⟩ := hanswer 0 none hfound
  · obtain rfl := Option.some.inj (hd.symm.trans hd')
    exact absurd (hdpath.symm.trans hd'path) (by decide)
  · exact hmissing

end Registry

end GoApiDoc
