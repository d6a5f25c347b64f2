/-
Errors of struct tags.

What the tag of a field asks for may be malformed, or not fit the type of the field.  No reading of
a tag fails in any other way, so every other error of a struct comes from the type of one of its
fields.

* `Field.tagFails_customSchema?`, `Field.tagFails_complement` — **reading a tag**.
-/

import GoApiDoc.Proofs.Reference

set_option autoImplicit false

namespace GoApiDoc

/-- The error is about the text of a tag, or about a tag that does not fit the type. -/
inductive DocError.OfTag : DocError → Prop
  | malformed (cause : Malformed) : OfTag (.malformed cause)
  | mismatch (constraint type : String) : OfTag (.mismatch constraint type)

/-- The result, if it is an error, is one of a tag. -/
def TagFails {α : Type} (x : Except DocError α) : Prop := ∀ e, x = .error e → e.OfTag

section Rules

variable {α β γ : Type} {x : Except DocError α}

theorem tagFails_ok (a : α) : TagFails (.ok a) := fun _ h => nomatch h

theorem tagFails_error {e : DocError} (he : e.OfTag) : TagFails (.error e : Except DocError α) :=
  fun _ h => Except.error.inj h ▸ he

theorem tagFails_malformed (cause : Malformed) :
    TagFails (.error (.malformed cause) : Except DocError α) := tagFails_error (.malformed cause)

theorem tagFails_bind {f : α → Except DocError β} (hx : TagFails x) (hf : ∀ a, TagFails (f a)) :
    TagFails (x >>= f) := by
  cases x with
  | ok a => exact hf a
  | error e => exact fun e' h => hx e' (congrArg Except.error (Except.error.inj h))

theorem tagFails_map (hx : TagFails x) (f : α → β) : TagFails (x.map f) := by
  cases x with
  | ok a => exact tagFails_ok _
  | error e => exact fun e' h => hx e' (congrArg Except.error (Except.error.inj h))

theorem tagFails_mapM {f : γ → Except DocError α} (hf : ∀ c, TagFails (f c)) (l : List γ) :
    TagFails (l.mapM f) := by
  induction l with
  | nil => exact tagFails_ok _
  | cons c l ih =>
    rw [List.mapM_cons]
    exact tagFails_bind (hf c) fun a => tagFails_bind ih fun as => tagFails_ok _

end Rules

namespace Field

open Go (Field)

/-! ### Values -/

theorem tagFails_valueOf (type value constraint : String) :
    TagFails (valueOf type value constraint) := by
  unfold valueOf
  dsimp only
  split
  · exact tagFails_ok _
  iterate 3
    -- a value that cannot be read is malformed
    · split
      · exact tagFails_ok _
      · exact tagFails_malformed _
  · exact tagFails_error (.mismatch _ _)

theorem tagFails_listOf {f : String → Except DocError Json} (hf : ∀ v, TagFails (f v))
    (value : String) : TagFails (listOf f value) := tagFails_mapM hf _

theorem tagFails_exampleItem (type value : String) : TagFails (exampleItem type value) := by
  unfold exampleItem
  split
  · exact tagFails_map (tagFails_listOf (fun v => tagFails_valueOf _ _ _) value) _
  · exact tagFails_malformed _
  · exact tagFails_valueOf _ _ _

theorem tagFails_examplePair (itemType whole pair : String) :
    TagFails (examplePair itemType whole pair) := by
  unfold examplePair
  split
  · exact tagFails_map (tagFails_exampleItem _ _) _
  · exact tagFails_malformed _

theorem tagFails_exampleOf (type itemType value : String) :
    TagFails (exampleOf type itemType value) := by
  unfold exampleOf
  split
  · exact tagFails_map (tagFails_listOf (fun v => tagFails_exampleItem _ _) value) _
  · split
    · exact tagFails_malformed _
    · exact tagFails_map (tagFails_mapM (tagFails_examplePair itemType value) _) _
  · exact tagFails_valueOf _ _ _

theorem tagFails_customSchema (words : List String) : TagFails (customSchema words) := by
  fun_induction customSchema words with
  | case1 | case2 | case4 | case9 => exact tagFails_malformed _
  | case3 rest _ ih => exact ih
  | case5 rest _ ih | case7 rest _ ih => exact tagFails_map ih _
  | case6 | case8 => exact tagFails_ok _

variable (f : Field)

theorem tagFails_customSchema? : TagFails (customSchema? f) := by
  unfold customSchema?
  dsimp only
  split
  · exact tagFails_ok _
  · exact tagFails_map (tagFails_customSchema _) _

/-! ### Constraints -/

namespace Constraints

variable (c : Constraints)

theorem tagFails_addBound (value : String) (isMax : Bool) : TagFails (c.addBound value isMax) := by
  unfold addBound
  dsimp only
  split
  iterate 4
    · split
      · exact tagFails_ok _
      · exact tagFails_malformed _
  · exact tagFails_ok c

theorem tagFails_addRuleList (rules : List String) : TagFails (c.addRuleList rules) := by
  induction rules generalizing c with
  | nil => exact tagFails_ok c
  | cons rule rules ih =>
    unfold addRuleList
    dsimp only
    split
    iterate 4
      · exact tagFails_bind (tagFails_addBound c _ _) fun c => ih c
    · split
      · exact tagFails_bind (tagFails_mapM (fun v => tagFails_valueOf _ v _) _) fun enums => ih _
      · exact ih c
    · exact tagFails_ok c
    · exact ih c

theorem tagFails_addRules (rules : String) : TagFails (c.addRules rules) := by
  unfold addRules
  split
  · exact tagFails_ok c
  · exact tagFails_addRuleList c _

theorem tagFails_addEnums (tag : String) : TagFails (c.addEnums tag) := by
  unfold addEnums
  dsimp only
  split
  · exact tagFails_ok c
  · exact tagFails_map (tagFails_listOf (fun v => tagFails_valueOf _ _ _) _) _

theorem tagFails_numberFor (tag key : String) (old : Option Double) :
    TagFails (c.numberFor tag key old) := by
  unfold numberFor
  split
  · exact tagFails_ok old
  split
  · split
    · exact tagFails_ok _
    · exact tagFails_malformed _
  · exact tagFails_error (.mismatch _ _)

theorem tagFails_lengthFor (tag key : String) (old : Option Int) :
    TagFails (c.lengthFor tag key old) := by
  unfold lengthFor
  split
  · exact tagFails_ok old
  split
  · split
    · exact tagFails_ok _
    · exact tagFails_malformed _
  · exact tagFails_error (.mismatch _ _)

theorem tagFails_ofTag (tag type : String) (rest : List String) :
    TagFails (ofTag tag type rest) := by
  refine tagFails_bind (tagFails_addRules _ _) fun c => ?_
  refine tagFails_bind (tagFails_addRules _ _) fun c => ?_
  refine tagFails_bind (tagFails_addEnums _ _) fun c => ?_
  refine tagFails_bind (tagFails_numberFor _ _ _ _) fun _ => ?_
  refine tagFails_bind (tagFails_numberFor _ _ _ _) fun _ => ?_
  refine tagFails_bind (tagFails_numberFor _ _ _ _) fun _ => ?_
  refine tagFails_bind (tagFails_lengthFor _ _ _ _) fun _ => ?_
  exact tagFails_bind (tagFails_lengthFor _ _ _ _) fun _ => tagFails_ok _

end Constraints

/-! ### Schemas -/

variable (tag : String)

theorem tagFails_addEnumNames (c : Constraints) (s : Schema) : TagFails (addEnumNames tag c s) := by
  unfold addEnumNames
  dsimp only
  split
  · exact tagFails_ok s
  · split
    · exact tagFails_ok _
    · exact tagFails_malformed _

theorem tagFails_addDefault (c : Constraints) (s : Schema) : TagFails (addDefault tag c s) := by
  unfold addDefault defaultOf
  dsimp only
  split
  · exact tagFails_ok s
  · refine tagFails_map ?_ _
    split
    · exact tagFails_map (tagFails_listOf (fun v => tagFails_valueOf _ _ _) _) _
    · exact tagFails_valueOf _ _ _

theorem tagFails_exampleFor (encoded : Bool) (zero : Option Json) (c : Constraints) :
    TagFails (exampleFor tag encoded zero c) := by
  unfold exampleFor
  split
  · exact tagFails_ok zero
  · split
    · exact tagFails_ok _
    · exact tagFails_map (tagFails_exampleOf _ _ _) _

theorem tagFails_complementPlain (s : Schema) (type : String) (rest : List String) :
    TagFails (complementPlain f s type rest) := by
  unfold complementPlain
  dsimp only
  split
  · exact tagFails_ok _
  · refine tagFails_bind (Constraints.tagFails_ofTag _ _ _) fun c => ?_
    refine tagFails_bind (tagFails_addEnumNames _ _ _) fun s => ?_
    refine tagFails_bind (tagFails_addDefault _ _ _) fun s => ?_
    exact tagFails_bind (tagFails_exampleFor _ _ _ _) fun _ => tagFails_ok _

/-- **The errors of a field are those of its tag.** -/
theorem tagFails_complement (s : Schema) (types : List String) :
    TagFails (complement f s types) := by
  unfold complement
  split
  · exact tagFails_malformed _
  · split
    · exact tagFails_bind (tagFails_complementPlain _ _ _ _) fun _ => tagFails_ok _
    · exact tagFails_complementPlain _ _ _ _

end Field

end GoApiDoc
