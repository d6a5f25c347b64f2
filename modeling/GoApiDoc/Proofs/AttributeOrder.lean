/-
Attributes of a parameter in any order.

The name of an attribute is found backwards from its parenthesis, and its value ends where as many
parentheses are closed as were opened.  So a list of attributes with blanks between them is read as
it was written.  Each attribute then writes a place of its own, which depends on its name only, or
it fails whatever was written before; hence attributes with different names may change places.

* `ParamAttributes.ofText_perm` — **the order and the case of the names do not matter**.
-/

import Mathlib
import GoApiDoc.Operation.Attribute
import GoApiDoc.Proofs.Text

set_option autoImplicit false

namespace GoApiDoc

/-! ### Reading -/

theorem Text.isAlphanumeric_of_isAlphanum {c : Char} (h : c.isAlphanum = true) :
    Text.isAlphanumeric c = true := by
  have hascii : c.toNat < 128 := by
    simp [Char.isAlphanum, Char.isAlpha, Char.isUpper, Char.isLower, Char.isDigit,
      UInt32.le_iff_toNat_le] at h
    omega
  rw [Text.isAlphanumeric, if_pos hascii, h]

/-- Every parenthesis has its partner. -/
inductive Balanced : List Char → Prop
  | nil : Balanced []
  | char {c : Char} {cs : List Char} (hopen : c ≠ '(') (hclose : c ≠ ')') (h : Balanced cs) :
      Balanced (c :: cs)
  | nest {inner cs : List Char} (hinner : Balanced inner) (h : Balanced cs) :
      Balanced ('(' :: (inner ++ ')' :: cs))

theorem closeParen_balanced {body : List Char} (h : Balanced body) (depth : Nat)
    (rest : List Char) :
    closeParen depth (body ++ rest) = (closeParen depth rest).map fun p => (body ++ p.1, p.2) := by
  induction h generalizing depth rest with
  | nil => simp
  | char hopen hclose _ ih =>
    rw [List.cons_append, closeParen, ih, Option.map_map]
    · rfl
    · exact hopen
    · exact fun _ => hclose
    · exact fun _ _ => hclose
  | nest _ _ ihinner ih =>
    rw [List.cons_append, closeParen, List.append_assoc, ihinner, List.cons_append, closeParen, ih]
    simp [Function.comp_def]

/-- An attribute as it is written, with the blanks in front of it. -/
structure Attribute where
  gap : List Char
  name : String
  value : String
  gap_blank : ∀ c ∈ gap, Text.isBlank c = true
  name_ne : name.toList ≠ []
  name_ascii : ∀ c ∈ name.toList, c.isAlphanum = true
  value_balanced : Balanced value.toList

variable (a : Attribute)

namespace Attribute

def text : List Char :=
  a.gap ++ a.name.toList ++ '(' :: (a.value.toList ++ [')'])

/-- The name in small letters and the value without blanks around it. -/
def pair : String × String := (Text.asciiLower a.name, Text.trim a.value)

theorem trailingName_eq : trailingName (a.gap ++ a.name.toList) = a.name := by
  have hname : ∀ c ∈ a.name.toList.reverse, (Text.isAlphanumeric c || c == '_') = true := by
    intro c hc
    simp [Text.isAlphanumeric_of_isAlphanum (a.name_ascii c (List.mem_reverse.1 hc))]
  have hgap : a.gap.reverse.takeWhile (fun c => Text.isAlphanumeric c || c == '_') = [] := by
    cases hcs : a.gap.reverse with
    | nil => rfl
    | cons c cs =>
      have hblank := a.gap_blank c (List.mem_reverse.1 (hcs ▸ (.head _)))
      have hunder : c ≠ '_' := by
        rintro rfl
        cases hblank
      exact List.takeWhile_cons_of_neg (by simp [Text.isAlphanumeric_of_isBlank hblank, hunder])
  rw [trailingName, List.reverse_append, List.takeWhile_append_of_pos hname, hgap, List.append_nil,
    List.reverse_reverse, String.ofList_toList]

theorem notMem_name : ∀ c ∈ a.gap ++ a.name.toList, (c == '(') = false := by
  intro c hc
  rw [beq_eq_false_iff_ne]
  rintro rfl
  rcases List.mem_append.1 hc with hc | hc
  · cases a.gap_blank _ hc
  · cases a.name_ascii _ hc

end Attribute

theorem attributesFrom_text (rest : List Char) :
    attributesFrom (a.text ++ rest) = a.pair :: attributesFrom rest := by
  have hopen : Text.breakAt (· == '(') (a.text ++ rest) =
      some (a.gap ++ a.name.toList, '(', a.value.toList ++ ')' :: rest) := by
    have happend : a.text ++ rest =
        (a.gap ++ a.name.toList) ++ '(' :: (a.value.toList ++ ')' :: rest) := by
      simp [Attribute.text]
    rw [happend]
    exact Text.breakAt_append _ a.notMem_name rfl
  have hclose : closeParen 0 (a.value.toList ++ ')' :: rest) = some (a.value.toList, rest) := by
    simp [closeParen_balanced a.value_balanced, closeParen]
  have hname : (Text.asciiLower a.name).isEmpty = false := by
    refine Bool.eq_false_iff.2 fun h => a.name_ne ?_
    simpa [Text.asciiLower] using h
  rw [attributesFrom]
  split
  · next h => cases hopen.symm.trans h
  · next h =>
    cases hopen.symm.trans h
    split
    · next h => cases hclose.symm.trans h
    · next h =>
      cases hclose.symm.trans h
      simp [a.trailingName_eq, hname, Attribute.pair]

variable (as : List Attribute)

/-- The text of a list of attributes. -/
def written : String := String.ofList (as.flatMap Attribute.text)

theorem attributePairs_written : attributePairs (written as) = as.map Attribute.pair := by
  rw [attributePairs, written, String.toList_ofList]
  induction as with
  | nil =>
    rw [List.flatMap_nil, attributesFrom]
    rfl
  | cons a as ih => rw [List.flatMap_cons, attributesFrom_text, ih, List.map_cons]

namespace ParamAttributes

/-! ### Meaning -/

/-- The change of the attributes writes the place that belongs to a name. -/
inductive Sets : String → (ParamAttributes → ParamAttributes) → Prop
  | enums (x : List Json) : Sets "enums" fun a => { a with enums := x }
  | minimum (x : Double) : Sets "minimum" fun a => { a with minimum := some x }
  | maximum (x : Double) : Sets "maximum" fun a => { a with maximum := some x }
  | minLength (x : Int) : Sets "minlength" fun a => { a with minLength := some x }
  | maxLength (x : Int) : Sets "maxlength" fun a => { a with maxLength := some x }
  | defaultValue (x : Json) : Sets "default" fun a => { a with defaultValue := some x }
  | exampleValue (x : Json) : Sets "example" fun a => { a with exampleValue := some x }
  | format (x : Option String) : Sets "format" fun a => { a with format := x }
  | pattern (x : Option String) : Sets "pattern" fun a => { a with pattern := x }
  | collectionFormat (x : String) :
      Sets "collectionformat" fun a => { a with collectionFormat := some x }
  | extensions (x : Table Json) :
      Sets "extensions" fun a => { a with extensions := a.extensions.extend x }
  | nothing (name : String) : Sets name id

theorem Sets.comm {m n : String} {f g : ParamAttributes → ParamAttributes} (hf : Sets m f)
    (hg : Sets n g) (h : m ≠ n) (a : ParamAttributes) : f (g a) = g (f a) := by
  cases hf <;> cases hg <;> first | rfl | exact absurd rfl h

/-- An operation on attributes fails on all of them, or it changes the place of a name. -/
def Changes (name : String) (h : ParamAttributes → Except DocError ParamAttributes) : Prop :=
  (∃ e, ∀ a, h a = .error e) ∨ ∃ f, Sets name f ∧ ∀ a, h a = .ok (f a)

theorem changes_map {α : Type} {name : String} {g : α → ParamAttributes → ParamAttributes}
    (r : Except DocError α) (hg : ∀ x, Sets name (g x)) :
    Changes name fun a => r.map fun x => g x a := by
  cases r with
  | error e => exact .inl ⟨e, fun _ => rfl⟩
  | ok x => exact .inr ⟨g x, hg x, fun _ => rfl⟩

variable (type : String)

theorem changes_add (isArray : Bool) (p : String × String) :
    Changes p.1 fun a => add type isArray a p := by
  obtain ⟨name, value⟩ := p
  unfold add
  dsimp only
  split
  · exact changes_map _ Sets.enums
  · exact changes_map _ Sets.minimum
  · exact changes_map _ Sets.maximum
  · exact changes_map _ Sets.minLength
  · exact changes_map _ Sets.maxLength
  · exact changes_map _ Sets.defaultValue
  · exact changes_map _ Sets.exampleValue
  · exact .inr ⟨_, .format _, fun _ => rfl⟩
  · exact .inr ⟨_, .pattern _, fun _ => rfl⟩
  · split
    · exact .inl ⟨_, fun _ => rfl⟩
    · split
      · exact .inr ⟨_, .collectionFormat _, fun _ => rfl⟩
      · exact .inl ⟨_, fun _ => rfl⟩
  · exact .inr ⟨_, .extensions _, fun _ => rfl⟩
  · exact .inr ⟨_, .nothing _, fun _ => rfl⟩

/-! ### Order -/

/-- Adds an attribute, where all failures are one. -/
def addTo (isArray : Bool) (o : Option ParamAttributes) (p : String × String) :
    Option ParamAttributes :=
  o.bind fun a => (add type isArray a p).toOption

theorem toOption_foldlM (isArray : Bool) (ps : List (String × String)) (a : ParamAttributes) :
    (ps.foldlM (add type isArray) a).toOption = ps.foldl (addTo type isArray) (some a) := by
  induction ps generalizing a with
  | nil => rfl
  | cons p ps ih =>
    have hnone : ∀ ps : List (String × String), ps.foldl (addTo type isArray) none = none := by
      intro ps
      induction ps with
      | nil => rfl
      | cons _ ps ih => exact ih
    rw [List.foldlM_cons, List.foldl_cons, addTo, Option.bind_some]
    cases add type isArray a p with
    | error e => exact (hnone ps).symm
    | ok b => exact ih b

theorem addTo_comm (isArray : Bool) {p q : String × String} (h : p.1 ≠ q.1)
    (o : Option ParamAttributes) : addTo type isArray (addTo type isArray o p) q =
      addTo type isArray (addTo type isArray o q) p := by
  cases o with
  | none => rfl
  | some a =>
    rcases changes_add type isArray p with ⟨e, hp⟩ | ⟨f, hf, hp⟩ <;>
      rcases changes_add type isArray q with ⟨e', hq⟩ | ⟨g, hg, hq⟩ <;>
      simp [addTo, hp, hq, Except.toOption]
    exact hg.comm hf h.symm a

/-- **The order and the case of the names do not matter**: attributes whose names differ also in
small letters are read as they were written, and any other text with the same attributes, in
whatever order, with its own blanks and its own capital letters, gives the same or fails as well. -/
theorem ofText_perm (type : String) (isArray : Bool) {as bs : List Attribute}
    (hnames : (as.map fun a => Text.asciiLower a.name).Nodup)
    (hperm : (as.map Attribute.pair).Perm (bs.map Attribute.pair)) :
    attributePairs (written as) = as.map Attribute.pair ∧
      attributePairs (written bs) = bs.map Attribute.pair ∧
      (ofText type isArray (written as)).toOption =
        (ofText type isArray (written bs)).toOption := by
  refine ⟨attributePairs_written as, attributePairs_written bs, ?_⟩
  rw [ofText, ofText, attributePairs_written, attributePairs_written, toOption_foldlM,
    toOption_foldlM]
  have hkeys : ((as.map Attribute.pair).map Prod.fst).Nodup := by
    rw [List.map_map]
    exact hnames
  refine hperm.foldl_eq' (fun p hp q hq o => ?_) _
  by_cases hpq : p.1 = q.1
  · rw [List.inj_on_of_nodup_map hkeys hp hq hpq]
  · exact addTo_comm type isArray hpq o

theorem ofText_perm_swapped : ∃ as bs : List Attribute,
    written as = "minimum(1) pattern(())" ∧ written bs = "Pattern( ())\tMINIMUM(1)" ∧
      (as.map fun a => Text.asciiLower a.name).Nodup ∧
      (as.map Attribute.pair).Perm (bs.map Attribute.pair) ∧
      (ofText "integer" false (written as)).toOption =
        (ofText "integer" false (written bs)).toOption := by
  let as : List Attribute :=
    [⟨[], "minimum", "1", by simp, by simp, by simp, .char (by decide) (by decide) .nil⟩,
      ⟨[' '], "pattern", "()", List.forall_mem_singleton.2 rfl, by simp, by simp, .nest .nil .nil⟩]
  let bs : List Attribute :=
    [⟨[], "Pattern", " ()", by simp, by simp, by simp,
        .char (by decide) (by decide) (.nest .nil .nil)⟩,
      ⟨['\t'], "MINIMUM", "1", List.forall_mem_singleton.2 rfl, by simp, by simp,
        .char (by decide) (by decide) .nil⟩]
  have hnames : (as.map fun a => Text.asciiLower a.name).Nodup := by decide +kernel
  have hperm : (as.map Attribute.pair).Perm (bs.map Attribute.pair) := by decide +kernel
  exact ⟨as, bs, by decide +kernel, by decide +kernel, hnames, hperm,
    (ofText_perm "integer" false hnames hperm).2.2⟩

end ParamAttributes

end GoApiDoc
