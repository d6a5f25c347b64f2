/-
Attributes of parameters: what stands behind the description, such as `minimum(1) enums(1, 2, 3)`.

* `attributePairs` — the attributes as pairs of a name and a value;
* `ParamAttributes`, `ParamAttributes.ofText` — their meaning for a type;
* `ParamAttributes.onParameter`, `ParamAttributes.onSchema` — adding them.
-/

import GoApiDoc.Document.Basic
import GoApiDoc.Field.Tag
import GoApiDoc.Field.Value
import GoApiDoc.Settings

set_option autoImplicit false

namespace GoApiDoc

/-! ### Pairs -/

/-- The text up to the parenthesis that closes `depth` open ones, and the rest. -/
def closeParen : Nat → List Char → Option (List Char × List Char)
  | _, [] => none
  | depth, '(' :: cs => (closeParen (depth + 1) cs).map fun (body, rest) => ('(' :: body, rest)
  | 0, ')' :: cs => some ([], cs)
  | depth + 1, ')' :: cs => (closeParen depth cs).map fun (body, rest) => (')' :: body, rest)
  | depth, c :: cs => (closeParen depth cs).map fun (body, rest) => (c :: body, rest)

theorem closeParen_length {depth : Nat} {cs body rest : List Char}
    (h : closeParen depth cs = some (body, rest)) : rest.length < cs.length := by
  induction cs generalizing depth body with
  | nil => simp [closeParen] at h
  | cons c cs ih =>
    have hmap : ∀ {n : Nat},
        ((closeParen n cs).map fun (b, r) => (c :: b, r)) = some (body, rest) →
        rest.length < (c :: cs).length := by
      intro n hn
      simp only [Option.map_eq_some_iff, Prod.exists, Prod.mk.injEq] at hn
      obtain ⟨b, r, hb, _, rfl⟩ := hn
      exact Nat.lt_succ_of_lt (ih hb)
    by_cases hopen : c = '('
    · subst hopen
      rw [closeParen] at h
      exact hmap h
    · by_cases hclose : c = ')'
      · subst hclose
        cases depth with
        | zero =>
          rw [closeParen] at h
          simp only [Option.some.injEq, Prod.mk.injEq] at h
          obtain ⟨_, rfl⟩ := h
          exact Nat.lt_succ_self _
        | succ depth =>
          rw [closeParen] at h
          exact hmap h
      · rw [closeParen] at h
        · exact hmap h
        · exact hopen
        · intro _; exact hclose
        · intro _ _; exact hclose

/-- The letters, digits and underscores at the end of a text. -/
def trailingName (cs : List Char) : String :=
  String.ofList (cs.reverse.takeWhile fun c => Text.isAlphanumeric c || c == '_').reverse

/-- The attributes in a text, each a name in small letters and a trimmed value; values without a
name are left out. -/
def attributesFrom (cs : List Char) : List (String × String) :=
  match hopen : Text.breakAt (· == '(') cs with
  | none => []
  | some (before, _, after) =>
    match hclose : closeParen 0 after with
    | none => []
    | some (body, rest) =>
      have : rest.length < cs.length :=
        Nat.lt_trans (closeParen_length hclose) (Text.breakAt_length hopen)
      let name := Text.asciiLower (trailingName before)
      if name.isEmpty then attributesFrom rest
      else (name, Text.trim (String.ofList body)) :: attributesFrom rest
termination_by cs.length

def attributePairs (text : String) : List (String × String) := attributesFrom text.toList

/-! ### Meaning -/

/-- The attributes of a parameter. -/
structure ParamAttributes where
  enums : List Json := []
  defaultValue : Option Json := none
  exampleValue : Option Json := none
  maximum : Option Double := none
  minimum : Option Double := none
  maxLength : Option Int := none
  minLength : Option Int := none
  format : Option String := none
  pattern : Option String := none
  collectionFormat : Option String := none
  extensions : Table Json := []

namespace ParamAttributes

/-- The items of a list with commas outside brackets as values of a type. -/
def valuesOf (type constraint value : String) : Except DocError (List Json) :=
  (Text.splitUnlessNested ',' value).mapM fun v => Field.valueOf type (Text.trim v) constraint

/-- A value for the whole parameter: a list for an array. -/
def valueFor (type : String) (isArray : Bool) (constraint value : String) : Except DocError Json :=
  if isArray then (valuesOf type constraint value).map .arr
  else Field.valueOf type value constraint

def boundOf (name type value : String) : Except DocError Double :=
  if type = "integer" ∨ type = "number" then
    match Number.readDouble? value with
    | some x => .ok x
    | none => .error (.malformed (.attributeNumber value name))
  else .error (.mismatch name type)

def lengthOf (name type value : String) : Except DocError Int :=
  if type = "string" then
    match Number.readInt64? value with
    | some n => .ok n
    | none => .error (.malformed (.attributeLength value name))
  else .error (.mismatch name type)

/-- Adds an attribute, where `type` is the type of the parameter or of the items of an array.
Attributes with other names are left out. -/
def add (type : String) (isArray : Bool) (a : ParamAttributes) (pair : String × String) :
    Except DocError ParamAttributes :=
  let (name, value) := pair
  match name with
  | "enums" => (valuesOf type "enums" value).map fun x => { a with enums := x }
  | "minimum" => (boundOf name type value).map fun x => { a with minimum := some x }
  | "maximum" => (boundOf name type value).map fun x => { a with maximum := some x }
  | "minlength" => (lengthOf name type value).map fun x => { a with minLength := some x }
  | "maxlength" => (lengthOf name type value).map fun x => { a with maxLength := some x }
  | "default" =>
    (valueFor type isArray "default" value).map fun x => { a with defaultValue := some x }
  | "example" =>
    (valueFor type isArray "example" value).map fun x => { a with exampleValue := some x }
  | "format" => .ok { a with format := Text.nonEmpty value }
  | "pattern" => .ok { a with pattern := Text.nonEmpty value }
  | "collectionformat" =>
    if !isArray then .error (.malformed .formatOfScalar)
    else if collectionFormats.contains value then .ok { a with collectionFormat := some value }
    else .error (.malformed (.attributeFormat value))
  | "extensions" => .ok { a with extensions := a.extensions.extend (Field.extensionsOf value) }
  | _ => .ok a

/-- The attributes in a text, where `type` is the type of the parameter or of the items of an
array. -/
def ofText (type : String) (isArray : Bool) (text : String) : Except DocError ParamAttributes :=
  (attributePairs text).foldlM (add type isArray) {}

/-! ### Adding them -/

def restrict (enums : List Json) (s : Schema) : Schema :=
  if enums.isEmpty then s else { s with enumValues := enums }

/-- Adds the attributes to a parameter; the admitted values belong to the items of an array. -/
def onParameter (a : ParamAttributes) (p : Parameter) : Parameter :=
  { p with
    items := p.items.map (restrict a.enums)
    enumValues := if p.items.isSome || a.enums.isEmpty then p.enumValues else a.enums
    defaultValue := a.defaultValue <|> p.defaultValue
    exampleValue := a.exampleValue <|> p.exampleValue
    maximum := a.maximum <|> p.maximum
    minimum := a.minimum <|> p.minimum
    maxLength := a.maxLength <|> p.maxLength
    minLength := a.minLength <|> p.minLength
    format := a.format <|> p.format
    pattern := a.pattern <|> p.pattern
    collectionFormat := a.collectionFormat <|> p.collectionFormat
    extensions := p.extensions.extend a.extensions }

/-- Adds the attributes to a schema; the admitted values belong to the items of an array. -/
def onSchema (a : ParamAttributes) (s : Schema) : Schema :=
  { s with
    items := s.items.map (restrict a.enums)
    enumValues := if s.items.isSome || a.enums.isEmpty then s.enumValues else a.enums
    defaultValue := a.defaultValue <|> s.defaultValue
    exampleValue := a.exampleValue <|> s.exampleValue
    maximum := a.maximum <|> s.maximum
    minimum := a.minimum <|> s.minimum
    maxLength := a.maxLength <|> s.maxLength
    minLength := a.minLength <|> s.minLength
    format := a.format <|> s.format
    pattern := a.pattern <|> s.pattern
    extensions := s.extensions.extend a.extensions }

end ParamAttributes

end GoApiDoc
