/-
What the tag and the comments of a struct field say about its property.

* `Field.isHidden`, `Field.propertyName?`, `Field.isRequired`, `Field.isReadOnly` — the property;
* `Field.description?` — its description;
* `Field.customSchema?` — a schema that replaces that of the field's type;
* `Field.complement` — a schema with everything that the field adds to it.
-/

import GoApiDoc.Field.Constraint
import GoApiDoc.Go.TypeExpr
import GoApiDoc.Settings

set_option autoImplicit false

namespace GoApiDoc.Field

open Go (Field)

/-! ### The property -/

def tagOf (f : Field) : String := f.tag.getD ""

/-- The name that the entry `json` gives. -/
def jsonName? (f : Field) : Option String :=
  (Tag.lookup? (tagOf f) "json").bind fun json =>
    Text.nonEmpty (Text.trim ((Text.split ',' json).headD ""))

def isHidden (f : Field) : Bool :=
  Text.eqIgnoreCase (Tag.get (tagOf f) "swaggerignore") "true" || jsonName? f == some "-"

/-- The name of the property; an embedded field has one only if its tag gives it. -/
def propertyName? (naming : Naming) (f : Field) : Option String :=
  jsonName? f <|> f.names.head?.map naming.apply

def isStringEncoded (f : Field) : Bool :=
  ((Text.split ',' (Tag.get (tagOf f) "json")).drop 1).any fun o => Text.trim o == "string"

/-- The property is only sent, never received. -/
def isReadOnly (f : Field) : Bool := Tag.get (tagOf f) "readonly" == "true"

/-- The text of a comment, if it has any. -/
def commentText? (group : Option Go.CommentGroup) : Option String :=
  group.bind fun g => Text.nonEmpty g.text

/-- The description: the comment above the field, or else the one behind it. -/
def description? (f : Field) : Option String := commentText? f.doc <|> commentText? f.comment

/-- The schema that the entry `swaggertype` gives. -/
def customSchema? (f : Field) : Except DocError (Option Schema) :=
  let words := Tag.get (tagOf f) "swaggertype"
  if words.isEmpty then .ok none
  else (customSchema ((Text.split ',' words).map Text.trim)).map some

/-- Whether the first rule that says anything about it asks for the property. -/
def requiredBy? : List String → Option Bool
  | [] => none
  | rule :: rules =>
    match Text.trim rule with
    | "required" => some true
    | "optional" => some false
    | _ => requiredBy? rules

/-- The property must be present; `byDefault` tells it of a field that does not say. -/
def isRequired (byDefault : Bool) (f : Field) : Bool :=
  let rules := Text.split ',' (Tag.get (tagOf f) "binding") ++
    Text.split ',' (Tag.get (tagOf f) "validate")
  (requiredBy? rules).getD byDefault

/-! ### The schema -/

/-- What stands for a missing value of a type that is written as a string. -/
def encodedZero? : String → Option String
  | "string" => some "\"\""
  | "integer" | "number" => some "0"
  | "boolean" => some "false"
  | _ => none

/-- Changes the schema of the items of an array, or the schema itself if it is not one. -/
def onElement (type : String) (f : Schema → Schema) (s : Schema) : Schema :=
  if type = "array" then { s with items := some (f (s.items.getD {})) } else f s

def addEnumNames (tag : String) (c : Constraints) (s : Schema) : Except DocError Schema :=
  let list := Tag.get tag "x-enum-varnames"
  if list.isEmpty then .ok s
  else
    let names := (Text.split ',' list).map fun n => Json.str (Text.trim n)
    if names.length = c.enums.length then
      .ok (onElement c.type
        (fun e => { e with extensions := e.extensions.insert "x-enum-varnames" (.arr names) }) s)
    else .error (.malformed (.enumNames c.enums.length names.length))

/-- Adds the members listed under `extensions`. -/
def addExtensions (tag : String) (s : Schema) : Schema :=
  { s with extensions := s.extensions.extend (extensionsOf (Tag.get tag "extensions")) }

/-- Adds the constraints that belong to the values of a simple type. -/
def constrainElement (tag : String) (c : Constraints) (e : Schema) : Schema :=
  { e with
    maximum := c.maximum <|> e.maximum
    minimum := c.minimum <|> e.minimum
    multipleOf := c.multipleOf <|> e.multipleOf
    maxLength := c.maxLength <|> e.maxLength
    minLength := c.minLength <|> e.minLength
    enumValues := if c.enums.isEmpty then e.enumValues else c.enums
    format := c.format <|> e.format
    pattern := Tag.lookup? tag "pattern" <|> e.pattern }

/-- Adds the constraints: the length of an array to the array, all others to its items. -/
def constrain (tag : String) (c : Constraints) (s : Schema) : Schema :=
  onElement c.type (constrainElement tag c) <|
    if c.type = "array" then
      { s with maxItems := c.maxItems <|> s.maxItems, minItems := c.minItems <|> s.minItems }
    else s

/-- The value that stands for a missing one: a list for an array, a value otherwise. -/
def defaultOf (c : Constraints) (value : String) : Except DocError Json :=
  if c.type = "array" then
    (listOf (fun v => valueOf c.itemType (Text.trim v) "default") value).map .arr
  else valueOf c.type value "default"

def addDefault (tag : String) (c : Constraints) (s : Schema) : Except DocError Schema :=
  let value := Tag.get tag "default"
  if value.isEmpty then .ok s
  else (defaultOf c value).map fun v => { s with defaultValue := some v }

/-- The example of the tag, or else `zero`, the example of a value written as a string. -/
def exampleFor (tag : String) (encoded : Bool) (zero : Option Json) (c : Constraints) :
    Except DocError (Option Json) :=
  match Tag.lookup? tag "example" with
  | none => .ok zero
  | some value =>
    if encoded then .ok (some (.str value)) else (exampleOf c.type c.itemType value).map some

/-- A schema with the description and everything that the tag adds, where the type path of the
schema is `type :: rest`. -/
def complementPlain (f : Field) (s : Schema) (type : String) (rest : List String) :
    Except DocError Schema := do
  let s : Schema := { s with description := description? f <|> s.description }
  match f.tag with
  | none => return s
  | some tag =>
    let c ← Constraints.ofTag tag type rest
    let encoded := isStringEncoded f
    let zero := if encoded then encodedZero? c.type else none
    let (c, s) : Constraints × Schema := match zero with
      | some _ =>
        ({ c with type := "string" }, { Schema.ofType "string" with description := s.description })
      | none => (c, s)
    let s ← addEnumNames tag c s
    let s ← addDefault tag c (constrain tag c (addExtensions tag s))
    let sample ← exampleFor tag encoded (zero.map .str) c
    return { s with
      exampleValue := sample <|> s.exampleValue
      readOnly := s.readOnly || isReadOnly f }

/-- A schema with everything that a field adds to it, where `types` is its type path.  A reference
that gains anything becomes a part of a schema that holds the gain. -/
def complement (f : Field) (s : Schema) (types : List String) : Except DocError Schema :=
  match types with
  | [] => .error (.malformed (.untypedField (f.names.headD "")))
  | type :: rest =>
    if s.reference.isSome then do
      let extra ← complementPlain f {} type rest
      return if extra.isEmpty then s else { extra with allOf := [s] }
    else complementPlain f s type rest

end GoApiDoc.Field
