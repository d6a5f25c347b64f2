/-
Schemas: the descriptions of JSON values in a document.

* `Schema` — a schema, the keywords without nested schemas being those of `Schema.Facts`;
* `Schema.ofType`, `Schema.array`, `Schema.map`, `Schema.ref`, `Schema.combined` — common schemas;
* `Schema.isEmpty` — no keyword is present;
* `Schema.weight` — the number of nested schemas, a measure for recursions over schemas;
* `Schema.ofBuiltin?` — the schema of a predeclared type.
-/

import GoApiDoc.Json.Value
import GoApiDoc.Text.Split

set_option autoImplicit false

namespace GoApiDoc

/-- The keywords of a schema that hold no schemas. -/
structure Schema.Facts where
  reference : Option String := none
  type : Option String := none
  format : Option String := none
  title : Option String := none
  description : Option String := none
  defaultValue : Option Json := none
  exampleValue : Option Json := none
  enumValues : List Json := []
  maximum : Option Double := none
  minimum : Option Double := none
  multipleOf : Option Double := none
  maxLength : Option Int := none
  minLength : Option Int := none
  pattern : Option String := none
  maxItems : Option Int := none
  minItems : Option Int := none
  /-- The value is only sent, never received. -/
  readOnly : Bool := false
  required : List String := []
  extensions : Table Json := []

/-- A schema. -/
structure Schema extends Schema.Facts where
  items : Option Schema := none
  allOf : List Schema := []
  properties : List (String × Schema) := []
  additional : Option Schema := none

namespace Schema

instance : Inhabited Schema := ⟨{}⟩

/-! ### Common schemas -/

def any : Schema := {}

def ofType (type : String) : Schema := { type := some type }

def withFormat (s : Schema) (format : String) : Schema := { s with format := some format }

def array (items : Schema) : Schema := { type := some "array", items := some items }

def object : Schema := ofType "object"

def map (value : Schema) : Schema := { type := some "object", additional := some value }

def definitionsPath : String := "#/definitions/"

def ref (definition : String) : Schema := { reference := some (definitionsPath ++ definition) }

/-- The schema of the values that satisfy all of the given ones. -/
def combined (parts : List Schema) : Schema := { allOf := parts }

def refName? (s : Schema) : Option String :=
  s.reference.bind (Text.stripPrefix definitionsPath)

/-! ### Emptiness -/

def Facts.isEmpty (f : Facts) : Bool :=
  f.reference.isNone && f.type.isNone && f.format.isNone && f.title.isNone &&
    f.description.isNone && f.defaultValue.isNone && f.exampleValue.isNone && f.enumValues.isEmpty &&
    f.maximum.isNone && f.minimum.isNone && f.multipleOf.isNone && f.maxLength.isNone &&
    f.minLength.isNone && f.pattern.isNone && f.maxItems.isNone && f.minItems.isNone &&
    !f.readOnly && f.required.isEmpty && f.extensions.isEmpty

def isEmpty (s : Schema) : Bool :=
  s.toFacts.isEmpty && s.items.isNone && s.allOf.isEmpty && s.properties.isEmpty &&
    s.additional.isNone

/-! ### Size -/

mutual

def weight : Schema → Nat
  | ⟨_, items, allOf, properties, additional⟩ =>
    optionWeight items + listWeight allOf + propertyWeight properties + optionWeight additional + 1

def optionWeight : Option Schema → Nat
  | none => 0
  | some s => s.weight

def listWeight : List Schema → Nat
  | [] => 0
  | s :: ss => s.weight + listWeight ss

def propertyWeight : List (String × Schema) → Nat
  | [] => 0
  | (_, s) :: ps => s.weight + propertyWeight ps

end

/-! ### Predeclared types -/

/-- The schema of a predeclared type; complex numbers have none. -/
def ofBuiltin? : String → Option Schema
  | "bool" => some (ofType "boolean")
  | "int" | "uint" | "uintptr" => some (ofType "integer")
  | "int8" | "int16" | "int32" | "uint8" | "uint16" | "uint32" | "byte" | "rune" =>
    some ((ofType "integer").withFormat "int32")
  | "int64" | "uint64" => some ((ofType "integer").withFormat "int64")
  | "float32" => some ((ofType "number").withFormat "float")
  | "float64" => some ((ofType "number").withFormat "double")
  | "string" | "error" => some (ofType "string")
  | "any" => some any
  | _ => none

end Schema

end GoApiDoc
