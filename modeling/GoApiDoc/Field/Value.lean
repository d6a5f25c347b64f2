/-
Values written in struct tags.

* `Field.valueOf` — a value of a given type;
* `Field.exampleOf` — an example, where arrays are lists and maps are lists of pairs;
* `Field.customSchema` — a schema given by words such as `array,integer`;
* `Field.extensionsOf` — further members of a schema.
-/

import GoApiDoc.Error
import GoApiDoc.Number.Reading
import GoApiDoc.Schema.Basic

set_option autoImplicit false

namespace GoApiDoc.Field

/-! ### Values -/

def readBool? : String → Option Bool
  | "true" => some true
  | "false" => some false
  | _ => none

/-- The value of a simple type that a text stands for; `constraint` is what asks for it. -/
def valueOf (type value constraint : String) : Except DocError Json :=
  let checked : Option Json → Except DocError Json
    | some v => .ok v
    | none => .error (.malformed (.valueOfType value type))
  match type with
  | "string" => .ok (.str value)
  | "integer" => checked ((Number.readInt64? value).map .int)
  | "number" =>
    checked (((Number.readDouble? value).filter Double.isFinite).map .double)
  | "boolean" => checked ((readBool? value).map .bool)
  | other => .error (.mismatch constraint other)

def listOf (f : String → Except DocError Json) (value : String) : Except DocError (List Json) :=
  (Text.split ',' value).mapM f

/-- An example for an item, whose own items are of no known type. -/
def exampleItem (type value : String) : Except DocError Json :=
  match type with
  | "array" => (listOf (fun v => valueOf "" (Text.trim v) "example") value).map .arr
  | "object" => .error (.malformed (.exampleType type value))
  | _ => valueOf type value "example"

/-- One pair of an example for a map, `whole` being the text of the example. -/
def examplePair (itemType whole pair : String) : Except DocError (String × Json) :=
  match Text.splitOnce ':' pair with
  | some (key, item) => (exampleItem itemType item).map fun v => (key, v)
  | none => .error (.malformed (.examplePair whole))

/-- An example: a list for an array, a list of pairs for a map, a value otherwise. -/
def exampleOf (type itemType value : String) : Except DocError Json :=
  match type with
  | "array" => (listOf (fun v => exampleItem itemType (Text.trim v)) value).map .arr
  | "object" =>
    if itemType.isEmpty then .error (.malformed (.exampleType type value))
    else
      ((Text.split ',' value).mapM (examplePair itemType value)).map fun pairs =>
        .obj (Table.ofEntries pairs)
  | _ => valueOf type value "example"

/-! ### Schemas given by words -/

def customSchema : List String → Except DocError Schema
  | [] => .error (.malformed .emptyCustomType)
  | ["primitive"] => .error (.malformed .customPrimitive)
  | "primitive" :: rest => customSchema rest
  | ["array"] => .error (.malformed .customArray)
  | "array" :: rest => (customSchema rest).map Schema.array
  | ["object"] => .ok Schema.object
  | "object" :: rest => (customSchema rest).map Schema.map
  | word :: _ =>
    if ["string", "number", "integer", "boolean", "file"].contains word then
      .ok (Schema.ofType word)
    else .error (.malformed (.customType word))

/-! ### Further members -/

/-- One entry: `key=value`, `!key` for false and `key` for true. -/
def extensionOf (entry : String) : String × Json :=
  match Text.splitOnce '=' entry with
  | some (key, value) => (key, .str value)
  | none =>
    match Text.stripPrefix "!" entry with
    | some key => (key, .bool false)
    | none => (entry, .bool true)

/-- The members listed in a text, with commas between them outside brackets. -/
def extensionsOf (list : String) : Table Json :=
  Table.ofEntries <|
    (((Text.splitUnlessNested ',' list).map Text.trim).filter fun e => !e.isEmpty).map extensionOf

end GoApiDoc.Field
