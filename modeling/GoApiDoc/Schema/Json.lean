/-
Schemas as JSON values.

* `Schema.toJson` — the members that are present, in a fixed order, the further members last;
* `Schema.ofJson?` — reading a schema back; members without a meaning are further members.
-/

import GoApiDoc.Schema.Basic

set_option autoImplicit false

namespace GoApiDoc.Schema

/-! ### Writing -/

/-- The members for the keywords that stand before the nested schemas. -/
def Facts.members (f : Facts) : List (String × Json) :=
  Json.optional "$ref" .str f.reference ++
    Json.optional "type" .str f.type ++
    Json.optional "format" .str f.format ++
    Json.optional "title" .str f.title ++
    Json.optional "description" .str f.description ++
    Json.optional "default" id f.defaultValue ++
    Json.optional "example" id f.exampleValue ++
    Json.unlessEmpty "enum" .arr f.enumValues ++
    Json.optional "maximum" .double f.maximum ++
    Json.optional "minimum" .double f.minimum ++
    Json.optional "multipleOf" .double f.multipleOf ++
    Json.optional "maxLength" .int f.maxLength ++
    Json.optional "minLength" .int f.minLength ++
    Json.optional "pattern" .str f.pattern ++
    Json.optional "maxItems" .int f.maxItems ++
    Json.optional "minItems" .int f.minItems ++
    Json.whenTrue "readOnly" f.readOnly

mutual

def toJson : Schema → Json
  | ⟨facts, items, allOf, properties, additional⟩ =>
    .obj (facts.members ++
      optionMember "items" items ++
      Json.unlessEmpty "allOf" .arr (listJson allOf) ++
      Json.unlessEmpty "properties" .obj (propertyMembers properties) ++
      optionMember "additionalProperties" additional ++
      Json.unlessEmpty "required" Json.strs facts.required ++
      facts.extensions)

def optionMember (name : String) : Option Schema → List (String × Json)
  | none => []
  | some s => [(name, s.toJson)]

def listJson : List Schema → List Json
  | [] => []
  | s :: ss => s.toJson :: listJson ss

def propertyMembers : List (String × Schema) → List (String × Json)
  | [] => []
  | (name, s) :: ps => (name, s.toJson) :: propertyMembers ps

end

/-! ### Reading -/

def readOption {α : Type} (f : Json → Option α) : Json → Option (Option α)
  | .null => some none
  | v => (f v).map some

def readStr : Json → Option (Option String) := readOption Json.str?

def readNumber : Json → Option (Option Double) :=
  readOption fun
    | .double x => some x
    | .int i => some (Double.ofInt i)
    | _ => none

def readInt : Json → Option (Option Int) :=
  readOption fun
    | .int i => if -(Int.pow 2 63) ≤ i ∧ i < Int.pow 2 63 then some i else none
    | _ => none

def readStrs : Json → Option (List String)
  | .arr items => items.mapM Json.str?
  | _ => none

def Facts.addMember (f : Facts) (name : String) (v : Json) : Option Facts :=
  match name with
  | "$ref" => (readStr v).map fun x => { f with reference := x }
  | "type" => (readStr v).map fun x => { f with type := x }
  | "format" => (readStr v).map fun x => { f with format := x }
  | "title" => (readStr v).map fun x => { f with title := x }
  | "description" => (readStr v).map fun x => { f with description := x }
  | "default" => (readOption some v).map fun x => { f with defaultValue := x }
  | "example" => (readOption some v).map fun x => { f with exampleValue := x }
  | "enum" =>
    match v with
    | .arr items => some { f with enumValues := items }
    | _ => none
  | "maximum" => (readNumber v).map fun x => { f with maximum := x }
  | "minimum" => (readNumber v).map fun x => { f with minimum := x }
  | "multipleOf" => (readNumber v).map fun x => { f with multipleOf := x }
  | "maxLength" => (readInt v).map fun x => { f with maxLength := x }
  | "minLength" => (readInt v).map fun x => { f with minLength := x }
  | "pattern" => (readStr v).map fun x => { f with pattern := x }
  | "maxItems" => (readInt v).map fun x => { f with maxItems := x }
  | "minItems" => (readInt v).map fun x => { f with minItems := x }
  | "readOnly" =>
    match v with
    | .bool b => some { f with readOnly := b }
    | _ => none
  | "required" => (readStrs v).map fun x => { f with required := x }
  | _ => some { f with extensions := f.extensions.insert name v }

mutual

def ofJson? : Json → Option Schema
  | .obj ms => addMembers {} ms
  | _ => none

def addMembers (s : Schema) : List (String × Json) → Option Schema
  | [] => some s
  | ("items", .null) :: ms => addMembers { s with items := none } ms
  | ("items", v) :: ms =>
    match ofJson? v with
    | some x => addMembers { s with items := some x } ms
    | none => none
  | ("additionalProperties", .null) :: ms => addMembers { s with additional := none } ms
  | ("additionalProperties", v) :: ms =>
    match ofJson? v with
    | some x => addMembers { s with additional := some x } ms
    | none => none
  | ("allOf", .arr vs) :: ms =>
    match ofItems? vs with
    | some xs => addMembers { s with allOf := xs } ms
    | none => none
  | ("allOf", _) :: _ => none
  | ("properties", .obj vs) :: ms =>
    match ofProperties? vs with
    | some xs => addMembers { s with properties := xs } ms
    | none => none
  | ("properties", _) :: _ => none
  | (name, v) :: ms =>
    match s.toFacts.addMember name v with
    | some f => addMembers { s with toFacts := f } ms
    | none => none

def ofItems? : List Json → Option (List Schema)
  | [] => some []
  | v :: vs =>
    match ofJson? v, ofItems? vs with
    | some x, some xs => some (x :: xs)
    | _, _ => none

def ofProperties? : List (String × Json) → Option (Table Schema)
  | [] => some []
  | (name, v) :: ms =>
    match ofJson? v, ofProperties? ms with
    | some x, some xs => some ((name, x) :: xs)
    | _, _ => none

end

end GoApiDoc.Schema
