/-
The type path of a schema: its type, the type of its items or values, and so on.

* `Schema.typePath` — the type path of a schema that does not refer to definitions;
* `Schema.typePathIn` — the type path of a schema, references followed.
-/

import GoApiDoc.Schema.Basic

set_option autoImplicit false

namespace GoApiDoc.Schema

/-- The types from a schema inward, at most `depth` of them.  A schema of all values has the type
`any`, and a reference has no type. -/
def typePath : Nat → Schema → List String
  | 0, _ => []
  | depth + 1, s =>
    if s.reference.isSome then []
    else
      match s.type with
      | none => ["any"]
      | some "array" => "array" :: (s.items.map (typePath depth)).getD []
      | some "object" => "object" :: (s.additional.map (typePath depth)).getD []
      | some type => [type]

/-- The types from a schema inward, references followed.  A definition that is still being made is
an object, and the first of several combined schemas stands for all.  There is no answer if the
number of steps does not suffice. -/
def typePathFrom (definitions : Table Schema) (isBeingMade : String → Bool) :
    Nat → Nat → Schema → Option (List String)
  | 0, _, _ => none
  | _ + 1, 0, _ => some []
  | fuel + 1, depth + 1, s =>
    match s.refName? with
    | some name =>
      match definitions.get? name with
      | some target => typePathFrom definitions isBeingMade fuel (depth + 1) target
      | none => some (if isBeingMade name then ["object"] else [])
    | none =>
      match s.type with
      | none =>
        match s.allOf with
        | first :: _ => typePathFrom definitions isBeingMade fuel (depth + 1) first
        | [] => some ["any"]
      | some type =>
        match s.items <|> s.additional with
        | some inner => (typePathFrom definitions isBeingMade fuel depth inner).map (type :: ·)
        | none => some [type]

/-- The types from a schema inward, at most `depth` of them, references followed.  Between two steps
inward no definition is met twice, unless definitions refer to each other in a circle; then there is
no answer. -/
def typePathIn (definitions : Table Schema) (isBeingMade : String → Bool) (depth : Nat)
    (s : Schema) : Option (List String) :=
  let steps := s.weight + propertyWeight definitions + definitions.length + 1
  typePathFrom definitions isBeingMade ((depth + 1) * steps) depth s

end GoApiDoc.Schema
