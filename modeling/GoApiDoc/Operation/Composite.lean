/-
Types as annotations write them: names, arrays, maps, and objects with some properties replaced, as
in `web.Response{data=[]web.Pet}`.

* `simpleType` — the type of a document that a predeclared name stands for;
* `Composite`, `Composite.ofText` — the types and how they are read;
* `Composite.schema` — their schemas.
-/

import GoApiDoc.Resolve.Type

set_option autoImplicit false

namespace GoApiDoc

/-! ### Simple types -/

/-- The type of a document that a predeclared name stands for; any other name is kept. -/
def simpleType (name : String) : String :=
  match name with
  | "int" | "uint" | "int8" | "uint8" | "int16" | "uint16" | "int32" | "uint32" | "int64"
  | "uint64" | "byte" | "rune" | "uintptr" => "integer"
  | "float32" | "float64" => "number"
  | "bool" => "boolean"
  | other => other

def isSimpleType (type : String) : Bool := ["string", "integer", "number", "boolean"].contains type

/-! ### Composite types -/

/-- A type as an annotation writes it. -/
inductive Composite where
  | nothing
  | anyObject
  | anything
  | simple (type : String)
  | array (elem : Composite)
  | map (value : Composite)
  | combined (base : Composite) (fields : List (String × Composite))
  | named (text : String)
  | unreadable (text : String)

namespace Composite

/-! ### Reading -/

/-- The text of a key up to the bracket that closes it, `depth` further ones being open, and what
follows. -/
def closeBracket : Nat → List Char → Option (List Char × List Char)
  | _, [] => none
  | depth, '[' :: cs => (closeBracket (depth + 1) cs).map fun (key, rest) => ('[' :: key, rest)
  | 0, ']' :: cs => some ([], cs)
  | depth + 1, ']' :: cs => (closeBracket depth cs).map fun (key, rest) => (']' :: key, rest)
  | depth, c :: cs => (closeBracket depth cs).map fun (key, rest) => (c :: key, rest)

def isBaseChar (c : Char) : Bool := Text.isWord c || "-./[]".toList.contains c

/-- The text without the brace that it ends with; it has to be on one line. -/
def dropBrace? (cs : List Char) : Option (List Char) :=
  match cs.reverse with
  | '}' :: body => if body.contains '\n' then none else some body.reverse
  | _ => none

def splitBraces? (cs : List Char) : Option (List Char × List Char) :=
  match cs.takeWhile isBaseChar, cs.dropWhile isBaseChar with
  | base@(_ :: _), '{' :: rest => (dropBrace? rest).map fun body => (base, body)
  | _, _ => none

/-- The fields between the braces, as far as they have an equals sign. -/
def fieldTexts (body : List Char) : List (String × List Char) :=
  (Text.splitNested ',' 0 body).filterMap fun field =>
    (Text.breakAt (· == '=') field).map fun (key, _, value) =>
      (String.ofList (Text.trimChars key), value)

def isAnyWord (text : String) : Bool := text == "interface\x7b\x7d" || text == "any"

/-- Reads a type in at most `fuel` steps inward. -/
def ofChars (fuel : Nat) (cs : List Char) : Composite :=
  let cs := Text.trimChars cs
  let text := String.ofList cs
  match fuel with
  | 0 => .unreadable text
  | fuel + 1 =>
    if text = "nil" then .nothing
    else if isAnyWord text then .anyObject
    else if isSimpleType (simpleType text) then .simple (simpleType text)
    else
      match Text.dropPrefix? "[]".toList cs with
      | some elem => .array (ofChars fuel elem)
      | none =>
        match Text.dropPrefix? "map[".toList cs with
        | some rest =>
          match closeBracket 0 rest with
          | none => .unreadable text
          | some (_, value) =>
            if isAnyWord (String.ofList (Text.trimChars value)) then .map .anything
            else .map (ofChars fuel value)
        | none =>
          if cs.contains '{' then
            match splitBraces? cs with
            | none => .unreadable text
            | some (base, body) =>
              .combined (ofChars fuel base)
                ((fieldTexts body).map fun (key, value) => (key, ofChars fuel value))
          else .named text

/-- Reads a type: every step inward leaves out at least one character. -/
def ofText (text : String) : Composite := ofChars (text.length + 1) text.toList

/-! ### Schemas -/

/-- The schema of a type with some properties replaced: the properties are added to an object
without any, and combined with any other schema. -/
def combine (base : Schema) (properties : Table Schema) : Schema :=
  if properties.isEmpty then base
  else if base.reference.isNone && base.type == some "object" && base.properties.isEmpty &&
      base.additional.isNone then { base with properties := properties }
  else Schema.combined [base, { type := some "object", properties := properties }]

mutual

/-- The schema of a type that an annotation in a file writes; `nothing` has none. -/
def schema (file : FileId) : Composite → Resolving (Option Schema)
  | nothing => pure none
  | anyObject => pure (some Schema.object)
  | anything => pure (some Schema.any)
  | simple type => pure (some (Schema.ofType type))
  | array elem => do
    let s ← elem.schema file
    return some (Schema.array (s.getD Schema.object))
  | map value => do
    let s ← value.schema file
    return some (Schema.map (s.getD Schema.object))
  | combined base fields => do
    let s ← base.schema file
    let properties ← fieldSchemas file [] fields
    return some (combine (s.getD Schema.object) properties)
  | named text => do
    let s ← Resolver.resolveText text file
    return some s
  | unreadable text => throw (.malformed (.compositeType text))

/-- The schemas of the replaced properties, added to a table. -/
def fieldSchemas (file : FileId) (t : Table Schema) :
    List (String × Composite) → Resolving (Table Schema)
  | [] => pure t
  | (key, value) :: fields => do
    let s ← value.schema file
    fieldSchemas file (t.insert key (s.getD Schema.object)) fields

end

end Composite

/-- The schema of a type that an annotation in a file writes, if it stands for a value. -/
def annotatedSchema? (file : FileId) (text : String) : Resolving (Option Schema) :=
  (Composite.ofText text).schema file

/-- The schema of a type that an annotation in a file writes, an object if it stands for no
value. -/
def annotatedSchema (file : FileId) (text : String) : Resolving Schema := do
  return (← annotatedSchema? file text).getD Schema.object

end GoApiDoc
