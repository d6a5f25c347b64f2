/-
Operations, as the comment above a function describes them.

Every line of the comment that begins with an `@` word is an annotation; the lines are read one by
one, and what a line adds stays although a later line is in error.

* `Endpoint` — an operation with its routes;
* `Annotating` — computations that change the endpoint and the definitions;
* `Annotating.addLine` — reading one line.
-/

import GoApiDoc.Assets
import GoApiDoc.Json.Reader
import GoApiDoc.Operation.Attribute
import GoApiDoc.Operation.Composite
import GoApiDoc.Operation.Line

set_option autoImplicit false

namespace GoApiDoc

/-! ### Endpoints -/

/-- A method and a path that an operation is bound to. -/
structure Route where
  method : HttpMethod
  path : String
  deprecated : Bool
deriving DecidableEq

/-- An operation with its routes. -/
structure Endpoint where
  operation : Operation := {}
  routes : List Route := []

namespace Endpoint

def addDescription (e : Endpoint) (text : String) : Endpoint :=
  let description := match e.operation.description with
    | some old => old ++ "\n" ++ text
    | none => text
  { e with operation := { e.operation with description := some description } }

def addParameter (e : Endpoint) (p : Parameter) : Endpoint :=
  { e with operation := { e.operation with parameters := e.operation.parameters ++ [p] } }

def addResponse (e : Endpoint) (key : String) (r : Response) : Endpoint :=
  { e with operation := { e.operation with responses := e.operation.responses.insert key r } }

def addExtension (e : Endpoint) (key : String) (v : Json) : Endpoint :=
  { e with operation := { e.operation with extensions := e.operation.extensions.insert key v } }

end Endpoint

/-! ### Security -/

/-- A security scheme as an annotation writes it, with its scopes in square brackets. -/
def schemeOf (text : String) : String × List String :=
  match Text.splitOnce '[' text, Text.splitLast ']' text with
  | some (name, _), some (before, _) =>
    match Text.stripPrefix (name ++ "[") before with
    | some scopes => (Text.trim name, Text.commaList scopes)
    | none => (text, [])
  | _, _ => (text, [])

/-- The schemes that are needed together, with `&&` between them. -/
def requirementOf (text : String) : SecurityRequirement :=
  (((Text.splitAtText "&&" text).map Text.trim).filter fun s => !s.isEmpty).foldl
    (fun r scheme =>
      let (name, scopes) := schemeOf scheme
      r.modify name [] (· ++ scopes)) []

/-- The alternatives of requirements, with `||` between them. -/
def requirementsOf (text : String) : List SecurityRequirement :=
  ((Text.splitAtText "||" text).map requirementOf).filter fun r => !r.isEmpty

/-! ### Responses -/

/-- The key of a response and its status: `default` has none. -/
def responseKey (line code : String) : Except DocError (String × Option Nat) :=
  if Text.eqIgnoreCase code "default" then .ok ("default", none)
  else
    match Number.readNatIn? 10 65535 code.toList with
    | some n => .ok (toString n, some n)
    | none => .error (.malformed (.response line))

/-- The description of a response, or else the reason phrase of its status. -/
def responseDescription (description : String) (status : Option Nat) : String :=
  match status with
  | some code => if description.isEmpty then statusText code else description
  | none => description

/-! ### Reading lines -/

/-- The state while the lines of a comment are read. -/
structure Annotated where
  resolver : Resolver
  endpoint : Endpoint := {}

/-- What the reading of a line depends on. -/
structure AnnotationContext where
  assets : Assets
  file : FileId
  collectionFormat : String

/-- A computation with the state that leaves its changes also when it fails. -/
abbrev Annotating := ExceptT DocError (StateM Annotated)

namespace Annotating

def ofResult {α : Type} : Except DocError α → Annotating α
  | .ok a => pure a
  | .error e => throw e

def resolving {α : Type} (x : Resolving α) : Annotating α :=
  ExceptT.mk fun st =>
    let (result, resolver) := x.run.run st.resolver
    (result, { st with resolver := resolver })

def change (f : Endpoint → Endpoint) : Annotating Unit :=
  modify fun st => { st with endpoint := f st.endpoint }

def changeOperation (f : Operation → Operation) : Annotating Unit :=
  change fun e => { e with operation := f e.operation }

/-! ### Parameters -/

/-- What is written of the type of a parameter. -/
inductive ParamShape where
  | simple
  | array
  | object
deriving DecidableEq

/-- The shape of a written type and the type of its values or items. -/
def shapeOf (place written : String) : ParamShape × String :=
  match Text.stripPrefix "[]" written with
  | some elem => (.array, simpleType elem)
  | none =>
    let type := simpleType written
    if isSimpleType type || (place == "formData" && type == "file") then (.simple, type)
    else (.object, type)

/-- The schema that a reference, or a single combined reference, stands for. -/
def flattened (g : Resolver) (s : Schema) : Schema :=
  match s.allOf with
  | [only] => if s.type.isNone then g.dereference only else g.dereference s
  | _ => g.dereference s

/-- The parameter for a property of a struct; properties that are neither simple nor arrays of
simple values have none. -/
def propertyParameter? (g : Resolver) (collectionFormat place : String) (required : List String)
    (name : String) (s : Schema) : Option Parameter :=
  let target := flattened g s
  let p : Parameter :=
    { name := name, place := place, required := required.contains name
      description := s.description <|> target.description
      format := target.format, defaultValue := target.defaultValue
      exampleValue := target.exampleValue, maximum := target.maximum, minimum := target.minimum
      maxLength := target.maxLength, minLength := target.minLength, pattern := target.pattern
      enumValues := target.enumValues, extensions := target.extensions }
  match target.type with
  | some "array" =>
    match target.items.map g.dereference with
    | some items =>
      if isSimpleType (items.type.getD "") then
        some { p with
          type := some "array", collectionFormat := some collectionFormat, items := some items }
      else none
    | none => none
  | some type => if isSimpleType type then some { p with type := some type } else none
  | none => none

/-- The parameters for the properties of a struct, those of combined schemas included. -/
def structParameters (g : Resolver) (collectionFormat place : String) (s : Schema) :
    List Parameter :=
  let parts := s.allOf.map g.dereference
  let properties : Table Schema := parts.foldl (fun t part => t.extend part.properties) s.properties
  let required := s.required ++ parts.flatMap (·.required)
  properties.filterMap fun (name, property) =>
    propertyParameter? g collectionFormat place required name property

/-- The type that the attributes of a parameter are about, and whether it is that of the items of an
array. -/
def elementType (g : Resolver) (p : Parameter) : String × Bool :=
  match p.schema with
  | some s =>
    let target := g.dereference s
    match target.items with
    | some items =>
      if target.type == some "array" then ((g.dereference items).type.getD "", true)
      else (target.type.getD "", false)
    | none => (target.type.getD "", false)
  | none =>
    match p.items with
    | some items => (items.type.getD "", true)
    | none => (p.type.getD "", false)

def addWithAttributes (p : Parameter) (attributes : String) : Annotating Unit := do
  let (type, isArray) := elementType (← get).resolver p
  let a ← ofResult (ParamAttributes.ofText type isArray attributes)
  let p := match p.schema with
    | some s => { p with schema := some (a.onSchema s) }
    | none => a.onParameter p
  change (·.addParameter p)

/-- Adds a parameter of a declared type: one of a simple type has that type, and a struct in a query
or a form is one parameter for each property. -/
def addObjectParam (ctx : AnnotationContext) (p : Parameter) (type attributes : String) :
    Annotating Unit := do
  let s ← resolving (Resolver.resolveText type ctx.file)
  let g := (← get).resolver
  let target := flattened g s
  if isSimpleType (target.type.getD "") then
    addWithAttributes { p with
      type := target.type, format := target.format, enumValues := target.enumValues
      extensions := p.extensions.extend target.extensions } attributes
  else if (p.place == "query" || p.place == "formData") &&
      (target.type == some "object" || !target.allOf.isEmpty) then
    (structParameters g ctx.collectionFormat p.place target).forM fun q =>
      change (·.addParameter q)
  else throw (.malformed (.paramType type p.place))

def addPlainParam (ctx : AnnotationContext) (p : Parameter) (shape : ParamShape)
    (type attributes : String) : Annotating Unit :=
  match shape with
  | .simple => addWithAttributes { p with type := some type } attributes
  | .array =>
    if isSimpleType type || (type == "file" && p.place == "formData") then
      addWithAttributes { p with
        type := some "array", collectionFormat := some ctx.collectionFormat
        items := some (Schema.ofType type) } attributes
    else throw (.malformed (.arrayParam type p.place))
  | .object => addObjectParam ctx p type attributes

def bodySchema (ctx : AnnotationContext) (shape : ParamShape) (written type : String) :
    Annotating Schema :=
  match shape with
  | .simple => pure (Schema.ofType type)
  | .array => do
    let elem := (Text.stripPrefix "[]" written).getD written
    return Schema.array (← resolving (annotatedSchema ctx.file elem))
  | .object => resolving (annotatedSchema ctx.file written)

def addParam (ctx : AnnotationContext) (rest : String) : Annotating Unit :=
  match ParamLine.ofText? rest with
  | none => throw (.malformed (.param rest))
  | some line => do
    let (shape, type) := shapeOf line.place line.type
    let p : Parameter :=
      { name := line.name, place := line.place
        required := ["true", "required"].contains (Text.asciiLower line.required)
        description := Text.nonEmpty line.description }
    match line.place with
    | "path" | "header" | "query" | "formData" => addPlainParam ctx p shape type line.attributes
    | "body" =>
      let s ← bodySchema ctx shape line.type type
      addWithAttributes { p with schema := some s } line.attributes
    | place => throw (.malformed (.paramPlace place))

/-! ### Responses -/

def responseSchema (ctx : AnnotationContext) (kind type : String) : Annotating (Option Schema) :=
  match kind with
  | "object" =>
    match Text.stripPrefix "[]" type with
    | some elem => do return some (Schema.array (← resolving (annotatedSchema ctx.file elem)))
    | none => resolving (annotatedSchema? ctx.file type)
  | "array" => do return some (Schema.array (← resolving (annotatedSchema ctx.file type)))
  | other =>
    let simple := simpleType other
    if isSimpleType simple || simple == "file" then pure (some (Schema.ofType simple))
    else throw (.malformed (.responseKind other))

def addResponses (line codes description : String) (schema : Option Schema) : Annotating Unit :=
  (Text.commaList codes).forM fun code => do
    let (key, status) ← ofResult (responseKey line code)
    change (·.addResponse key ⟨responseDescription description status, schema, []⟩)

/-- Reads a response line that has codes and a description only. -/
def addEmptyResponse (rest : String) : Annotating Unit := do
  let (codes, description) := Text.splitAttribute rest
  let (kind, _) := Text.splitAttribute description
  if kind.utf8ByteSize > 2 && Text.hasPrefix "\x7b" kind && Text.hasSuffix "\x7d" kind then
    throw (.malformed (.responseType rest kind))
  else addResponses rest codes (Text.trimMatching (· == '"') description) none

def addResponse (ctx : AnnotationContext) (rest : String) : Annotating Unit :=
  match ResponseLine.ofText? rest with
  | none => addEmptyResponse rest
  | some line => do
    let schema ← responseSchema ctx line.kind line.type
    addResponses rest line.codes line.description schema

def addHeaderTo (key name : String) (h : Header) (o : Operation) : Operation :=
  match o.responses.get? key with
  | some r =>
    { o with responses := o.responses.insert key { r with headers := r.headers.insert name h } }
  | none => o

/-- Reads a header line: the header belongs to the listed responses, or to all of them. -/
def addHeader (rest : String) : Annotating Unit :=
  match ResponseLine.ofText? rest with
  | none => throw (.malformed (.header rest))
  | some line =>
    let h : Header := { type := line.kind, description := Text.nonEmpty line.description }
    if Text.eqIgnoreCase line.codes "all" then
      changeOperation fun o => { o with
        responses := o.responses.mapValues fun r =>
          { r with headers := r.headers.insert line.type h } }
    else
      (Text.commaList line.codes).forM fun code => do
        let (key, _) ← ofResult (responseKey rest code)
        changeOperation (addHeaderTo key line.type h)

/-! ### Other annotations -/

def addRoute (rest : String) (deprecated : Bool) : Annotating Unit :=
  match RouterLine.ofText? rest with
  | none => throw (.malformed (.router rest))
  | some line =>
    match HttpMethod.ofText? line.method with
    | none => throw (.malformed (.method line.method))
    | some method => change fun e => { e with routes := e.routes ++ [⟨method, line.path, deprecated⟩] }

def memberName (word : String) : String := Text.trimStartOf '@' word

def addCodeSamples (ctx : AnnotationContext) (word : String) : Annotating Unit := do
  let summary := ((← get).endpoint.operation.summary).getD ""
  let text ← ofResult (ctx.assets.codeSamples summary)
  match Json.parse? text with
  | some v => change (·.addExtension (memberName word) v)
  | none => throw (.malformed (.codeSamples summary))

/-- Adds a further member, whose value is a string if it does not read as JSON. -/
def addExtension (word rest : String) : Annotating Unit :=
  if rest.isEmpty then throw (.malformed (.missingValue word))
  else change (·.addExtension (memberName word) (Json.ofText rest))

/-- Reads an annotation: a word and the rest of the line.  Other words are left out. -/
def addDirective (ctx : AnnotationContext) (word rest : String) : Annotating Unit :=
  let lower := Text.asciiLower word
  match lower with
  | "@description" => change (·.addDescription rest)
  | "@description.markdown" => do
    let text ← ofResult (ctx.assets.markdown rest)
    change (·.addDescription text)
  | "@summary" => changeOperation fun o => { o with summary := Text.nonEmpty rest }
  | "@id" => changeOperation fun o => { o with operationId := Text.nonEmpty rest }
  | "@tags" => changeOperation fun o => { o with tags := o.tags ++ Text.commaList rest }
  | "@accept" => do
    let types ← ofResult (mediaTypes rest)
    changeOperation fun o => { o with consumes := o.consumes ++ types }
  | "@produce" => do
    let types ← ofResult (mediaTypes rest)
    changeOperation fun o => { o with produces := o.produces ++ types }
  | "@param" => addParam ctx rest
  | "@success" | "@failure" | "@response" => addResponse ctx rest
  | "@header" => addHeader rest
  | "@router" => addRoute rest false
  | "@deprecatedrouter" => addRoute rest true
  | "@security" => changeOperation fun o => { o with security := o.security ++ requirementsOf rest }
  | "@deprecated" => changeOperation fun o => { o with deprecated := true }
  | _ =>
    if lower == "@x-codesamples" && rest == "file" then addCodeSamples ctx word
    else if Text.hasPrefix "@x-" lower then addExtension word rest
    else pure ()

def lineText (line : String) : String := Text.trim (Text.trimStartOf '/' (Text.trim line))

/-- Reads a line of a comment; an error about the line names it. -/
def addLine (ctx : AnnotationContext) (line : String) : Annotating Unit :=
  let text := lineText line
  if Text.hasPrefix "@" text then
    let (word, rest) := Text.splitAttribute text
    tryCatch (addDirective ctx word rest) fun e => throw (e.inComment line)
  else pure ()

end Annotating

end GoApiDoc
