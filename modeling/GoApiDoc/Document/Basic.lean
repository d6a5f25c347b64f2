/-
The document: the description of an interface.

* `Parameter`, `Header`, `Response`, `Operation` — an operation and its parts;
* `PathItem` — the operations of a path, one for each method;
* `Info`, `ApiTag`, `SecurityScheme` — what describes the interface as a whole;
* `Document` — all of it.
-/

import GoApiDoc.Http
import GoApiDoc.Schema.Basic

set_option autoImplicit false

namespace GoApiDoc

/-! ### Operations -/

/-- A parameter of an operation: one in the body has a schema, any other a simple type. -/
structure Parameter where
  description : Option String := none
  name : String
  place : String
  required : Bool := false
  schema : Option Schema := none
  type : Option String := none
  format : Option String := none
  items : Option Schema := none
  collectionFormat : Option String := none
  defaultValue : Option Json := none
  exampleValue : Option Json := none
  enumValues : List Json := []
  maximum : Option Double := none
  minimum : Option Double := none
  maxLength : Option Int := none
  minLength : Option Int := none
  pattern : Option String := none
  extensions : Table Json := []

/-- A header of a response. -/
structure Header where
  type : String
  description : Option String := none

/-- A response of an operation. -/
structure Response where
  description : String
  schema : Option Schema := none
  headers : Table Header := []

/-- Security schemes that are needed together, each with its scopes. -/
abbrev SecurityRequirement := Table (List String)

/-- An operation. -/
structure Operation where
  description : Option String := none
  consumes : List String := []
  produces : List String := []
  tags : List String := []
  summary : Option String := none
  operationId : Option String := none
  deprecated : Bool := false
  security : List SecurityRequirement := []
  parameters : List Parameter := []
  responses : Table Response := []
  extensions : Table Json := []

/-- The operations of a path. -/
structure PathItem where
  get : Option Operation := none
  put : Option Operation := none
  post : Option Operation := none
  delete : Option Operation := none
  options : Option Operation := none
  head : Option Operation := none
  patch : Option Operation := none

namespace PathItem

def operation? (p : PathItem) : HttpMethod → Option Operation
  | .get => p.get
  | .put => p.put
  | .post => p.post
  | .delete => p.delete
  | .options => p.options
  | .head => p.head
  | .patch => p.patch

def bind (p : PathItem) (m : HttpMethod) (o : Operation) : PathItem :=
  match m with
  | .get => { p with get := some o }
  | .put => { p with put := some o }
  | .post => { p with post := some o }
  | .delete => { p with delete := some o }
  | .options => { p with options := some o }
  | .head => { p with head := some o }
  | .patch => { p with patch := some o }

def operations (p : PathItem) : List Operation := HttpMethod.all.filterMap p.operation?

theorem operation?_bind (p : PathItem) (m m' : HttpMethod) (o : Operation) :
    (p.bind m o).operation? m' = if m' = m then some o else p.operation? m' := by
  cases m <;> cases m' <;> rfl

end PathItem

/-! ### The interface as a whole -/

/-- Whom to ask. -/
structure Contact where
  name : Option String := none
  url : Option String := none
  email : Option String := none

/-- Under which terms the interface may be used. -/
structure License where
  name : String := ""
  url : Option String := none

/-- What describes the interface. -/
structure Info where
  description : Option String := none
  title : String := ""
  termsOfService : Option String := none
  contact : Option Contact := none
  license : Option License := none
  version : String := ""
  extensions : Table Json := []

/-- Documentation elsewhere. -/
structure ExternalDocs where
  description : Option String := none
  url : String := ""

/-- A tag of operations. -/
structure ApiTag where
  name : String
  description : Option String := none
  externalDocs : Option ExternalDocs := none

/-- A way of authorising a request. -/
structure SecurityScheme where
  type : String
  description : Option String := none
  name : Option String := none
  place : Option String := none
  flow : Option String := none
  authorizationUrl : Option String := none
  tokenUrl : Option String := none
  scopes : Table String := []
  extensions : Table Json := []

/-- The description of an interface. -/
structure Document where
  schemes : List String := []
  consumes : List String := []
  produces : List String := []
  info : Info := {}
  host : Option String := none
  basePath : Option String := none
  paths : Table PathItem := []
  definitions : Table Schema := []
  securityDefinitions : Table SecurityScheme := []
  tags : List ApiTag := []
  externalDocs : Option ExternalDocs := none
  extensions : Table Json := []

end GoApiDoc
