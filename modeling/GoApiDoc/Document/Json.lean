/-
The document as a JSON value.

Every object has its members in a fixed order, the further members last.

* `Operation.toJson`, `Document.toJson` — an operation and the whole document.
-/

import GoApiDoc.Document.Basic
import GoApiDoc.Schema.Json

set_option autoImplicit false

namespace GoApiDoc

/-! ### Operations -/

def Parameter.toJson (p : Parameter) : Json :=
  .obj (Json.optional "description" .str p.description ++
    [("name", .str p.name), ("in", .str p.place)] ++
    Json.whenTrue "required" p.required ++
    Json.optional "schema" Schema.toJson p.schema ++
    Json.optional "type" .str p.type ++
    Json.optional "format" .str p.format ++
    Json.optional "items" Schema.toJson p.items ++
    Json.optional "collectionFormat" .str p.collectionFormat ++
    Json.optional "default" id p.defaultValue ++
    Json.optional "example" id p.exampleValue ++
    Json.unlessEmpty "enum" .arr p.enumValues ++
    Json.optional "maximum" .double p.maximum ++
    Json.optional "minimum" .double p.minimum ++
    Json.optional "maxLength" .int p.maxLength ++
    Json.optional "minLength" .int p.minLength ++
    Json.optional "pattern" .str p.pattern ++
    p.extensions)

def Header.toJson (h : Header) : Json :=
  .obj (("type", .str h.type) :: Json.optional "description" .str h.description)

def Response.toJson (r : Response) : Json :=
  .obj (("description", .str r.description) ::
    Json.optional "schema" Schema.toJson r.schema ++
    Json.unlessEmpty "headers" (fun hs => .obj (Table.mapValues Header.toJson hs)) r.headers)

def SecurityRequirement.toJson (r : SecurityRequirement) : Json := .obj (r.mapValues Json.strs)

def Operation.toJson (o : Operation) : Json :=
  .obj (Json.optional "description" .str o.description ++
    Json.unlessEmpty "consumes" Json.strs o.consumes ++
    Json.unlessEmpty "produces" Json.strs o.produces ++
    Json.unlessEmpty "tags" Json.strs o.tags ++
    Json.optional "summary" .str o.summary ++
    Json.optional "operationId" .str o.operationId ++
    Json.whenTrue "deprecated" o.deprecated ++
    Json.unlessEmpty "security" (fun rs => .arr (rs.map SecurityRequirement.toJson)) o.security ++
    Json.unlessEmpty "parameters" (fun ps => .arr (ps.map Parameter.toJson)) o.parameters ++
    [("responses", .obj (o.responses.mapValues Response.toJson))] ++
    o.extensions)

def PathItem.toJson (p : PathItem) : Json :=
  .obj (Json.optional "get" Operation.toJson p.get ++
    Json.optional "put" Operation.toJson p.put ++
    Json.optional "post" Operation.toJson p.post ++
    Json.optional "delete" Operation.toJson p.delete ++
    Json.optional "options" Operation.toJson p.options ++
    Json.optional "head" Operation.toJson p.head ++
    Json.optional "patch" Operation.toJson p.patch)

/-! ### The interface as a whole -/

def Contact.toJson (c : Contact) : Json :=
  .obj (Json.optional "name" .str c.name ++
    Json.optional "url" .str c.url ++
    Json.optional "email" .str c.email)

def License.toJson (l : License) : Json :=
  .obj (("name", .str l.name) :: Json.optional "url" .str l.url)

def Info.toJson (i : Info) : Json :=
  .obj (Json.optional "description" .str i.description ++
    [("title", .str i.title)] ++
    Json.optional "termsOfService" .str i.termsOfService ++
    Json.optional "contact" Contact.toJson i.contact ++
    Json.optional "license" License.toJson i.license ++
    [("version", .str i.version)] ++
    i.extensions)

def ExternalDocs.toJson (d : ExternalDocs) : Json :=
  .obj (Json.optional "description" .str d.description ++ [("url", .str d.url)])

def ApiTag.toJson (t : ApiTag) : Json :=
  .obj (("name", .str t.name) ::
    Json.optional "description" .str t.description ++
    Json.optional "externalDocs" ExternalDocs.toJson t.externalDocs)

def SecurityScheme.toJson (s : SecurityScheme) : Json :=
  .obj (("type", .str s.type) ::
    Json.optional "description" .str s.description ++
    Json.optional "name" .str s.name ++
    Json.optional "in" .str s.place ++
    Json.optional "flow" .str s.flow ++
    Json.optional "authorizationUrl" .str s.authorizationUrl ++
    Json.optional "tokenUrl" .str s.tokenUrl ++
    Json.unlessEmpty "scopes" (fun ss => .obj (Table.mapValues .str ss)) s.scopes ++
    s.extensions)

def Document.toJson (d : Document) : Json :=
  .obj (Json.unlessEmpty "schemes" Json.strs d.schemes ++
    Json.unlessEmpty "consumes" Json.strs d.consumes ++
    Json.unlessEmpty "produces" Json.strs d.produces ++
    [("swagger", .str "2.0"), ("info", d.info.toJson)] ++
    Json.optional "host" .str d.host ++
    Json.optional "basePath" .str d.basePath ++
    [("paths", .obj (d.paths.mapValues PathItem.toJson))] ++
    Json.unlessEmpty "definitions" (fun ds => .obj (Table.mapValues Schema.toJson ds))
      d.definitions ++
    Json.unlessEmpty "securityDefinitions"
      (fun ss => .obj (Table.mapValues SecurityScheme.toJson ss)) d.securityDefinitions ++
    Json.unlessEmpty "tags" (fun ts => .arr (ts.map ApiTag.toJson)) d.tags ++
    Json.optional "externalDocs" ExternalDocs.toJson d.externalDocs ++
    d.extensions)

end GoApiDoc
