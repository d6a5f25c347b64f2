/-
Security schemes, as the comments of the main file describe them.

A scheme is a block of lines.  Its first line gives the kind and the name, and the block goes on as
long as lines belong to it.

* `SecurityKind` — the kinds, with what each of them requires;
* `SecurityBlock` — what the lines of a block say;
* `SecurityBlock.holds` — whether a line belongs to the block;
* `SecurityKind.scheme` — the scheme of a block.
-/

import GoApiDoc.Document.Basic
import GoApiDoc.Json.Reader

set_option autoImplicit false

namespace GoApiDoc

/-! ### Kinds -/

/-- A kind of security scheme. -/
inductive SecurityKind where
  | basic
  | apiKey
  | application
  | implicit
  | password
  | accessCode
deriving DecidableEq

namespace SecurityKind

def ofName? : String → Option SecurityKind
  | "basic" => some basic
  | "apikey" => some apiKey
  | "oauth2.application" => some application
  | "oauth2.implicit" => some implicit
  | "oauth2.password" => some password
  | "oauth2.accesscode" => some accessCode
  | _ => none

def type : SecurityKind → String
  | basic => "basic"
  | apiKey => "apiKey"
  | _ => "oauth2"

def flow : SecurityKind → Option String
  | basic => none
  | apiKey => none
  | application => some "application"
  | implicit => some "implicit"
  | password => some "password"
  | accessCode => some "accessCode"

def required : SecurityKind → List String
  | basic => []
  | apiKey => ["@in", "@name"]
  | application => ["@tokenurl"]
  | implicit => ["@authorizationurl"]
  | password => ["@tokenurl"]
  | accessCode => ["@tokenurl", "@authorizationurl"]

end SecurityKind

/-! ### Blocks -/

/-- What the lines of a block say. -/
structure SecurityBlock where
  details : Table String := []
  description : Option String := none
  scopes : Table String := []
  extensions : Table Json := []

namespace SecurityBlock

def detailWords : List String := ["@in", "@name", "@tokenurl", "@authorizationurl"]

/-- The line belongs to the block: it is empty, a detail, the description, a scope or a further
member. -/
def holds (line : String) : Bool :=
  let line := Text.trim line
  let lower := Text.asciiLower (Text.splitAttribute line).1
  line.isEmpty || detailWords.contains lower || lower == "@description" ||
    Text.hasPrefix "@scope." lower || Text.hasPrefix "@x-" lower

def add (b : SecurityBlock) (line : String) : SecurityBlock :=
  let (word, value) := Text.splitAttribute (Text.trim line)
  let lower := Text.asciiLower word
  if detailWords.contains lower then { b with details := b.details.insert lower value }
  else if lower == "@description" then { b with description := Text.nonEmpty value }
  else if Text.hasPrefix "@scope." lower then
    { b with scopes := b.scopes.insert (String.ofList (word.toList.drop 7)) value }
  else if Text.hasPrefix "@x-" lower then
    { b with
      extensions := b.extensions.insert (String.ofList (word.toList.drop 1)) (Json.ofText value) }
  else b

def ofLines (lines : List String) : SecurityBlock := lines.foldl add {}

end SecurityBlock

namespace SecurityKind

/-- A detail of the block, if schemes of this kind have it. -/
def detail? (k : SecurityKind) (b : SecurityBlock) (word : String) : Option String :=
  if k.required.contains word then b.details.get? word else none

/-- The scheme of a block that begins with `word` and the name of the scheme. -/
def scheme (k : SecurityKind) (word name : String) (b : SecurityBlock) :
    Except DocError SecurityScheme :=
  match k.required.find? fun r => !b.details.contains r with
  | some missing => .error (.malformed (.securityDetail word name missing))
  | none => .ok
    { type := k.type, flow := k.flow, description := b.description, scopes := b.scopes
      extensions := b.extensions, place := k.detail? b "@in", name := k.detail? b "@name"
      tokenUrl := k.detail? b "@tokenurl", authorizationUrl := k.detail? b "@authorizationurl" }

end SecurityKind

end GoApiDoc
