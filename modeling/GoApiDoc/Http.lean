/-
Vocabulary of HTTP.

* `HttpMethod` — the methods that an operation can be bound to;
* `statusText` — the reason phrase of a status code;
* `mediaTypes` — a list of media types, some of them under short names.
-/

import GoApiDoc.Error
import GoApiDoc.Text.Split

set_option autoImplicit false

namespace GoApiDoc

/-! ### Methods -/

/-- A method that an operation can be bound to. -/
inductive HttpMethod where
  | get
  | put
  | post
  | delete
  | options
  | head
  | patch
deriving DecidableEq

namespace HttpMethod

def all : List HttpMethod := [get, put, post, delete, options, head, patch]

def name : HttpMethod → String
  | get => "GET"
  | put => "PUT"
  | post => "POST"
  | delete => "DELETE"
  | options => "OPTIONS"
  | head => "HEAD"
  | patch => "PATCH"

def ofText? (text : String) : Option HttpMethod :=
  all.find? fun m => m.name == Text.asciiUpper text

end HttpMethod

/-! ### Status codes -/

/-- The reason phrase of a status code, empty for the codes without one. -/
def statusText : Nat → String
  | 100 => "Continue"
  | 101 => "Switching Protocols"
  | 200 => "OK"
  | 201 => "Created"
  | 202 => "Accepted"
  | 203 => "Non-Authoritative Information"
  | 204 => "No Content"
  | 205 => "Reset Content"
  | 206 => "Partial Content"
  | 300 => "Multiple Choices"
  | 301 => "Moved Permanently"
  | 302 => "Found"
  | 303 => "See Other"
  | 304 => "Not Modified"
  | 307 => "Temporary Redirect"
  | 308 => "Permanent Redirect"
  | 400 => "Bad Request"
  | 401 => "Unauthorized"
  | 402 => "Payment Required"
  | 403 => "Forbidden"
  | 404 => "Not Found"
  | 405 => "Method Not Allowed"
  | 406 => "Not Acceptable"
  | 408 => "Request Timeout"
  | 409 => "Conflict"
  | 410 => "Gone"
  | 411 => "Length Required"
  | 412 => "Precondition Failed"
  | 413 => "Request Entity Too Large"
  | 415 => "Unsupported Media Type"
  | 422 => "Unprocessable Entity"
  | 429 => "Too Many Requests"
  | 500 => "Internal Server Error"
  | 501 => "Not Implemented"
  | 502 => "Bad Gateway"
  | 503 => "Service Unavailable"
  | 504 => "Gateway Timeout"
  | _ => ""

/-! ### Media types -/

def mediaTypeAlias? : String → Option String
  | "json" => some "application/json"
  | "xml" => some "text/xml"
  | "plain" => some "text/plain"
  | "html" => some "text/html"
  | "mpfd" => some "multipart/form-data"
  | "x-www-form-urlencoded" => some "application/x-www-form-urlencoded"
  | "json-api" => some "application/vnd.api+json"
  | "json-stream" => some "application/x-json-stream"
  | "octet-stream" => some "application/octet-stream"
  | "png" => some "image/png"
  | "jpeg" => some "image/jpeg"
  | "gif" => some "image/gif"
  | "event-stream" => some "text/event-stream"
  | _ => none

def isMediaType (entry : String) : Bool :=
  match Text.split '/' entry with
  | [type, subtype] => !type.isEmpty && !subtype.isEmpty
  | _ => false

/-- The media type of an entry: that of a short name, or the entry itself. -/
def mediaType (entry : String) : Except DocError String :=
  match mediaTypeAlias? entry with
  | some type => .ok type
  | none => if isMediaType entry then .ok entry else .error (.malformed (.mediaType entry))

def mediaTypes (list : String) : Except DocError (List String) :=
  (Text.commaList list).mapM mediaType

end GoApiDoc
