/-
Output types: the formats a document can be written in.

* `OutputType.parseList` — a comma separated list of formats;
* `OutputType.fileName` — the file a format is written to;
* `OutputType.render` — a document in a format.
-/

import GoApiDoc.Document.Json
import GoApiDoc.Yaml.Writer

set_option autoImplicit false

namespace GoApiDoc

/-- A format. -/
inductive OutputType where
  | json
  | yaml
deriving DecidableEq

namespace OutputType

/-- What can be wrong with a list of formats. -/
inductive ListError where
  | unsupported (name : String)
  | empty
deriving DecidableEq

def ListError.message : ListError → String
  | unsupported name => "unsupported output type: " ++ name
  | empty => "no output type given"

def ofName? : String → Option OutputType
  | "json" => some json
  | "yaml" => some yaml
  | "yml" => some yaml
  | _ => none

/-- Adds the formats with the given names that are not in the list yet. -/
def addNames (types : List OutputType) : List String → Except ListError (List OutputType)
  | [] => .ok types
  | name :: names =>
    let lower := Text.asciiLower name
    match ofName? lower with
    | some t => addNames (if types.contains t then types else types ++ [t]) names
    | none => .error (.unsupported lower)

def parseList (list : String) : Except ListError (List OutputType) :=
  match addNames [] (Text.commaList list) with
  | .ok [] => .error .empty
  | result => result

def fileName : OutputType → String
  | json => "swagger.json"
  | yaml => "swagger.yaml"

def render : OutputType → Document → String
  | json, d => d.toJson.pretty
  | yaml, d => Yaml.render d.toJson

end OutputType

end GoApiDoc
