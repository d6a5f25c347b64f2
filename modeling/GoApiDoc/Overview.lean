/-
The overview: what the comments of the main file say about the interface as a whole.

* `Overview` — the document without its paths, and the collection format;
* `isOverview` — whether a comment is about the interface and not about an operation;
* `Overview.addDirective` — reading one annotation;
* `Overview.addLines` — reading a comment, which stops at the first error.
-/

import GoApiDoc.Assets
import GoApiDoc.Security
import GoApiDoc.Settings

set_option autoImplicit false

namespace GoApiDoc

def isRouteLine (line : String) : Bool :=
  let text := (Text.trimStartOf '/' (Text.trim line)).toList
  Text.hasPrefix "@router" (Text.asciiLower (String.ofList (Text.trimStart text)))

/-- The comment is about the interface as a whole: it has no route. -/
def isOverview (lines : List String) : Bool := !lines.any isRouteLine

/-- What is said about the interface as a whole. -/
structure Overview where
  document : Document := {}
  collectionFormat : Option String := none

namespace Overview

/-! ### Parts of the document -/

def change (v : Overview) (f : Document → Document) : Overview :=
  { v with document := f v.document }

def changeInfo (v : Overview) (f : Info → Info) : Overview :=
  v.change fun d => { d with info := f d.info }

def changeContact (v : Overview) (f : Contact → Contact) : Overview :=
  v.changeInfo fun i => { i with contact := some (f (i.contact.getD {})) }

def changeLicense (v : Overview) (f : License → License) : Overview :=
  v.changeInfo fun i => { i with license := some (f (i.license.getD {})) }

def changeDocs (v : Overview) (f : ExternalDocs → ExternalDocs) : Overview :=
  v.change fun d => { d with externalDocs := some (f (d.externalDocs.getD {})) }

/-- Changes the tag that was named last; there must be one for the annotation `word`. -/
def changeTag (v : Overview) (word : String) (f : ApiTag → Except DocError ApiTag) :
    Except DocError Overview :=
  match v.document.tags.getLast? with
  | none => .error (.malformed (.tagNameFirst word))
  | some tag =>
    match f tag with
    | .error e => .error e
    | .ok tag => .ok (v.change fun d => { d with tags := d.tags.dropLast ++ [tag] })

/-- The description with one more line, if the line before was one of it too, or else a new one. -/
def describe (continued : Bool) (text : String) (old : Option String) : String :=
  match old with
  | some old => if continued then old ++ "\n" ++ text else text
  | none => text

/-- Adds a further member; a logo is a member of the description of the interface. -/
def addExtension (v : Overview) (name : String) (value : Json) : Overview :=
  if Text.hasText "logo" name then
    v.changeInfo fun i => { i with extensions := i.extensions.insert name value }
  else v.change fun d => { d with extensions := d.extensions.insert name value }

/-! ### Annotations -/

/-- Reads an annotation of one line, where `previous` is the word of the line before, in small
letters.  Other words are left out. -/
def addDirective (assets : Assets) (previous word value : String) (v : Overview) :
    Except DocError Overview :=
  let lower := Text.asciiLower word
  match lower with
  | "@title" => .ok (v.changeInfo fun i => { i with title := value })
  | "@version" => .ok (v.changeInfo fun i => { i with version := value })
  | "@description" => .ok (v.changeInfo fun i =>
    { i with description := some (describe (previous == lower) value i.description) })
  | "@description.markdown" =>
    (assets.markdown "api").map fun text => v.changeInfo fun i => { i with description := some text }
  | "@termsofservice" =>
    .ok (v.changeInfo fun i => { i with termsOfService := Text.nonEmpty value })
  | "@contact.name" => .ok (v.changeContact fun c => { c with name := Text.nonEmpty value })
  | "@contact.url" => .ok (v.changeContact fun c => { c with url := Text.nonEmpty value })
  | "@contact.email" => .ok (v.changeContact fun c => { c with email := Text.nonEmpty value })
  | "@license.name" => .ok (v.changeLicense fun l => { l with name := value })
  | "@license.url" => .ok (v.changeLicense fun l => { l with url := Text.nonEmpty value })
  | "@host" => .ok (v.change fun d => { d with host := Text.nonEmpty value })
  | "@basepath" => .ok (v.change fun d => { d with basePath := Text.nonEmpty value })
  | "@schemes" => .ok (v.change fun d => { d with schemes := Text.words value })
  | "@accept" =>
    (mediaTypes value).map fun ts => v.change fun d => { d with consumes := d.consumes ++ ts }
  | "@produce" =>
    (mediaTypes value).map fun ts => v.change fun d => { d with produces := d.produces ++ ts }
  | "@tag.name" => .ok (v.change fun d => { d with tags := d.tags ++ [{ name := value }] })
  | "@tag.description" =>
    v.changeTag word fun t => .ok { t with description := Text.nonEmpty value }
  | "@tag.description.markdown" =>
    v.changeTag word fun t =>
      (assets.markdown t.name).map fun text => { t with description := some text }
  | "@tag.docs.url" =>
    v.changeTag word fun t => .ok { t with externalDocs := some { url := value } }
  | "@tag.docs.description" =>
    v.changeTag word fun t =>
      match t.externalDocs with
      | some docs =>
        .ok { t with externalDocs := some { docs with description := Text.nonEmpty value } }
      | none => .error (.malformed (.tagDocsFirst word))
  | "@externaldocs.description" =>
    .ok (v.changeDocs fun d => { d with description := Text.nonEmpty value })
  | "@externaldocs.url" => .ok (v.changeDocs fun d => { d with url := value })
  | "@query.collection.format" =>
    if collectionFormats.contains value then .ok { v with collectionFormat := some value }
    else .error (.malformed (.collectionFormat value))
  | _ =>
    if Text.hasPrefix "@x-" lower then
      if value.isEmpty then .error (.malformed (.missingValue word))
      else .ok (v.addExtension (Text.trimStartOf '@' word) (Json.ofText value))
    else .ok v

def securityWord : String := "@securitydefinitions."

/-- Reads a security scheme, where `kind` is what follows in the word and `block` are the lines of
the scheme. -/
def addScheme (kind name : String) (block : List String) (v : Overview) :
    Except DocError Overview :=
  match SecurityKind.ofName? kind with
  | none => .error (.malformed (.securityKind kind))
  | some k =>
    let word := securityWord ++ kind
    if name.isEmpty then .error (.malformed (.securityName word))
    else (k.scheme word name (SecurityBlock.ofLines block)).map fun s =>
      v.change fun d => { d with securityDefinitions := d.securityDefinitions.insert name s }

/-! ### Comments -/

/-- Reads a line that is not empty, where `lines` are those behind it. -/
def addLine (assets : Assets) (previous word value : String) (lines : List String) (v : Overview) :
    Except DocError Overview :=
  match Text.stripPrefix securityWord (Text.asciiLower word) with
  | some kind => addScheme kind value (lines.takeWhile SecurityBlock.holds) v
  | none => addDirective assets previous word value v

/-- Goes on with what a line gives; an error ends the reading, and what was read before it stays. -/
def andThen (v : Overview) (r : Except DocError Overview)
    (rest : Overview → Overview × Option DocError) : Overview × Option DocError :=
  match r with
  | .error e => (v, some e)
  | .ok v => rest v

/-- Reads the lines of a comment, where `previous` is the word of the last annotation; `inBlock`
says that lines of the security scheme it began are still to be passed over.  The result is what was
read up to the first error, and that error. -/
def addLinesFrom (assets : Assets) (previous : String) (inBlock : Bool) (v : Overview) :
    List String → Overview × Option DocError
  | [] => (v, none)
  | line :: lines =>
    if (Text.trim line).isEmpty || (inBlock && SecurityBlock.holds line) then
      addLinesFrom assets previous inBlock v lines
    else
      let words := Text.splitAttribute (Text.trim line)
      let lower := Text.asciiLower words.1
      andThen v (addLine assets previous words.1 words.2 lines v) fun v =>
        addLinesFrom assets lower (Text.hasPrefix securityWord lower) v lines

def addLines (assets : Assets) (v : Overview) (lines : List String) : Overview × Option DocError :=
  addLinesFrom assets "" false v lines

end Overview

end GoApiDoc
